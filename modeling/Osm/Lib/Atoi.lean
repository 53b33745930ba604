import Osm.Lib.FormatRoom

/-!
# Printed integers read back

A model of `atoi` of `lib/libc.c`. It has no result when a value leaves the range of `int`. For
the output of `snprintf` with `%d` it returns the number that was printed.
-/

namespace Osm.Lib

open Osm.Core

/-- A value that has to be in the range of `int`. -/
def checkInt (x : ℤ) : Option ℤ := if -2 ^ 31 ≤ x ∧ x < 2 ^ 31 then some x else none

/-- The characters that `atoi` skips. -/
def IsBlank (c : UInt8) : Prop := c ∈ [' ', '\t', '\r', '\n'].map Char.toUInt8

instance : DecidablePred IsBlank := fun _ => inferInstanceAs (Decidable (_ ∈ _))

def IsDigit (c : UInt8) : Prop := '0'.toUInt8 ≤ c ∧ c ≤ '9'.toUInt8

instance : DecidablePred IsDigit := fun _ => inferInstanceAs (Decidable (_ ∧ _))

/-- The last loop of `atoi`. -/
def atoiDigits (sign value : ℤ) : List UInt8 → Option ℤ
  | []     => some value
  | c :: s =>
    if IsDigit c then do
      let tens ← checkInt (10 * value)
      let digit ← checkInt (sign * (c.toNat - '0'.toUInt8.toNat))
      let value ← checkInt (tens + digit)
      atoiDigits sign value s
    else some value

/-- `atoi`, for a string that is given by its characters. -/
def atoi (s : List UInt8) : Option ℤ :=
  match s.dropWhile (IsBlank ·) with
  | []     => some 0
  | c :: s =>
    if c = 0 then some 0
    else if c = '-'.toUInt8 then atoiDigits (-1) 0 s
    else if c = '+'.toUInt8 then atoiDigits 1 0 s
    else atoiDigits 1 0 (c :: s)

variable {n room : ℕ} {sign : ℤ} {s t blanks : List UInt8} {c : UInt8}

lemma checkInt_of_range {x : ℤ} (h : -2 ^ 31 ≤ x ∧ x < 2 ^ 31) : checkInt x = some x := if_pos h

/-! ### Decimal digits -/

/-- The decimal digits are the first ones in the table. -/
lemma digits_toNat :
    ∀ d < 10, (digits.getD (0 + d) 0).toNat = '0'.toUInt8.toNat + d := by decide

lemma isDigit_digits : ∀ d < 10, IsDigit (digits.getD (0 + d) 0) := by decide

lemma isDigit_of_mem (h : c ∈ revDigits false 10 room n) : IsDigit c := by
  induction room generalizing n with
  | zero => cases h
  | succ room ih =>
    rw [revDigits] at h
    rcases List.mem_cons.mp h with rfl | h
    · exact isDigit_digits _ (Nat.mod_lt _ (by decide))
    · split_ifs at h with hn
      · exact ih h
      · cases h

lemma length_revDigits_le {k : ℕ} (hpos : 1 ≤ k) (hn : n < 10 ^ k) :
    (revDigits false 10 room n).length ≤ k := by
  induction room generalizing n k with
  | zero => exact Nat.zero_le k
  | succ room ih =>
    obtain ⟨k, rfl⟩ := Nat.exists_eq_add_of_le' hpos
    rw [revDigits, List.length_cons]
    apply Nat.succ_le_succ
    split_ifs with hdiv
    · have hlt : n / 10 < 10 ^ k := Nat.div_lt_of_lt_mul (by rwa [← Nat.pow_succ'])
      refine ih (Nat.one_le_iff_ne_zero.mpr ?_) hlt
      rintro rfl
      omega
    · exact Nat.zero_le k

/-- The digits of a number are read with its sign. -/
lemma atoiDigits_revDigits (hn : n < 10 ^ room) (hsign : sign = 1 ∨ sign = -1)
    (hrange : -2 ^ 31 ≤ sign * n ∧ sign * n < 2 ^ 31) :
    atoiDigits sign 0 ((revDigits false 10 room n).reverse ++ t) = atoiDigits sign (sign * n) t := by
  induction room generalizing n t with
  | zero =>
    obtain rfl : n = 0 := by omega
    rw [revDigits, Nat.cast_zero, mul_zero]
    rfl
  | succ room ih =>
    have hmod : n % 10 < 10 := Nat.mod_lt _ (by decide)
    have hlast : ∀ t, atoiDigits sign (sign * (n / 10 : ℕ))
        (digits.getD (0 + n % 10) 0 :: t) = atoiDigits sign (sign * n) t := by
      intro t
      have htens : checkInt (10 * (sign * (n / 10 : ℕ))) = some (10 * (sign * (n / 10 : ℕ))) :=
        checkInt_of_range (by rcases hsign with rfl | rfl <;> omega)
      have hdigit : checkInt (sign * (n % 10 : ℕ)) = some (sign * (n % 10 : ℕ)) :=
        checkInt_of_range (by rcases hsign with rfl | rfl <;> omega)
      have hsum : 10 * (sign * (n / 10 : ℕ)) + sign * (n % 10 : ℕ) = sign * n := by
        rcases hsign with rfl | rfl <;> omega
      rw [atoiDigits, if_pos (isDigit_digits _ hmod), digits_toNat _ hmod, Nat.cast_add,
        add_sub_cancel_left, htens, hdigit]
      simp only [Option.bind_eq_bind, Option.bind_some, hsum, checkInt_of_range hrange]
    rw [revDigits, if_neg Bool.false_ne_true, List.reverse_cons, List.append_assoc]
    split_ifs with hdiv
    · have hlt : n / 10 < 10 ^ room := Nat.div_lt_of_lt_mul (by rwa [← Nat.pow_succ'])
      rw [ih hlt (by rcases hsign with rfl | rfl <;> omega)]
      exact hlast t
    · have hzero := hlast t
      rw [not_not.mp hdiv, Nat.cast_zero, mul_zero] at hzero
      exact hzero

/-- Without a width or a precision there are only the digits of the number. -/
lemma uintText_decimal (n : UInt32) :
    uintText false n 10 0 0 = (revDigits false 10 11 n.toNat).reverse := by
  have hpad : ∀ c rev, pad c (min 0 11) rev = rev := by
    intro c rev
    rw [pad, Int.toNat_of_nonpos (by omega), List.replicate_zero, List.append_nil]
  rw [uintText, hpad, hpad]

/-! ### The round trip -/

/-- The format `%d`. -/
def decimalFormat : List UInt8 := ['%', 'd'].map Char.toUInt8

/-- The magnitude of the least number wraps when the number is negated, and is right again in the
unsigned type. -/
lemma magnitude_toNat {value : ℤ} (hrange : -2 ^ 31 ≤ value ∧ value < 2 ^ 31) :
    (UInt32.ofNat ((if value < 0 then toInt (-value) else value) % 2 ^ 32).toNat).toNat =
      value.natAbs := by
  rw [UInt32.toNat_ofNat', Nat.mod_eq_of_lt (by omega)]
  split_ifs with hneg
  · have hmod : toInt (-value) % 2 ^ 32 = -value % 2 ^ 32 := Int.bmod_emod
    omega
  · omega

/-- The sign and the magnitude of a number. -/
lemma fullOutput_decimal {args : ℕ → VaArg} {value : ℤ}
    (hvalue : toInt (args 0).word.toNat = value) :
    fullOutput decimalFormat args = (if value < 0 then ['-'.toUInt8] else []) ++
      (revDigits false 10 11 value.natAbs).reverse := by
  have hpieces : pieces decimalFormat args = [signedPiece 0 {} (toInt (args 0).word.toNat)] := rfl
  have hrange : -2 ^ 31 ≤ value ∧ value < 2 ^ 31 := hvalue ▸ toInt_range _
  rw [fullOutput, hpieces, List.flatMap_singleton, hvalue, ← magnitude_toNat hrange,
    ← uintText_decimal, Piece.text, signedPiece, signChars]
  exact congrArg (· ++ _) ((List.append_nil _).trans (List.append_nil _))

lemma dropWhile_blanks (hblanks : ∀ c ∈ blanks, IsBlank c) (hc : ¬ IsBlank c) :
    (blanks ++ c :: s).dropWhile (IsBlank ·) = c :: s := by
  rw [List.dropWhile_append_of_pos (by simpa using hblanks),
    List.dropWhile_cons_of_neg (by simpa using hc)]

lemma atoiDigits_of_head (ht : ∀ c, t.head? = some c → ¬ IsDigit c) (value : ℤ) :
    atoiDigits sign value t = some value := by
  cases t with
  | nil => rfl
  | cons c t => exact if_neg (ht c rfl)

lemma IsDigit.not_blank (h : IsDigit c) : ¬ IsBlank c := by
  intro hblank
  simp only [IsBlank, List.map_cons, List.map_nil, List.mem_cons, List.not_mem_nil, or_false]
    at hblank
  rcases hblank with rfl | rfl | rfl | rfl <;> revert h <;> decide

/-- Reading a sign and digits. -/
lemma atoi_decimal {value : ℤ} (hrange : -2 ^ 31 ≤ value ∧ value < 2 ^ 31)
    (hblanks : ∀ c ∈ blanks, IsBlank c) (ht : ∀ c, t.head? = some c → ¬ IsDigit c) :
    atoi (blanks ++ ((if value < 0 then ['-'.toUInt8] else []) ++
      (revDigits false 10 11 value.natAbs).reverse) ++ t) = some value := by
  rw [List.append_assoc]
  split_ifs with hneg
  · rw [List.singleton_append, List.cons_append, atoi, dropWhile_blanks hblanks (by decide)]
    change atoiDigits (-1) 0 _ = _
    rw [atoiDigits_revDigits (by omega) (.inr rfl) (by omega), atoiDigits_of_head ht]
    congr 1
    omega
  · obtain ⟨c, digits, hdigits⟩ : ∃ c digits,
        (revDigits false 10 11 value.natAbs).reverse = c :: digits := by
      apply List.exists_cons_of_ne_nil
      rw [Ne, List.reverse_eq_nil_iff]
      exact List.cons_ne_nil _ _
    have hc : IsDigit c := by
      apply isDigit_of_mem
      rw [← List.mem_reverse, hdigits]
      exact List.mem_cons_self
    have hread := @atoiDigits_revDigits value.natAbs 11 1 t (by omega) (.inl rfl) (by omega)
    rw [hdigits, atoiDigits_of_head ht] at hread
    have hzero : c ≠ 0 := by
      rintro rfl
      exact absurd hc (by decide)
    have hminus : c ≠ '-'.toUInt8 := by
      rintro rfl
      exact absurd hc (by decide)
    have hplus : c ≠ '+'.toUInt8 := by
      rintro rfl
      exact absurd hc (by decide)
    rw [List.nil_append, hdigits, List.cons_append, atoi,
      dropWhile_blanks hblanks hc.not_blank]
    simp only [hzero, hminus, hplus, if_false]
    refine hread.trans ?_
    congr 1
    omega

/-- A printed number is a string of at most 11 characters. -/
lemma decimal_string {value : ℤ} (hrange : -2 ^ 31 ≤ value ∧ value < 2 ^ 31) :
    ((if value < 0 then ['-'.toUInt8] else []) ++
        (revDigits false 10 11 value.natAbs).reverse).length ≤ 11 ∧
      0 ∉ (if value < 0 then ['-'.toUInt8] else []) ++
        (revDigits false 10 11 value.natAbs).reverse := by
  have hlength := @length_revDigits_le value.natAbs 11 10 (by decide) (by omega)
  have hdigits : 0 ∉ (revDigits false 10 11 value.natAbs).reverse := by
    rw [List.mem_reverse]
    exact fun h => absurd (isDigit_of_mem h) (by decide)
  rw [List.length_append, List.length_reverse]
  split_ifs with hneg
  · refine ⟨by rw [List.length_singleton]; omega, ?_⟩
    rw [List.mem_append]
    rintro (h | h)
    · exact absurd h (by decide)
    · exact hdigits h
  · exact ⟨by rw [List.length_nil]; omega, hdigits⟩

/-- After blanks and before a text that does not begin with a digit, `atoi` reads the number that
`snprintf` printed, and no value on the way leaves the range of `int`. The size is an `int`. -/
theorem atoi_snprintf (m : Memory) (a : ℕ) {size : ℕ} (hsize : 12 ≤ size) (hint : size < 2 ^ 31)
    (args : ℕ → VaArg) (hblanks : ∀ c ∈ blanks, IsBlank c)
    (ht : ∀ c, t.head? = some c → ¬ IsDigit c) :
    (∃ fuel r, snprintf fuel m a size decimalFormat args = some r) ∧
    ∀ fuel ret out, snprintf fuel m a size decimalFormat args = some (ret, out) →
      atoi (blanks ++ stringAt out.mem a size ++ t) = some (toInt (args 0).word.toNat) := by
  have hrange := toInt_range (args 0).word.toNat
  have houtput := @fullOutput_decimal args _ rfl
  have hpieces : pieces decimalFormat args = [signedPiece 0 {} (toInt (args 0).word.toNat)] := rfl
  constructor
  · have hnext : nextPiece args 0 0 decimalFormat =
        some (signedPiece 0 {} (toInt (args 0).word.toNat), []) := rfl
    apply vxnprintf_of_pieces (by omega) (by omega)
    change ∀ p ∈ roomFrom size args (1 + 1) decimalFormat 0 0, p.endless = false
    rw [roomFrom_some (by omega) hnext, roomFrom_none rfl, ite_self, List.forall_mem_singleton]
    rfl
  · intro fuel ret out h
    have hfit : SignsFit size (pieces decimalFormat args) := by
      rw [hpieces]
      intro p hp _
      rw [List.mem_singleton.mp hp]
      change (0 : ℤ) + (signChars {} (toInt (args 0).word.toNat)).length ≤ size
      rcases signChars_length {} (toInt (args 0).word.toNat) with hsigns | ⟨c, -, hsigns⟩
      · omega
      · rw [hsigns, List.length_cons, List.length_singleton]
        omega
    obtain ⟨hlength, hzero⟩ := decimal_string hrange
    rw [← houtput] at hlength hzero
    have hstring : stringAt out.mem a size = fullOutput decimalFormat args := by
      rw [(snprintf_of_fits (by omega) hint hfit h).1, List.take_of_length_le (by omega),
        stringAt_writeBytes (by omega), takeWhile_ne_zero_iff]
      exact hzero
    rw [hstring, houtput]
    exact atoi_decimal hrange hblanks ht

/-- The least number, between a blank and another one. -/
theorem atoi_snprintf_least :
    (∃ fuel r, snprintf fuel (fun _ => 0) 16 12 decimalFormat (fun _ => { word := 0x80000000 }) =
      some r) ∧
    ∀ fuel ret out,
      snprintf fuel (fun _ => 0) 16 12 decimalFormat (fun _ => { word := 0x80000000 }) =
        some (ret, out) →
      atoi ([' '.toUInt8] ++ stringAt out.mem 16 12 ++ [' '.toUInt8]) = some (-2147483648) := by
  have hvalue : toInt (0x80000000 : UInt32).toNat = -2147483648 := by decide
  rw [← hvalue]
  refine atoi_snprintf _ 16 (by decide) (by decide) _ ?_ ?_
  · rw [List.forall_mem_singleton]
    decide
  · rintro _ ⟨⟩
    decide

end Osm.Lib
