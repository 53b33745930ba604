import Osm.Lib.Xprintf
import Mathlib.Data.Nat.Digits.Defs

/-!
# Printed numbers

`print_uint` of `lib/xprintf.c` with its array `rev` of 11 characters, and the number that it
prints. There is no result when a character would be stored outside of the array.
-/

namespace Osm.Lib

open Osm.Core

/-- The array `rev` with the index `i`. -/
structure Rev where
  rev : Vector UInt8 11
  i   : ℕ

/-- `rev[i] = c` and `i++`. -/
def Rev.push (r : Rev) (c : UInt8) : Option Rev :=
  if h : r.i < 11 then some ⟨r.rev.set r.i c h, r.i + 1⟩ else none

/-- A round of the loop that produces the digits. -/
def digitRound (smalls : Bool) (base : ℕ) : Rev × ℕ → (Rev × ℕ) ⊕ Option Rev
  | (r, n) =>
    match r.push (digits.getD ((if smalls then 16 else 0) + n % base) 0) with
    | none   => .inr none
    | some r => if n / base ≠ 0 then .inl (r, n / base) else .inr (some r)

/-- A round of the two loops that pad the number. -/
def padRound (c : UInt8) (length : ℤ) (r : Rev) : Rev ⊕ Option Rev :=
  if r.i < length then
    match r.push c with
    | none   => .inr none
    | some r => .inl r
  else .inr (some r)

/-- A round of the loop that outputs the array, with the values of `i` and `written`. -/
def outputRound (size : ℤ) (tty : Bool) (rev : Vector UInt8 11) :
    Out × ℤ × ℤ → (Out × ℤ × ℤ) ⊕ Option (Out × ℤ)
  | (o, i, written) =>
    if 0 ≤ i ∧ written < size then
      match rev[i.toNat]? with
      | none   => .inr none
      | some c => .inl (o.put tty c, i - 1, written + 1)
    else .inr (some (o, written))

/-- `print_uint`, for the contents of the array before the call. Each loop may go as many rounds
as there is fuel. -/
def printUintArray (fuel : ℕ) (rev : Vector UInt8 11) (o : Out) (size : ℤ) (n : UInt32) (base : ℕ)
    (flags : Flags) (tty : Bool) (prec width : ℤ) : Option (Out × ℤ) :=
  if size ≤ 0 then some (o, 0)
  else do
    let r ← (loop (digitRound flags.smalls base) fuel (⟨rev, 0⟩, n.toNat)).join
    let r ← (loop (padRound '0'.toUInt8 (min prec 11)) fuel r).join
    let r ← (loop (padRound ' '.toUInt8 (min width 11)) fuel r).join
    (loop (outputRound size tty r.rev) fuel (o, r.i - 1, 0)).join

/-! ### The number in a base -/

def digitChar (smalls : Bool) (d : ℕ) : UInt8 :=
  if d < 10 then '0'.toUInt8 + UInt8.ofNat d
  else (if smalls then 'a'.toUInt8 else 'A'.toUInt8) + UInt8.ofNat (d - 10)

/-- The representation of a number in a base. -/
def numeral (smalls : Bool) (base n : ℕ) : List UInt8 :=
  if n = 0 then ['0'.toUInt8] else (Nat.digits base n).reverse.map (digitChar smalls)

/-- The number of characters of a number that is padded with zeros up to a precision. -/
def numberLength (smalls : Bool) (base n : ℕ) (prec : ℤ) : ℕ :=
  max (numeral smalls base n).length (min prec 11).toNat

/-- The number with its zeros and spaces. -/
def fieldText (smalls : Bool) (base n : ℕ) (prec width : ℤ) : List UInt8 :=
  let d := numberLength smalls base n prec
  List.replicate (min (max width 0) 11 - d).toNat ' '.toUInt8 ++
    (List.replicate (d - (numeral smalls base n).length) '0'.toUInt8 ++ numeral smalls base n)

variable {r : Rev} {rev : List UInt8} {c : UInt8} {smalls tty : Bool} {base n fuel room : ℕ}
  {o : Out} {size prec width length : ℤ}

/-! ### The array -/

/-- The characters up to the index. -/
structure Rev.Holds (r : Rev) (rev : List UInt8) : Prop where
  index      : r.i = rev.length
  characters : ∀ j (h : j < rev.length), r.rev[j]? = some rev[j]

lemma Rev.Holds.length_le (h : r.Holds rev) : rev.length ≤ 11 := by
  by_contra hlt
  have hchar := h.characters 11 (by omega)
  rw [Vector.getElem?_eq_none le_rfl] at hchar
  cases hchar

lemma Rev.Holds.push (h : r.Holds rev) (hroom : rev.length < 11) :
    ∃ r', r.push c = some r' ∧ r'.Holds (rev ++ [c]) := by
  have hi : r.i < 11 := h.index ▸ hroom
  refine ⟨_, dif_pos hi, by simp [h.index], fun j hj => ?_⟩
  rw [List.length_append, List.length_singleton] at hj
  rcases Nat.lt_succ_iff_lt_or_eq.mp hj with hlt | rfl
  · have hne : r.i ≠ j := by
      rw [h.index]
      omega
    rw [Vector.getElem?_set_ne _ hne, h.characters j hlt, List.getElem_append_left hlt]
  · simp [h.index, hroom]

/-- The digits are stored in the array. -/
lemma loop_digitRound (h : r.Holds rev) (hroom : rev.length + room < 11)
    (hn : n < base ^ (room + 1)) (hfuel : room < fuel) :
    ∃ r', loop (digitRound smalls base) fuel (r, n) = some (some r') ∧
      r'.Holds (rev ++ revDigits smalls base (room + 1) n) := by
  induction room generalizing r rev n fuel with
  | zero =>
    obtain ⟨fuel, rfl⟩ := Nat.exists_eq_add_one_of_ne_zero (Nat.ne_zero_of_lt hfuel)
    obtain ⟨r', hpush, hr'⟩ := h.push (c := digits.getD ((if smalls then 16 else 0) + n % base) 0)
      hroom
    have hdiv : n / base = 0 := Nat.div_eq_of_lt (by simpa using hn)
    refine ⟨r', loop_inr ?_ fuel, ?_⟩
    · simp only [digitRound, hpush, hdiv, ne_eq, not_true_eq_false, if_false]
    · rwa [revDigits, if_neg (not_not.mpr hdiv)]
  | succ room ih =>
    obtain ⟨fuel, rfl⟩ := Nat.exists_eq_add_one_of_ne_zero (Nat.ne_zero_of_lt hfuel)
    obtain ⟨r', hpush, hr'⟩ := h.push (c := digits.getD ((if smalls then 16 else 0) + n % base) 0)
      (by omega)
    rw [revDigits]
    by_cases hdiv : n / base = 0
    · refine ⟨r', loop_inr ?_ fuel, ?_⟩
      · simp only [digitRound, hpush, hdiv, ne_eq, not_true_eq_false, if_false]
      · rwa [if_neg (not_not.mpr hdiv)]
    · have hround : digitRound smalls base (r, n) = .inl (r', n / base) := by
        simp only [digitRound, hpush, hdiv, ne_eq, not_false_eq_true, if_true]
      have hlt : n / base < base ^ (room + 1) :=
        Nat.div_lt_of_lt_mul (by rwa [← Nat.pow_succ'])
      obtain ⟨r'', hloop, hr''⟩ := ih hr' (by simp; omega) hlt (Nat.lt_of_succ_lt_succ hfuel)
      refine ⟨r'', by rw [loop_inl hround, hloop], ?_⟩
      rw [if_pos hdiv]
      simpa using hr''

/-- A number is padded in the array. -/
lemma loop_padRound (h : r.Holds rev) (hlength : length ≤ 11)
    (hfuel : (length - rev.length).toNat < fuel) :
    ∃ r', loop (padRound c length) fuel r = some (some r') ∧ r'.Holds (pad c length rev) := by
  rw [pad]
  generalize hk : (length - rev.length).toNat = k at hfuel ⊢
  induction k generalizing r rev fuel with
  | zero =>
    obtain ⟨fuel, rfl⟩ := Nat.exists_eq_add_one_of_ne_zero (Nat.ne_zero_of_lt hfuel)
    have hround : padRound c length r = .inr (some r) := by
      rw [padRound, if_neg (by rw [h.index]; omega)]
    exact ⟨r, loop_inr hround fuel, by simpa using h⟩
  | succ k ih =>
    obtain ⟨fuel, rfl⟩ := Nat.exists_eq_add_one_of_ne_zero (Nat.ne_zero_of_lt hfuel)
    obtain ⟨r', hpush, hr'⟩ := h.push (c := c) (by omega)
    have hround : padRound c length r = .inl r' := by
      rw [padRound, if_pos (by rw [h.index]; omega), hpush]
    obtain ⟨r'', hloop, hr''⟩ := ih hr' (by simp; omega) (Nat.lt_of_succ_lt_succ hfuel)
    refine ⟨r'', by rw [loop_inl hround, hloop], ?_⟩
    simpa [List.replicate_succ] using hr''

/-- The array is output from its end, as far as there is room. -/
lemma loop_outputRound (h : r.Holds rev) {k : ℕ} (hk : k ≤ rev.length) (hfuel : k < fuel)
    {written : ℤ} :
    loop (outputRound size tty r.rev) fuel (o, (k : ℤ) - 1, written) =
      some (some (((rev.take k).reverse.take (size - written).toNat).foldl (Out.put tty) o,
        written + ((rev.take k).reverse.take (size - written).toNat).length)) := by
  induction k generalizing o fuel written with
  | zero =>
    obtain ⟨fuel, rfl⟩ := Nat.exists_eq_add_one_of_ne_zero (Nat.ne_zero_of_lt hfuel)
    refine loop_inr ?_ fuel
    simp [outputRound]
  | succ k ih =>
    obtain ⟨fuel, rfl⟩ := Nat.exists_eq_add_one_of_ne_zero (Nat.ne_zero_of_lt hfuel)
    have htake : (rev.take (k + 1)).reverse = rev[k] :: (rev.take k).reverse := by
      rw [List.take_succ_eq_append_getElem hk, List.reverse_append]
      rfl
    rw [htake]
    by_cases hsize : written < size
    · have hround : outputRound size tty r.rev (o, ((k + 1 : ℕ) : ℤ) - 1, written) =
          .inl (o.put tty rev[k], (k : ℤ) - 1, written + 1) := by
        simp [outputRound, hsize, h.characters k hk]
      have hsucc : (size - written).toNat = (size - (written + 1)).toNat + 1 := by omega
      rw [loop_inl hround, ih (Nat.le_of_succ_le hk) (Nat.lt_of_succ_lt_succ hfuel), hsucc,
        List.take_succ_cons, List.foldl_cons, List.length_cons]
      simp [add_assoc, add_comm]
    · have hround : outputRound size tty r.rev (o, ((k + 1 : ℕ) : ℤ) - 1, written) =
          .inr (some (o, written)) := by
        simp [outputRound, hsize]
      rw [loop_inr hround, Int.toNat_of_nonpos (by omega)]
      simp

/-- The digits fit, also those in octal. -/
lemma lt_pow_eleven (hbase : 8 ≤ base) (n : UInt32) : n.toNat < base ^ (10 + 1) :=
  calc n.toNat < 2 ^ 32 := n.toNat_lt
    _ ≤ 8 ^ 11 := by decide
    _ ≤ base ^ 11 := Nat.pow_le_pow_left hbase 11

/-- The loops over the array print what was collected there. -/
lemma printUintArray_eq_printUint (array : Vector UInt8 11) {n : UInt32} {flags : Flags}
    (hbase : 8 ≤ base) (hfuel : 12 ≤ fuel) :
    printUintArray fuel array o size n base flags tty prec width =
      some (printUint o size n base flags tty prec width) := by
  rw [printUintArray, printUint]
  split_ifs with hsize
  · rfl
  obtain ⟨r₁, h₁, hr₁⟩ := @loop_digitRound ⟨array, 0⟩ [] flags.smalls base n.toNat fuel 10
    ⟨rfl, fun j hj => (Nat.not_lt_zero j hj).elim⟩ (by decide) (lt_pow_eleven hbase n) (by omega)
  rw [List.nil_append] at hr₁
  obtain ⟨r₂, h₂, hr₂⟩ : ∃ r', loop (padRound '0'.toUInt8 (min prec 11)) fuel r₁ =
      some (some r') ∧ r'.Holds _ := loop_padRound hr₁ (by omega) (by omega)
  obtain ⟨r₃, h₃, hr₃⟩ : ∃ r', loop (padRound ' '.toUInt8 (min width 11)) fuel r₂ =
      some (some r') ∧ r'.Holds _ := loop_padRound hr₂ (by omega) (by omega)
  have hlen := hr₃.length_le
  have hout := @loop_outputRound r₃ _ tty fuel o size hr₃ _ le_rfl (by omega) 0
  rw [List.take_length, ← hr₃.index, sub_zero, zero_add] at hout
  simp only [h₁, h₂, h₃, hout, Option.join_some, Option.bind_eq_bind, Option.bind_some]
  rfl

/-! ### The printed text -/

lemma digits_getD : ∀ smalls, ∀ d < 16,
    digits.getD ((if smalls then 16 else 0) + d) 0 = digitChar smalls d := by decide

lemma numeral_zero : numeral smalls base 0 = ['0'.toUInt8] := if_pos rfl

lemma reverse_numeral (hn : n ≠ 0) :
    (numeral smalls base n).reverse = (Nat.digits base n).map (digitChar smalls) := by
  rw [numeral, if_neg hn, List.map_reverse, List.reverse_reverse]

/-- The digits in the reverse order are those of the representation. -/
lemma revDigits_eq (hbase : 2 ≤ base) (hbase' : base ≤ 16) (hn : n < base ^ (room + 1)) :
    revDigits smalls base (room + 1) n = (numeral smalls base n).reverse := by
  induction room generalizing n with
  | zero =>
    have hlt : n < base := by simpa using hn
    have hdiv : n / base = 0 := Nat.div_eq_of_lt hlt
    rw [revDigits, digits_getD smalls _ ((Nat.mod_lt n (by omega)).trans_le hbase'),
      if_neg (not_not.mpr hdiv), Nat.mod_eq_of_lt hlt]
    by_cases hzero : n = 0
    · rw [hzero, numeral_zero]
      rfl
    · rw [reverse_numeral hzero, Nat.digits_of_lt base n hzero hlt, List.map_singleton]
  | succ room ih =>
    rw [revDigits, digits_getD smalls _ ((Nat.mod_lt n (by omega)).trans_le hbase')]
    by_cases hzero : n = 0
    · rw [hzero, numeral_zero, Nat.zero_mod, Nat.zero_div, if_neg (not_not.mpr rfl)]
      rfl
    · rw [reverse_numeral hzero, Nat.digits_def' hbase (Nat.pos_of_ne_zero hzero), List.map_cons]
      congr 1
      by_cases hdiv : n / base = 0
      · rw [if_neg (not_not.mpr hdiv), hdiv, Nat.digits_zero, List.map_nil]
      · rw [if_pos hdiv, ih (Nat.div_lt_of_lt_mul (by rwa [← Nat.pow_succ'])), reverse_numeral hdiv]

/-- The characters that are collected are those of the field. -/
lemma uintText_eq {n : UInt32} (hbase : 8 ≤ base) (hbase' : base ≤ 16) :
    uintText smalls n base prec width = fieldText smalls base n.toNat prec width := by
  have hn : n.toNat < base ^ (10 + 1) := lt_pow_eleven hbase n
  rw [uintText, revDigits_eq (by omega) hbase' hn, fieldText, numberLength]
  simp only [pad, List.reverse_append, List.reverse_reverse, List.reverse_replicate,
    List.length_append, List.length_reverse, List.length_replicate]
  congr 2
  · omega
  · congr 1
    omega

/-- `print_uint` prints the number in its base, with zeros up to the precision and spaces up to
the width, as far as there is room; it stays inside of its array. -/
theorem printUintArray_fieldText (fuel : ℕ) (hfuel : 12 ≤ fuel) (array : Vector UInt8 11) (o : Out)
    (size : ℤ) (n : UInt32) (base : ℕ) (hbase : base = 8 ∨ base = 10 ∨ base = 16) (flags : Flags)
    (tty : Bool) (prec width : ℤ) :
    printUintArray fuel array o size n base flags tty prec width =
      some
        (((fieldText flags.smalls base n.toNat prec width).take size.toNat).foldl (Out.put tty) o,
        (((fieldText flags.smalls base n.toNat prec width).take size.toNat).length : ℤ)) := by
  rw [printUintArray_eq_printUint array (by omega) hfuel, printUint,
    uintText_eq (by omega) (by omega)]
  split_ifs with hsize
  · rw [Int.toNat_of_nonpos hsize]
    simp
  · rfl

/-- The number 255 in hexadecimal. -/
theorem printUintArray_fieldText_hex :
    printUintArray 12 (.replicate 11 0) { buf := 0, mem := fun _ => 0 } 20 255 16 {} true 4 6 =
      some (((fieldText false 16 255 4 6).take 20).foldl (Out.put true)
          { buf := 0, mem := fun _ => 0 },
        (((fieldText false 16 255 4 6).take 20).length : ℤ)) :=
  printUintArray_fieldText 12 le_rfl (.replicate 11 0) { buf := 0, mem := fun _ => 0 } 20 255 16
    (by decide) {} true 4 6

end Osm.Lib
