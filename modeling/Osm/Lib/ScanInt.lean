import Osm.Lib.Atoi

/-!
# Scanned integers

`scan_int` of `lib/xprintf.c` on decimal numbers, and the fields of a conversion that are read
with it. The scan stops at the first and at the last digit of the table, `0` and `9`.
-/

namespace Osm.Lib

/-- The value of decimal digits behind a number. -/
def decimalFrom (value : ℕ) (digits : List UInt8) : ℕ :=
  digits.foldl (fun value c => 10 * value + (c.toNat - '0'.toUInt8.toNat)) value

/-- The decimal value of digits. -/
def decimalValue (digits : List UInt8) : ℕ := decimalFrom 0 digits

/-- The digits with which `scan_int` goes on. -/
def AllScanned (digits : List UInt8) : Prop := ∀ c ∈ digits, c ≠ '0'.toUInt8 ∧ c ≠ '9'.toUInt8

variable {ds rest : List UInt8} {c : UInt8} {value : ℕ} {mods : Mods}

lemma isScanned_iff_isDigit : IsScanned c ↔ IsDigit c ∧ c ≠ '0'.toUInt8 ∧ c ≠ '9'.toUInt8 := by
  rw [IsScanned, IsDigit, UInt8.lt_iff_toNat_lt, UInt8.lt_iff_toNat_lt, UInt8.le_iff_toNat_le,
    UInt8.le_iff_toNat_le, Ne, Ne, ← UInt8.toNat_inj, ← UInt8.toNat_inj]
  change 48 < c.toNat ∧ c.toNat < 57 ↔
    (48 ≤ c.toNat ∧ c.toNat ≤ 57) ∧ ¬ c.toNat = 48 ∧ ¬ c.toNat = 57
  omega

lemma le_decimalFrom : value ≤ decimalFrom value ds := by
  induction ds generalizing value with
  | nil => exact le_rfl
  | cons c ds ih =>
    refine le_trans ?_ (@ih (10 * value + (c.toNat - '0'.toUInt8.toNat)))
    omega

/-- Behind the digits the scan stops. -/
lemma scanInt_of_not_isDigit (hrest : ∀ c ∈ rest.head?, ¬ IsDigit c) (value : ℤ) :
    scanInt value rest = (value, rest) := by
  cases rest with
  | nil => rfl
  | cons c rest => rw [scanInt, if_neg fun h => hrest c rfl (isScanned_iff_isDigit.mp h).1]

/-- The digits that are scanned. -/
lemma scanInt_append (hds : ∀ c ∈ ds, IsDigit c) (hscan : AllScanned ds)
    (hrest : ∀ c ∈ rest.head?, ¬ IsDigit c) (hvalue : decimalFrom value ds < 2 ^ 31) :
    scanInt value (ds ++ rest) = ((decimalFrom value ds : ℤ), rest) := by
  induction ds generalizing value with
  | nil => exact scanInt_of_not_isDigit hrest value
  | cons c ds ih =>
    rw [List.forall_mem_cons] at hds
    rw [AllScanned, List.forall_mem_cons] at hscan
    have hdigit : (48 : ℕ) ≤ c.toNat := UInt8.le_iff_toNat_le.mp hds.1.1
    have hnext : 10 * value + (c.toNat - '0'.toUInt8.toNat) < 2 ^ 31 :=
      le_decimalFrom.trans_lt hvalue
    have hcast : 10 * (value : ℤ) + (c.toNat - '0'.toUInt8.toNat) =
        ((10 * value + (c.toNat - '0'.toUInt8.toNat) : ℕ) : ℤ) := by
      change 10 * (value : ℤ) + (c.toNat - (48 : ℕ)) = ((10 * value + (c.toNat - 48) : ℕ) : ℤ)
      omega
    rw [List.cons_append, scanInt, if_pos (isScanned_iff_isDigit.mpr ⟨hds.1, hscan.1⟩), hcast,
      toInt_natCast_eq_iff.mpr hnext]
    exact ih hds.2 hscan.2 hvalue

/-- A scan that comes to the end of the digits has gone over all of them. -/
lemma allScanned_of_rest {value : ℤ} (h : (scanInt value (ds ++ rest)).2 = rest) :
    AllScanned ds := by
  rw [scanInt_snd] at h
  have hscanned : (ds ++ rest).takeWhile (IsScanned ·) = ds := by
    have happend := List.takeWhile_append_dropWhile (p := (IsScanned ·)) (l := ds ++ rest)
    rw [h] at happend
    exact List.append_cancel_right happend
  intro c hc
  rw [← hscanned] at hc
  exact (isScanned_iff_isDigit.mp (by simpa using List.mem_takeWhile_imp hc)).2

/-! ### Precision and width -/

/-- The modifier of a precision. -/
lemma modifier_prec {fmt : List UInt8} : modifier '.'.toUInt8 mods fmt =
    some ({ mods with prec := (scanInt 0 fmt).1 }, (scanInt 0 fmt).2) := rfl

/-- The modifier of a width. -/
lemma modifier_width {fmt : List UInt8} (hc : '1'.toUInt8 ≤ c ∧ c ≤ '9'.toUInt8) :
    modifier c mods fmt =
      some ({ mods with width := (scanInt 0 (c :: fmt)).1 }, (scanInt 0 (c :: fmt)).2) := by
  have hne : ∀ d : UInt8, ¬ ('1'.toUInt8 ≤ d ∧ d ≤ '9'.toUInt8) → c ≠ d := by
    rintro d hd rfl
    exact hd hc
  rw [modifier, if_neg (hne _ (by decide)), if_neg (hne _ (by decide)), if_neg (hne _ (by decide)),
    if_neg (hne _ (by decide)), if_neg (hne _ (by decide)), if_neg (hne _ (by decide)), if_pos hc]

/-- A decimal number, also as the precision or the width of a conversion, is read exactly if none
of its digits is `0` or `9`. -/
theorem scanInt_decimal_iff (ds rest : List UInt8) (hds : ∀ c ∈ ds, IsDigit c)
    (hvalue : decimalValue ds < 2 ^ 31) (hrest : ∀ c ∈ rest.head?, ¬ IsDigit c) :
    (scanInt 0 (ds ++ rest) = ((decimalValue ds : ℤ), rest) ∧
      (∀ mods, modifier '.'.toUInt8 mods (ds ++ rest) =
        some ({ mods with prec := decimalValue ds }, rest)) ∧
      ∀ mods c ds', ds = c :: ds' → c ≠ '0'.toUInt8 → modifier c mods (ds' ++ rest) =
        some ({ mods with width := decimalValue ds }, rest)) ↔
      AllScanned ds := by
  constructor
  · rintro ⟨h, -, -⟩
    exact @allScanned_of_rest ds rest 0 (by rw [h])
  · intro hscan
    have h : scanInt 0 (ds ++ rest) = ((decimalValue ds : ℤ), rest) :=
      scanInt_append hds hscan hrest hvalue
    refine ⟨h, fun mods => by rw [modifier_prec, h], ?_⟩
    rintro mods c ds' rfl -
    have hc : IsScanned c := isScanned_iff_isDigit.mpr ⟨hds c List.mem_cons_self,
      hscan c List.mem_cons_self⟩
    rw [modifier_width (isScanned_iff.mp hc).1, ← List.cons_append, h]

theorem scanInt_decimal_iff_twelve :
    (scanInt 0 ([49, 50] ++ [100]) = ((decimalValue [49, 50] : ℤ), [100]) ∧
      (∀ mods, modifier '.'.toUInt8 mods ([49, 50] ++ [100]) =
        some ({ mods with prec := decimalValue [49, 50] }, [100])) ∧
      ∀ mods c ds', [49, 50] = c :: ds' → c ≠ '0'.toUInt8 → modifier c mods (ds' ++ [100]) =
        some ({ mods with width := decimalValue [49, 50] }, [100])) ↔
      AllScanned [49, 50] :=
  scanInt_decimal_iff [49, 50] [100] (by simp [IsDigit]; decide) (by decide)
    (by simp [IsDigit]; decide)

/-- Of `10` only the first digit is read. -/
theorem scanInt_ten :
    decimalValue [49, 48] = 10 ∧ scanInt 0 ([49, 48] ++ [100]) = (1, [48, 100]) := by
  decide

end Osm.Lib
