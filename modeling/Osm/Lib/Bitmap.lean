import Osm.Core.Memory
import Mathlib.Data.Nat.Bitwise

/-!
# Bitmaps

A model of `lib/bitmap.c`. A bitmap is an array of words in memory; the bit at a position is a
bit of the word that it is in, the lowest one first.
-/

namespace Osm.Lib

open Osm.Core

/-- The size in bytes of a bitmap with the given number of bits. -/
def bitmapSizeof (numBits : ℕ) : ℕ := (numBits + 31) / 32 * 4

/-- `bitmap_init`. -/
def bitmapInit (bitmap : Memory) (size : ℕ) : Memory :=
  (List.range ((size + 31) / 32)).foldl (fun bitmap i => bitmap.writeWord (4 * i) 0) bitmap

/-- The word `bitmap[i]`. -/
def bitmapWord (bitmap : Memory) (i : ℕ) : UInt32 := bitmap.readWord (4 * i)

/-- `bitmap_get`. -/
def bitmapGet (bitmap : Memory) (pos : ℕ) : UInt32 :=
  (bitmapWord bitmap (pos / 32) >>> UInt32.ofNat (pos % 32)) &&& 1

/-- `bitmap_set`. It panics for a value other than 0 or 1. -/
def bitmapSet (bitmap : Memory) (pos : ℕ) (value : Bool) : Memory :=
  let word := bitmapWord bitmap (pos / 32)
  let mask := 1 <<< UInt32.ofNat (pos % 32)
  bitmap.writeWord (4 * (pos / 32)) (if value then word ||| mask else word &&& ~~~mask)

/-- The loop over the bits of a word in `bitmap_findnset`. It is left at the first bit that is
zero, with its position if that is below `l`. -/
def bitmapFindBit (bitmap : Memory) (l i : ℕ) : Option (Option ℕ) :=
  (List.range 32).findSome? fun j =>
    if bitmapGet bitmap (i * 32 + j) = 0 then
      some (if i * 32 + j ≥ l then none else some (i * 32 + j))
    else none

/-- `bitmap_findnset`: the first position below `l` with a zero bit, which is set; `none` stands
for the result `-1`. -/
def bitmapFindnset (bitmap : Memory) (l : ℕ) : Option (Memory × ℕ) := do
  let found ← (List.range (bitmapSizeof l / 4)).findSome? fun i =>
    if bitmapWord bitmap i ≠ 0xffffffff then bitmapFindBit bitmap l i else none
  let pos ← found
  return (bitmapSet bitmap pos true, pos)

/-! ### Bits of words -/

lemma shiftRight_and_one (w : UInt32) {k : ℕ} (hk : k < 32) :
    (w >>> UInt32.ofNat k) &&& 1 = if w.toNat.testBit k then 1 else 0 := by
  have hmod : k % 2 ^ 32 = k := Nat.mod_eq_of_lt (by omega)
  apply UInt32.toNat_inj.mp
  rw [UInt32.toNat_and, UInt32.toNat_shiftRight, UInt32.toNat_ofNat', hmod,
    Nat.mod_eq_of_lt hk, UInt32.toNat_one, Nat.and_one_is_mod]
  by_cases hbit : w.toNat.testBit k
  · rw [if_pos hbit, UInt32.toNat_one]
    simpa [Nat.testBit, Nat.one_and_eq_mod_two] using hbit
  · rw [if_neg hbit, UInt32.toNat_zero]
    simpa [Nat.testBit, Nat.one_and_eq_mod_two] using hbit

lemma toNat_mask {j : ℕ} (hj : j < 32) : (1 <<< UInt32.ofNat j : UInt32).toNat = 2 ^ j := by
  have hmod : j % 2 ^ 32 = j := Nat.mod_eq_of_lt (by omega)
  have hlt : 2 ^ j < 2 ^ 32 := Nat.pow_lt_pow_right (by decide) hj
  rw [UInt32.toNat_shiftLeft, UInt32.toNat_ofNat', hmod, Nat.mod_eq_of_lt hj, UInt32.toNat_one,
    Nat.shiftLeft_eq, Nat.one_mul, Nat.mod_eq_of_lt hlt]

lemma testBit_or_mask (w : UInt32) {j k : ℕ} (hj : j < 32) :
    (w ||| 1 <<< UInt32.ofNat j).toNat.testBit k = (w.toNat.testBit k || decide (j = k)) := by
  rw [UInt32.toNat_or, Nat.testBit_or, toNat_mask hj, Nat.testBit_two_pow]

lemma testBit_and_not_mask (w : UInt32) {j k : ℕ} (hj : j < 32) (hk : k < 32) :
    (w &&& ~~~(1 <<< UInt32.ofNat j)).toNat.testBit k =
      (w.toNat.testBit k && !decide (j = k)) := by
  have hlt : 2 ^ j < 2 ^ 32 := Nat.pow_lt_pow_right (by decide) hj
  rw [UInt32.toNat_and, Nat.testBit_and, UInt32.toNat_not, toNat_mask hj]
  have hsub : UInt32.size - 1 - 2 ^ j = 2 ^ 32 - (2 ^ j + 1) := by
    rw [UInt32.size]
    omega
  rw [hsub, Nat.testBit_two_pow_sub_succ hlt, Nat.testBit_two_pow]
  simp [hk]

/-! ### Reading and setting bits -/

variable {bitmap bitmap' : Memory} {pos p l : ℕ}

lemma bitmapGet_eq (bitmap : Memory) (pos : ℕ) :
    bitmapGet bitmap pos = if (bitmapWord bitmap (pos / 32)).toNat.testBit (pos % 32) then 1 else 0 :=
  shiftRight_and_one _ (Nat.mod_lt _ (by decide))

lemma bitmapGet_eq_zero_iff : bitmapGet bitmap pos = 0 ↔ bitmapGet bitmap pos ≠ 1 := by
  rw [bitmapGet_eq]
  split <;> decide

/-- Bitmaps with the same bits have the same bytes. -/
lemma bitmap_ext (h : ∀ p, bitmapGet bitmap' p = bitmapGet bitmap p) : bitmap' = bitmap := by
  have hword : ∀ i, bitmapWord bitmap' i = bitmapWord bitmap i := by
    intro i
    refine UInt32.toNat_inj.mp (Nat.eq_of_testBit_eq fun j => ?_)
    by_cases hj : j < 32
    · have hbit := h (32 * i + j)
      have hdiv : (32 * i + j) / 32 = i := by omega
      have hmod : (32 * i + j) % 32 = j := by omega
      rw [bitmapGet_eq, bitmapGet_eq, hdiv, hmod] at hbit
      cases hb : (bitmapWord bitmap i).toNat.testBit j <;>
        cases hb' : (bitmapWord bitmap' i).toNat.testBit j <;> simp_all
    · have hpow : 2 ^ 32 ≤ 2 ^ j := Nat.pow_le_pow_right (by decide) (not_lt.mp hj)
      rw [Nat.testBit_lt_two_pow ((bitmapWord bitmap' i).toNat_lt.trans_le hpow),
        Nat.testBit_lt_two_pow ((bitmapWord bitmap i).toNat_lt.trans_le hpow)]
  funext x
  have hsplit : 4 * (x / 4) + x % 4 = x := Nat.div_add_mod x 4
  have hbyte := fun m => Memory.wordByte_readWord m (4 * (x / 4)) (Nat.mod_lt x (by decide : 0 < 4))
  rw [hsplit] at hbyte
  rw [← hbyte bitmap', ← hbyte bitmap]
  exact congrArg (fun w => Memory.wordByte w (x % 4)) (hword (x / 4))

lemma bitmapWord_bitmapSet_of_ne {i : ℕ} (value : Bool) (h : pos / 32 ≠ i) :
    bitmapWord (bitmapSet bitmap pos value) i = bitmapWord bitmap i :=
  Memory.readWord_writeWord_of_ne (by omega)

/-- Setting a bit changes no other one. -/
lemma bitmapGet_bitmapSet (bitmap : Memory) (pos p : ℕ) (value : Bool) :
    bitmapGet (bitmapSet bitmap pos value) p =
      if p = pos then (if value then 1 else 0) else bitmapGet bitmap p := by
  have hpos : pos % 32 < 32 := Nat.mod_lt _ (by decide)
  have hp : p % 32 < 32 := Nat.mod_lt _ (by decide)
  rw [bitmapGet_eq bitmap p, bitmapGet_eq]
  by_cases hword : pos / 32 = p / 32
  · have heq : pos % 32 = p % 32 ↔ p = pos := by omega
    have hself : bitmapWord (bitmapSet bitmap pos value) (p / 32) =
        if value then bitmapWord bitmap (p / 32) ||| 1 <<< UInt32.ofNat (pos % 32)
        else bitmapWord bitmap (p / 32) &&& ~~~(1 <<< UInt32.ofNat (pos % 32)) := by
      rw [← hword]
      exact Memory.readWord_writeWord_self _ _ _
    rw [hself]
    cases value with
    | true =>
      rw [if_pos rfl, testBit_or_mask _ hpos]
      by_cases hpp : p = pos <;> simp [heq, hpp]
    | false =>
      rw [if_neg Bool.false_ne_true, testBit_and_not_mask _ hpos hp]
      by_cases hpp : p = pos <;> simp [heq, hpp]
  · have hne : p ≠ pos := fun hpp => hword (by rw [hpp])
    rw [bitmapWord_bitmapSet_of_ne value hword, if_neg hne]

/-- `bitmap_findnset` finds a position below the bound whose bit is zero, and sets that bit. -/
lemma bitmapFindnset_spec (h : bitmapFindnset bitmap l = some (bitmap', pos)) :
    pos < l ∧ bitmapGet bitmap pos = 0 ∧ bitmap' = bitmapSet bitmap pos true := by
  simp only [bitmapFindnset, Option.bind_eq_bind, Option.bind_eq_some_iff, Option.pure_def,
    Option.some.injEq, Prod.mk.injEq] at h
  obtain ⟨found, hfound, p, rfl, rfl, rfl⟩ := h
  obtain ⟨i, -, hword⟩ := List.exists_of_findSome?_eq_some hfound
  rw [ite_eq_iff] at hword
  obtain ⟨-, hbit⟩ | ⟨-, hnone⟩ := hword
  · obtain ⟨j, -, hj⟩ := List.exists_of_findSome?_eq_some hbit
    by_cases hzero : bitmapGet bitmap (i * 32 + j) = 0
    · rw [if_pos hzero, Option.some.injEq] at hj
      by_cases hl : i * 32 + j ≥ l
      · rw [if_pos hl] at hj
        cases hj
      · rw [if_neg hl, Option.some.injEq] at hj
        subst hj
        exact ⟨by omega, hzero, rfl⟩
    · rw [if_neg hzero] at hj
      cases hj
  · cases hnone

/-- The words in front of a bound are zero after the loop of `bitmap_init` has reached it. -/
lemma bitmapWord_foldl_writeWord (bitmap : Memory) (n : ℕ) {i : ℕ} (hi : i < n) :
    bitmapWord ((List.range n).foldl (fun bitmap i => bitmap.writeWord (4 * i) 0) bitmap) i = 0 := by
  induction n with
  | zero => exact absurd hi (Nat.not_lt_zero i)
  | succ n ih =>
    rw [List.range_succ, List.foldl_append]
    by_cases hin : i = n
    · subst hin
      exact Memory.readWord_writeWord_self _ _ _
    · exact (Memory.readWord_writeWord_of_ne (by omega)).trans (ih (by omega))

lemma bitmapGet_bitmapInit (bitmap : Memory) {size : ℕ} (hpos : pos < size) :
    bitmapGet (bitmapInit bitmap size) pos = 0 := by
  have hword : bitmapWord (bitmapInit bitmap size) (pos / 32) = 0 :=
    bitmapWord_foldl_writeWord bitmap _ (by omega)
  rw [bitmapGet_eq, hword, UInt32.toNat_zero, Nat.zero_testBit, if_neg Bool.false_ne_true]

/-! ### The search for a zero bit -/

/-- A search over a range of numbers ends at the first one with a result. -/
lemma findSome?_range {β : Type*} {f : ℕ → Option β} {n k : ℕ} (hk : k < n)
    (h : (f k).isSome) : ∃ i ≤ k, ∃ b, f i = some b ∧ (List.range n).findSome? f = some b := by
  induction n with
  | zero => exact absurd hk (Nat.not_lt_zero k)
  | succ n ih =>
    rw [List.range_succ, List.findSome?_append]
    by_cases hkn : k < n
    · obtain ⟨i, hi, b, hb, hfind⟩ := ih hkn
      exact ⟨i, hi, b, hb, by rw [hfind, Option.some_or]⟩
    · have hkn : k = n := by omega
      subst hkn
      cases hfind : (List.range k).findSome? f with
      | none =>
        obtain ⟨b, hb⟩ := Option.isSome_iff_exists.mp h
        exact ⟨k, le_rfl, b, hb, by simp [hb]⟩
      | some b =>
        obtain ⟨i, hi, hb⟩ := List.exists_of_findSome?_eq_some hfind
        exact ⟨i, (List.mem_range.mp hi).le, b, hb, rfl⟩

/-- What a search over a range of numbers finds is found at the first number with a result. -/
lemma findSome?_range_eq_some {β : Type*} {f : ℕ → Option β} {n : ℕ} {b : β}
    (h : (List.range n).findSome? f = some b) : ∃ i < n, f i = some b ∧ ∀ j < i, f j = none := by
  induction n with
  | zero => cases h
  | succ n ih =>
    rw [List.range_succ, List.findSome?_append] at h
    cases hfind : (List.range n).findSome? f with
    | some b' =>
      rw [hfind, Option.some_or] at h
      cases h
      obtain ⟨i, hi, hb, hbefore⟩ := ih hfind
      exact ⟨i, Nat.lt_succ_of_lt hi, hb, hbefore⟩
    | none =>
      rw [hfind, Option.none_or, List.findSome?_singleton] at h
      rw [List.findSome?_eq_none_iff] at hfind
      exact ⟨n, Nat.lt_succ_self n, h, fun j hj => hfind j (List.mem_range.mpr hj)⟩

lemma bitmapWord_ne_of_zero (h : bitmapGet bitmap pos = 0) :
    bitmapWord bitmap (pos / 32) ≠ 0xffffffff := by
  intro hword
  have hones : (0xffffffff : UInt32).toNat = 2 ^ 32 - 1 := rfl
  have hlt : pos % 32 < 32 := Nat.mod_lt _ (by decide)
  rw [bitmapGet_eq, hword, hones, Nat.testBit_two_pow_sub_one, decide_eq_true hlt, if_pos rfl] at h
  cases h

/-- The search in the word of a zero bit ends at that bit or in front of it. -/
lemma bitmapFindBit_of_zero (hpos : pos < l) (h : bitmapGet bitmap pos = 0) :
    ∃ p, bitmapFindBit bitmap l (pos / 32) = some (some p) := by
  have hsplit : pos / 32 * 32 + pos % 32 = pos := Nat.div_add_mod' pos 32
  obtain ⟨j, hj, b, hb, hfind⟩ := findSome?_range (n := 32) (k := pos % 32)
    (f := fun j => if bitmapGet bitmap (pos / 32 * 32 + j) = 0 then
      some (if pos / 32 * 32 + j ≥ l then none else some (pos / 32 * 32 + j)) else none)
    (Nat.mod_lt _ (by decide)) (by simp [hsplit, h])
  rw [bitmapFindBit, hfind]
  by_cases hzero : bitmapGet bitmap (pos / 32 * 32 + j) = 0
  · rw [if_pos hzero, if_neg (by omega)] at hb
    exact ⟨_, hb.symm⟩
  · rw [if_neg hzero] at hb
    cases hb

/-- `bitmap_findnset` finds a position when there is a zero bit below the bound. -/
lemma bitmapFindnset_of_zero (hpos : pos < l) (h : bitmapGet bitmap pos = 0) :
    ∃ bitmap' p, bitmapFindnset bitmap l = some (bitmap', p) := by
  have hsize : pos / 32 < bitmapSizeof l / 4 := by
    rw [bitmapSizeof]
    omega
  obtain ⟨p, hp⟩ := bitmapFindBit_of_zero hpos h
  obtain ⟨i, hi, b, hb, hfind⟩ := findSome?_range hsize
    (f := fun i => if bitmapWord bitmap i ≠ 0xffffffff then bitmapFindBit bitmap l i else none)
    (by simp [bitmapWord_ne_of_zero h, hp])
  -- all positions of an earlier word are below the bound
  obtain ⟨q, rfl⟩ : ∃ q, b = some q := by
    by_cases hip : i = pos / 32
    · rw [hip, if_pos (bitmapWord_ne_of_zero h), hp] at hb
      exact ⟨p, (Option.some.inj hb).symm⟩
    · rw [ite_eq_iff] at hb
      obtain ⟨-, hbit⟩ | ⟨-, hnone⟩ := hb
      · obtain ⟨j, hj, hbit⟩ := List.exists_of_findSome?_eq_some hbit
        have hj := List.mem_range.mp hj
        rw [if_neg (show ¬ i * 32 + j ≥ l by omega), ite_eq_iff] at hbit
        obtain ⟨-, hbit⟩ | ⟨-, hnone⟩ := hbit
        · exact ⟨_, (Option.some.inj hbit).symm⟩
        · cases hnone
      · cases hnone
  refine ⟨bitmapSet bitmap q true, q, ?_⟩
  rw [bitmapFindnset, hfind]
  rfl

/-- No bit of a word is zero in which the search ends without a result. -/
lemma bitmapGet_of_findBit_none {i j : ℕ} (hj : j < 32)
    (h : (if bitmapWord bitmap i ≠ 0xffffffff then bitmapFindBit bitmap l i else none) = none) :
    bitmapGet bitmap (i * 32 + j) ≠ 0 := by
  intro hzero
  have hdiv : (i * 32 + j) / 32 = i := by omega
  have hword := bitmapWord_ne_of_zero hzero
  rw [hdiv] at hword
  rw [if_pos hword, bitmapFindBit, List.findSome?_eq_none_iff] at h
  have hbit := h j (List.mem_range.mpr hj)
  rw [if_pos hzero] at hbit
  cases hbit

/-- The position that `bitmap_findnset` finds is the first one with a zero bit. -/
lemma bitmapFindnset_first (h : bitmapFindnset bitmap l = some (bitmap', pos)) (hp : p < pos) :
    bitmapGet bitmap p ≠ 0 := by
  simp only [bitmapFindnset, Option.bind_eq_bind, Option.bind_eq_some_iff, Option.pure_def,
    Option.some.injEq, Prod.mk.injEq] at h
  obtain ⟨found, hfound, q, rfl, rfl, rfl⟩ := h
  obtain ⟨i, -, hword, hwords⟩ := findSome?_range_eq_some hfound
  rw [ite_eq_iff] at hword
  obtain ⟨-, hbit⟩ | ⟨-, hnone⟩ := hword
  · obtain ⟨j, hj, hfirst, hbits⟩ := findSome?_range_eq_some hbit
    have hpos : q = i * 32 + j := by
      rw [ite_eq_iff] at hfirst
      obtain ⟨-, hfirst⟩ | ⟨-, hnone⟩ := hfirst
      · rw [Option.some.injEq, ite_eq_iff] at hfirst
        obtain ⟨-, hnone⟩ | ⟨-, hfirst⟩ := hfirst
        · cases hnone
        · exact (Option.some.inj hfirst).symm
      · cases hnone
    have hsplit : p / 32 * 32 + p % 32 = p := Nat.div_add_mod' p 32
    have hlt : p % 32 < 32 := Nat.mod_lt _ (by decide)
    by_cases hpi : p / 32 = i
    · intro hzero
      have hbefore := hbits (p % 32) (by omega)
      rw [← hpi, hsplit, if_pos hzero] at hbefore
      cases hbefore
    · have hbefore := bitmapGet_of_findBit_none hlt (hwords (p / 32) (by omega))
      rwa [hsplit] at hbefore
  · cases hnone

end Osm.Lib
