import Osm.Core.Memory
import Mathlib.Data.Int.Notation
import Mathlib.Logic.Function.Basic
import Mathlib.Logic.Function.Iterate

/-!
# Strings in memory

A model of the string routines of `lib/libc.c`. A string that a caller passes is given by its
bytes before the terminating NUL; a string in memory starts at an address and goes on to the
first NUL.
-/

namespace Osm.Lib

open Osm.Core

/-- `stringcmp` for a string in memory and one that was passed: the difference of the first two
bytes that differ. -/
def stringcmp (m : Memory) (str1 : ℕ) : List UInt8 → ℤ
  | []        => (m str1).toInt8.toInt
  | c :: str2 =>
    if m str1 = 0 ∨ m str1 ≠ c then (m str1).toInt8.toInt - c.toInt8.toInt
    else stringcmp m (str1 + 1) str2

/-- The loop of `stringcopy`, with the number of bytes that are left before the last one. At the
end of the source the target is padded; the loop that does so stays at one byte. -/
def stringcopyLoop : ℕ → Memory → ℕ → List UInt8 → Memory
  | 0, m, target, _               => Function.update m target 0
  | n + 1, m, target, []          => (fun m => Function.update m target 0)^[n + 2] m
  | n + 1, m, target, c :: source =>
    stringcopyLoop n (Function.update m target c) (target + 1) source

/-- `stringcopy`. -/
def stringcopy (m : Memory) (target : ℕ) (source : List UInt8) (buflen : ℕ) : Memory :=
  stringcopyLoop (buflen - 1) m target source

/-- The string at an address, in a field of the given length. -/
def stringAt (m : Memory) (a : ℕ) : ℕ → List UInt8
  | 0     => []
  | n + 1 => if m a = 0 then [] else m a :: stringAt m (a + 1) n

variable {m m' : Memory} {a n : ℕ} {s : List UInt8}

/-- The string depends on the bytes of its field only. -/
lemma stringAt_congr (h : ∀ x, a ≤ x → x < a + n → m' x = m x) :
    stringAt m' a n = stringAt m a n := by
  induction n generalizing a with
  | zero => rfl
  | succ n ih =>
    have htail : stringAt m' (a + 1) n = stringAt m (a + 1) n :=
      ih fun x h₁ h₂ => h x (by omega) (by omega)
    rw [stringAt, stringAt, h a (Nat.le_refl a) (by omega), htail]

/-- The padding stores to one byte only. -/
@[simp] lemma iterate_update {target : ℕ} (n : ℕ) :
    (fun m : Memory => Function.update m target 0)^[n + 1] m = Function.update m target 0 := by
  induction n with
  | zero => rfl
  | succ n ih => rw [Function.iterate_succ_apply', ih, Function.update_idem]

lemma toInt8_toInt_ne {b c : UInt8} (h : b ≠ c) : b.toInt8.toInt - c.toInt8.toInt ≠ 0 := by
  intro hsub
  have hint : b.toInt8 = c.toInt8 := Int8.toInt_inj.mp (Int.sub_eq_zero.mp hsub)
  exact h (by simpa using congrArg Int8.toUInt8 hint)

/-- Strings that compare equal are equal. -/
lemma stringcmp_eq_zero_iff (hs : 0 ∉ s) (hlen : s.length < n) :
    stringcmp m a s = 0 ↔ stringAt m a n = s := by
  induction s generalizing a n with
  | nil =>
    obtain ⟨n, rfl⟩ := Nat.exists_eq_add_one_of_ne_zero (Nat.ne_of_gt hlen)
    rw [stringcmp, stringAt]
    by_cases hzero : m a = 0
    · simp [hzero]
    · have hne := toInt8_toInt_ne hzero
      simp only [if_neg hzero, reduceCtorEq, iff_false]
      simpa using hne
  | cons c s ih =>
    obtain ⟨n, rfl⟩ := Nat.exists_eq_add_one_of_ne_zero (Nat.ne_of_gt (Nat.zero_lt_of_lt hlen))
    rw [List.mem_cons, not_or] at hs
    rw [stringcmp, stringAt]
    by_cases hc : m a = c
    · have hzero : m a ≠ 0 := by
        rw [hc]
        exact fun h => hs.1 h.symm
      rw [if_neg (not_or.mpr ⟨hzero, not_not.mpr hc⟩), if_neg hzero, ih hs.2 (Nat.lt_of_succ_lt_succ hlen), hc,
        List.cons.injEq]
      exact (and_iff_right rfl).symm
    · rw [if_pos (Or.inr hc)]
      refine iff_of_false (toInt8_toInt_ne hc) ?_
      split
      · exact List.cons_ne_nil _ _ ∘ Eq.symm
      · rw [List.cons.injEq]
        exact fun h => hc h.1

/-- `stringcopy` stays in its target. -/
lemma stringcopy_of_outside {target buflen x : ℕ} (hpos : 0 < buflen)
    (hx : x < target ∨ target + buflen ≤ x) : stringcopy m target s buflen x = m x := by
  obtain ⟨n, rfl⟩ := Nat.exists_eq_add_one_of_ne_zero (Nat.ne_of_gt hpos)
  rw [stringcopy, Nat.add_sub_cancel]
  clear hpos
  induction n generalizing m target s with
  | zero => exact Function.update_of_ne (by omega) _ _
  | succ n ih =>
    cases s with
    | nil => rw [stringcopyLoop, iterate_update, Function.update_of_ne (by omega)]
    | cons c s =>
      rw [stringcopyLoop, ih (by omega), Function.update_of_ne (by omega)]

/-- What was copied is found in the target, cut to its length. -/
lemma stringAt_stringcopy_take {target n : ℕ} (hs : 0 ∉ s) :
    stringAt (stringcopy m target s (n + 1)) target (n + 1) = s.take n := by
  rw [stringcopy, Nat.add_sub_cancel]
  induction n generalizing m target s with
  | zero => simp [stringcopyLoop, stringAt]
  | succ n ih =>
    cases s with
    | nil =>
      rw [List.take_nil, stringAt, stringcopyLoop, iterate_update,
        if_pos (Function.update_self target 0 m)]
    | cons c s =>
      rw [List.mem_cons, not_or] at hs
      have hkeep : stringcopyLoop n (Function.update m target c) (target + 1) s target = c := by
        have hout := @stringcopy_of_outside (Function.update m target c) s (target + 1) (n + 1)
          target (Nat.succ_pos n) (Or.inl (Nat.lt_succ_self _))
        rwa [Function.update_self] at hout
      rw [stringcopyLoop, stringAt, hkeep, if_neg (fun h => hs.1 h.symm), ih hs.2,
        List.take_succ_cons]

/-- A string that fits is found in the target as it is. -/
lemma stringAt_stringcopy {target buflen : ℕ} (hs : 0 ∉ s) (hlen : s.length < buflen) :
    stringAt (stringcopy m target s buflen) target buflen = s := by
  obtain ⟨n, rfl⟩ := Nat.exists_eq_add_one_of_ne_zero (Nat.ne_of_gt (Nat.zero_lt_of_lt hlen))
  rw [stringAt_stringcopy_take hs, List.take_of_length_le (Nat.le_of_lt_succ hlen)]

/-! ### Strings that end in their field -/

lemma stringAt_take {k : ℕ} (h : k ≤ n) : stringAt m a k = (stringAt m a n).take k := by
  induction k generalizing a n with
  | zero => rw [List.take_zero, stringAt]
  | succ k ih =>
    obtain ⟨n, rfl⟩ := Nat.exists_eq_add_one_of_ne_zero (Nat.ne_of_gt (Nat.zero_lt_of_lt h))
    rw [stringAt, stringAt]
    split_ifs with hzero
    · rw [List.take_nil]
    · rw [List.take_succ_cons, ih (Nat.le_of_succ_le_succ h)]

/-- A string of any length is compared correctly with one that ends in its field. -/
lemma stringcmp_eq_zero_iff_of_lt (hs : 0 ∉ s) (hend : (stringAt m a n).length < n) :
    stringcmp m a s = 0 ↔ stringAt m a n = s := by
  rcases Nat.lt_or_ge s.length n with hlt | hge
  · exact stringcmp_eq_zero_iff hs hlt
  · rw [stringcmp_eq_zero_iff hs (Nat.lt_succ_self s.length)]
    have htake := @stringAt_take m a (s.length + 1) n (Nat.le_succ_of_le hge)
    refine iff_of_false (fun heq => ?_) (fun heq => ?_)
    · rw [htake, heq, List.length_take] at hend
      omega
    · rw [heq] at hend
      omega

end Osm.Lib
