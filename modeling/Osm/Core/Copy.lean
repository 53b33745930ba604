import Osm.Core.Memory
import Mathlib.Logic.Function.Basic

/-!
# Copied bytes

The memory in which bytes have been copied from one place to another, one byte after the other
or one word after the other.
-/

namespace Osm.Core.Memory

/-- The memory after copying `n` bytes. -/
def copied (m : Memory) (target source n : ℕ) : Memory := fun x =>
  if target ≤ x ∧ x < target + n then m (source + (x - target)) else m x

variable {m : Memory} {target source n i x : ℕ}

@[simp] lemma copied_zero : m.copied target source 0 = m := by
  funext x
  exact if_neg (by omega)

lemma copied_inside (h : i < n) : m.copied target source n (target + i) = m (source + i) := by
  rw [copied, if_pos (by omega), Nat.add_sub_cancel_left]

lemma copied_of_outside (h : x < target ∨ target + n ≤ x) : m.copied target source n x = m x :=
  if_neg (by omega)

/-- The next byte is copied. -/
lemma update_copied :
    Function.update (m.copied target source n) (target + n) (m (source + n)) =
      m.copied target source (n + 1) := by
  funext x
  by_cases hx : x = target + n
  · rw [hx, Function.update_self, copied_inside (Nat.lt_succ_self n)]
  · rw [Function.update_of_ne hx, copied, copied]
    simp only [show target ≤ x ∧ x < target + (n + 1) ↔ target ≤ x ∧ x < target + n by omega]

/-- The next word is copied. -/
lemma writeWord_copied :
    (m.copied target source n).writeWord (target + n) (m.readWord (source + n)) =
      m.copied target source (n + 4) := by
  funext x
  by_cases hx : target + n ≤ x ∧ x < target + n + 4
  · obtain ⟨i, rfl⟩ := Nat.exists_eq_add_of_le hx.1
    rw [writeWord, if_pos hx, Nat.add_sub_cancel_left, wordByte_readWord m _ (by omega),
      Nat.add_assoc target, copied_inside (by omega), Nat.add_assoc]
  · rw [writeWord_of_outside (by omega), copied, copied]
    simp only [show target ≤ x ∧ x < target + (n + 4) ↔ target ≤ x ∧ x < target + n by omega]

/-- Bytes are copied behind those before them. -/
lemma copied_copied (h : target + (n + i) ≤ source ∨ source + (n + i) ≤ target) :
    (m.copied target source n).copied (target + n) (source + n) i =
      m.copied target source (n + i) := by
  induction i with
  | zero => rw [copied_zero, Nat.add_zero]
  | succ i ih =>
    have hsource : m.copied target source n (source + n + i) = m (source + (n + i)) := by
      rw [copied_of_outside (by omega), Nat.add_assoc]
    rw [← update_copied, ih (by omega), hsource, Nat.add_assoc, update_copied, Nat.add_assoc]

end Osm.Core.Memory
