import Osm.Core.Memory
import Mathlib.Data.List.GetD

/-!
# Texts in memory

Storing a list of bytes from an address on. Storing one list behind another is storing both at
once, and reads elsewhere do not see it.
-/

namespace Osm.Core.Memory

/-- Store bytes from an address on. -/
def writeBytes (m : Memory) (a : ℕ) (bytes : List UInt8) : Memory := fun x =>
  if a ≤ x then bytes.getD (x - a) (m x) else m x

variable {m : Memory} {a x i : ℕ} {bytes bytes' : List UInt8}

@[simp]
lemma writeBytes_nil : m.writeBytes a [] = m := by
  funext x
  simp [writeBytes]

lemma writeBytes_of_outside (h : x < a ∨ a + bytes.length ≤ x) : m.writeBytes a bytes x = m x := by
  rw [writeBytes]
  split_ifs with hx
  · exact List.getD_eq_default _ _ (by omega)
  · rfl

lemma writeBytes_inside (h : i < bytes.length) : m.writeBytes a bytes (a + i) = bytes[i] := by
  rw [writeBytes, if_pos (Nat.le_add_right a i), Nat.add_sub_cancel_left,
    List.getD_eq_getElem _ _ h]

lemma writeBytes_append : m.writeBytes a (bytes ++ bytes') =
    (m.writeBytes a bytes).writeBytes (a + bytes.length) bytes' := by
  funext x
  rcases lt_or_ge x (a + bytes.length) with hx | hx
  · rw [@writeBytes_of_outside _ _ x _ (.inl hx), writeBytes, writeBytes]
    split_ifs with ha
    · rw [List.getD_append _ _ _ _ (by omega)]
    · rfl
  · rw [writeBytes, if_pos (by omega), writeBytes, if_pos hx,
      writeBytes_of_outside (.inr hx), List.getD_append_right _ _ _ _ (by omega), Nat.sub_add_eq]

/-- Storing a single byte. -/
lemma writeBytes_singleton {c : UInt8} : m.writeBytes a [c] = Function.update m a c := by
  funext x
  rw [writeBytes]
  by_cases hx : x = a
  · subst hx
    simp
  · rw [Function.update_of_ne hx]
    split_ifs with ha
    · exact List.getD_eq_default _ _ (by simp; omega)
    · rfl

lemma writeBytes_concat {c : UInt8} : m.writeBytes a (bytes ++ [c]) =
    Function.update (m.writeBytes a bytes) (a + bytes.length) c := by
  rw [writeBytes_append, writeBytes_singleton]

/-- Overwriting the last byte. -/
lemma update_writeBytes_concat {c c' : UInt8} :
    Function.update (m.writeBytes a (bytes ++ [c])) (a + bytes.length) c' =
      m.writeBytes a (bytes ++ [c']) := by
  rw [writeBytes_concat, writeBytes_concat, Function.update_idem]

end Osm.Core.Memory
