import Mathlib.Data.List.Basic
import Mathlib.Data.Nat.Notation
import Mathlib.Tactic.Lemma

/-!
# Queues that are served in order

Elements leave a queue at the front and come to it at the back. Where an element is tells when it
leaves.
-/

namespace Osm.Core

variable {α : Type*} {l l' l'' : List α} {j k : ℕ}

/-- The first `k` elements have left the queue, as far as there were so many, and others have come
behind the rest. -/
def Served (k : ℕ) (l l' : List α) : Prop := ∃ new, l' = l.drop k ++ new

namespace Served

lemma refl (l : List α) : Served 0 l l := ⟨[], by simp⟩

lemma append (l new : List α) : Served 0 l (l ++ new) := ⟨new, rfl⟩

lemma trans (h : Served j l l') (h' : Served k l' l'') : Served (j + k) l l'' := by
  obtain ⟨new, rfl⟩ := h
  obtain ⟨new', rfl⟩ := h'
  refine ⟨new.drop (k - (l.drop j).length) ++ new', ?_⟩
  rw [List.drop_append, List.drop_drop, List.append_assoc]

/-- An element moves up by as many places as the queue has been served. -/
lemma getElem?_eq {a : α} (h : Served k l l') (ha : l[j]? = some a) (hle : k ≤ j) :
    l'[j - k]? = some a := by
  obtain ⟨new, rfl⟩ := h
  have hdrop : (l.drop k)[j - k]? = some a := by
    rw [List.getElem?_drop, Nat.add_sub_cancel' hle, ha]
  rw [List.getElem?_append_left (List.getElem?_eq_some_iff.mp hdrop).1, hdrop]

end Served

end Osm.Core
