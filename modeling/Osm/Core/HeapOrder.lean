import Mathlib.Data.Tree.Basic
import Mathlib.Tactic.Lemma

/-!
# Binary trees in heap order

A tree is in heap order for a relation when the relation holds between the value of a node and
that of any node below it. For a transitive relation it is enough that it holds between each node
and its children.
-/

namespace BinaryTree

variable {α : Type*}

/-- There is a node with the value. -/
def HasValue : BinaryTree α → α → Prop
  | nil, _                   => False
  | node value left right, d => d = value ∨ left.HasValue d ∨ right.HasValue d

/-- There is a node with the value `a` and a node below it with the value `d`. -/
def Above : BinaryTree α → α → α → Prop
  | nil, _, _                   => False
  | node value left right, a, d =>
    a = value ∧ (left.HasValue d ∨ right.HasValue d) ∨ left.Above a d ∨ right.Above a d

/-- The relation holds between each node and those below it. -/
def HeapOrdered (r : α → α → Prop) (t : BinaryTree α) : Prop := ∀ a d, t.Above a d → r a d

/-- The relation holds between a value and the one of the root. -/
def RootBelow (r : α → α → Prop) (a : α) : BinaryTree α → Prop
  | nil            => True
  | node value _ _ => r a value

variable {r : α → α → Prop} {a : α} {left right t : BinaryTree α}

@[simp] lemma heapOrdered_nil : (nil : BinaryTree α).HeapOrdered r := fun _ _ h => h.elim

lemma heapOrdered_node :
    (node a left right).HeapOrdered r ↔
      (∀ d, left.HasValue d → r a d) ∧ (∀ d, right.HasValue d → r a d) ∧
        left.HeapOrdered r ∧ right.HeapOrdered r := by
  constructor
  · intro h
    exact ⟨fun d hd => h a d (.inl ⟨rfl, .inl hd⟩), fun d hd => h a d (.inl ⟨rfl, .inr hd⟩),
      fun b d hd => h b d (.inr (.inl hd)), fun b d hd => h b d (.inr (.inr hd))⟩
  · rintro ⟨hl, hr, hleft, hright⟩ b d (⟨rfl, hd | hd⟩ | hd | hd)
    · exact hl d hd
    · exact hr d hd
    · exact hleft b d hd
    · exact hright b d hd

/-- In an ordered tree it is enough to look at the root. -/
lemma HeapOrdered.values_iff (trans : ∀ a b c, r a b → r b c → r a c) (h : t.HeapOrdered r) :
    (∀ d, t.HasValue d → r a d) ↔ t.RootBelow r a := by
  cases t with
  | nil => exact iff_of_true (fun _ hd => hd.elim) trivial
  | node b left right =>
    constructor
    · exact fun hd => hd b (.inl rfl)
    · rintro hb d (rfl | hd)
      · exact hb
      · exact trans a b d hb (h b d (.inl ⟨rfl, hd⟩))

/-- The order by the children of each node. -/
theorem heapOrdered_node_iff (trans : ∀ a b c, r a b → r b c → r a c) :
    (node a left right).HeapOrdered r ↔
      left.RootBelow r a ∧ right.RootBelow r a ∧ left.HeapOrdered r ∧ right.HeapOrdered r := by
  rw [heapOrdered_node]
  constructor
  · rintro ⟨hl, hr, hleft, hright⟩
    exact ⟨(hleft.values_iff trans).mp hl, (hright.values_iff trans).mp hr, hleft, hright⟩
  · rintro ⟨hl, hr, hleft, hright⟩
    exact ⟨(hleft.values_iff trans).mpr hl, (hright.values_iff trans).mpr hr, hleft, hright⟩

end BinaryTree
