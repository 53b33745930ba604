import Mathlib.Data.List.Nodup
import Mathlib.Data.Nat.Notation
import Mathlib.Tactic.Lemma

/-!
# Intrusive singly linked lists

A linked list lives in a function `next : α → α` that gives the successor of every element;
which values mark the end of a list is a predicate `isNil`. `Linked next isNil a l` says that
following `next` from `a` visits exactly the elements of `l`, in that order, and then reaches an
end mark.

Since `next` is a function, the list is determined by its first element (`Linked.unique`) and
has no duplicates (`Linked.nodup`). The remaining lemmas follow the usual pointer updates:
appending behind the last element and unlinking behind a predecessor. They speak about an
arbitrary second function `next'`, so that they apply to any way of writing the update.
-/

namespace Osm.Core

variable {α : Type*} {next next' : α → α} {isNil : α → Prop}

/-- Following `next` from the first argument visits the elements of the list and then reaches
an end mark. -/
def Linked (next : α → α) (isNil : α → Prop) : α → List α → Prop
  | a, []     => isNil a
  | a, x :: l => a = x ∧ ¬ isNil x ∧ Linked next isNil (next x) l

@[simp] lemma linked_nil {a : α} : Linked next isNil a [] ↔ isNil a := Iff.rfl

@[simp] lemma linked_cons {a x : α} {l : List α} :
    Linked next isNil a (x :: l) ↔ a = x ∧ ¬ isNil x ∧ Linked next isNil (next x) l := Iff.rfl

namespace Linked

/-- Only the successors of the listed elements matter. -/
lemma congr {a : α} {l : List α} (h : Linked next isNil a l) (heq : ∀ x ∈ l, next' x = next x) :
    Linked next' isNil a l := by
  induction l generalizing a with
  | nil => exact h
  | cons x l ih =>
    obtain ⟨rfl, hx, hl⟩ := h
    refine ⟨rfl, hx, ?_⟩
    rw [heq a List.mem_cons_self]
    exact ih hl fun y hy => heq y (List.mem_cons_of_mem _ hy)

lemma unique {a : α} {l l' : List α} (h : Linked next isNil a l) (h' : Linked next isNil a l') :
    l = l' := by
  induction l generalizing a l' with
  | nil =>
    cases l' with
    | nil => rfl
    | cons x l' => exact absurd (h'.1 ▸ h) h'.2.1
  | cons x l ih =>
    obtain ⟨rfl, hx, hl⟩ := h
    cases l' with
    | nil => exact absurd h' hx
    | cons y l' =>
      obtain ⟨rfl, -, hl'⟩ := h'
      rw [ih hl hl']

/-- A value that is not an end mark is the first element. -/
lemma mem {a : α} {l : List α} (h : Linked next isNil a l) (ha : ¬ isNil a) : a ∈ l := by
  cases l with
  | nil => exact absurd h ha
  | cons x l => exact h.1 ▸ List.mem_cons_self

/-- Every part of a linked list that starts at one of its elements is linked. -/
lemma suffix {a x : α} {l₁ l₂ : List α} (h : Linked next isNil a (l₁ ++ x :: l₂)) :
    Linked next isNil x (x :: l₂) := by
  induction l₁ generalizing a with
  | nil =>
    obtain ⟨rfl, hx, hl⟩ := h
    exact ⟨rfl, hx, hl⟩
  | cons y l₁ ih => exact ih h.2.2

/-- The entry point of a linked list stays valid when the list is still found, with other
successors, at the end of another one. -/
lemma transfer {a b : α} {l₁ l₂ : List α} (h : Linked next isNil a l₂)
    (h' : Linked next' isNil b (l₁ ++ l₂)) : Linked next' isNil a l₂ := by
  cases l₂ with
  | nil => exact h
  | cons x l₂ => exact h.1 ▸ h'.suffix

lemma nodup {a : α} {l : List α} (h : Linked next isNil a l) : l.Nodup := by
  induction l generalizing a with
  | nil => exact List.nodup_nil
  | cons x l ih =>
    obtain ⟨rfl, hx, hl⟩ := h
    refine List.nodup_cons.mpr ⟨fun hmem => ?_, ih hl⟩
    -- a second occurrence would start a shorter list from the same element
    obtain ⟨l₁, l₂, rfl⟩ := List.append_of_mem hmem
    have hself : Linked next isNil a (a :: (l₁ ++ a :: l₂)) := ⟨rfl, hx, hl⟩
    have hlen := congrArg List.length (hself.unique hl.suffix)
    simp only [List.length_cons, List.length_append] at hlen
    omega

/-- Replace everything behind an element `p` of the list. -/
lemma replace {a p : α} {l₁ l₂ l₃ : List α} (h : Linked next isNil a (l₁ ++ p :: l₂))
    (heq : ∀ x ∈ l₁, next' x = next x) (hl : Linked next' isNil (next' p) l₃) :
    Linked next' isNil a (l₁ ++ p :: l₃) := by
  induction l₁ generalizing a with
  | nil => exact ⟨h.1, h.2.1, hl⟩
  | cons x l₁ ih =>
    obtain ⟨rfl, hx, htail⟩ := h
    refine ⟨rfl, hx, ?_⟩
    rw [heq a List.mem_cons_self]
    exact ih htail fun y hy => heq y (List.mem_cons_of_mem _ hy)

/-- Append `x` behind the last element `p`. -/
lemma snoc {a p x : α} {l : List α} (h : Linked next isNil a (l ++ [p]))
    (heq : ∀ y ∈ l, next' y = next y) (hp : next' p = x) (hx : ¬ isNil x)
    (hend : isNil (next' x)) : Linked next' isNil a (l ++ [p] ++ [x]) := by
  rw [List.append_assoc]
  exact h.replace heq ⟨hp, hx, hend⟩

/-- Unlink the element `x` behind `p`. -/
lemma unlink {a p x : α} {l₁ l₂ : List α} (h : Linked next isNil a (l₁ ++ p :: x :: l₂))
    (heq : ∀ y ∈ l₁ ++ l₂, next' y = next y) (hp : next' p = next x) :
    Linked next' isNil a (l₁ ++ p :: l₂) := by
  refine h.replace (fun y hy => heq y (List.mem_append_left _ hy)) ?_
  have hsuffix : Linked next isNil (next x) l₂ := h.suffix.2.2.2.2
  rw [hp]
  exact hsuffix.congr fun y hy => heq y (List.mem_append_right _ hy)

end Linked

end Osm.Core
