import Mathlib.Data.Finset.Basic
import Mathlib.Tactic.Lemma

/-!
# Resources with one owner

Resources are free or held. Whoever holds one is its only holder, and this is so after a free
resource is acquired, and after a resource is passed on or given back.
-/

namespace Osm.Core

variable {ω ι : Type*}

/-- No resource has two holders, and none that is held is free. -/
structure Exclusive (free : Finset ι) (Holds : ω → ι → Prop) : Prop where
  unique : ∀ a b i, Holds a i → Holds b i → a = b
  taken  : ∀ a i, Holds a i → i ∉ free

namespace Exclusive

variable {free free' : Finset ι} {Holds Holds' : ω → ι → Prop} {owner : ω} {i : ι}

lemma mono (h : Exclusive free Holds) (hfree : free' ⊆ free)
    (hHolds : ∀ a i, Holds' a i → Holds a i) : Exclusive free' Holds' where
  unique a b i ha hb := h.unique a b i (hHolds a i ha) (hHolds b i hb)
  taken a i ha hi    := h.taken a i (hHolds a i ha) (hfree hi)

/-- A free resource is acquired. -/
lemma acquire (h : Exclusive free Holds) (hi : i ∈ free) (hfree : free' ⊆ free) (hgone : i ∉ free')
    (hHolds : ∀ a j, Holds' a j → Holds a j ∨ a = owner ∧ j = i) : Exclusive free' Holds' where
  unique a b j ha hb := by
    rcases hHolds a j ha with ha | ⟨rfl, rfl⟩ <;> rcases hHolds b j hb with hb | ⟨rfl, hj⟩
    · exact h.unique a b j ha hb
    · rw [hj] at ha
      exact absurd hi (h.taken a i ha)
    · exact absurd hi (h.taken b j hb)
    · rfl
  taken a j ha hj := by
    rcases hHolds a j ha with ha | ⟨-, rfl⟩
    · exact h.taken a j ha (hfree hj)
    · exact hgone hj

/-- A holder passes a resource on. -/
lemma transfer {source : ω} (h : Exclusive free Holds) (hsource : Holds source i)
    (hHolds : ∀ a j, Holds' a j → (Holds a j ∧ a ≠ source) ∨ a = owner ∧ j = i) :
    Exclusive free Holds' where
  unique a b j ha hb := by
    rcases hHolds a j ha with ⟨ha, hne⟩ | ⟨rfl, rfl⟩ <;>
      rcases hHolds b j hb with ⟨hb, hne'⟩ | ⟨rfl, hj⟩
    · exact h.unique a b j ha hb
    · rw [hj] at ha
      exact absurd (h.unique a source i ha hsource) hne
    · exact absurd (h.unique b source j hb hsource) hne'
    · rfl
  taken a j ha hj := by
    rcases hHolds a j ha with ⟨ha, -⟩ | ⟨-, rfl⟩
    · exact h.taken a j ha hj
    · exact h.taken source j hsource hj

/-- A holder gives a resource back. -/
lemma release (h : Exclusive free Holds) (hi : Holds owner i)
    (hfree : ∀ j ∈ free', j ∈ free ∨ j = i)
    (hHolds : ∀ a j, Holds' a j → Holds a j ∧ a ≠ owner) : Exclusive free' Holds' where
  unique a b j ha hb := h.unique a b j (hHolds a j ha).1 (hHolds b j hb).1
  taken a j ha hj := by
    obtain ⟨hheld, hne⟩ := hHolds a j ha
    rcases hfree j hj with hj | rfl
    · exact h.taken a j hheld hj
    · exact hne (h.unique a owner j hheld hi)

end Exclusive

end Osm.Core
