import Mathlib.Data.List.Basic
import Mathlib.Data.Nat.Notation
import Mathlib.Logic.Relation
import Mathlib.Tactic.Lemma

/-!
# Systems that refine others

A system answers actions and moves from state to state. It refines another one if, from related
states, both give the same answers to the actions that are allowed and move to related states;
then they give the same answers in whole runs.
-/

namespace Osm.Core

variable {α ρ σ τ : Type*}

/-- The answers to actions, one after the other, and the last state. -/
def runAll (step : α → σ → ρ × σ) : List α → σ → List ρ × σ
  | [], s      => ([], s)
  | a :: as, s =>
    let next := runAll step as (step a s).2
    ((step a s).1 :: next.1, next.2)

/-- From related states, the actions that are allowed have the same answers and lead to related
states. -/
def Refines (concrete : α → σ → ρ × σ) (abstract : α → τ → ρ × τ) (Allowed : α → Prop)
    (R : σ → τ → Prop) : Prop :=
  ∀ a s t, Allowed a → R s t →
    (concrete a s).1 = (abstract a t).1 ∧ R (concrete a s).2 (abstract a t).2

section Runs

variable {concrete : α → σ → ρ × σ} {abstract : α → τ → ρ × τ} {Allowed : α → Prop}
  {R : σ → τ → Prop}

/-- What every action keeps is kept by runs. -/
lemma runAll_invariant (step : α → σ → ρ × σ) {Inv : σ → Prop}
    (hstep : ∀ a s, Allowed a → Inv s → Inv (step a s).2)
    {as : List α} (hallowed : ∀ a ∈ as, Allowed a) {s : σ} (hs : Inv s) :
    Inv (runAll step as s).2 := by
  induction as generalizing s with
  | nil => exact hs
  | cons a as ih =>
    apply ih fun b hb => hallowed b (List.mem_cons_of_mem a hb)
    exact hstep a s (hallowed a List.mem_cons_self) hs

/-- A system has the same runs as the one that it refines. -/
theorem Refines.runAll (h : Refines concrete abstract Allowed R) {as : List α}
    (hallowed : ∀ a ∈ as, Allowed a) {s : σ} {t : τ} (hst : R s t) :
    (Core.runAll concrete as s).1 = (Core.runAll abstract as t).1 ∧
      R (Core.runAll concrete as s).2 (Core.runAll abstract as t).2 := by
  induction as generalizing s t with
  | nil => exact ⟨rfl, hst⟩
  | cons a as ih =>
    obtain ⟨hanswer, hnext⟩ := h a s t (hallowed a List.mem_cons_self) hst
    obtain ⟨hanswers, hlast⟩ := ih (fun b hb => hallowed b (List.mem_cons_of_mem a hb)) hnext
    exact ⟨by rw [Core.runAll, Core.runAll, hanswer, hanswers], hlast⟩

end Runs

/-- Every state that a system reaches is related to one that the system reaches which it
simulates. -/
theorem exists_reflTransGen_of_simulates {Step : σ → σ → Prop} {AStep : τ → τ → Prop}
    {R : σ → τ → Prop}
    (hstep : ∀ s s' t, R s t → Step s s' → ∃ t', Relation.ReflTransGen AStep t t' ∧ R s' t')
    {s s' : σ} {t : τ} (hst : R s t) (hrun : Relation.ReflTransGen Step s s') :
    ∃ t', Relation.ReflTransGen AStep t t' ∧ R s' t' := by
  induction hrun with
  | refl => exact ⟨t, .refl, hst⟩
  | tail _ hlast ih =>
    obtain ⟨t₁, hrun, hrel⟩ := ih
    obtain ⟨t₂, hnext, hrel'⟩ := hstep _ _ t₁ hrel hlast
    exact ⟨t₂, hrun.trans hnext, hrel'⟩

end Osm.Core
