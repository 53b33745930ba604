import Mathlib.Algebra.Order.Ring.Int
import Mathlib.Tactic.Lemma
import Mathlib.Data.Nat.Notation

/-!
# Loops with fuel

A `while` loop is given by the function that performs one round: it returns `.inl s` to go
round again from the state `s` and `.inr r` to leave the loop with the result `r`. `loop` runs
it for a bounded number of rounds and returns `none` when the bound is reached.

The total-correctness rule `loop_spec` asks for an invariant indexed by a number that decreases
in every round; it yields a result for every bound above the initial index.
-/

namespace Osm.Core

variable {σ ρ : Type*}

/-- Run a loop body at most `fuel` times. -/
def loop (body : σ → σ ⊕ ρ) : ℕ → σ → Option ρ
  | 0,        _ => none
  | fuel + 1, s =>
    match body s with
    | .inl s' => loop body fuel s'
    | .inr r  => some r

@[simp] lemma loop_zero (body : σ → σ ⊕ ρ) (s : σ) : loop body 0 s = none := rfl

lemma loop_inl {body : σ → σ ⊕ ρ} {s s' : σ} (h : body s = .inl s') (fuel : ℕ) :
    loop body (fuel + 1) s = loop body fuel s' := by simp [loop, h]

lemma loop_inr {body : σ → σ ⊕ ρ} {s : σ} {r : ρ} (h : body s = .inr r) (fuel : ℕ) :
    loop body (fuel + 1) s = some r := by simp [loop, h]

/-- A loop in which every round goes on to another one does not end. -/
theorem loop_none {body : σ → σ ⊕ ρ} (Inv : σ → Prop)
    (again : ∀ s, Inv s → ∃ s', body s = .inl s' ∧ Inv s') :
    ∀ (fuel : ℕ) (s : σ), Inv s → loop body fuel s = none := by
  intro fuel
  induction fuel with
  | zero => exact fun _ _ => rfl
  | succ fuel ih =>
    intro s hs
    obtain ⟨s', hb, hs'⟩ := again s hs
    rw [loop_inl hb]
    exact ih s' hs'

/-- With more fuel the result is the same. -/
lemma loop_mono {body : σ → σ ⊕ ρ} {fuel fuel' : ℕ} {s : σ} {r : ρ} (hle : fuel ≤ fuel')
    (h : loop body fuel s = some r) : loop body fuel' s = some r := by
  induction fuel generalizing fuel' s with
  | zero => cases h
  | succ fuel ih =>
    obtain ⟨fuel', rfl⟩ := Nat.exists_eq_add_of_le' (show 1 ≤ fuel' by omega)
    cases hb : body s with
    | inl s' =>
      rw [loop_inl hb] at h ⊢
      exact ih (by omega) h
    | inr r' =>
      rw [loop_inr hb] at h ⊢
      exact h

lemma loop_unique {body : σ → σ ⊕ ρ} {fuel fuel' : ℕ} {s : σ} {r r' : ρ}
    (h : loop body fuel s = some r) (h' : loop body fuel' s = some r') : r = r' := by
  have hmax := loop_mono (le_max_left fuel fuel') h
  have hmax' := loop_mono (le_max_right fuel fuel') h'
  exact Option.some.inj (hmax.symm.trans hmax')

/-- A loop whose rounds are those of another loop, seen through a map of the states, has the result of
the other loop. -/
theorem loop_map {σ' ρ' : Type*} {body : σ → σ ⊕ ρ} {body' : σ' → σ' ⊕ ρ'} (Inv : σ' → Prop)
    (f : σ' → σ) (g : ρ' → ρ) (round : ∀ s, Inv s → body (f s) = (body' s).map f g)
    (again : ∀ s s', Inv s → body' s = .inl s' → Inv s') :
    ∀ (fuel : ℕ) (s : σ'), Inv s → loop body fuel (f s) = (loop body' fuel s).map g := by
  intro fuel
  induction fuel with
  | zero => exact fun _ _ => rfl
  | succ fuel ih =>
    intro s hs
    have hround := round s hs
    cases hb : body' s with
    | inl s' =>
      rw [hb] at hround
      rw [loop_inl hb, loop_inl hround]
      exact ih s' (again s s' hs hb)
    | inr r =>
      rw [hb] at hround
      rw [loop_inr hb, loop_inr hround]
      rfl

/-- What one round of a loop has to establish: the invariant again at a smaller index, or the
postcondition. -/
def RoundOk (Inv : ℕ → σ → Prop) (Post : ρ → Prop) (j : ℕ) : σ ⊕ ρ → Prop
  | .inl s' => ∃ j' < j, Inv j' s'
  | .inr r  => Post r

/-- Total correctness of a loop: an indexed invariant that every round keeps at a smaller index
gives a result satisfying the postcondition, whenever the fuel exceeds the index. -/
theorem loop_spec {body : σ → σ ⊕ ρ} (Inv : ℕ → σ → Prop) (Post : ρ → Prop)
    (round : ∀ j s, Inv j s → RoundOk Inv Post j (body s)) :
    ∀ (fuel j : ℕ) (s : σ), Inv j s → j < fuel → ∃ r, loop body fuel s = some r ∧ Post r := by
  intro fuel
  induction fuel with
  | zero => intro j s _ hj; omega
  | succ fuel ih =>
    intro j s hs hj
    have hround := round j s hs
    cases hb : body s with
    | inl s' =>
      rw [hb] at hround
      obtain ⟨j', hlt, hs'⟩ := hround
      obtain ⟨r, hr, hpost⟩ := ih j' s' hs' (by omega)
      exact ⟨r, by rw [loop_inl hb, hr], hpost⟩
    | inr r =>
      rw [hb] at hround
      exact ⟨r, loop_inr hb fuel, hround⟩

/-- Partial correctness of a loop: whatever every round keeps holds of the result. -/
theorem loop_partial {body : σ → σ ⊕ ρ} (Inv : σ → Prop) (Post : ρ → Prop)
    (again : ∀ s s', Inv s → body s = .inl s' → Inv s')
    (leave : ∀ s r, Inv s → body s = .inr r → Post r) :
    ∀ (fuel : ℕ) (s : σ) (r : ρ), Inv s → loop body fuel s = some r → Post r := by
  intro fuel
  induction fuel with
  | zero => intro s r _ hr; simp at hr
  | succ fuel ih =>
    intro s r hs hr
    cases hb : body s with
    | inl s' =>
      rw [loop_inl hb] at hr
      exact ih s' r (again s s' hs hb) hr
    | inr r' =>
      rw [loop_inr hb] at hr
      exact Option.some.inj hr ▸ leave s r' hs hb

end Osm.Core
