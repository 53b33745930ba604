import Mathlib.Algebra.BigOperators.Group.Finset.Piecewise
import Mathlib.Algebra.Order.BigOperators.Group.Finset
import Mathlib.Data.Fintype.BigOperators
import Mathlib.Logic.Relation
import Mathlib.Tactic.Lemma

/-!
# Programs that take and put tokens

A semaphore holds tokens. Programs take tokens, one at a time and only when there is one, and put
tokens back, in the order of their calls and in any interleaving. The calls that have been made say
how many tokens there are.
-/

namespace Osm.Core

/-- A call on a semaphore: take a token, or put one. -/
inductive SemCall (σ : Type*)
  | p (sem : σ)
  | v (sem : σ)
  deriving DecidableEq

/-- How many calls the programs have made, and the tokens. -/
@[ext]
structure Tokens (ι σ : Type*) where
  pc     : ι → ℕ
  tokens : σ → ℕ

variable {ι σ : Type*} [DecidableEq ι] [DecidableEq σ] {prog : ι → List (SemCall σ)}

/-- A program makes its next call. -/
inductive TokenStep (prog : ι → List (SemCall σ)) : Tokens ι σ → Tokens ι σ → Prop
  | p {x : Tokens ι σ} {i : ι} {sem : σ} (hnext : (prog i)[x.pc i]? = some (.p sem))
      (hpos : 0 < x.tokens sem) :
      TokenStep prog x ⟨Function.update x.pc i (x.pc i + 1),
        Function.update x.tokens sem (x.tokens sem - 1)⟩
  | v {x : Tokens ι σ} {i : ι} {sem : σ} (hnext : (prog i)[x.pc i]? = some (.v sem)) :
      TokenStep prog x ⟨Function.update x.pc i (x.pc i + 1),
        Function.update x.tokens sem (x.tokens sem + 1)⟩

/-- What programs that start with the given tokens lead to. -/
def TokenReachable (prog : ι → List (SemCall σ)) (init : σ → ℕ) (x : Tokens ι σ) : Prop :=
  Relation.ReflTransGen (TokenStep prog) ⟨fun _ => 0, init⟩ x

namespace Tokens

/-- The program has made all its calls. -/
def Finished (prog : ι → List (SemCall σ)) (x : Tokens ι σ) (i : ι) : Prop :=
  (prog i).length ≤ x.pc i

/-- The program waits for a token, and there is none. -/
def Waiting (prog : ι → List (SemCall σ)) (x : Tokens ι σ) (i : ι) : Prop :=
  ∃ sem, (prog i)[x.pc i]? = some (.p sem) ∧ x.tokens sem = 0

end Tokens

/-- How often a call has been made. -/
def made [Fintype ι] (prog : ι → List (SemCall σ)) (pc : ι → ℕ) (call : SemCall σ) : ℕ :=
  ∑ i, ((prog i).take (pc i)).count call

section Counting

variable [Fintype ι] {init : σ → ℕ} {x x' : Tokens ι σ}

lemma made_update {pc : ι → ℕ} {i : ι} {call : SemCall σ} (hnext : (prog i)[pc i]? = some call)
    (call' : SemCall σ) :
    made prog (Function.update pc i (pc i + 1)) call' =
      made prog pc call' + if call = call' then 1 else 0 := by
  have hone : ∀ j, ((prog j).take (Function.update pc i (pc i + 1) j)).count call' =
      ((prog j).take (pc j)).count call' +
        if i = j then (if call = call' then 1 else 0) else 0 := by
    intro j
    by_cases hj : i = j
    · subst hj
      rw [Function.update_self, List.take_add_one, hnext, Option.toList_some, List.count_append,
        List.count_singleton, if_pos rfl]
      simp
    · rw [Function.update_of_ne (Ne.symm hj), if_neg hj, add_zero]
  rw [made, Finset.sum_congr rfl fun j _ => hone j, Finset.sum_add_distrib, Finset.sum_ite_eq,
    if_pos (Finset.mem_univ i), made]

omit [DecidableEq ι] in
/-- No call is made more often than the programs have it. -/
lemma made_le (pc : ι → ℕ) (call : SemCall σ) :
    made prog pc call ≤ ∑ i, (prog i).count call :=
  Finset.sum_le_sum fun i _ => (List.take_sublist (pc i) (prog i)).count_le call

/-- A step keeps the balance of tokens and calls. -/
lemma TokenStep.balance (hstep : TokenStep prog x x')
    (h : ∀ sem, x.tokens sem + made prog x.pc (.p sem) = init sem + made prog x.pc (.v sem))
    (sem : σ) : x'.tokens sem + made prog x'.pc (.p sem) = init sem + made prog x'.pc (.v sem) := by
  have hsem := h sem
  cases hstep with
  | @p i taken hnext hpos =>
    rw [made_update hnext, made_update hnext]
    by_cases ht : taken = sem
    · subst ht
      simp only [Function.update_self, if_true, reduceCtorEq, if_false]
      omega
    · simpa [Function.update_of_ne (Ne.symm ht), ht] using hsem
  | @v i put hnext =>
    rw [made_update hnext, made_update hnext]
    by_cases ht : put = sem
    · subst ht
      simp only [Function.update_self, if_true, reduceCtorEq, if_false]
      omega
    · simpa [Function.update_of_ne (Ne.symm ht), ht] using hsem

lemma TokenReachable.balance (h : TokenReachable prog init x) (sem : σ) :
    x.tokens sem + made prog x.pc (.p sem) = init sem + made prog x.pc (.v sem) := by
  have hall : ∀ sem, x.tokens sem + made prog x.pc (.p sem) =
      init sem + made prog x.pc (.v sem) := by
    induction h with
    | refl => simp [made]
    | tail _ hstep ih => exact hstep.balance ih
  exact hall sem

end Counting

/-- No program makes more calls than it has. -/
lemma TokenReachable.pc_le {init : σ → ℕ} {x : Tokens ι σ} (h : TokenReachable prog init x)
    (i : ι) : x.pc i ≤ (prog i).length := by
  have hone : ∀ {pc : ι → ℕ} {j : ι} {call : SemCall σ}, (prog j)[pc j]? = some call →
      pc i ≤ (prog i).length → Function.update pc j (pc j + 1) i ≤ (prog i).length := by
    intro pc j call hnext hle
    by_cases hj : i = j
    · subst hj
      rw [Function.update_self]
      exact (List.getElem?_eq_some_iff.mp hnext).1
    · rwa [Function.update_of_ne hj]
  induction h with
  | refl => exact Nat.zero_le _
  | tail _ hstep ih =>
    cases hstep with
    | p hnext => exact hone hnext ih
    | v hnext => exact hone hnext ih

end Osm.Core
