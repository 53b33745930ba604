import Mathlib.Data.Int.Notation
import Mathlib.Data.List.Basic
import Mathlib.Data.Option.Basic
import Mathlib.Tactic.Lemma

/-!
# Interpreters

An interpreter runs commands one after the other, until one of them makes it stop; a command need
not have a result. `interpret_refines` compares two interpreters of the same commands, the first of
which may give up where the second goes on. `StackMachine.exec_code` is about the terms that are
computed on a stack.
-/

namespace Osm.Core

variable {α β ι ν ρ σ τ : Type*}

/-- What comes of commands: the interpreter goes on, or it has stopped with a status. -/
inductive Outcome (σ : Type*)
  | running (s : σ)
  | exited (status : ℤ) (s : σ)

/-- Both go on or both have stopped with the same status, in related states. -/
inductive Outcome.Rel (R : σ → τ → Prop) : Outcome σ → Outcome τ → Prop
  | running {s t} (h : R s t) : Outcome.Rel R (.running s) (.running t)
  | exited {status s t} (h : R s t) : Outcome.Rel R (.exited status s) (.exited status t)

/-- Commands are run until one of them makes the interpreter stop. -/
def interpret (round : σ → ι → Option (Outcome σ)) : σ → List ι → Option (Outcome σ)
  | s, []      => some (.running s)
  | s, c :: cs => do
    match ← round s c with
    | .running s       => interpret round s cs
    | .exited status s => return .exited status s

section Interpret

variable {round : σ → ι → Option (Outcome σ)} {round' : τ → ι → Option (Outcome τ)} {s s' : σ}
  {c : ι} {cs cs' : List ι} {status : ℤ}

lemma interpret_running (h : round s c = some (.running s')) :
    interpret round s (c :: cs) = interpret round s' cs := by
  rw [interpret, h]
  rfl

lemma interpret_exited (h : round s c = some (.exited status s')) :
    interpret round s (c :: cs) = some (.exited status s') := by
  rw [interpret, h]
  rfl

lemma interpret_none (h : round s c = none) : interpret round s (c :: cs) = none := by
  rw [interpret, h]
  rfl

/-- More commands are run if the interpreter has not stopped. -/
lemma interpret_append (cs cs' : List ι) : interpret round s (cs ++ cs') =
    (interpret round s cs).bind fun
      | .running s       => interpret round s cs'
      | .exited status s => some (.exited status s) := by
  induction cs generalizing s with
  | nil => rfl
  | cons c cs ih =>
    rw [List.cons_append]
    match hc : round s c with
    | none => rw [interpret_none hc, interpret_none hc, Option.bind_none]
    | some (.running s') => rw [interpret_running hc, interpret_running hc, ih]
    | some (.exited status s') => rw [interpret_exited hc, interpret_exited hc, Option.bind_some]

/-- An interpreter does what another one does that it simulates command by command, but for the
commands at which it gives up: then it has done what the other one does for the commands before. -/
theorem interpret_refines {R : σ → τ → Prop} {GivesUp : τ → ℤ → σ → Prop}
    (hround : ∀ c ∈ cs, ∀ s t, R s t →
      Option.Rel (Outcome.Rel R) (round s c) (round' t c) ∨
        ∃ status s', round s c = some (.exited status s') ∧ GivesUp t status s')
    {t : τ} (hst : R s t) :
    Option.Rel (Outcome.Rel R) (interpret round s cs) (interpret round' t cs) ∨
      ∃ cs' status s' t', cs' <+: cs ∧ interpret round s cs = some (.exited status s') ∧
        interpret round' t cs' = some (.running t') ∧ GivesUp t' status s' := by
  induction cs generalizing s t with
  | nil => exact .inl (.some (.running hst))
  | cons c cs ih =>
    rcases hround c List.mem_cons_self s t hst with hrel | ⟨status, s', hs, hgives⟩
    · generalize hs : round s c = o at hrel
      generalize ht : round' t c = o' at hrel
      cases hrel with
      | none =>
        rw [interpret_none hs, interpret_none ht]
        exact .inl .none
      | some hrel =>
        cases hrel with
        | running hrel =>
          rw [interpret_running hs, interpret_running ht]
          rcases ih (fun c' hc' => hround c' (List.mem_cons_of_mem c hc')) hrel with
            hrel | ⟨cs', status, s', t', hprefix, hs', ht', hgives⟩
          · exact .inl hrel
          · refine .inr ⟨c :: cs', status, s', t', ?_, hs', ?_, hgives⟩
            · exact (List.prefix_cons_inj c).mpr hprefix
            · rw [interpret_running ht, ht']
        | exited hrel =>
          rw [interpret_exited hs, interpret_exited ht]
          exact .inl (.some (.exited hrel))
    · rw [interpret_exited hs]
      exact .inr ⟨[], status, s', t, List.nil_prefix, rfl, rfl, hgives⟩

end Interpret

/-- The terms over operators with two operands. -/
inductive Expr (α β : Type*)
  | lit (a : α)
  | app (op : β) (x y : Expr α β)

namespace Expr

/-- The value of a term. -/
def eval (lit : α → ν) (app : β → ν → ν → Option ν) : Expr α β → Option ν
  | .lit a      => some (lit a)
  | .app op x y => do
    let v ← x.eval lit app
    let w ← y.eval lit app
    app op v w

/-- The commands that compute a term on a stack. The right operand comes first, so that the left one
is on the top of the stack in the end. -/
def code (litCommand : α → ι) (appCommand : β → ι) : Expr α β → List ι
  | .lit a      => [litCommand a]
  | .app op x y => y.code litCommand appCommand ++ x.code litCommand appCommand ++ [appCommand op]

end Expr

/-- Running commands is a matter of the numbers on a stack, onto which `push` puts one: a literal
pushes its value, and an operator takes two numbers for its result. -/
structure StackMachine (exec : σ → List ι → Option ρ) (push : ν → σ → σ) (lit : α → ν)
    (app : β → ν → ν → Option ν) (litCommand : α → ι) (appCommand : β → ι) : Prop where
  lit : ∀ a s cs, exec s (litCommand a :: cs) = exec (push (lit a) s) cs
  app : ∀ op v w s cs, exec (push v (push w s)) (appCommand op :: cs) =
    (app op v w).bind fun z => exec (push z s) cs

namespace StackMachine

variable {exec : σ → List ι → Option ρ} {push : ν → σ → σ} {lit : α → ν}
  {app : β → ν → ν → Option ν} {litCommand : α → ι} {appCommand : β → ι}

/-- The code of a term pushes its value. -/
theorem exec_code (h : StackMachine exec push lit app litCommand appCommand) (e : Expr α β) (s : σ)
    (cs : List ι) :
    exec s (e.code litCommand appCommand ++ cs) =
      (e.eval lit app).bind fun v => exec (push v s) cs := by
  induction e generalizing s cs with
  | lit a =>
    rw [Expr.code, List.singleton_append, h.lit]
    rfl
  | app op x y ihx ihy =>
    rw [Expr.code, List.append_assoc, List.append_assoc, ihy]
    simp only [ihx, List.singleton_append, h.app]
    rw [Option.bind_comm, Expr.eval]
    simp only [Option.bind_eq_bind, Option.bind_assoc]

/-- What is run of the code of a term has pushed numbers, if it has a result. -/
theorem exec_prefix (h : StackMachine exec push lit app litCommand appCommand) {e : Expr α β}
    {s : σ} {l : List ι} (hl : l <+: e.code litCommand appCommand) :
    (∀ cs, exec s (l ++ cs) = none) ∨
      ∃ vs : List ν, ∀ cs, exec s (l ++ cs) = exec (vs.foldr push s) cs := by
  -- the whole code is run, whether the term has a value or not
  have hwhole : ∀ (e : Expr α β) (s : σ),
      (∀ cs, exec s (e.code litCommand appCommand ++ cs) = none) ∨
      ∃ v, ∀ cs, exec s (e.code litCommand appCommand ++ cs) = exec (push v s) cs := by
    intro e s
    cases hv : e.eval lit app with
    | none => exact .inl fun cs => by rw [h.exec_code, hv, Option.bind_none]
    | some v => exact .inr ⟨v, fun cs => by rw [h.exec_code, hv, Option.bind_some]⟩
  induction e generalizing s l with
  | lit a =>
    rcases List.prefix_cons_iff.mp hl with rfl | ⟨l, rfl, hnil⟩
    · exact .inr ⟨[], fun _ => rfl⟩
    · obtain rfl : l = [] := List.prefix_nil.mp hnil
      exact .inr ⟨[lit a], h.lit a s⟩
  | app op x y ihx ihy =>
    rcases List.prefix_concat_iff.mp hl with rfl | hl
    · rcases hwhole (.app op x y) s with hnone | ⟨v, hv⟩
      · exact .inl hnone
      · exact .inr ⟨[v], hv⟩
    · rcases List.prefix_or_prefix_of_prefix hl (List.prefix_append _ _) with hl' | ⟨l, rfl⟩
      · exact ihy hl'
      · -- the right operand has been computed
        rw [List.prefix_append_right_inj] at hl
        rcases hwhole y s with hnone | ⟨w, hw⟩
        · exact .inl fun cs => by rw [List.append_assoc, hnone]
        · rcases ihx hl (s := push w s) with hnone | ⟨vs, hvs⟩
          · exact .inl fun cs => by rw [List.append_assoc, hw, hnone]
          · refine .inr ⟨vs ++ [w], fun cs => ?_⟩
            rw [List.append_assoc, hw, hvs, List.foldr_append]
            rfl

end StackMachine

end Osm.Core
