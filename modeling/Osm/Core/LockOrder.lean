import Mathlib.Logic.Relation
import Mathlib.Order.Basic

/-!
# Locks in an order

Threads run programs that take and release locks. A program is given by its uses of the locks and
the choices between them. It respects an order of the locks when it takes a lock only while all the
locks it has are below it. If all programs do, there is never a cycle of threads each of which waits
for a lock that the next one has; and if a program releases on every path the locks it has taken,
no thread that has returned has a lock.
-/

namespace Osm.Core

variable {κ α β τ : Type}

/-- A program, as far as it uses locks. -/
inductive LockProg (κ α : Type) : Type 1 where
  | ret (a : α)
  | take (l : κ) (next : LockProg κ α)
  | release (l : κ) (next : LockProg κ α)
  | destroy (l : κ) (next : LockProg κ α)
  | choose {ι : Type} (next : ι → LockProg κ α)

namespace LockProg

/-- Run a program and go on with its result. -/
def bind : LockProg κ α → (α → LockProg κ β) → LockProg κ β
  | ret a, f          => f a
  | take l next, f    => take l (next.bind f)
  | release l next, f => release l (next.bind f)
  | destroy l next, f => destroy l (next.bind f)
  | choose next, f    => choose fun i => (next i).bind f

instance : Monad (LockProg κ) where
  pure := ret
  bind := bind

/-- Take a lock. -/
def lock (l : κ) : LockProg κ Unit := take l (ret ())

/-- Release a lock. -/
def unlock (l : κ) : LockProg κ Unit := release l (ret ())

/-- Destroy a lock, which nobody can take any more. -/
def drop (l : κ) : LockProg κ Unit := destroy l (ret ())

/-- A value that does not depend on the locks. -/
def pick (α : Type) : LockProg κ α := choose ret

/-! ### The order -/

variable {ρ : Type} [Preorder ρ]

/-- From the given locks on, the program takes locks in the order of their ranks, and releases only
locks that it has; it ends with a result and locks that satisfy a predicate. -/
def Respects (rank : κ → ρ) [DecidableEq κ] :
    LockProg κ α → (α → List κ → Prop) → List κ → Prop
  | ret a, post, held          => post a held
  | take l next, post, held    => (∀ l' ∈ held, rank l' < rank l) ∧ next.Respects rank post (l :: held)
  | release l next, post, held => l ∈ held ∧ next.Respects rank post (held.erase l)
  | destroy l next, post, held => l ∈ held ∧ next.Respects rank post (held.erase l)
  | choose next, post, held    => ∀ i, (next i).Respects rank post held

variable [DecidableEq κ] {rank : κ → ρ} {post : α → List κ → Prop} {held : List κ}

@[simp] lemma respects_pure {a : α} :
    (pure a : LockProg κ α).Respects rank post held ↔ post a held := Iff.rfl

@[simp] lemma respects_bind {p : LockProg κ β} {f : β → LockProg κ α} :
    (p >>= f).Respects rank post held ↔
      p.Respects rank (fun b held => (f b).Respects rank post held) held := by
  change (p.bind f).Respects rank post held ↔ _
  induction p generalizing held with
  | ret b => exact Iff.rfl
  | take l next ih => exact and_congr_right fun _ => ih
  | release l next ih => exact and_congr_right fun _ => ih
  | destroy l next ih => exact and_congr_right fun _ => ih
  | choose next ih => exact forall_congr' fun i => ih i

@[simp] lemma respects_lock {l : κ} {post : Unit → List κ → Prop} :
    (lock l).Respects rank post held ↔ (∀ l' ∈ held, rank l' < rank l) ∧ post () (l :: held) :=
  Iff.rfl

@[simp] lemma respects_unlock {l : κ} {post : Unit → List κ → Prop} :
    (unlock l).Respects rank post held ↔ l ∈ held ∧ post () (held.erase l) := Iff.rfl

@[simp] lemma respects_drop {l : κ} {post : Unit → List κ → Prop} :
    (drop l).Respects rank post held ↔ l ∈ held ∧ post () (held.erase l) := Iff.rfl

@[simp] lemma respects_pick :
    (pick α : LockProg κ α).Respects rank post held ↔ ∀ a, post a held := Iff.rfl

@[simp] lemma respects_ite {c : Prop} [Decidable c] {p q : LockProg κ α} :
    (if c then p else q).Respects rank post held ↔
      if c then p.Respects rank post held else q.Respects rank post held := by
  split <;> exact Iff.rfl

end LockProg

/-! ### Threads -/

/-- The semaphores used as locks, and for every thread the locks it has taken and not released and
what is left of its program. -/
structure LockState (τ κ : Type) where
  value : κ → ℕ
  held  : τ → List κ
  prog  : τ → LockProg κ Unit

namespace LockState

/-- A thread goes on with a program and has the given locks. -/
def move [DecidableEq τ] (s : LockState τ κ) (t : τ) (held : List κ) (prog : LockProg κ Unit) : LockState τ κ :=
  { s with held := Function.update s.held t held, prog := Function.update s.prog t prog }

/-- Assign to a semaphore. -/
def setValue [DecidableEq κ] (s : LockState τ κ) (l : κ) (value : ℕ) : LockState τ κ :=
  { s with value := Function.update s.value l value }

/-- A thread waits for a lock that another one has taken and not released. -/
def WaitsFor (s : LockState τ κ) (t u : τ) : Prop :=
  ∃ l next, s.prog t = .take l next ∧ s.value l = 0 ∧ l ∈ s.held u

/-- All locks are free and all threads have returned. -/
structure Start (s : LockState τ κ) : Prop where
  value : ∀ l, s.value l = 1
  held  : ∀ t, s.held t = []
  prog  : ∀ t, s.prog t = .ret ()

end LockState

/-- The steps of the threads: a thread that has returned begins one of the operations. -/
inductive LockStep [DecidableEq τ] [DecidableEq κ] (ops : LockProg κ Unit → Prop) :
    LockState τ κ → LockState τ κ → Prop where
  | start {s : LockState τ κ} {t prog} (hprog : s.prog t = .ret ()) (hop : ops prog) :
      LockStep ops s (s.move t (s.held t) prog)
  | take {s : LockState τ κ} {t l next} (hprog : s.prog t = .take l next) (hvalue : 0 < s.value l) :
      LockStep ops s ((s.setValue l (s.value l - 1)).move t (l :: s.held t) next)
  | release {s : LockState τ κ} {t l next} (hprog : s.prog t = .release l next) :
      LockStep ops s ((s.setValue l (s.value l + 1)).move t ((s.held t).erase l) next)
  | destroy {s : LockState τ κ} {t l next} (hprog : s.prog t = .destroy l next) :
      LockStep ops s (s.move t ((s.held t).erase l) next)
  | choose {s : LockState τ κ} {t} {ι : Type} {next : ι → LockProg κ Unit} {i}
      (hprog : s.prog t = .choose next) : LockStep ops s (s.move t (s.held t) (next i))

/-- The runs of the threads. -/
def LockRun [DecidableEq τ] [DecidableEq κ] (ops : LockProg κ Unit → Prop) :
    LockState τ κ → LockState τ κ → Prop :=
  Relation.ReflTransGen (LockStep ops)

variable [DecidableEq τ] [DecidableEq κ] {ρ : Type} [Preorder ρ] {rank : κ → ρ}
  {ops : LockProg κ Unit → Prop} {s s' : LockState τ κ} {t u : τ}

/-- What is left of every program respects the order and releases all locks. -/
def LockState.Ordered (rank : κ → ρ) (s : LockState τ κ) : Prop :=
  ∀ t, (s.prog t).Respects rank (fun _ held => held = []) (s.held t)

omit [DecidableEq τ] in
lemma LockState.Start.ordered (h : s.Start) : s.Ordered rank := by
  intro t
  rw [h.prog, h.held]
  rfl

lemma LockState.Ordered.move {held : List κ} {prog : LockProg κ Unit} (h : s.Ordered rank)
    (hprog : prog.Respects rank (fun _ held => held = []) held) :
    (s.move t held prog).Ordered rank := by
  intro u
  by_cases hut : u = t
  · subst hut
    simpa only [LockState.move, Function.update_self] using hprog
  · simpa only [LockState.move, Function.update_of_ne hut] using h u

lemma LockState.Ordered.step (h : s.Ordered rank)
    (hops : ∀ prog, ops prog → prog.Respects rank (fun _ held => held = []) [])
    (hstep : LockStep ops s s') : s'.Ordered rank := by
  cases hstep with
  | @start t prog hprog hop =>
    have hnil := h t
    rw [hprog] at hnil
    rw [show s.held t = [] from hnil]
    exact h.move (hops prog hop)
  | @take t l next hprog hvalue =>
    have hrest := h t
    rw [hprog] at hrest
    exact LockState.Ordered.move (s := s.setValue l _) h hrest.2
  | @release t l next hprog =>
    have hrest := h t
    rw [hprog] at hrest
    exact LockState.Ordered.move (s := s.setValue l _) h hrest.2
  | @destroy t l next hprog =>
    have hrest := h t
    rw [hprog] at hrest
    exact h.move hrest.2
  | @choose t ι next i hprog =>
    have hrest := h t
    rw [hprog] at hrest
    exact h.move (hrest i)

lemma LockRun.ordered {s₀ : LockState τ κ} (hstart : s₀.Start)
    (hops : ∀ prog, ops prog → prog.Respects rank (fun _ held => held = []) [])
    (hrun : LockRun ops s₀ s) : s.Ordered rank := by
  induction hrun with
  | refl => exact hstart.ordered
  | tail _ hstep ih => exact ih.step hops hstep

omit [DecidableEq τ] in
/-- A thread that another one waits for waits for a higher lock itself. -/
lemma LockState.Ordered.rank_lt (h : s.Ordered rank) {l l' : κ} {next : LockProg κ Unit}
    (hheld : l ∈ s.held u) (hprog : s.prog u = .take l' next) : rank l < rank l' := by
  have hu := h u
  rw [hprog] at hu
  exact hu.1 l hheld

omit [DecidableEq τ] in
/-- No thread waits for itself through others. -/
lemma LockState.Ordered.not_circular (h : s.Ordered rank) :
    ¬ Relation.TransGen s.WaitsFor t t := by
  have hrank : ∀ {u l' next'}, Relation.TransGen s.WaitsFor t u → s.prog u = .take l' next' →
      ∃ l next, s.prog t = .take l next ∧ rank l < rank l' := by
    intro u l' next' hwaits
    induction hwaits generalizing l' next' with
    | single hwait =>
      obtain ⟨l, next, hprog, -, hheld⟩ := hwait
      exact fun hprog' => ⟨l, next, hprog, h.rank_lt hheld hprog'⟩
    | tail _ hwait ih =>
      obtain ⟨l₁, next₁, hprog₁, -, hheld⟩ := hwait
      intro hprog'
      obtain ⟨l, next, hprog, hlt⟩ := ih hprog₁
      exact ⟨l, next, hprog, hlt.trans (h.rank_lt hheld hprog')⟩
  intro hcircle
  obtain ⟨l', next', hprog'⟩ : ∃ l next, s.prog t = .take l next := by
    obtain ⟨u, ⟨l, next, hprog, -⟩, -⟩ := Relation.TransGen.head'_iff.mp hcircle
    exact ⟨l, next, hprog⟩
  obtain ⟨l, next, hprog, hlt⟩ := hrank hcircle hprog'
  rw [hprog'] at hprog
  obtain ⟨rfl, -⟩ := LockProg.take.inj hprog
  exact lt_irrefl _ hlt

omit [DecidableEq τ] in
/-- A thread that has returned has no lock. -/
lemma LockState.Ordered.held_eq_nil (h : s.Ordered rank) (hprog : s.prog t = .ret ()) :
    s.held t = [] := by
  have ht := h t
  rwa [hprog] at ht

end Osm.Core
