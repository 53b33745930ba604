import Osm.Core.Ownership
import Osm.Kernel.SemaphoreOwners

/-!
# Places that hold semaphores

A program keeps pointers to its semaphores at places: the rows of its tables, or the stack of a
thread. A call that lowers a semaphore begins at a place, reads the pointer there some time later,
and then calls `semaphore_P`. While every semaphore is held at one place, and none is given back at
a place at which a call is in progress, nobody sleeps on a semaphore that has been given back.
-/

namespace Osm.Kernel

open Osm.Core

/-- Where a thread is in a call that lowers the semaphore at a place: before it has read the
pointer, with the pointer, or in `semaphore_P`. -/
inductive Call (P : Type) where
  | outside
  | entered (p : P)
  | lowering (p : P) (sem : Sem)
  | inside (p : P) (sem : Sem)

namespace Call

variable {P : Type}

/-- The call has begun at the place. -/
def Uses (p : P) : Call P → Prop
  | outside      => False
  | entered q    => q = p
  | lowering q _ => q = p
  | inside q _   => q = p

/-- The call has read the pointer at the place. -/
def Has (p : P) (sem : Sem) : Call P → Prop
  | outside         => False
  | entered _       => False
  | lowering q sem' => q = p ∧ sem' = sem
  | inside q sem'   => q = p ∧ sem' = sem

lemma Has.uses {p : P} {sem : Sem} {c : Call P} (h : c.Has p sem) : c.Uses p := by
  cases c with
  | outside => exact h
  | entered => exact h.elim
  | lowering => exact h.1
  | inside => exact h.1

end Call

/-- The semaphores, what is held at the places, and the calls of the threads. -/
structure Holders (P : Type) extends SemState where
  held : P → Option Sem
  call : ℤ → Call P

/-- The rows of the table that can be handed out. -/
def SemState.freeRows (m : SemState) : Finset Sem :=
  Finset.univ.filter fun sem => (m.semaphoreTable sem).creator = -1

lemma SemState.mem_freeRows {m : SemState} {sem : Sem} :
    sem ∈ m.freeRows ↔ (m.semaphoreTable sem).creator = -1 := by
  simp [SemState.freeRows]

lemma SemState.notMem_freeRows {m : SemState} {sem : Sem} : sem ∉ m.freeRows ↔ m.Created sem := by
  rw [mem_freeRows]
  rfl

/-- A change of a value, or of the threads, hands no semaphore out and gives none back. -/
lemma freeRows_setValue {m : SemState} {sem : Sem} {value : ℤ} {kernel : State} :
    SemState.freeRows { m.setValue sem value with kernel } = m.freeRows := by
  ext sem'
  rw [← not_iff_not, SemState.notMem_freeRows, SemState.notMem_freeRows]
  exact SemState.created_setValue

/-- A semaphore is held at one place and has been handed out; a call uses a place that holds a
semaphore, and has its pointer; and threads sleep on semaphores in calls only. -/
structure HoldersInv {P : Type} (n : ℕ) (base : UInt32) (H : Holders P) : Prop where
  kernel    : Reachable n H.kernel
  exclusive : Exclusive H.freeRows fun p sem => H.held p = some sem
  uses      : ∀ t p, (H.call t).Uses p → H.held p ≠ none
  has       : ∀ t p sem, (H.call t).Has p sem → H.held p = some sem
  asleep    : ∀ t sem, H.SleepsOn base t sem → ∃ p, H.call t = .inside p sem

namespace HoldersInv

variable {P : Type} {n : ℕ} {base : UInt32} {H : Holders P} {m' : SemState}
  {cpu : Fin configMaxCpus} {t : ℤ} {p : P} {sem : Sem}

/-- A thread that does not sleep on a semaphore goes on in its call, or leaves it. -/
lemma setCall {c : Call P} (h : HoldersInv n base H) (hawake : ∀ sem, ¬ H.SleepsOn base t sem)
    (huses : ∀ p, c.Uses p → H.held p ≠ none) (hhas : ∀ p sem, c.Has p sem → H.held p = some sem) :
    HoldersInv n base { H with call := Function.update H.call t c } := by
  have hother : ∀ t', t' ≠ t → Function.update H.call t c t' = H.call t' :=
    fun t' ht => Function.update_of_ne ht ..
  have huses' : ∀ t' p, (Function.update H.call t c t').Uses p → H.held p ≠ none := by
    intro t' p
    by_cases ht : t' = t
    · rw [ht, Function.update_self]
      exact huses p
    · rw [hother t' ht]
      exact h.uses t' p
  have hhas' : ∀ t' p sem, (Function.update H.call t c t').Has p sem → H.held p = some sem := by
    intro t' p sem
    by_cases ht : t' = t
    · rw [ht, Function.update_self]
      exact hhas p sem
    · rw [hother t' ht]
      exact h.has t' p sem
  have hasleep : ∀ t' sem, H.SleepsOn base t' sem →
      ∃ p, Function.update H.call t c t' = .inside p sem := by
    intro t' sem hs
    by_cases ht : t' = t
    · subst ht
      exact absurd hs (hawake sem)
    · rw [hother t' ht]
      exact h.asleep t' sem hs
  exact ⟨h.kernel, h.exclusive, huses', hhas', hasleep⟩

/-- A thread that is not in `semaphore_P` does not sleep on a semaphore. -/
lemma not_sleepsOn (h : HoldersInv n base H) (hcall : ∀ p sem, H.call t ≠ .inside p sem)
    (sem : Sem) : ¬ H.SleepsOn base t sem := by
  intro hs
  obtain ⟨p, hp⟩ := h.asleep t sem hs
  exact hcall p sem hp

/-- A call begins at a place that holds a semaphore. -/
lemma enter (h : HoldersInv n base H) (hcall : H.call t = .outside) (hheld : H.held p ≠ none) :
    HoldersInv n base { H with call := Function.update H.call t (.entered p) } := by
  refine h.setCall (h.not_sleepsOn (by simp [hcall])) ?_ fun p sem hhas => hhas.elim
  rintro p rfl
  exact hheld

/-- A call reads the pointer. -/
lemma look (h : HoldersInv n base H) (hcall : H.call t = .entered p)
    (hheld : ∀ sem', H.held p = some sem' → sem' = sem) :
    HoldersInv n base { H with call := Function.update H.call t (.lowering p sem) } := by
  have huses : H.held p ≠ none := h.uses t p (by rw [hcall, Call.Uses])
  obtain ⟨sem', hsem'⟩ := Option.ne_none_iff_exists'.mp huses
  have heq := hheld sem' hsem'
  subst heq
  refine h.setCall (h.not_sleepsOn (by simp [hcall])) ?_ ?_
  · rintro p rfl
    exact huses
  · rintro p sem ⟨rfl, rfl⟩
    exact hsem'

/-- `semaphore_P` has returned. -/
lemma leave (h : HoldersInv n base H) (hcall : H.call t = .inside p sem)
    (hawake : ¬ H.SleepsOn base t sem) :
    HoldersInv n base { H with call := Function.update H.call t .outside } := by
  refine h.setCall (fun sem' hs => ?_) (fun p huses => huses.elim) fun p sem hhas => hhas.elim
  obtain ⟨p', hp'⟩ := h.asleep t sem' hs
  rw [hcall] at hp'
  cases hp'
  exact hawake hs

/-- A step that hands no semaphore out and gives none back, with the calls that enter
`semaphore_P` in it. -/
lemma advance {a : SemAction} {call : ℤ → Call P} (h : HoldersInv n base H)
    (hinj : Function.Injective (semaphoreAddress base)) (hne : ∀ sem, semaphoreAddress base sem ≠ 0)
    (hstep : OwnerStep n base H.toSemState a m') (hfree : m'.freeRows = H.freeRows)
    (hcall : ∀ t, call t = H.call t ∨
      ∃ p sem, H.call t = .lowering p sem ∧ call t = .inside p sem)
    (hp : ∀ t sem, a = .p t sem → ∃ p, call t = .inside p sem) :
    HoldersInv n base { H with toSemState := m', call } := by
  have hexclusive : Exclusive m'.freeRows fun p sem => H.held p = some sem := by
    rw [hfree]
    exact h.exclusive
  have huses : ∀ t p, (call t).Uses p → H.held p ≠ none := by
    intro t p huses
    apply h.uses t p
    rcases hcall t with heq | ⟨p', sem, hold, hnew⟩
    · rwa [heq] at huses
    · rw [hnew] at huses
      rwa [hold]
  have hhas : ∀ t p sem, (call t).Has p sem → H.held p = some sem := by
    intro t p sem hhas
    apply h.has t p sem
    rcases hcall t with heq | ⟨p', sem', hold, hnew⟩
    · rwa [heq] at hhas
    · rw [hnew] at hhas
      rwa [hold]
  have hasleep : ∀ t sem, m'.SleepsOn base t sem → ∃ p, call t = .inside p sem := by
    intro t sem hs
    rcases hstep.sleepsOn h.kernel hinj hne hs with hold | ha
    · obtain ⟨p, hp⟩ := h.asleep t sem hold
      rcases hcall t with heq | ⟨p', sem', hlowering, -⟩
      · exact ⟨p, heq.trans hp⟩
      · rw [hlowering] at hp
        cases hp
    · exact hp t sem ha
  exact ⟨hstep.reachable h.kernel, hexclusive, huses, hhas, hasleep⟩

variable [DecidableEq P]

/-- `semaphore_create` at a place that holds nothing. -/
lemma create {value : ℤ} {res : Option Sem} (h : HoldersInv n base H) (hcpu : cpu < n)
    (hfree : H.held p = none)
    (hexec : semaphoreCreate H.toSemState cpu value = some (m', res)) :
    HoldersInv n base { H with toSemState := m', held := Function.update H.held p res } := by
  have hkernel := semaphoreCreate_kernel hexec
  have hother : ∀ p', H.held p' ≠ none → Function.update H.held p res p' = H.held p' := by
    intro p' hp'
    refine Function.update_of_ne ?_ ..
    rintro rfl
    exact hp' hfree
  have hexclusive : Exclusive m'.freeRows
      fun p' sem => Function.update H.held p res p' = some sem := by
    obtain ⟨-, ⟨rfl, rfl⟩ | ⟨sem, rfl, hsem, rfl⟩⟩ := semaphoreCreate_cases hexec
    · rw [← hfree, Function.update_eq_self]
      exact h.exclusive
    · have hthread := h.kernel.currentThread_ne hcpu
      have hnew : ∀ p' sem', Function.update H.held p (some sem) p' = some sem' →
          H.held p' = some sem' ∨ p' = p ∧ sem' = sem := by
        intro p' sem' hp'
        by_cases hne : p' = p
        · subst hne
          rw [Function.update_self, Option.some.injEq] at hp'
          exact .inr ⟨rfl, hp'.symm⟩
        · rw [Function.update_of_ne hne] at hp'
          exact .inl hp'
      refine h.exclusive.acquire (SemState.mem_freeRows.mpr hsem) ?_ ?_ hnew
      · intro sem' hsem'
        rw [SemState.mem_freeRows] at hsem' ⊢
        by_cases hne : sem' = sem
        · rwa [hne]
        · simpa [hne] using hsem'
      · rw [SemState.notMem_freeRows]
        simpa [SemState.Created] using hthread
  have huses : ∀ t p', (H.call t).Uses p' → Function.update H.held p res p' ≠ none := by
    intro t p' huses
    rw [hother p' (h.uses t p' huses)]
    exact h.uses t p' huses
  have hhas : ∀ t p' sem, (H.call t).Has p' sem → Function.update H.held p res p' = some sem := by
    intro t p' sem hhas
    rw [hother p' (h.uses t p' hhas.uses)]
    exact h.has t p' sem hhas
  refine ⟨hkernel ▸ h.kernel, hexclusive, huses, hhas, fun t sem hs => ?_⟩
  rw [SemState.SleepsOn, hkernel] at hs
  exact h.asleep t sem hs

/-- `semaphore_destroy` at a place at which no call is in progress. -/
lemma destroy (h : HoldersInv n base H) (hheld : H.held p = some sem)
    (hcond : ∀ t, ¬ (H.call t).Uses p) :
    HoldersInv n base
      { H with
        toSemState := semaphoreDestroy H.toSemState sem
        held       := Function.update H.held p none } := by
  have hold : ∀ p' sem', Function.update H.held p none p' = some sem' →
      H.held p' = some sem' ∧ p' ≠ p := by
    intro p' sem' hp'
    by_cases hne : p' = p
    · rw [hne, Function.update_self] at hp'
      cases hp'
    · rw [Function.update_of_ne hne] at hp'
      exact ⟨hp', hne⟩
  have hfree : ∀ sem' ∈ (semaphoreDestroy H.toSemState sem).freeRows,
      sem' ∈ H.freeRows ∨ sem' = sem := by
    intro sem' hsem'
    by_cases hne : sem' = sem
    · exact .inr hne
    · rw [SemState.mem_freeRows] at hsem' ⊢
      left
      simpa [semaphoreDestroy, hne] using hsem'
  have hother : ∀ t p', (H.call t).Uses p' → Function.update H.held p none p' = H.held p' := by
    intro t p' huses
    refine Function.update_of_ne ?_ ..
    rintro rfl
    exact hcond t huses
  have huses : ∀ t p', (H.call t).Uses p' → Function.update H.held p none p' ≠ none := by
    intro t p' huses
    rw [hother t p' huses]
    exact h.uses t p' huses
  have hhas : ∀ t p' sem', (H.call t).Has p' sem' →
      Function.update H.held p none p' = some sem' := by
    intro t p' sem' hhas
    rw [hother t p' hhas.uses]
    exact h.has t p' sem' hhas
  exact ⟨h.kernel, h.exclusive.release hheld hfree hold, huses, hhas, h.asleep⟩

end HoldersInv

end Osm.Kernel
