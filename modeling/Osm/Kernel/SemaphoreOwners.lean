import Osm.Kernel.Semaphore
import Osm.Kernel.Waiters

/-!
# Semaphores and their owners

The rows of the semaphore table are handed out by `semaphore_create` and given back by
`semaphore_destroy`, which looks neither at the value nor at the threads that sleep on the row. Here
is what any use of the semaphores does to the threads: they begin to sleep on a row only in
`semaphore_P`.
-/

namespace Osm.Kernel

/-- The calls of the semaphore functions; anything else is `other`. -/
inductive SemAction where
  | create (res : Option Sem)
  | destroy (sem : Sem)
  | p (t : ℤ) (sem : Sem)
  | v (sem : Sem)
  | other

/-- The threads of a machine with `n` CPUs create, destroy, lower and raise any semaphores, and the
kernel does anything else with threads but make them sleep on a semaphore. -/
inductive OwnerStep (n : ℕ) (base : UInt32) : SemState → SemAction → SemState → Prop where
  | create {m m' : SemState} {cpu : Fin configMaxCpus} {value : ℤ} {res : Option Sem}
      (hexec : semaphoreCreate m cpu value = some (m', res)) :
      OwnerStep n base m (.create res) m'
  | destroy {m : SemState} {sem : Sem} : OwnerStep n base m (.destroy sem) (semaphoreDestroy m sem)
  | p {m m' : SemState} {cpu : Fin configMaxCpus} {sem : Sem}
      (ha : (Action.sleepqAdd cpu (semaphoreAddress base sem)).Enabled n m.kernel)
      (hexec : semaphoreP base m cpu sem = some m') :
      OwnerStep n base m (.p (m.kernel.currentThread cpu) sem) m'
  | v {m m' : SemState} {sem : Sem} (hexec : semaphoreV base m sem = some m') :
      OwnerStep n base m (.v sem) m'
  | kernel {m : SemState} {s' : State} {a : Action} (ha : a.Enabled n m.kernel)
      (helse : ∀ cpu sem, a ≠ .sleepqAdd cpu (semaphoreAddress base sem))
      (hexec : a.exec m.kernel = some s') :
      OwnerStep n base m .other { m with kernel := s' }

/-- The thread sleeps on the semaphore. -/
def SemState.SleepsOn (base : UInt32) (m : SemState) (t : ℤ) (sem : Sem) : Prop :=
  (m.kernel.threadTable t).sleepsOn = semaphoreAddress base sem

/-- An action makes only the current thread sleep, on its own resource. -/
lemma Models.exec_sleepsOn {n : ℕ} {s s' : State} {q : Threads} {a : Action} (h : Models n s q)
    (hpt : ∀ t, q.pagetable t = 0) (ha : a.Enabled n s) (hexec : a.exec s = some s') (t : ℤ) :
    (s'.threadTable t).sleepsOn = (s.threadTable t).sleepsOn ∨
      (s'.threadTable t).sleepsOn = 0 ∨
      ∃ cpu, a = .sleepqAdd cpu (s'.threadTable t).sleepsOn ∧ t = s.currentThread cpu := by
  have hold := h.rep.sleepsOn t
  have hq : ∀ {s'' : State} {q' : Threads}, a.exec s = some s'' → Models n s'' q' →
      (s'.threadTable t).sleepsOn = q'.sleepsOn t := by
    intro s'' q' hs'' hq'
    rw [← hq'.rep.sleepsOn, Option.some.inj (hexec.symm.trans hs'')]
  cases a with
  | threadCreate =>
    cases hfree : findFreeTid s with
    | none =>
      have hsame : (Kernel.threadCreate s).1 = s := by simp [Kernel.threadCreate, hfree]
      rw [Action.exec, hsame, Option.some.injEq] at hexec
      exact .inl (by rw [hexec])
    | some u =>
      have hst := (Represents.findFreeTid_some hfree).2.2
      rw [h.rep.state] at hst
      rw [hq rfl (h.threadCreate hfree), Threads.create_sleepsOn h.inv hst, ← hold]
      exact .inl rfl
  | threadRun u =>
    have hst : q.state u = .nonready := h.rep.state u ▸ ha
    obtain ⟨s'', hs'', h'⟩ := h.threadRun ((h.inv.threadOk u).nonready hst) hst
    rw [hq hs'' h', hold]
    exact .inl rfl
  | schedulerSchedule cpu =>
    obtain ⟨s'', hs'', h'⟩ := h.schedulerSchedule ha
    rw [hq hs'' h', hold, Threads.schedule_sleepsOn]
    exact .inl rfl
  | sleepqAdd cpu r =>
    obtain ⟨-, hidle, hst, hoff, hr⟩ := ha
    rw [h.rep.state] at hst
    have hzero := h.sleepsOn_eq_zero hoff
    obtain ⟨s'', hs'', h'⟩ := h.sleepqAdd (h.rep.current cpu).symm hr hidle hst hzero
    rw [hq hs'' h', hold, Threads.sleep_sleepsOn]
    by_cases ht : t = s.currentThread cpu
    · subst ht
      rw [Function.update_self]
      exact .inr (.inr ⟨cpu, rfl, rfl⟩)
    · rw [Function.update_of_ne ht]
      exact .inl rfl
  | sleepqWake r =>
    obtain ⟨s'', hs'', h'⟩ := h.sleepqWake r
    rw [hq hs'' h', hold, Threads.wake_eq_foldl]
    exact (Threads.foldl_release_sleepsOn _ q t).imp_right .inl
  | sleepqWakeAll r =>
    obtain ⟨s'', hs'', h'⟩ := h.sleepqWakeAll r
    rw [hq hs'' h', hold]
    exact (Threads.foldl_release_sleepsOn _ q t).imp_right .inl
  | threadFinish cpu =>
    obtain ⟨-, hst, hoff⟩ := ha
    rw [h.rep.state, h.rep.current] at hst
    have hzero := h.sleepsOn_eq_zero hoff
    rw [h.rep.current] at hzero
    obtain ⟨s'', hs'', h'⟩ := h.threadFinish hst hzero (hpt _)
    rw [hq hs'' h', hold]
    exact .inl rfl

/-- A thread begins to sleep on a semaphore only when it calls `semaphore_P` on it. -/
lemma OwnerStep.sleepsOn {n : ℕ} {base : UInt32} {m m' : SemState} {a : SemAction}
    (h : OwnerStep n base m a m') (hkernel : Reachable n m.kernel)
    (hinj : Function.Injective (semaphoreAddress base)) (hne : ∀ sem, semaphoreAddress base sem ≠ 0)
    {t : ℤ} {sem : Sem} (hs : m'.SleepsOn base t sem) : m.SleepsOn base t sem ∨ a = .p t sem := by
  obtain ⟨q, hq, hpt⟩ := hkernel.models
  have hexec : ∀ {s' : State} {a' : Action}, a'.Enabled n m.kernel → a'.exec m.kernel = some s' →
      (s'.threadTable t).sleepsOn = semaphoreAddress base sem → m.SleepsOn base t sem ∨
        ∃ cpu, a' = .sleepqAdd cpu (semaphoreAddress base sem) ∧ t = m.kernel.currentThread cpu := by
    intro s' a' ha' hexec' hs'
    rcases hq.exec_sleepsOn hpt ha' hexec' t with heq | hzero | hadd
    · exact .inl (heq.symm.trans hs')
    · exact absurd (hs'.symm.trans hzero) (hne sem)
    · rw [hs'] at hadd
      exact .inr hadd
  cases h with
  | create hcreate =>
    rw [SemState.SleepsOn, semaphoreCreate_kernel hcreate] at hs
    exact .inl hs
  | destroy => exact .inl hs
  | p ha hp =>
    obtain ⟨kernel, rfl, ⟨-, rfl⟩ | ⟨-, hsleep⟩⟩ := semaphoreP_cases hp
    · exact .inl hs
    · refine (hexec ha hsleep hs).imp_right ?_
      rintro ⟨cpu', heq, rfl⟩
      obtain ⟨rfl, haddress⟩ := Action.sleepqAdd.inj heq
      rw [hinj haddress]
  | @v _ sem' hv =>
    obtain ⟨kernel, rfl, ⟨-, rfl⟩ | ⟨-, hwake⟩⟩ := semaphoreV_cases hv
    · exact .inl hs
    · have ha : (Action.sleepqWake (semaphoreAddress base sem')).Enabled n m.kernel := trivial
      refine (hexec ha hwake hs).imp_right ?_
      rintro ⟨cpu', heq, -⟩
      cases heq
  | kernel ha helse hk =>
    refine (hexec ha hk hs).imp_right ?_
    rintro ⟨cpu', rfl, -⟩
    exact absurd rfl (helse cpu' sem)

/-- The kernel stays in the states that it can reach. -/
lemma OwnerStep.reachable {n : ℕ} {base : UInt32} {m m' : SemState} {a : SemAction}
    (h : OwnerStep n base m a m') (hkernel : Reachable n m.kernel) : Reachable n m'.kernel := by
  cases h with
  | create hcreate =>
    rw [semaphoreCreate_kernel hcreate]
    exact hkernel
  | destroy => exact hkernel
  | p ha hp =>
    obtain ⟨kernel, rfl, ⟨-, rfl⟩ | ⟨-, hsleep⟩⟩ := semaphoreP_cases hp
    · exact hkernel
    · exact hkernel.tail ⟨_, ha, hsleep⟩
  | @v _ sem hv =>
    obtain ⟨kernel, rfl, ⟨-, rfl⟩ | ⟨-, hwake⟩⟩ := semaphoreV_cases hv
    · exact hkernel
    · exact hkernel.tail ⟨.sleepqWake (semaphoreAddress base sem), trivial, hwake⟩
  | kernel ha _ hk => exact hkernel.tail ⟨_, ha, hk⟩

/-- A thread that runs on one of the CPUs is in the table. -/
lemma Reachable.currentThread_ne {n : ℕ} {s : State} (h : Reachable n s) {cpu : Fin configMaxCpus}
    (hcpu : cpu < n) : s.currentThread cpu ≠ -1 := by
  obtain ⟨q, hq, -⟩ := h.models
  intro heq
  have hok := hq.inv.threadOk (-1)
  have hcur : q.OnCpu n (-1) := ⟨cpu, hcpu, by rw [← hq.rep.current, heq]⟩
  have hfree : q.state (-1) ≠ .free := by
    rcases (hok.onCpu (by decide)).mp hcur with hst | hst <;> simp [hst]
  have hle := (hok.tid hfree).1
  omega

end Osm.Kernel
