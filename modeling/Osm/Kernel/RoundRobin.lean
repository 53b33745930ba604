import Osm.Core.Fifo
import Osm.Kernel.ThreadLists

/-!
# The order in which threads run

The ready list is a queue: only `scheduler_schedule` takes threads from it, the first one at each
call, and whatever else the kernel does, threads only come to its end. So a thread that is ready
runs after as many calls as there are threads before it, on whatever CPUs these are made.
-/

namespace Osm.Kernel

open Osm.Core

namespace Threads

variable {q : Threads}

lemma release_served (q : Threads) (t : ℤ) : Served 0 q.ready (q.release t).ready := by
  simp only [release, awaken]
  split
  · exact Served.append ..
  · exact Served.refl _

lemma foldl_release_served (l : List ℤ) (q : Threads) :
    Served 0 q.ready (l.foldl release q).ready := by
  induction l generalizing q with
  | nil => exact Served.refl _
  | cons t l ih => exact (release_served q t).trans (ih (q.release t))

/-- The thread that has run goes to the end of the list, and then the first one is taken. -/
lemma schedule_served (q : Threads) (cpu : Fin configMaxCpus) :
    Served 1 q.ready (q.schedule cpu).ready := by
  have hretire : ∃ new, (q.retire (q.current cpu)).ready = q.ready ++ new := by
    rw [retire]
    split_ifs
    · exact ⟨[], (List.append_nil _).symm⟩
    · exact ⟨[], (List.append_nil _).symm⟩
    · exact ⟨_, rfl⟩
    · exact ⟨[], (List.append_nil _).symm⟩
  obtain ⟨new, hnew⟩ := hretire
  have htail : (q.schedule cpu).ready = (q.ready ++ new).drop 1 := by
    rw [schedule, dispatchFirst, ← hnew]
    cases hready : (q.retire (q.current cpu)).ready with
    | nil => simp [dispatch, setState, hready]
    | cons t l => rfl
  exact ⟨new.drop (1 - q.ready.length), by rw [htail, List.drop_append]⟩

/-- The first thread of the list runs. -/
lemma schedule_first {cpu : Fin configMaxCpus} {t : ℤ} {l : List ℤ} (h : q.ready = t :: l) :
    (q.schedule cpu).current cpu = t ∧ (q.schedule cpu).state t = .running := by
  have hretire : ∃ new, (q.retire (q.current cpu)).ready = t :: new := by
    rw [retire]
    split_ifs <;> simp [setState, addReady, h]
  obtain ⟨new, hnew⟩ := hretire
  rw [schedule, dispatchFirst, hnew]
  simp [dispatch, setState]

end Threads

/-- How often an action takes a thread from the ready list. -/
def Action.serves : Action → ℕ
  | .schedulerSchedule _ => 1
  | _                    => 0

/-- The actions of the CPUs, one after the other. -/
inductive Run (n : ℕ) : List Action → State → State → Prop
  | nil (s : State) : Run n [] s s
  | cons {s s₁ s' : State} {a : Action} {as : List Action} (ha : a.Enabled n s)
      (hexec : a.exec s = some s₁) (hrun : Run n as s₁ s') : Run n (a :: as) s s'

/-- The calls of `scheduler_schedule`. -/
def calls (as : List Action) : ℕ := (as.map Action.serves).sum

lemma calls_cons (a : Action) (as : List Action) : calls (a :: as) = a.serves + calls as := by
  rw [calls, List.map_cons, List.sum_cons, calls]

section Steps

variable {n : ℕ} {s s' : State} {q : Threads} {t : ℤ}

/-- An action serves the ready list once if it is a call of `scheduler_schedule`. -/
lemma Models.exec_served {a : Action} (h : Models n s q) (hpt : ∀ t, q.pagetable t = 0)
    (ha : a.Enabled n s) (hexec : a.exec s = some s') :
    ∃ q', Models n s' q' ∧ Served a.serves q.ready q'.ready := by
  cases a with
  | threadCreate =>
    cases hfree : findFreeTid s with
    | none =>
      simp only [Action.exec, Kernel.threadCreate, hfree, Option.some.injEq] at hexec
      exact ⟨q, hexec ▸ h, Served.refl _⟩
    | some t => exact ⟨q.create t, Option.some.inj hexec ▸ h.threadCreate hfree, Served.refl _⟩
  | threadRun t =>
    have hst : q.state t = .nonready := h.rep.state t ▸ ha
    obtain ⟨s₁, hs₁, h'⟩ := h.threadRun ((h.inv.threadOk t).nonready hst) hst
    cases hexec.symm.trans hs₁
    exact ⟨_, h', Served.append ..⟩
  | schedulerSchedule cpu =>
    obtain ⟨s₁, hs₁, h'⟩ := h.schedulerSchedule ha
    cases hexec.symm.trans hs₁
    exact ⟨_, h', Threads.schedule_served q cpu⟩
  | sleepqAdd cpu r =>
    obtain ⟨-, hidle, hst, hoff, hr⟩ := ha
    rw [h.rep.state] at hst
    obtain ⟨s₁, hs₁, h'⟩ :=
      h.sleepqAdd (h.rep.current cpu).symm hr hidle hst (h.sleepsOn_eq_zero hoff)
    cases hexec.symm.trans hs₁
    exact ⟨_, h', Served.refl _⟩
  | sleepqWake r =>
    obtain ⟨s₁, hs₁, h'⟩ := h.sleepqWake r
    cases hexec.symm.trans hs₁
    exact ⟨_, h', q.wake_eq_foldl r ▸ Threads.foldl_release_served _ q⟩
  | sleepqWakeAll r =>
    obtain ⟨s₁, hs₁, h'⟩ := h.sleepqWakeAll r
    cases hexec.symm.trans hs₁
    exact ⟨_, h', Threads.foldl_release_served _ q⟩
  | threadFinish cpu =>
    obtain ⟨-, hst, hoff⟩ := ha
    rw [h.rep.state, h.rep.current] at hst
    have hzero := h.sleepsOn_eq_zero hoff
    rw [h.rep.current] at hzero
    obtain ⟨s₁, hs₁, h'⟩ := h.threadFinish hst hzero (hpt _)
    cases hexec.symm.trans hs₁
    exact ⟨_, h', Served.refl _⟩

/-- The thread is at a place of the ready list. -/
def ReadyAt (s : State) (k : ℕ) (t : ℤ) : Prop :=
  ∃ l, Linked s.next (· < 0) s.readyHead l ∧ l[k]? = some t

/-- A thread runs in its turn, and has its place in the ready list before. -/
lemma run_readyAt {as : List Action} (hrun : Run n as s s') (h : Reachable n s) {k : ℕ}
    (hk : ReadyAt s k t) :
    (calls as ≤ k → ReadyAt s' (k - calls as) t) ∧
    (k < calls as → ∃ before cpu after s₁ s₂, as = before ++ .schedulerSchedule cpu :: after ∧
      calls before = k ∧ Run n before s s₁ ∧ schedulerSchedule s₁ cpu = some s₂ ∧
      Run n after s₂ s' ∧ s₂.currentThread cpu = t ∧ (s₂.threadTable t).state = .running) := by
  induction hrun generalizing k with
  | nil s => exact ⟨fun _ => hk, fun hlt => absurd hlt (Nat.not_lt_zero k)⟩
  | @cons s s₁ s' a as ha hexec hrun ih =>
    obtain ⟨q, hq, hpt⟩ := h.models
    obtain ⟨q₁, hq₁, hserved⟩ := hq.exec_served hpt ha hexec
    obtain ⟨l, hl, hget⟩ := hk
    rw [hl.unique hq.rep.ready] at hget
    rw [calls_cons]
    rcases Nat.lt_or_ge k a.serves with hlt | hle
    · -- the thread is the first one, and it is its turn
      obtain ⟨cpu, rfl⟩ : ∃ cpu, a = .schedulerSchedule cpu := by
        cases a with
        | schedulerSchedule cpu => exact ⟨cpu, rfl⟩
        | _ => exact absurd hlt (Nat.not_lt_zero k)
      obtain rfl : k = 0 := Nat.lt_one_iff.mp hlt
      refine ⟨fun hle => absurd hle (by simp [Action.serves]), fun _ => ?_⟩
      obtain ⟨l', hready⟩ := List.head?_eq_some_iff.mp (List.head?_eq_getElem? ▸ hget)
      obtain ⟨hcur, hrunning⟩ := @Threads.schedule_first _ cpu t l' hready
      have hcpu : (cpu : ℕ) < n := ha
      obtain ⟨s₂, hs₂, hq₂⟩ := hq.schedulerSchedule hcpu
      cases hexec.symm.trans hs₂
      exact ⟨[], cpu, as, s, s₁, rfl, rfl, .nil s, hexec, hrun, (hq₂.rep.current cpu).trans hcur,
        (hq₂.rep.state t).trans hrunning⟩
    · obtain ⟨hbefore, hturn⟩ := ih (h.tail ⟨a, ha, hexec⟩)
        ⟨_, hq₁.rep.ready, hserved.getElem?_eq hget hle⟩
      refine ⟨fun hcalls => ?_, fun hcalls => ?_⟩
      · rw [← Nat.sub_sub]
        exact hbefore (by omega)
      · obtain ⟨before, cpu, after, s₂, s₃, rfl, hk, hrun₂, hrest⟩ := hturn (by omega)
        refine ⟨a :: before, cpu, after, s₂, s₃, rfl, ?_, .cons ha hexec hrun₂, hrest⟩
        rw [calls_cons, hk, Nat.add_sub_cancel' hle]

/-- The ready list has no room for all rows of the thread table. -/
lemma Models.ready_length_lt (h : Models n s q) : q.ready.length < configMaxThreads := by
  have hsub : q.ready.toFinset ⊆ Finset.Ioo (0 : ℤ) configMaxThreads := by
    intro t ht
    have hmem := List.mem_toFinset.mp ht
    exact Finset.mem_Ioo.mpr (h.rep.tid t (.inl hmem))
  have hcard := Finset.card_le_card hsub
  rw [List.toFinset_card_of_nodup h.inv.ready_nodup, Int.card_Ioo] at hcard
  exact hcard.trans_lt (by decide)

/-- A ready thread has fewer threads before it than the thread table has rows. It keeps its turn:
whatever the CPUs do, it is still ready, and has moved up by one place for each call of
`scheduler_schedule`, as long as there were no more of these calls than threads before it; and the
next of these calls, on whatever CPU, runs the thread there. -/
theorem ready_thread_runs_in_turn (h : Reachable n s) (ht : t ≠ idleThreadTid)
    (hready : (s.threadTable t).state = .ready) :
    ∃ k, k + 1 < configMaxThreads ∧ ReadyAt s k t ∧ ∀ as s', Run n as s s' →
      (calls as ≤ k → ReadyAt s' (k - calls as) t) ∧
      (k < calls as → ∃ before cpu after s₁ s₂, as = before ++ .schedulerSchedule cpu :: after ∧
        calls before = k ∧ Run n before s s₁ ∧ schedulerSchedule s₁ cpu = some s₂ ∧
        Run n after s₂ s' ∧ s₂.currentThread cpu = t ∧ (s₂.threadTable t).state = .running) := by
  obtain ⟨q, hq, -⟩ := h.models
  rw [hq.rep.state] at hready
  obtain ⟨k, hk⟩ := List.mem_iff_getElem?.mp (((hq.inv.threadOk t).mem_ready).mpr ⟨ht, hready⟩)
  have hlt := (List.getElem?_eq_some_iff.mp hk).1
  have hreadyAt : ReadyAt s k t := ⟨_, hq.rep.ready, hk⟩
  exact ⟨k, lt_of_le_of_lt hlt hq.ready_length_lt, hreadyAt, fun as s' hrun =>
    run_readyAt hrun h hreadyAt⟩

end Steps

/-- Two threads are ready, and the second one keeps its turn while the first one is taken. -/
theorem ready_thread_runs_in_turn_second : ∃ s s' k, Reachable 1 s ∧
    Run 1 [.schedulerSchedule 0] s s' ∧ s'.currentThread 0 = 1 ∧ ReadyAt s k 2 ∧
    (1 ≤ k → ReadyAt s' (k - 1) 2) := by
  obtain ⟨s₁, hs₁⟩ : ∃ s, Action.exec (threadCreate initialState).1 (.threadRun 1) = some s :=
    ⟨_, rfl⟩
  obtain ⟨s₂, hs₂⟩ : ∃ s, Action.exec s₁ .threadCreate = some s := ⟨_, rfl⟩
  obtain ⟨s₃, hs₃⟩ : ∃ s, Action.exec s₂ (.threadRun 2) = some s := by
    cases hs₁; cases hs₂; exact ⟨_, rfl⟩
  obtain ⟨s₄, hs₄⟩ : ∃ s, schedulerSchedule s₃ 0 = some s := by
    cases hs₁; cases hs₂; cases hs₃; exact ⟨_, rfl⟩
  have hnonready : (s₂.threadTable 2).state = .nonready := by cases hs₁; cases hs₂; rfl
  have hready : (s₃.threadTable 2).state = .ready := by cases hs₁; cases hs₂; cases hs₃; rfl
  have hcur : s₄.currentThread 0 = 1 := by cases hs₁; cases hs₂; cases hs₃; cases hs₄; rfl
  have hreach : Reachable 1 s₃ :=
    (((Relation.ReflTransGen.refl.tail ⟨.threadCreate, trivial, rfl⟩).tail
      ⟨.threadRun 1, rfl, hs₁⟩).tail ⟨.threadCreate, trivial, hs₂⟩).tail
      ⟨.threadRun 2, hnonready, hs₃⟩
  have hrun : Run 1 [.schedulerSchedule 0] s₃ s₄ := .cons Nat.one_pos hs₄ (.nil s₄)
  obtain ⟨k, -, hk, hturn⟩ := ready_thread_runs_in_turn hreach (by decide) hready
  exact ⟨s₃, s₄, k, hreach, hrun, hcur, hk, (hturn _ _ hrun).1⟩

end Osm.Kernel
