import Osm.Kernel.Waiters

/-!
# Threads that wait for a resource

A thread waits in two steps: `sleepq_add` puts it on a chain while it still runs, and the switch
that follows takes it off its CPU. A wake-up may come at any time in between. `Waits` follows
the threads through such waits on a set of resources: it relates a record of what every thread
waits for, and how far it has come, to the thread queues. A thread that runs again after the
switch waits no more.

Every function of the kernel that deals with threads is covered, so that users of the sleep
queue only have to look at their own steps.
-/

namespace Osm.Kernel

/-- How far a thread has come in a wait: it does not have to wait, it has entered the sleep
queue but not been switched out yet, or it has been switched out. -/
inductive Phase
  | passing
  | blocking
  | switched
  deriving DecidableEq

/-- The resource a thread waits for, if it is known to wait for one. -/
abbrev Wait := Option (UInt32 × Phase)

/-- A thread is switched out. -/
def Wait.switch (w : Wait) : Wait :=
  w.map fun w => if w.2 = .blocking then (w.1, .switched) else w

/-- Where a thread is in the queues, given its wait. `R` holds of the resources that are
followed. -/
def WaitOk (R : UInt32 → Prop) (q : Threads) (t : ℤ) : Wait → Prop
  | none                => ¬ R (q.sleepsOn t)
  | some (_, .passing)  => q.sleepsOn t = 0
  | some (r, .blocking) => q.state t = .running ∧ (q.sleepsOn t = 0 ∨ q.sleepsOn t = r)
  | some (r, .switched) => q.sleepsOn t = 0 ∨ (q.sleepsOn t = r ∧ q.state t = .sleeping)

/-- The kernel state represents `q`, and all threads are where their waits say. -/
structure Waits (n : ℕ) (R : UInt32 → Prop) (s : State) (q : Threads) (wait : ℤ → Wait) : Prop where
  models : Models n s q
  idle : wait idleThreadTid = none
  ok : ∀ t, WaitOk R q t (wait t)

/-- What an operation leaves alone: threads that satisfy `P` stay alive, wait to be run for the
first time and keep their process identifiers, and new waits are for resources in `S`. -/
structure Frame (P : ℤ → Prop) (S : UInt32 → Prop) (q q' : Threads) : Prop where
  alive : ∀ u, P u → q.state u ≠ .free ∧ q.state u ≠ .dying →
    q'.state u ≠ .free ∧ q'.state u ≠ .dying
  nonready : ∀ u, P u → q.state u = .nonready → q'.state u = .nonready
  processId : ∀ u, q'.processId u = q.processId u ∨ (¬ P u ∧ q'.processId u = -1)
  sleepsOn : ∀ u, q'.sleepsOn u = q.sleepsOn u ∨ S (q'.sleepsOn u)

namespace Frame

variable {P : ℤ → Prop} {S S' : UInt32 → Prop} {q q' : Threads}

lemma mono (h : Frame P S q q') (hS : ∀ r, S r → S' r) : Frame P S' q q' where
  alive := h.alive
  nonready := h.nonready
  processId := h.processId
  sleepsOn u := (h.sleepsOn u).imp_right (hS _)

lemma refl (P : ℤ → Prop) (S : UInt32 → Prop) (q : Threads) : Frame P S q q where
  alive _ _ hu := hu
  nonready _ _ hu := hu
  processId _ := Or.inl rfl
  sleepsOn _ := Or.inl rfl

lemma schedule {n : ℕ} {cpu : Fin configMaxCpus} (hq : q.Inv n) (hcpu : cpu < n) :
    Frame P S q (q.schedule cpu) where
  alive _ _ hu := Threads.schedule_alive hu
  nonready _ _ hu := Threads.schedule_nonready hq hcpu hu
  processId u := Or.inl (Threads.processId_of_process (Threads.schedule_process q cpu) u)
  sleepsOn u := Or.inl (congrFun Threads.schedule_sleepsOn u)

lemma sleep (P : ℤ → Prop) (q : Threads) (t : ℤ) (r : UInt32) :
    Frame P (· = r) q (q.sleep t r) where
  alive _ _ hu := hu
  nonready _ _ hu := hu
  processId _ := Or.inl rfl
  sleepsOn u := by
    rw [Threads.sleep_sleepsOn]
    by_cases hut : u = t
    · subst hut; exact Or.inr (Function.update_self _ _ _)
    · exact Or.inl (Function.update_of_ne hut _ _)

lemma release (P : ℤ → Prop) (l : List ℤ) (q : Threads) :
    Frame P (· = 0) q (l.foldl Threads.release q) where
  alive u _ hu := by
    rcases Threads.foldl_release_state l q u with h | ⟨-, h⟩
    · rw [h]; exact hu
    · rw [h]; simp
  nonready u _ hu := by
    rcases Threads.foldl_release_state l q u with h | ⟨h, -⟩
    · rw [h]; exact hu
    · rw [hu] at h; simp at h
  processId u := Or.inl (Threads.processId_of_process (Threads.foldl_release_process l q) u)
  sleepsOn := Threads.foldl_release_sleepsOn l q

lemma wake (P : ℤ → Prop) (q : Threads) (r : UInt32) : Frame P (· = 0) q (q.wake r) := by
  rw [Threads.wake_eq_foldl]
  exact release P _ q

lemma wakeAll (P : ℤ → Prop) (q : Threads) (r : UInt32) : Frame P (· = 0) q (q.wakeAll r) :=
  release P _ q

lemma create {t : ℤ} (ht : ¬ P t) (q : Threads) : Frame P (· = 0) q (q.create t) where
  alive u hu hst := by
    have hut : u ≠ t := fun hut => ht (hut ▸ hu)
    simpa [Threads.create, hut] using hst
  nonready u hu hst := by
    have hut : u ≠ t := fun hut => ht (hut ▸ hu)
    simpa [Threads.create, hut] using hst
  processId u := by
    by_cases hut : u = t
    · subst hut; exact Or.inr ⟨ht, Function.update_self _ _ _⟩
    · exact Or.inl (Function.update_of_ne hut _ _)
  sleepsOn u := by
    by_cases hut : u = t
    · subst hut; exact Or.inr (Function.update_self _ _ _)
    · exact Or.inl (Function.update_of_ne hut _ _)

/-- An operation that only assigns a state to one thread. -/
lemma of_state {t : ℤ} (ht : ¬ P t) (hstate : ∀ u, u ≠ t → q'.state u = q.state u)
    (hprocess : q'.process = q.process) (hsleeps : q'.sleepsOn = q.sleepsOn) :
    Frame P S q q' where
  alive u hu hst := by
    rw [hstate u fun hut => ht (hut ▸ hu)]
    exact hst
  nonready u hu hst := by
    rw [hstate u fun hut => ht (hut ▸ hu)]
    exact hst
  processId u := Or.inl (Threads.processId_of_process hprocess u)
  sleepsOn u := Or.inl (congrFun hsleeps u)

end Frame

namespace WaitOk

variable {R : UInt32 → Prop} {q q' : Threads} {t : ℤ} {r : UInt32} {w : Wait}

/-- A thread keeps its place in a wait as long as it waits for the same thing and does not
stop running or sleeping. -/
lemma congr (h : WaitOk R q t w) (hsleeps : q'.sleepsOn t = q.sleepsOn t)
    (hrun : q.state t = .running → q'.state t = .running)
    (hsleeping : q.state t = .sleeping → q'.state t = .sleeping) : WaitOk R q' t w := by
  rcases w with _ | ⟨r, _ | _ | _⟩
  · exact fun hr => h (hsleeps ▸ hr)
  · exact hsleeps.trans h
  · exact ⟨hrun h.1, by rw [hsleeps]; exact h.2⟩
  · exact h.imp (fun h => hsleeps.trans h) fun h => ⟨hsleeps.trans h.1, hsleeping h.2⟩

/-- A thread on no chain may be anywhere in a wait, unless it is about to be switched out. -/
lemma of_zero (hR : ¬ R 0) (hzero : q.sleepsOn t = 0)
    (hw : ∀ r, w = some (r, .blocking) → q.state t = .running) : WaitOk R q t w := by
  rcases w with _ | ⟨r, _ | _ | _⟩
  · exact fun hr => hR (hzero ▸ hr)
  · exact hzero
  · exact ⟨hw r rfl, Or.inl hzero⟩
  · exact Or.inl hzero

/-- Only threads known to wait for it sleep on a resource that is followed. -/
lemma exists_phase (h : WaitOk R q t w) (hR : ¬ R 0) (hr : R r) (ht : q.sleepsOn t = r) :
    ∃ phase, w = some (r, phase) := by
  have hne : r ≠ 0 := fun hzero => hR (hzero ▸ hr)
  rcases w with _ | ⟨r', _ | _ | _⟩
  · exact absurd (ht ▸ hr) h
  · exact absurd (ht.symm.trans h) hne
  · rcases h.2 with h | h
    · exact absurd (ht.symm.trans h) hne
    · exact ⟨_, by rw [← ht, h]⟩
  · rcases h with h | h
    · exact absurd (ht.symm.trans h) hne
    · exact ⟨_, by rw [← ht, h.1]⟩

/-- A thread that runs is on no chain, unless it is about to be switched out. -/
lemma sleepsOn_eq_zero {phase : Phase} (h : WaitOk R q t (some (r, phase)))
    (hphase : phase ≠ .blocking) (hrun : q.state t = .running) : q.sleepsOn t = 0 := by
  cases phase with
  | passing => exact h
  | blocking => exact absurd rfl hphase
  | switched =>
    refine h.resolve_right fun h => ?_
    rw [hrun] at h
    simp at h

lemma release {u : ℤ} (h : WaitOk R q t w) (hR : ¬ R 0) : WaitOk R (q.release u) t w := by
  by_cases htu : t = u
  · subst htu
    refine of_zero hR ?_ fun r hw => ?_
    · rw [Threads.release_sleepsOn, Function.update_self]
    · subst hw
      exact Threads.release_state_running h.1
  · have hst := Threads.release_state_of_ne (q := q) htu
    refine h.congr ?_ (fun h => hst.trans h) fun h => hst.trans h
    rw [Threads.release_sleepsOn, Function.update_of_ne htu]

lemma foldl_release {l : List ℤ} (h : WaitOk R q t w) (hR : ¬ R 0) :
    WaitOk R (l.foldl Threads.release q) t w := by
  induction l generalizing q with
  | nil => exact h
  | cons u l ih => exact ih (h.release hR)

end WaitOk

namespace Waits

variable {n : ℕ} {R : UInt32 → Prop} {s s' : State} {q : Threads} {wait : ℤ → Wait} {t : ℤ}
  {r : UInt32} {cpu : Fin configMaxCpus}

lemma schedulerSchedule (h : Waits n R s q wait) (hR : ¬ R 0) (hcpu : cpu < n)
    (hexec : Kernel.schedulerSchedule s cpu = some s') :
    Waits n R s' (q.schedule cpu)
      (Function.update wait (s.currentThread cpu) (wait (s.currentThread cpu)).switch) := by
  obtain ⟨s'', hs'', hmodels⟩ := h.models.schedulerSchedule hcpu
  obtain rfl : s' = s'' := Option.some.inj (hexec.symm.trans hs'')
  have hq := h.models.inv
  rw [h.models.rep.current]
  obtain ⟨t, ht⟩ : ∃ t, t = q.current cpu := ⟨_, rfl⟩
  rw [← ht]
  have hsleeps : (q.schedule cpu).sleepsOn = q.sleepsOn := Threads.schedule_sleepsOn
  refine ⟨hmodels, ?_, fun u => ?_⟩
  · by_cases hidle : idleThreadTid = t
    · rw [← hidle, Function.update_self, h.idle]; rfl
    · rw [Function.update_of_ne hidle]; exact h.idle
  · by_cases hidle : u = idleThreadTid
    · refine WaitOk.of_zero hR (by rw [hsleeps, hidle]; exact hq.sleepsOn_idle) fun r hw => ?_
      by_cases hut : u = t
      · rw [← hut, Function.update_self, hidle, h.idle] at hw
        simp [Wait.switch] at hw
      · rw [Function.update_of_ne hut, hidle, h.idle] at hw
        simp at hw
    by_cases hut : u = t
    · -- the thread that leaves the CPU
      subst hut
      have hok := h.ok u
      have hcur := ((hq.threadOk u).onCpu hidle).mp ⟨cpu, hcpu, ht.symm⟩
      rw [Function.update_self]
      rcases hw : wait u with _ | ⟨r, phase⟩
      · rw [hw] at hok
        exact fun hr => hok (hsleeps ▸ hr)
      · rw [hw] at hok
        simp only [Wait.switch, Option.map_some]
        cases phase with
        | passing =>
          simp only [reduceCtorEq, if_false]
          exact (congrFun hsleeps u).trans hok
        | blocking =>
          simp only [if_true]
          by_cases hzero : q.sleepsOn u = 0
          · exact Or.inl ((congrFun hsleeps u).trans hzero)
          · refine Or.inr ⟨(congrFun hsleeps u).trans (hok.2.resolve_left hzero), ?_⟩
            rw [ht]
            exact Threads.schedule_state_waiting hq (by rw [← ht]; exact hzero)
        | switched =>
          simp only [reduceCtorEq, if_false]
          rcases hok with hzero | ⟨-, hst⟩
          · exact Or.inl ((congrFun hsleeps u).trans hzero)
          · rw [hst] at hcur
            simp at hcur
    · -- any other thread
      rw [Function.update_of_ne hut]
      refine (h.ok u).congr (congrFun hsleeps u) (fun hst => ?_) fun hst => ?_
      · rw [Threads.schedule_state hq hcpu (ht ▸ hut) hidle (by simp [hst]), hst]
      · rw [Threads.schedule_state hq hcpu (ht ▸ hut) hidle (by simp [hst]), hst]

/-- A thread goes on to another wait without a change of the queues. -/
lemma setWait {w : Wait} (h : Waits n R s q wait) (ht : t ≠ idleThreadTid) (hok : WaitOk R q t w) :
    Waits n R s q (Function.update wait t w) where
  models := h.models
  idle := by rw [Function.update_of_ne (Ne.symm ht)]; exact h.idle
  ok := (Function.forall_update_iff wait fun u => WaitOk R q u).mpr ⟨hok, fun u _ => h.ok u⟩

/-- A running thread enters the sleep queue. -/
lemma sleepqAdd (h : Waits n R s q wait) (hcur : s.currentThread cpu = t) (hr : r ≠ 0)
    (hidle : t ≠ idleThreadTid) (hst : q.state t = .running) (hzero : q.sleepsOn t = 0) {w : Wait}
    (hw : (w = none ∧ ¬ R r) ∨ w = some (r, .blocking)) :
    ∃ s', Kernel.sleepqAdd s cpu r = some s' ∧
      Waits n R s' (q.sleep t r) (Function.update wait t w) := by
  obtain ⟨s', hs', hmodels⟩ := h.models.sleepqAdd (h.models.rep.current cpu ▸ hcur) hr hidle hst hzero
  refine ⟨s', hs', hmodels, ?_, fun u => ?_⟩
  · rw [Function.update_of_ne (Ne.symm hidle)]; exact h.idle
  · by_cases hu : u = t
    · subst hu
      rw [Function.update_self]
      have hself : (q.sleep u r).sleepsOn u = r := Function.update_self _ _ _
      rcases hw with ⟨rfl, hnr⟩ | rfl
      · exact fun hr => hnr (hself ▸ hr)
      · exact ⟨hst, Or.inr hself⟩
    · rw [Function.update_of_ne hu]
      exact (h.ok u).congr (Function.update_of_ne hu _ _) id id

lemma sleepqWake (h : Waits n R s q wait) (hR : ¬ R 0) (r : UInt32) :
    ∃ s', Kernel.sleepqWake s r = some s' ∧ Waits n R s' (q.wake r) wait := by
  obtain ⟨s', hs', hmodels⟩ := h.models.sleepqWake r
  refine ⟨s', hs', hmodels, h.idle, fun u => ?_⟩
  rw [Threads.wake_eq_foldl]
  exact (h.ok u).foldl_release hR

lemma sleepqWakeAll (h : Waits n R s q wait) (hR : ¬ R 0) (r : UInt32) :
    ∃ s', Kernel.sleepqWakeAll s r = some s' ∧ Waits n R s' (q.wakeAll r) wait := by
  obtain ⟨s', hs', hmodels⟩ := h.models.sleepqWakeAll r
  exact ⟨s', hs', hmodels, h.idle, fun u => (h.ok u).foldl_release hR⟩

/-- A created thread is known to wait for nothing yet. -/
lemma threadCreate (h : Waits n R s q wait) (hfree : findFreeTid s = some t)
    {w : Wait} (hw : w = wait t ∨ ∃ r, w = some (r, .passing)) :
    Waits n R (Kernel.threadCreate s).1 (q.create t) (Function.update wait t w) := by
  have hq := h.models.inv
  obtain ⟨hpos, -, hst⟩ := Represents.findFreeTid_some hfree
  rw [h.models.rep.state] at hst
  have hsleeps := Threads.create_sleepsOn hq hst
  have hzero := hq.sleepsOn_eq_zero (t := t) (by simp [hst]) (by simp [hst])
  have hidle : idleThreadTid ≠ t := by simp only [idleThreadTid]; omega
  refine ⟨h.models.threadCreate hfree, ?_, fun u => ?_⟩
  · rw [Function.update_of_ne hidle]; exact h.idle
  · by_cases hu : u = t
    · subst hu
      rw [Function.update_self]
      rcases hw with rfl | ⟨r, rfl⟩
      · refine (h.ok u).congr (congrFun hsleeps u) (fun hrun => ?_) fun hrun => ?_ <;>
        · rw [hst] at hrun
          simp at hrun
      · exact (congrFun hsleeps u).trans hzero
    · rw [Function.update_of_ne hu]
      refine (h.ok u).congr (congrFun hsleeps u) (fun hrun => ?_) fun hrun => ?_ <;>
        simpa [Threads.create, hu] using hrun

lemma threadRun (h : Waits n R s q wait) (hst : q.state t = .nonready) :
    ∃ s', Kernel.threadRun s t = some s' ∧ Waits n R s' (q.run t) wait := by
  have hq := h.models.inv
  obtain ⟨s', hs', hmodels⟩ := h.models.threadRun ((hq.threadOk t).nonready hst) hst
  refine ⟨s', hs', hmodels, h.idle, fun u => ?_⟩
  refine (h.ok u).congr rfl (fun hu => ?_) fun hu => ?_ <;>
  · have hut : u ≠ t := by
      rintro rfl
      simp [hst] at hu
    simpa [Threads.run, Threads.setState, Threads.addReady, hut] using hu

/-- A thread that is not inside a wait finishes. -/
lemma threadFinish (h : Waits n R s q wait) (hcur : s.currentThread cpu = t)
    (hst : q.state t = .running) (hzero : q.sleepsOn t = 0)
    (hw : ∀ r, wait t ≠ some (r, .blocking)) (hexec : Kernel.threadFinish s cpu = some s') :
    Waits n R s' (q.finish cpu) wait := by
  have hcurq : q.current cpu = t := h.models.rep.current cpu ▸ hcur
  have hpt : q.pagetable (q.current cpu) = 0 := by
    rw [hcurq, ← h.models.rep.pagetable]
    rw [Kernel.threadFinish] at hexec
    rw [hcur] at hexec
    by_contra hne
    simp [hne] at hexec
  obtain ⟨s'', hs'', hmodels⟩ := h.models.threadFinish (hcurq.symm ▸ hst) (hcurq.symm ▸ hzero) hpt
  obtain rfl : s' = s'' := Option.some.inj (hexec.symm.trans hs'')
  refine ⟨hmodels, h.idle, fun u => ?_⟩
  by_cases hu : u = t
  · subst hu
    have hok := h.ok u
    rcases hwu : wait u with _ | ⟨r, _ | _ | _⟩
    · rw [hwu] at hok
      exact hok
    · exact hzero
    · exact absurd hwu (hw r)
    · exact Or.inl hzero
  · refine (h.ok u).congr rfl (fun hst => ?_) fun hst => ?_ <;>
      simpa [Threads.finish, Threads.setState, hcurq, hu] using hst

/-- Fields that belong to the process of a thread. -/
lemma modifyThread (h : Waits n R s q wait) (t : ℤ) {f : Thread → Thread}
    (hstate : ∀ th, (f th).state = th.state) (hsleeps : ∀ th, (f th).sleepsOn = th.sleepsOn)
    (hnext : ∀ th, (f th).next = th.next) :
    Waits n R (s.modifyThread t f)
      (q.setProcess t (f (s.threadTable t)).pagetable (f (s.threadTable t)).processId) wait :=
  ⟨h.models.modifyThread t hstate hsleeps hnext, h.idle, fun u => (h.ok u).congr rfl id id⟩

/-- An action of the kernel that has nothing to do with the resources that are followed, taken
by a thread that is not known to wait for anything. -/
def Elsewhere (R : UInt32 → Prop) (s : State) (wait : ℤ → Wait) : Action → Prop
  | .threadCreate        => True
  | .threadRun _         => True
  | .schedulerSchedule _ => False
  | .sleepqAdd cpu r     => wait (s.currentThread cpu) = none ∧ ¬ R r
  | .sleepqWake r        => ¬ R r
  | .sleepqWakeAll r     => ¬ R r
  | .threadFinish cpu    => wait (s.currentThread cpu) = none

/-- Such an action leaves the waits, the waiters of the resources and the threads that are
known to wait as they are. -/
lemma elsewhere {a : Action} (h : Waits n R s q wait) (hR : ¬ R 0) (ha : a.Enabled n s)
    (helse : Elsewhere R s wait a) (hexec : a.exec s = some s') :
    ∃ q', Waits n R s' q' wait ∧ (∀ r, R r → q'.waiters r = q.waiters r) ∧
      Frame (fun u => wait u ≠ none ∧ q.state u ≠ .free ∧ a ≠ .threadRun u) (fun r => ¬ R r) q q' := by
  have hq := h.models.inv
  have hS : ∀ r, r = 0 → ¬ R r := by
    rintro r rfl
    exact hR
  have hsome : ∀ {x : Option State} {s'' : State}, x = some s' → x = some s'' → s'' = s' := by
    intro x s'' h₁ h₂
    exact Option.some.inj (h₂.symm.trans h₁)
  cases a with
  | threadCreate =>
    obtain rfl : (Kernel.threadCreate s).1 = s' := Option.some.inj hexec
    cases hfree : findFreeTid s with
    | none =>
      refine ⟨q, ?_, fun _ _ => rfl, Frame.refl _ _ q⟩
      simpa only [Kernel.threadCreate, hfree] using h
    | some t =>
      have hwaits := h.threadCreate hfree (Or.inl rfl)
      rw [Function.update_eq_self] at hwaits
      have hst := (Represents.findFreeTid_some hfree).2.2
      rw [h.models.rep.state] at hst
      exact ⟨_, hwaits, fun r _ => Threads.waiters_congr
        (Threads.create_sleepsOn hq hst) rfl r, (Frame.create (fun ht => ht.2.1 hst) q).mono hS⟩
  | threadRun t =>
    obtain ⟨s'', hs'', hwaits⟩ := h.threadRun (t := t) (h.models.rep.state t ▸ ha)
    obtain rfl := hsome hexec hs''
    refine ⟨_, hwaits, fun r _ => Threads.waiters_congr (q := q) rfl rfl r,
      Frame.of_state (t := t) (fun ht => ht.2.2 rfl) (fun u hut => ?_) rfl rfl⟩
    simp [Threads.run, Threads.setState, Threads.addReady, hut]
  | schedulerSchedule cpu => exact helse.elim
  | sleepqAdd cpu r =>
    obtain ⟨-, hidle, hst, hoff, hr⟩ := ha
    obtain ⟨hw, hnr⟩ := helse
    rw [h.models.rep.state] at hst
    have hzero := h.models.sleepsOn_eq_zero hoff
    obtain ⟨s'', hs'', hwaits⟩ := h.sleepqAdd rfl hr hidle hst hzero (Or.inl ⟨hw, hnr⟩)
    obtain rfl := hsome hexec hs''
    rw [Function.update_eq_self] at hwaits
    refine ⟨_, hwaits, fun r' hr' => Threads.waiters_sleep_of_ne hq hzero fun heq => hnr (heq ▸ hr'),
      (Frame.sleep _ q _ r).mono ?_⟩
    rintro r' rfl
    exact hnr
  | sleepqWake r =>
    obtain ⟨s'', hs'', hwaits⟩ := h.sleepqWake hR r
    obtain rfl := hsome hexec hs''
    exact ⟨_, hwaits, fun r' hr' => Threads.waiters_wake_of_ne hq fun heq => helse (heq ▸ hr'),
      (Frame.wake _ q r).mono hS⟩
  | sleepqWakeAll r =>
    obtain ⟨s'', hs'', hwaits⟩ := h.sleepqWakeAll hR r
    obtain rfl := hsome hexec hs''
    exact ⟨_, hwaits, fun r' hr' => Threads.waiters_wakeAll_of_ne hq fun heq => helse (heq ▸ hr'),
      (Frame.wakeAll _ q r).mono hS⟩
  | threadFinish cpu =>
    obtain ⟨-, hst, hoff⟩ := ha
    rw [h.models.rep.state] at hst
    have hnone : wait (s.currentThread cpu) = none := helse
    have hwaits := h.threadFinish rfl hst (h.models.sleepsOn_eq_zero hoff)
      (fun r hw => by rw [hnone] at hw; simp at hw) hexec
    refine ⟨_, hwaits, fun r _ => Threads.waiters_congr (q := q) rfl rfl r,
      Frame.of_state (t := q.current cpu) (fun ht => ?_) (fun u hut => ?_) rfl rfl⟩
    · rw [← h.models.rep.current] at ht
      exact ht.1 hnone
    · simp [Threads.finish, Threads.setState, hut]

lemma initialState (n : ℕ) (hR : ¬ R 0) : ∃ q, Waits n R Kernel.initialState q fun _ => none :=
  ⟨_, Models.initialState n, rfl, fun _ => hR⟩

end Waits

end Osm.Kernel
