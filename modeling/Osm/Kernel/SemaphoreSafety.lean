import Osm.Kernel.Semaphore
import Osm.Kernel.Waiting

/-!
# Semaphore safety

Threads call `semaphore_P` and `semaphore_V` on any semaphores, in any interleaving with each
other and with everything else the kernel does to threads: scheduling, creating and finishing
threads, sleeping and waking on other resources. A call of `semaphore_P` starts when its body
is executed and returns later: at once if the value was positive, otherwise after the thread
has been switched out and runs again. A `semaphore_V` may come between the `sleepq_add` and the
switch.

The state is extended by a record of the calls (`System.call`, `Log`) that the code does not
have; it is filled from what the code does and never read by it. The invariant `SemInv` ties the
record to the semaphore values and to the waiters of the abstract sleep queue. It is about
semaphores that are not raised above the largest `int`; when one is, its value wraps around, and
the next callers of `semaphore_P` wait although nobody has called it before them.
-/

namespace Osm.Kernel

/-- What has happened to a semaphore: the initial value, the number of calls of `semaphore_P`
started and returned and of `semaphore_V`, the threads that had to wait and those released, in
order, and the threads that have returned from `semaphore_P` and not called `semaphore_V` since.
`disciplined` says that only such threads have called `semaphore_V`. -/
structure Log where
  initial     : ℤ      := 0
  started     : ℕ      := 0
  returned    : ℕ      := 0
  raised      : ℕ      := 0
  blocked     : List ℤ := []
  released    : List ℤ := []
  holding     : List ℤ := []
  disciplined : Bool   := true

/-- The kernel with its semaphores and the record of the calls; `call` gives the semaphore, by
its address, on which a thread is inside `semaphore_P`. -/
structure System extends SemState where
  call : ℤ → Wait
  log  : Sem → Log

/-- The rows of the thread table. -/
def tids : List ℤ := (List.range configMaxThreads).map fun i : ℕ => (i : ℤ)

/-- The threads that sleep on a resource. -/
def sleepers (s : State) (r : UInt32) : List ℤ := tids.filter fun t => (s.threadTable t).sleepsOn = r

/-- The threads that have stopped sleeping on a resource between two states. -/
def woken (s s' : State) (r : UInt32) : List ℤ :=
  tids.filter fun t => (s.threadTable t).sleepsOn = r ∧ (s'.threadTable t).sleepsOn = 0

namespace System

/-- Record that the thread `t` has executed the body of `semaphore_P`. -/
def recordP (base : UInt32) (m : System) (m' : SemState) (t : ℤ) (sem : Sem) : System :=
  let log := m.log sem
  if (m'.semaphoreTable sem).value < 0 then
    { m' with
      call := Function.update m.call t (some (semaphoreAddress base sem, .blocking))
      log  := Function.update m.log sem
        { log with started := log.started + 1, blocked := log.blocked ++ [t] } }
  else
    { m' with
      call := Function.update m.call t (some (semaphoreAddress base sem, .passing))
      log  := Function.update m.log sem { log with started := log.started + 1 } }

/-- Record that `semaphore_V` has been called while `t` was the current thread. -/
def recordV (base : UInt32) (m : System) (m' : SemState) (t : ℤ) (sem : Sem) : System :=
  let log := m.log sem
  { m' with
    call := m.call
    log  := Function.update m.log sem
      { log with
        raised      := log.raised + 1
        released    := log.released ++ woken m.kernel m'.kernel (semaphoreAddress base sem)
        holding     := log.holding.erase t
        disciplined := log.disciplined && decide (t ∈ log.holding) } }

/-- Record that the thread `t` has returned from `semaphore_P`. -/
def recordReturn (m : System) (t : ℤ) (sem : Sem) : System :=
  let log := m.log sem
  { m with
    call := Function.update m.call t none
    log  := Function.update m.log sem
      { log with returned := log.returned + 1, holding := log.holding ++ [t] } }

/-- Record that the thread `t` has been switched out. -/
def recordSwitch (m : System) (s' : State) (t : ℤ) : System :=
  { m with kernel := s', call := Function.update m.call t (m.call t).switch }

/-- Record the creation of a semaphore. -/
def recordCreate (m : System) (m' : SemState) (value : ℤ) : Option Sem → System
  | none     => { m' with call := m.call, log := m.log }
  | some sem => { m' with call := m.call, log := Function.update m.log sem { initial := value } }

end System

/-- The resources that are semaphores. -/
def IsSemaphore (base : UInt32) (r : UInt32) : Prop := ∃ sem, r = semaphoreAddress base sem

/-- One step of a machine with `n` CPUs whose semaphore table is at the address `base`; the label
is the semaphore that `semaphore_V` is called on. Other kernel code, in the last clause, uses no
semaphore as a resource for sleeping. -/
inductive SemStep (n : ℕ) (base : UInt32) : System → Option Sem → System → Prop
  | create {m : System} {m' : SemState} {cpu : Fin configMaxCpus} {value : ℤ} {res : Option Sem}
      (hcpu : cpu < n) (hvalue : value < 2 ^ 31)
      (hexec : semaphoreCreate m.toSemState cpu value = some (m', res)) :
      SemStep n base m none (m.recordCreate m' value res)
  | p {m : System} {m' : SemState} {cpu : Fin configMaxCpus} {t : ℤ} {sem : Sem}
      (hcpu : cpu < n) (ht : m.kernel.currentThread cpu = t) (hidle : t ≠ idleThreadTid)
      (hrun : (m.kernel.threadTable t).state = .running)
      (hoff : ∀ h, ¬ OnSleepChain m.kernel h t) (hcall : m.call t = none)
      (hcreated : m.Created sem) (hexec : semaphoreP base m.toSemState cpu sem = some m') :
      SemStep n base m none (m.recordP base m' t sem)
  | v {m : System} {m' : SemState} {cpu : Fin configMaxCpus} {sem : Sem}
      (hcpu : cpu < n) (hcreated : m.Created sem)
      (hexec : semaphoreV base m.toSemState sem = some m') :
      SemStep n base m (some sem) (m.recordV base m' (m.kernel.currentThread cpu) sem)
  | pReturn {m : System} {cpu : Fin configMaxCpus} {t : ℤ} {sem : Sem} {phase : Phase}
      (hcpu : cpu < n) (ht : m.kernel.currentThread cpu = t)
      (hrun : (m.kernel.threadTable t).state = .running)
      (hcall : m.call t = some (semaphoreAddress base sem, phase)) (hphase : phase ≠ .blocking) :
      SemStep n base m none (m.recordReturn t sem)
  | schedule {m : System} {s' : State} {cpu : Fin configMaxCpus} (hcpu : cpu < n)
      (hexec : schedulerSchedule m.kernel cpu = some s') :
      SemStep n base m none (m.recordSwitch s' (m.kernel.currentThread cpu))
  | kernel {m : System} {s' : State} {a : Action} (ha : a.Enabled n m.kernel)
      (helse : Waits.Elsewhere (IsSemaphore base) m.kernel m.call a)
      (hexec : a.exec m.kernel = some s') :
      SemStep n base m none { m with kernel := s' }

/-- The initial state: no semaphores and no threads but the idle thread. -/
def System.initial : System where
  toSemState := semaphoreInit initialState
  call       := fun _ => none
  log        := fun _ => {}

/-- The states of a machine with `n` CPUs after steps that meet a condition. -/
def SemReachable (n : ℕ) (base : UInt32) (C : System → Option Sem → Prop) (m : System) : Prop :=
  Relation.ReflTransGen (fun m m' => ∃ raised, SemStep n base m raised m' ∧ C m raised)
    System.initial m

/-- Any step. -/
def AnyStep (_ : System) (_ : Option Sem) : Prop := True

/-- `semaphore_V` is not called on one of the semaphores while its value is the largest `int`. -/
def RaiseFits (S : Sem → Prop) (m : System) (raised : Option Sem) : Prop :=
  ∀ sem, raised = some sem → S sem → (m.semaphoreTable sem).value ≠ 2 ^ 31 - 1

/-- The calls on the semaphore have had the effect that they should have: the value is the initial
one plus the calls of `semaphore_V` minus the calls of `semaphore_P` started; as many threads sleep
on it as the value is below zero; no more calls of `semaphore_P` have returned than the initial
value and the calls of `semaphore_V` allow; the released callers are the first that blocked, in that
order, and the others still sleep; and if the initial value is `1` and only threads that hold the
semaphore raise it, at most one thread holds it. -/
structure SemaphoreSafe (base : UInt32) (m : System) (sem : Sem) : Prop where
  value : (m.semaphoreTable sem).value =
    (m.log sem).initial + (m.log sem).raised - (m.log sem).started
  sleeping : ((sleepers m.kernel (semaphoreAddress base sem)).length : ℤ) =
    max 0 (-(m.semaphoreTable sem).value)
  returned : ((m.log sem).returned : ℤ) ≤ (m.log sem).initial + (m.log sem).raised
  order : ∃ waiting, (m.log sem).blocked = (m.log sem).released ++ waiting ∧
    ∀ t, t ∈ waiting ↔ t ∈ sleepers m.kernel (semaphoreAddress base sem)
  exclusion : (m.log sem).initial = 1 → (m.log sem).disciplined = true →
    (m.log sem).holding.length ≤ 1

/-! ### The invariant -/

/-- The thread is inside `semaphore_P` on the semaphore. -/
def System.Inside (base : UInt32) (m : System) (sem : Sem) (t : ℤ) : Prop :=
  ∃ phase, m.call t = some (semaphoreAddress base sem, phase)

/-- The record of a semaphore agrees with its value and its waiters. -/
structure LogOk (base : UInt32) (m : System) (q : Threads) (sem : Sem) : Prop where
  value : (m.semaphoreTable sem).value =
    (m.log sem).initial + (m.log sem).raised - (m.log sem).started
  waiters : ((q.waiters (semaphoreAddress base sem)).length : ℤ) =
    max 0 (-(m.semaphoreTable sem).value)
  order : (m.log sem).blocked = (m.log sem).released ++ q.waiters (semaphoreAddress base sem)
  inside : ∃ l : List ℤ, l.Nodup ∧ (∀ t, t ∈ l ↔ m.Inside base sem t) ∧
    (m.log sem).started = (m.log sem).returned + l.length
  holding : (m.log sem).disciplined = true →
    (m.log sem).holding.length + (m.log sem).raised = (m.log sem).returned
  fits : (m.semaphoreTable sem).value < 2 ^ 31

/-- The invariant of the semaphores, where the values of the semaphores in `S` have not wrapped
around. -/
structure SemInv (n : ℕ) (base : UInt32) (S : Sem → Prop) (m : System) (q : Threads) : Prop where
  waits : Waits n (IsSemaphore base) m.kernel q m.call
  created : ∀ t sem, m.Inside base sem t → m.Created sem
  logOk : ∀ sem, S sem → m.Created sem → LogOk base m q sem

lemma LogOk.congr {base : UInt32} {m m' : System} {q q' : Threads} {sem : Sem}
    (h : LogOk base m q sem)
    (hvalue : (m'.semaphoreTable sem).value = (m.semaphoreTable sem).value)
    (hlog : m'.log sem = m.log sem)
    (hwaiters : q'.waiters (semaphoreAddress base sem) = q.waiters (semaphoreAddress base sem))
    (hinside : ∀ t, m'.Inside base sem t ↔ m.Inside base sem t) : LogOk base m' q' sem where
  value := by rw [hvalue, hlog]; exact h.value
  waiters := by rw [hvalue, hwaiters]; exact h.waiters
  order := by rw [hlog, hwaiters]; exact h.order
  inside := by
    obtain ⟨l, hnodup, hl, hlen⟩ := h.inside
    refine ⟨l, hnodup, fun t => ?_, by rw [hlog]; exact hlen⟩
    rw [hinside, hl]
  holding := by rw [hlog]; exact h.holding
  fits := by rw [hvalue]; exact h.fits

/-! ### Threads seen in the thread table -/

lemma mem_tids {t : ℤ} : t ∈ tids ↔ 0 ≤ t ∧ t < configMaxThreads := by
  simp only [tids, List.mem_map, List.mem_range]
  constructor
  · rintro ⟨i, hi, rfl⟩
    omega
  · intro ht
    exact ⟨t.toNat, by omega, by omega⟩

lemma tids_nodup : tids.Nodup :=
  List.nodup_range.map Nat.cast_injective

namespace Models

variable {n : ℕ} {s s' : State} {q : Threads} {t : ℤ} {r : UInt32}

lemma mem_tids_of_sleepsOn (h : Models n s q) (hr : r ≠ 0) (ht : q.sleepsOn t = r) : t ∈ tids := by
  obtain ⟨-, hst⟩ := (h.inv.threadOk t).waiting (ht ▸ hr)
  exact mem_tids.mpr ((h.inv.threadOk t).tid (by rcases hst with hst | hst <;> simp [hst]))

lemma mem_sleepers (h : Models n s q) (hr : r ≠ 0) : t ∈ sleepers s r ↔ t ∈ q.waiters r := by
  rw [sleepers, List.mem_filter, decide_eq_true_iff, h.rep.sleepsOn, Threads.mem_waiters h.inv hr]
  exact ⟨fun ht => ht.2, fun ht => ⟨h.mem_tids_of_sleepsOn hr ht, ht⟩⟩

/-- The threads found asleep on a resource are its waiters. -/
lemma length_sleepers (h : Models n s q) (hr : r ≠ 0) :
    (sleepers s r).length = (q.waiters r).length :=
  ((List.perm_ext_iff_of_nodup (tids_nodup.filter _) (Threads.waiters_nodup h.inv r)).mpr
    fun _ => h.mem_sleepers hr).length_eq

lemma length_waiters_le (h : Models n s q) (hr : r ≠ 0) :
    (q.waiters r).length ≤ configMaxThreads := by
  rw [← h.length_sleepers hr]
  refine (List.length_filter_le ..).trans ?_
  rw [tids, List.length_map, List.length_range]

/-- A wake-up releases the first waiter. -/
lemma woken_wake {l : List ℤ} (h : Models n s q) (h' : Models n s' (q.wake r)) (hr : r ≠ 0)
    (hw : q.waiters r = t :: l) : woken s s' r = [t] := by
  have hmem : ∀ u, u ∈ q.waiters r ↔ q.sleepsOn u = r := fun u => Threads.mem_waiters h.inv hr
  have htr : q.sleepsOn t = r := (hmem t).mp (by rw [hw]; exact List.mem_cons_self)
  have hwake : q.wake r = q.release t := by rw [Threads.wake, hw]
  have hiff : ∀ u, ((s.threadTable u).sleepsOn = r ∧ (s'.threadTable u).sleepsOn = 0) ↔ u = t := by
    intro u
    rw [h.rep.sleepsOn, h'.rep.sleepsOn, hwake, Threads.release_sleepsOn]
    by_cases hut : u = t
    · subst hut; simp [htr]
    · rw [Function.update_of_ne hut]
      simp only [hut, iff_false, not_and]
      intro hu
      rw [hu]
      exact hr
  have hfilter : woken s s' r = tids.filter (· = t) := List.filter_congr fun u _ => by simp [hiff u]
  rw [hfilter, List.filter_eq, List.count_eq_one_of_mem tids_nodup (h.mem_tids_of_sleepsOn hr htr)]
  rfl

end Models

lemma woken_self (s : State) {r : UInt32} (hr : r ≠ 0) : woken s s r = [] := by
  refine List.filter_eq_nil_iff.mpr fun t _ => ?_
  simp only [decide_eq_true_eq, not_and]
  intro ht
  rw [ht]
  exact hr

/-! ### The steps -/

namespace SemInv

variable {n : ℕ} {base : UInt32} {S : Sem → Prop} {m : System} {q : Threads}

/-- A thread that is switched out stays inside. -/
lemma inside_recordSwitch (m : System) (s' : State) (u : ℤ) (sem : Sem) (t : ℤ) :
    (m.recordSwitch s' u).Inside base sem t ↔ m.Inside base sem t := by
  by_cases ht : t = u
  · subst ht
    rcases hw : m.call t with _ | ⟨r, phase⟩
    · simp [System.Inside, System.recordSwitch, Wait.switch, hw]
    · simp only [System.Inside, System.recordSwitch, Wait.switch, hw, Function.update_self,
        Option.map_some]
      split_ifs <;> simp
  · simp [System.Inside, System.recordSwitch, ht]

lemma schedule {s' : State} {cpu : Fin configMaxCpus} (h : SemInv n base S m q)
    (hR : ¬ IsSemaphore base 0) (hcpu : cpu < n)
    (hexec : schedulerSchedule m.kernel cpu = some s') :
    SemInv n base S (m.recordSwitch s' (m.kernel.currentThread cpu)) (q.schedule cpu) := by
  have hinside : ∀ sem t, (m.recordSwitch s' (m.kernel.currentThread cpu)).Inside base sem t ↔
      m.Inside base sem t := inside_recordSwitch m s' _
  refine ⟨h.waits.schedulerSchedule hR hcpu hexec, fun t sem ht => ?_, fun sem hS hsem => ?_⟩
  · exact h.created t sem ((hinside sem t).mp ht)
  · exact (h.logOk sem hS hsem).congr rfl rfl
      (Threads.waiters_congr Threads.schedule_sleepsOn Threads.schedule_chain _) (hinside sem)

lemma kernel {s' : State} {a : Action} (h : SemInv n base S m q) (hR : ¬ IsSemaphore base 0)
    (ha : a.Enabled n m.kernel) (helse : Waits.Elsewhere (IsSemaphore base) m.kernel m.call a)
    (hexec : a.exec m.kernel = some s') : ∃ q', SemInv n base S { m with kernel := s' } q' := by
  obtain ⟨q', hwaits, hwaiters, -⟩ := h.waits.elsewhere hR ha helse hexec
  refine ⟨q', hwaits, h.created, fun sem hS hsem => ?_⟩
  exact (h.logOk sem hS hsem).congr rfl rfl (hwaiters _ ⟨sem, rfl⟩) fun _ => Iff.rfl

/-- Only threads inside `semaphore_P` sleep on a semaphore. -/
lemma inside_of_mem_waiters (h : SemInv n base S m q) (hR : ¬ IsSemaphore base 0) {sem : Sem} {t : ℤ}
    (ht : t ∈ q.waiters (semaphoreAddress base sem)) : m.Inside base sem t :=
  (h.waits.ok t).exists_phase hR ⟨sem, rfl⟩ (h.waits.models.inv.sleepsOn_of_mem_waiters ht).1

lemma create {m' : SemState} {cpu : Fin configMaxCpus} {value : ℤ} {res : Option Sem}
    (h : SemInv n base S m q) (hR : ¬ IsSemaphore base 0) (hfits : value < 2 ^ 31)
    (hexec : semaphoreCreate m.toSemState cpu value = some (m', res)) :
    SemInv n base S (m.recordCreate m' value res) q := by
  obtain ⟨hvalue, ⟨rfl, rfl⟩ | ⟨sem, rfl, hfree, rfl⟩⟩ := semaphoreCreate_cases hexec
  · exact h
  · -- nobody is inside `semaphore_P` on a free row, so nobody sleeps on it
    have hcall : ∀ t, ¬ m.Inside base sem t := fun t ht => h.created t sem ht hfree
    have hwaiters : q.waiters (semaphoreAddress base sem) = [] :=
      List.eq_nil_iff_forall_not_mem.mpr fun t ht => hcall t (h.inside_of_mem_waiters hR ht)
    refine ⟨h.waits, fun t sem' ht => ?_, fun sem' hS hsem' => ?_⟩
    · have hne' : sem' ≠ sem := by
        rintro rfl
        exact hcall t ht
      have hcr := h.created t sem' ht
      simpa [System.recordCreate, SemState.Created, hne'] using hcr
    · by_cases hs : sem' = sem
      · subst hs
        refine ⟨?_, ?_, ?_, ⟨[], List.nodup_nil, fun t => ?_, ?_⟩, ?_, ?_⟩
        · simp [System.recordCreate]
        · rw [hwaiters]
          simp only [System.recordCreate, Function.update_self, List.length_nil, Nat.cast_zero]
          omega
        · simp [System.recordCreate, hwaiters]
        · simp only [List.not_mem_nil, false_iff]
          exact hcall t
        · simp [System.recordCreate]
        · simp [System.recordCreate]
        · simpa [System.recordCreate] using hfits
      · have hcr : m.Created sem' := by
          simpa [System.recordCreate, SemState.Created, hs] using hsem'
        refine (h.logOk sem' hS hcr).congr ?_ ?_ rfl fun t => Iff.rfl
        · simp [System.recordCreate, hs]
        · simp [System.recordCreate, hs]

/-- As few threads wait that no value is lowered below the smallest `int`. -/
lemma toInt_pred {sem : Sem} (h : SemInv n base S m q) (hR : ¬ IsSemaphore base 0) (hS : S sem)
    (hcreated : m.Created sem) :
    toInt ((m.semaphoreTable sem).value - 1) = (m.semaphoreTable sem).value - 1 := by
  have hlog := h.logOk sem hS hcreated
  have hw := hlog.waiters
  have hfits := hlog.fits
  have hfew := h.waits.models.length_waiters_le (r := semaphoreAddress base sem)
    fun hr => hR ⟨sem, hr.symm⟩
  have hmax : configMaxThreads < 2 ^ 31 - 1 := by decide
  exact toInt_of_fits (by omega) (by omega)

/-- A thread that calls `semaphore_P` is inside then, and all others are where they were. -/
lemma inside_enter {m₁ : System} {sem : Sem} {phase : Phase} {t : ℤ}
    (hinj : Function.Injective (semaphoreAddress base)) (hcall : m.call t = none)
    (hm₁ : m₁.call = Function.update m.call t (some (semaphoreAddress base sem, phase))) (u : ℤ)
    (sem' : Sem) : m₁.Inside base sem' u ↔ m.Inside base sem' u ∨ (u = t ∧ sem' = sem) := by
  rw [System.Inside, System.Inside, hm₁]
  by_cases hu : u = t
  · subst hu
    rw [Function.update_self, hcall]
    constructor
    · rintro ⟨phase', hc⟩
      rw [Option.some.injEq, Prod.mk.injEq] at hc
      exact Or.inr ⟨rfl, (hinj hc.1).symm⟩
    · rintro (⟨_, hc⟩ | ⟨-, rfl⟩)
      · cases hc
      · exact ⟨phase, rfl⟩
  · rw [Function.update_of_ne hu]
    simp [hu]

/-- A thread enters `semaphore_P`. It is the only one in `waiting` if it has to wait. -/
lemma enter {m' : System} {q' : Threads} {t : ℤ} {sem : Sem} {phase : Phase} {waiting : List ℤ}
    (h : SemInv n base S m q) (hinj : Function.Injective (semaphoreAddress base))
    (hR : ¬ IsSemaphore base 0) (hcall : m.call t = none) (hcreated : m.Created sem)
    (htable : m'.semaphoreTable =
      (m.toSemState.setValue sem (toInt ((m.semaphoreTable sem).value - 1))).semaphoreTable)
    (hcalls : m'.call = Function.update m.call t (some (semaphoreAddress base sem, phase)))
    (hlogs : m'.log = Function.update m.log sem { m.log sem with
      started := (m.log sem).started + 1, blocked := (m.log sem).blocked ++ waiting })
    (hwaits : Waits n (IsSemaphore base) m'.kernel q' m'.call)
    (hself : q'.waiters (semaphoreAddress base sem) =
      q.waiters (semaphoreAddress base sem) ++ waiting)
    (hlength : S sem → ((q.waiters (semaphoreAddress base sem) ++ waiting).length : ℤ) =
      max 0 (-(toInt ((m.semaphoreTable sem).value - 1))))
    (hother : ∀ sem', sem' ≠ sem →
      q'.waiters (semaphoreAddress base sem') = q.waiters (semaphoreAddress base sem')) :
    SemInv n base S m' q' := by
  have hinside := inside_enter hinj hcall hcalls
  have hkept : ∀ sem', m'.Created sem' ↔ m.Created sem' := SemState.created_congr htable
  refine ⟨hwaits, fun u sem' hu => (hkept sem').mpr ?_, fun sem' hS hsem' => ?_⟩
  · rcases (hinside u sem').mp hu with hu | ⟨-, rfl⟩
    · exact h.created u sem' hu
    · exact hcreated
  · by_cases hs : sem' = sem
    · subst hs
      have hlog := h.logOk sem' hS hcreated
      have hv := hlog.value
      have hpred := h.toInt_pred hR hS hcreated
      obtain ⟨l, hnodup, hl, hlen⟩ := hlog.inside
      have htl : t ∉ l := by
        rw [hl, System.Inside, hcall]
        simp
      refine ⟨?_, ?_, ?_, ⟨l ++ [t], Threads.nodup_append_singleton hnodup htl, fun u => ?_, ?_⟩,
        ?_, ?_⟩
      · simp only [htable, hlogs, SemState.setValue, Function.update_self, hpred, Nat.cast_add,
          Nat.cast_one]
        omega
      · simp only [hself, htable, SemState.setValue, Function.update_self]
        exact hlength hS
      · simp only [hself, hlogs, Function.update_self]
        rw [hlog.order, List.append_assoc]
      · rw [hinside, List.mem_append, hl]
        simp
      · simp only [hlogs, Function.update_self, List.length_append, List.length_singleton]
        omega
      · simpa only [hlogs, Function.update_self] using hlog.holding
      · simp only [htable, SemState.setValue, Function.update_self]
        exact toInt_lt _
    · refine (h.logOk sem' hS ((hkept sem').mp hsem')).congr ?_ ?_ (hother sem' hs) fun u => ?_
      · simp [htable, SemState.setValue, hs]
      · simp [hlogs, hs]
      · rw [hinside]
        simp [hs]

/-- The body of `semaphore_P`: the record of the semaphore and of the calling thread change. -/
lemma p {m' : SemState} {cpu : Fin configMaxCpus} {t : ℤ} {sem : Sem} (h : SemInv n base S m q)
    (hinj : Function.Injective (semaphoreAddress base)) (hR : ¬ IsSemaphore base 0)
    (ht : m.kernel.currentThread cpu = t) (hidle : t ≠ idleThreadTid)
    (hrun : (m.kernel.threadTable t).state = .running)
    (hoff : ∀ h, ¬ OnSleepChain m.kernel h t) (hcall : m.call t = none)
    (hcreated : m.Created sem) (hexec : semaphoreP base m.toSemState cpu sem = some m') :
    ∃ q', SemInv n base S (m.recordP base m' t sem) q' := by
  have hq := h.waits.models.inv
  have hzero := h.waits.models.sleepsOn_eq_zero hoff
  rw [h.waits.models.rep.state] at hrun
  obtain ⟨kernel, rfl, ⟨hnonneg, rfl⟩ | ⟨hneg, hsleep⟩⟩ := semaphoreP_cases hexec
  · -- the value was positive: the call passes
    have hrecord : m.recordP base { m.toSemState.setValue sem (toInt ((m.semaphoreTable sem).value - 1)) with
        kernel := m.kernel } t sem =
        { m.toSemState.setValue sem (toInt ((m.semaphoreTable sem).value - 1)) with
          call := Function.update m.call t (some (semaphoreAddress base sem, .passing))
          log  := Function.update m.log sem { m.log sem with started := (m.log sem).started + 1 } } := by
        simp only [System.recordP, SemState.setValue, Function.update_self, if_neg (not_lt.mpr hnonneg)]
    have hlogs : Function.update m.log sem { m.log sem with started := (m.log sem).started + 1 } =
        Function.update m.log sem { m.log sem with
          started := (m.log sem).started + 1, blocked := (m.log sem).blocked ++ [] } := by
      rw [List.append_nil]
    rw [hrecord]
    refine ⟨q, h.enter hinj hR hcall hcreated rfl rfl hlogs ⟨h.waits.models, ?_, fun u => ?_⟩
      (List.append_nil _).symm ?_ fun _ _ => rfl⟩
    · exact (Function.update_of_ne (Ne.symm hidle) _ _).trans h.waits.idle
    · change WaitOk _ q u (Function.update m.call t (some (semaphoreAddress base sem, .passing)) u)
      by_cases hu : u = t
      · rw [hu, Function.update_self]
        exact hzero
      · rw [Function.update_of_ne hu]
        exact h.waits.ok u
    · intro hS
      have hw := (h.logOk sem hS hcreated).waiters
      have hpred := h.toInt_pred hR hS hcreated
      rw [List.append_nil]
      omega
  · -- otherwise the thread enters the sleep queue
    obtain ⟨s', hs', hwaits⟩ := h.waits.sleepqAdd (r := semaphoreAddress base sem) ht
      (fun hr => hR ⟨sem, hr.symm⟩) hidle hrun hzero (Or.inr rfl)
    obtain rfl : s' = kernel := Option.some.inj (hs'.symm.trans hsleep)
    have hrecord : m.recordP base { m.toSemState.setValue sem (toInt ((m.semaphoreTable sem).value - 1)) with
        kernel := s' } t sem =
        { m.toSemState.setValue sem (toInt ((m.semaphoreTable sem).value - 1)) with
          kernel := s'
          call := Function.update m.call t (some (semaphoreAddress base sem, .blocking))
          log  := Function.update m.log sem { m.log sem with
            started := (m.log sem).started + 1, blocked := (m.log sem).blocked ++ [t] } } := by
      simp only [System.recordP, SemState.setValue, Function.update_self, if_pos hneg]
    rw [hrecord]
    refine ⟨q.sleep t (semaphoreAddress base sem), h.enter hinj hR hcall hcreated rfl rfl rfl hwaits
      (Threads.waiters_sleep_self hq hzero) ?_ fun sem' hs => ?_⟩
    · intro hS
      have hw := (h.logOk sem hS hcreated).waiters
      have hpred := h.toInt_pred hR hS hcreated
      rw [List.length_append, List.length_singleton]
      push_cast
      omega
    · exact Threads.waiters_sleep_of_ne hq hzero fun heq => hs (hinj heq)

/-- `semaphore_V` has been called; the threads in `released` wait no more. -/
lemma raise {m' : System} {q' : Threads} {t : ℤ} {sem : Sem} {released : List ℤ}
    (h : SemInv n base S m q) (hcreated : m.Created sem)
    (hsucc : S sem →
      toInt ((m.semaphoreTable sem).value + 1) = (m.semaphoreTable sem).value + 1)
    (htable : m'.semaphoreTable =
      (m.toSemState.setValue sem (toInt ((m.semaphoreTable sem).value + 1))).semaphoreTable)
    (hcalls : m'.call = m.call)
    (hlogs : m'.log = Function.update m.log sem { m.log sem with
      raised := (m.log sem).raised + 1, released := (m.log sem).released ++ released,
      holding := (m.log sem).holding.erase t,
      disciplined := (m.log sem).disciplined && decide (t ∈ (m.log sem).holding) })
    (hwaits : Waits n (IsSemaphore base) m'.kernel q' m'.call)
    (hself : S sem → q.waiters (semaphoreAddress base sem) =
      released ++ q'.waiters (semaphoreAddress base sem))
    (hlength : S sem → ((q'.waiters (semaphoreAddress base sem)).length : ℤ) =
      max 0 (-(toInt ((m.semaphoreTable sem).value + 1))))
    (hother : ∀ sem', sem' ≠ sem →
      q'.waiters (semaphoreAddress base sem') = q.waiters (semaphoreAddress base sem')) :
    SemInv n base S m' q' := by
  have hinside : ∀ sem' u, m'.Inside base sem' u ↔ m.Inside base sem' u := by
    intro sem' u
    rw [System.Inside, hcalls, System.Inside]
  have hkept : ∀ sem', m'.Created sem' ↔ m.Created sem' := SemState.created_congr htable
  refine ⟨hwaits, fun u sem' hu => (hkept sem').mpr ?_, fun sem' hS hsem' => ?_⟩
  · exact h.created u sem' ((hinside sem' u).mp hu)
  · by_cases hs : sem' = sem
    · subst hs
      have hlog := h.logOk sem' hS hcreated
      have hv := hlog.value
      refine ⟨?_, ?_, ?_, ?_, fun hd => ?_, ?_⟩
      · simp only [htable, hlogs, SemState.setValue, Function.update_self, hsucc hS, Nat.cast_add,
          Nat.cast_one]
        omega
      · simp only [htable, SemState.setValue, Function.update_self]
        exact hlength hS
      · simp only [hlogs, Function.update_self]
        rw [hlog.order, hself hS, List.append_assoc]
      · obtain ⟨l, hnodup, hl, hlen⟩ := hlog.inside
        refine ⟨l, hnodup, fun u => ?_, by simpa only [hlogs, Function.update_self] using hlen⟩
        rw [hinside, hl]
      · simp only [hlogs, Function.update_self, Bool.and_eq_true, decide_eq_true_eq] at hd ⊢
        have hlen := List.length_erase_of_mem hd.2
        have hpos := List.length_pos_of_mem hd.2
        have hold := hlog.holding hd.1
        omega
      · simp only [htable, SemState.setValue, Function.update_self]
        exact toInt_lt _
    · refine (h.logOk sem' hS ((hkept sem').mp hsem')).congr ?_ ?_ (hother sem' hs) (hinside sem')
      · simp [htable, SemState.setValue, hs]
      · simp [hlogs, hs]

lemma v {m' : SemState} {t : ℤ} {sem : Sem} (h : SemInv n base S m q)
    (hinj : Function.Injective (semaphoreAddress base)) (hR : ¬ IsSemaphore base 0)
    (hcreated : m.Created sem) (hbelow : S sem → (m.semaphoreTable sem).value ≠ 2 ^ 31 - 1)
    (hexec : semaphoreV base m.toSemState sem = some m') :
    ∃ q', SemInv n base S (m.recordV base m' t sem) q' := by
  have hq := h.waits.models.inv
  have hne : semaphoreAddress base sem ≠ 0 := fun hr => hR ⟨sem, hr.symm⟩
  have hsucc : S sem →
      toInt ((m.semaphoreTable sem).value + 1) = (m.semaphoreTable sem).value + 1 := by
    intro hS
    have hpred := h.toInt_pred hR hS hcreated
    have hfits := (h.logOk sem hS hcreated).fits
    have hne := hbelow hS
    have hlow : -2 ^ 31 ≤ toInt ((m.semaphoreTable sem).value - 1) := Int.le_bmod (by decide)
    exact toInt_of_fits (by omega) (by omega)
  obtain ⟨kernel, rfl, ⟨hpos, rfl⟩ | ⟨hle, hwake⟩⟩ := semaphoreV_cases hexec
  · -- nobody waits
    have hnone : woken m.kernel m.kernel (semaphoreAddress base sem) = [] := woken_self _ hne
    refine ⟨q, h.raise hcreated hsucc rfl rfl rfl h.waits (fun _ => ?_) (fun hS => ?_)
      fun _ _ => rfl⟩
    · change _ = woken m.kernel m.kernel (semaphoreAddress base sem) ++ _
      rw [hnone, List.nil_append]
    · have hw := (h.logOk sem hS hcreated).waiters
      have hvalue := hsucc hS
      omega
  · -- the first waiter is released
    obtain ⟨s', hs', hwaits⟩ := h.waits.sleepqWake hR (semaphoreAddress base sem)
    obtain rfl : s' = kernel := Option.some.inj (hs'.symm.trans hwake)
    have hfirst : S sem → ∃ u l, q.waiters (semaphoreAddress base sem) = u :: l := by
      intro hS
      have hw := (h.logOk sem hS hcreated).waiters
      have hvalue := hsucc hS
      refine List.exists_cons_of_length_pos ?_
      omega
    have hself : (q.wake (semaphoreAddress base sem)).waiters (semaphoreAddress base sem) =
        (q.waiters (semaphoreAddress base sem)).tail := Threads.waiters_wake_self hq _
    refine ⟨q.wake (semaphoreAddress base sem), h.raise hcreated hsucc rfl rfl rfl hwaits
      (fun hS => ?_) (fun hS => ?_) ?_⟩
    · obtain ⟨u, l, hw⟩ := hfirst hS
      change _ = woken m.kernel s' (semaphoreAddress base sem) ++ _
      rw [h.waits.models.woken_wake hwaits.models hne hw, hself, hw]
      rfl
    · obtain ⟨u, l, hw⟩ := hfirst hS
      have hlength := (h.logOk sem hS hcreated).waiters
      have hvalue := hsucc hS
      rw [hw, List.length_cons] at hlength
      rw [hself, hw, List.tail_cons]
      push_cast at hlength
      omega
    · exact fun sem' hs => Threads.waiters_wake_of_ne hq fun heq => hs (hinj heq)

/-- A thread that runs after the switch does not sleep on the semaphore any more. -/
lemma pReturn {t : ℤ} {sem : Sem} {phase : Phase} (h : SemInv n base S m q)
    (hinj : Function.Injective (semaphoreAddress base)) (hR : ¬ IsSemaphore base 0)
    (hrun : (m.kernel.threadTable t).state = .running)
    (hcall : m.call t = some (semaphoreAddress base sem, phase))
    (hphase : phase ≠ .blocking) : SemInv n base S (m.recordReturn t sem) q := by
  rw [h.waits.models.rep.state] at hrun
  have hzero : q.sleepsOn t = 0 := (hcall ▸ h.waits.ok t).sleepsOn_eq_zero hphase hrun
  have hidle : idleThreadTid ≠ t := by
    rintro rfl
    rw [h.waits.idle] at hcall
    simp at hcall
  have hinside : ∀ sem' u, (m.recordReturn t sem).Inside base sem' u ↔
      m.Inside base sem' u ∧ u ≠ t := by
    intro sem' u
    by_cases hu : u = t
    · subst hu; simp [System.Inside, System.recordReturn]
    · simp [System.Inside, System.recordReturn, hu]
  refine ⟨⟨h.waits.models, ?_, fun u => ?_⟩, fun u sem' hu => ?_, fun sem' hS hsem' => ?_⟩
  · simpa [System.recordReturn, hidle] using h.waits.idle
  · by_cases hu : u = t
    · subst hu
      simp only [System.recordReturn, Function.update_self]
      intro hr
      exact hR (hzero ▸ hr)
    · simp only [System.recordReturn, Function.update_of_ne hu]
      exact h.waits.ok u
  · exact h.created u sem' ((hinside sem' u).mp hu).1
  · by_cases hs : sem' = sem
    · subst hs
      have hlog := h.logOk sem' hS hsem'
      obtain ⟨l, hnodup, hl, hlen⟩ := hlog.inside
      have htl : t ∈ l := (hl t).mpr ⟨phase, hcall⟩
      have hpos := List.length_pos_of_mem htl
      refine ⟨?_, ?_, ?_, ⟨l.erase t, hnodup.erase t, fun u => ?_, ?_⟩, ?_, hlog.fits⟩
      · simpa only [System.recordReturn, Function.update_self] using hlog.value
      · exact hlog.waiters
      · simpa only [System.recordReturn, Function.update_self] using hlog.order
      · rw [hnodup.mem_erase_iff, hl, hinside, and_comm]
      · simp only [System.recordReturn, Function.update_self]
        rw [List.length_erase_of_mem htl]
        omega
      · intro hd
        simp only [System.recordReturn, Function.update_self] at hd ⊢
        have hold := hlog.holding hd
        rw [List.length_append, List.length_singleton]
        omega
    · refine (h.logOk sem' hS hsem').congr rfl ?_ rfl fun u => ?_
      · simp [System.recordReturn, hs]
      · rw [hinside]
        refine and_iff_left_of_imp ?_
        rintro ⟨phase', hc⟩ rfl
        rw [hcall, Option.some.injEq, Prod.mk.injEq] at hc
        exact hs (hinj hc.1).symm

lemma initial (n : ℕ) (base : UInt32) (S : Sem → Prop) (hR : ¬ IsSemaphore base 0) :
    ∃ q, SemInv n base S System.initial q := by
  obtain ⟨q, hq⟩ := Waits.initialState n hR
  refine ⟨q, hq, fun t sem ht => ?_, fun sem _ hsem => absurd rfl hsem⟩
  simp [System.Inside, System.initial] at ht

/-- Every step that meets the condition keeps the invariant. -/
lemma step {m' : System} {raised : Option Sem} (h : SemInv n base S m q)
    (hinj : Function.Injective (semaphoreAddress base)) (hR : ¬ IsSemaphore base 0)
    (hstep : SemStep n base m raised m') (hfits : RaiseFits S m raised) :
    ∃ q', SemInv n base S m' q' := by
  cases hstep with
  | create hcpu hvalue hexec => exact ⟨q, h.create hR hvalue hexec⟩
  | p hcpu ht hidle hrun hoff hcall hcreated hexec =>
    exact h.p hinj hR ht hidle hrun hoff hcall hcreated hexec
  | v hcpu hcreated hexec => exact h.v hinj hR hcreated (hfits _ rfl) hexec
  | pReturn hcpu ht hrun hcall hphase => exact ⟨q, h.pReturn hinj hR hrun hcall hphase⟩
  | schedule hcpu hexec => exact ⟨_, h.schedule hR hcpu hexec⟩
  | kernel ha helse hexec => exact h.kernel hR ha helse hexec

/-- The threads that sleep on a semaphore are inside `semaphore_P`, so returned calls are
covered by the initial value and the calls of `semaphore_V`. -/
lemma returned_le {sem : Sem} (h : SemInv n base S m q) (hR : ¬ IsSemaphore base 0) (hS : S sem)
    (hcreated : m.Created sem) :
    ((m.log sem).returned : ℤ) ≤ (m.log sem).initial + (m.log sem).raised := by
  have hlog := h.logOk sem hS hcreated
  obtain ⟨l, -, hl, hlen⟩ := hlog.inside
  have hsub : q.waiters (semaphoreAddress base sem) ⊆ l :=
    fun t ht => (hl t).mpr (h.inside_of_mem_waiters hR ht)
  have hle := ((Threads.waiters_nodup h.waits.models.inv _).subperm hsub).length_le
  have hv := hlog.value
  have hw := hlog.waiters
  omega

lemma safe {sem : Sem} (h : SemInv n base S m q) (hR : ¬ IsSemaphore base 0) (hS : S sem)
    (hcreated : m.Created sem) : SemaphoreSafe base m sem := by
  have hlog := h.logOk sem hS hcreated
  have hret := h.returned_le hR hS hcreated
  have hne : semaphoreAddress base sem ≠ 0 := fun hr => hR ⟨sem, hr.symm⟩
  refine ⟨hlog.value, ?_, hret, ⟨_, hlog.order, fun t => ?_⟩, fun hone hd => ?_⟩
  · rw [h.waits.models.length_sleepers hne]
    exact hlog.waiters
  · exact (h.waits.models.mem_sleepers hne).symm
  · have hhold := hlog.holding hd
    omega

end SemInv

lemma not_isSemaphore_zero {base : UInt32} (hpos : 0 < base.toNat)
    (hbase : base.toNat + 12 * configMaxSemaphores ≤ 2 ^ 32) : ¬ IsSemaphore base 0 := by
  rintro ⟨sem, hr⟩
  exact semaphoreAddress_ne_zero hpos hbase sem hr.symm

lemma SemReachable.semInv {n : ℕ} {base : UInt32} {S : Sem → Prop} {m : System}
    (hinj : Function.Injective (semaphoreAddress base)) (hR : ¬ IsSemaphore base 0)
    (h : SemReachable n base (RaiseFits S) m) : ∃ q, SemInv n base S m q := by
  induction h with
  | refl => exact SemInv.initial n base S hR
  | tail _ hstep ih =>
    obtain ⟨q, hq⟩ := ih
    obtain ⟨raised, hstep, hfits⟩ := hstep
    exact hq.step hinj hR hstep hfits

/-- A row that has been handed out stays so. -/
lemma SemStep.created {n : ℕ} {base : UInt32} {m m' : System} {raised : Option Sem}
    (h : SemStep n base m raised m') {sem : Sem} (hsem : m.Created sem) : m'.Created sem := by
  cases h with
  | @create m₁ cpu value res hcpu hvalue hexec =>
    obtain ⟨-, ⟨rfl, rfl⟩ | ⟨free, rfl, hfree, rfl⟩⟩ := semaphoreCreate_cases hexec
    · exact hsem
    · have hne : sem ≠ free := by
        rintro rfl
        exact hsem hfree
      simpa [System.recordCreate, SemState.Created, hne] using hsem
  | @p m₁ cpu t sem₁ hcpu ht hidle hrun hoff hcall hcreated hexec =>
    obtain ⟨kernel, rfl, -⟩ := semaphoreP_cases hexec
    rw [System.recordP]
    split_ifs
    · exact SemState.created_setValue.mpr hsem
    · exact SemState.created_setValue.mpr hsem
  | @v m₁ cpu sem₁ hcpu hcreated hexec =>
    obtain ⟨kernel, rfl, -⟩ := semaphoreV_cases hexec
    exact SemState.created_setValue.mpr hsem
  | pReturn => exact hsem
  | schedule => exact hsem
  | kernel => exact hsem

/-- What `semaphore_V` does to the value and to the record of the semaphore. -/
lemma SemStep.value_of_raised {n : ℕ} {base : UInt32} {m m' : System} {sem : Sem}
    (h : SemStep n base m (some sem) m') :
    (m'.semaphoreTable sem).value = toInt ((m.semaphoreTable sem).value + 1) ∧
      m.Created sem ∧ (m'.log sem).initial = (m.log sem).initial ∧
      (m'.log sem).raised = (m.log sem).raised + 1 ∧
      (m'.log sem).started = (m.log sem).started := by
  cases h with
  | v hcpu hcreated hexec =>
    obtain ⟨kernel, rfl, -⟩ := semaphoreV_cases hexec
    refine ⟨?_, hcreated, ?_⟩
    · simp [System.recordV, SemState.setValue]
    · simp [System.recordV]

/-- In every run in which `semaphore_V` is not called on a semaphore while its value is the largest
`int`, in any interleaving and whatever happens to other semaphores, the calls on the semaphore have
the effect that they should have. The first call of `semaphore_V` at the largest `int` ends that. -/
theorem semaphore_safety {n : ℕ} {base : UInt32} (hpos : 0 < base.toNat)
    (hbase : base.toNat + 12 * configMaxSemaphores ≤ 2 ^ 32) {m : System} {sem : Sem}
    (h : SemReachable n base (RaiseFits (· = sem)) m) (hcreated : m.Created sem) :
    SemaphoreSafe base m sem ∧
      ∀ m', SemStep n base m (some sem) m' →
        (SemaphoreSafe base m' sem ↔ (m.semaphoreTable sem).value ≠ 2 ^ 31 - 1) := by
  have hinj := semaphoreAddress_injective hbase
  have hR := not_isSemaphore_zero hpos hbase
  obtain ⟨q, hq⟩ := h.semInv hinj hR
  have hsafe := hq.safe hR rfl hcreated
  refine ⟨hsafe, fun m' hstep => ⟨fun hsafe' hmax => ?_, fun hne => ?_⟩⟩
  · obtain ⟨hvalue, -, hinitial, hraised, hstarted⟩ := hstep.value_of_raised
    have hv := hsafe.value
    have hv' := hsafe'.value
    rw [hvalue, hmax, hinitial, hraised, hstarted] at hv'
    rw [hmax] at hv
    have hwrap : toInt (2 ^ 31 - 1 + 1) = -2 ^ 31 := by decide
    rw [hwrap] at hv'
    push_cast at hv'
    omega
  · have hfits : RaiseFits (· = sem) m (some sem) := by
      rintro sem' heq rfl
      exact hne
    obtain ⟨q', hq'⟩ := hq.step hinj hR hstep hfits
    exact hq'.safe hR rfl (hstep.created hcreated)

/-! ### Runs -/

/-- A thread runs and has created a semaphore. -/
lemma exists_semaphore {C : System → Option Sem → Prop} (hC : ∀ m, C m none) {value : ℤ}
    (hnonneg : 0 ≤ value) (hvalue : value < 2 ^ 31) : ∃ m : System, SemReachable 1 0x80020000 C m ∧
      m.kernel.currentThread 0 = 1 ∧ (m.kernel.threadTable 1).state = .running ∧
      (∀ h, ¬ OnSleepChain m.kernel h 1) ∧ m.call 1 = none ∧ m.semaphoreTable 0 = ⟨value, 1⟩ ∧
      m.log 0 = { initial := value } ∧
      (∃ k, sleepqAdd m.kernel 0 (semaphoreAddress 0x80020000 0) = some k) ∧
      ∃ k, sleepqWake m.kernel (semaphoreAddress 0x80020000 0) = some k := by
  obtain ⟨s₂, s₃, hs₂, hs₃, hidle, hcur, hrun, hoff⟩ := exists_threadRunning
  have hreach₃ : SemReachable 1 0x80020000 C _ := ((Relation.ReflTransGen.single
    ⟨none, @SemStep.kernel 1 0x80020000 System.initial _ .threadCreate trivial trivial rfl,
      hC _⟩).tail ⟨none, SemStep.kernel (a := .threadRun 1) rfl trivial hs₂, hC _⟩).tail
    ⟨none, @SemStep.schedule 1 0x80020000 _ _ 0 Nat.one_pos hs₃, hC _⟩
  obtain ⟨m, hm⟩ : ∃ m, semaphoreCreate
      { kernel := s₃, semaphoreTable := fun _ => { value := 0, creator := -1 }, next := 0 } 0
      value = some (m, some 0) := by
    rw [semaphoreCreate, if_neg (not_lt.mpr hnonneg)]
    exact ⟨_, rfl⟩
  have hkernel : m.kernel = s₃ := semaphoreCreate_kernel hm
  have hrow : m.semaphoreTable 0 = ⟨value, s₃.currentThread 0⟩ := by
    obtain ⟨-, ⟨hnone, -⟩ | ⟨sem, hsem, -, rfl⟩⟩ := semaphoreCreate_cases hm
    · cases hnone
    · cases hsem
      simp only [Function.update_self]
  refine ⟨_, hreach₃.tail ⟨none, @SemStep.create 1 0x80020000 _ _ 0 value (some 0) Nat.one_pos hvalue
    hm, hC _⟩, hkernel ▸ hcur, hkernel ▸ hrun, hkernel ▸ hoff, ?_, hcur ▸ hrow, ?_, ?_, ?_⟩
  · simp [System.recordCreate, System.recordSwitch, System.initial, hidle]
  · simp [System.recordCreate]
  · change ∃ k, sleepqAdd m.kernel 0 _ = some k
    rw [hkernel]
    cases hs₂
    cases hs₃
    exact ⟨_, rfl⟩
  · change ∃ k, sleepqWake m.kernel _ = some k
    rw [hkernel]
    cases hs₂
    cases hs₃
    exact ⟨_, rfl⟩

/-- A thread creates a semaphore with value `0` and blocks on it. -/
theorem semaphore_safety_blocked : ∃ m, SemReachable 1 0x80020000 (RaiseFits (· = 0)) m ∧
    m.Created 0 ∧ (m.semaphoreTable 0).value = -1 ∧
    ((sleepers m.kernel (semaphoreAddress 0x80020000 0)).length : ℤ) = 1 := by
  obtain ⟨m, hreach, hcur, hrun, hoff, hcall, hrow, -, ⟨k, hadd⟩, -⟩ :=
    @exists_semaphore (RaiseFits (· = 0)) (fun _ _ h => nomatch h) 0 le_rfl (by decide)
  have hcreated : m.Created 0 := by
    rw [SemState.Created, hrow]
    decide
  obtain ⟨m', hm'⟩ : ∃ m', semaphoreP 0x80020000 m.toSemState 0 0 = some m' := by
    rw [semaphoreP, hrow]
    change ∃ m', (sleepqAdd m.kernel 0 _).bind _ = some m'
    rw [hadd]
    exact ⟨_, rfl⟩
  have hstep := @SemStep.p 1 0x80020000 m m' 0 1 0 Nat.one_pos hcur (by decide) hrun hoff hcall
    hcreated hm'
  have hsafe := (semaphore_safety (by decide) (by decide)
    (hreach.tail ⟨none, hstep, fun _ h => nomatch h⟩) (hstep.created hcreated)).1
  have hvalue : ((m.recordP 0x80020000 m' 1 0).semaphoreTable 0).value = -1 := by
    obtain ⟨kernel, rfl, -⟩ := semaphoreP_cases hm'
    have htable : ∀ m'' : SemState,
        (m.recordP 0x80020000 m'' 1 0).semaphoreTable = m''.semaphoreTable := by
      intro m''
      rw [System.recordP]
      split_ifs <;> rfl
    rw [htable]
    simp only [SemState.setValue, Function.update_self, hrow]
    decide
  refine ⟨_, hreach.tail ⟨none, hstep, fun _ h => nomatch h⟩, hstep.created hcreated, hvalue, ?_⟩
  rw [hsafe.sleeping, hvalue]
  rfl

/-- A semaphore is created with the largest `int` as its value, and `semaphore_V` is called. Its value
is negative then, and no thread sleeps on it. -/
theorem not_semaphore_safety_wrapped : ∃ m, SemReachable 1 0x80020000 AnyStep m ∧ m.Created 0 ∧
    (m.semaphoreTable 0).value = -2 ^ 31 ∧ (m.log 0).initial = 2 ^ 31 - 1 ∧ (m.log 0).raised = 1 ∧
    (m.log 0).started = 0 ∧ ¬ SemaphoreSafe 0x80020000 m 0 := by
  obtain ⟨m, hreach, -, -, -, -, hrow, hlog, -, ⟨k, hwake⟩⟩ :=
    @exists_semaphore AnyStep (fun _ => trivial) (2 ^ 31 - 1) (by decide) (by decide)
  have hcreated : m.Created 0 := by
    rw [SemState.Created, hrow]
    decide
  obtain ⟨m', hm'⟩ : ∃ m', semaphoreV 0x80020000 m.toSemState 0 = some m' := by
    rw [semaphoreV, hrow]
    change ∃ m', (sleepqWake m.kernel _).bind _ = some m'
    rw [hwake]
    exact ⟨_, rfl⟩
  have hstep := @SemStep.v 1 0x80020000 m m' 0 0 Nat.one_pos hcreated hm'
  obtain ⟨hvalue, -, hinitial, hraised, hstarted⟩ := hstep.value_of_raised
  rw [hrow] at hvalue
  rw [hlog] at hinitial hraised hstarted
  refine ⟨_, hreach.tail ⟨_, hstep, trivial⟩, hstep.created hcreated, hvalue, hinitial, hraised,
    hstarted, fun hsafe => ?_⟩
  have hvalue' := hsafe.value
  rw [hvalue, hinitial, hraised, hstarted] at hvalue'
  exact absurd hvalue' (by decide)

end Osm.Kernel
