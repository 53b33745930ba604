import Osm.Core.Loop
import Mathlib.Logic.Function.Basic
import Mathlib.Data.List.Basic
import Mathlib.Data.Int.Notation

/-!
# The thread table, the scheduler and the sleep queue

A model of `kernel/thread.c`, `kernel/scheduler.c` and `kernel/sleepq.c`. All threads live in
one table; the ready list and the 127 chains of the sleep queue are linked through the `next`
field of its rows. Thread identifiers are C integers, a negative `next` (for the sleep queue
also `0`, the idle thread) ends a list.

Every function is the body of its critical section, executed with interrupts off. A result
`none` stands for a failed `KERNEL_ASSERT`, or for a walk along a chain that does not end
within `configMaxThreads` rounds. The saved contexts and the hardware timer are left out: no
function here reads them.
-/

namespace Osm.Kernel

open Osm.Core

/-- `CONFIG_MAX_THREADS`. -/
def configMaxThreads : ℕ := 32

/-- `CONFIG_MAX_CPUS`. -/
def configMaxCpus : ℕ := 4

instance : NeZero configMaxCpus := ⟨by decide⟩

/-- `IDLE_THREAD_TID`. -/
def idleThreadTid : ℤ := 0

/-- `SLEEPQ_HASHTABLE_SIZE`. -/
def sleepqHashtableSize : ℕ := 127

/-- `thread_state_t`. -/
inductive ThreadState
  | free
  | running
  | ready
  | sleeping
  | nonready
  | dying
  deriving DecidableEq, Repr

/-- A row of the thread table (`thread_table_t`). A page table is given by its address, `0` for
`NULL`. The default values are those of `thread_table_init`. -/
structure Thread where
  state     : ThreadState := .free
  sleepsOn  : UInt32      := 0
  pagetable : ℕ           := 0
  processId : ℤ           := -1
  next      : ℤ           := -1
  deriving DecidableEq, Repr

/-- The variables of the three files. Rows of `threadTable` outside
`0 .. configMaxThreads - 1` do not exist in the program. -/
structure State where
  threadTable     : ℤ → Thread
  readyHead       : ℤ
  readyTail       : ℤ
  sleepqHashtable : Fin sleepqHashtableSize → ℤ
  currentThread   : Fin configMaxCpus → ℤ
  nextTid         : ℤ

namespace State

/-- Assign to a row of the thread table. -/
def modifyThread (s : State) (t : ℤ) (f : Thread → Thread) : State :=
  { s with threadTable := Function.update s.threadTable t (f (s.threadTable t)) }

/-- `thread_table[t].state = st`. -/
def setState (s : State) (t : ℤ) (st : ThreadState) : State :=
  s.modifyThread t fun th => { th with state := st }

/-- `thread_table[t].sleeps_on = r`. -/
def setSleepsOn (s : State) (t : ℤ) (r : UInt32) : State :=
  s.modifyThread t fun th => { th with sleepsOn := r }

/-- `thread_table[t].next = n`. -/
def setNext (s : State) (t n : ℤ) : State :=
  s.modifyThread t fun th => { th with next := n }

/-- The successor of a thread on the list it is on. -/
def next (s : State) (t : ℤ) : ℤ := (s.threadTable t).next

section

variable (s : State) (t u n : ℤ) (st : ThreadState) (r : UInt32)

lemma threadTable_modifyThread (f : Thread → Thread) :
    (s.modifyThread t f).threadTable u = if u = t then f (s.threadTable u) else s.threadTable u := by
  rw [modifyThread]
  by_cases h : u = t
  · subst h; simp
  · simp [h]

@[simp] lemma setState_state : ((s.setState t st).threadTable u).state =
    if u = t then st else (s.threadTable u).state := by
  rw [setState, threadTable_modifyThread]; split <;> rfl

@[simp] lemma setState_sleepsOn :
    ((s.setState t st).threadTable u).sleepsOn = (s.threadTable u).sleepsOn := by
  rw [setState, threadTable_modifyThread]; split <;> rfl

@[simp] lemma setState_pagetable :
    ((s.setState t st).threadTable u).pagetable = (s.threadTable u).pagetable := by
  rw [setState, threadTable_modifyThread]; split <;> rfl

@[simp] lemma setState_processId :
    ((s.setState t st).threadTable u).processId = (s.threadTable u).processId := by
  rw [setState, threadTable_modifyThread]; split <;> rfl

@[simp] lemma setState_next : (s.setState t st).next u = s.next u := by
  rw [next, setState, threadTable_modifyThread]; split <;> rfl

@[simp] lemma setSleepsOn_state :
    ((s.setSleepsOn t r).threadTable u).state = (s.threadTable u).state := by
  rw [setSleepsOn, threadTable_modifyThread]; split <;> rfl

@[simp] lemma setSleepsOn_sleepsOn : ((s.setSleepsOn t r).threadTable u).sleepsOn =
    if u = t then r else (s.threadTable u).sleepsOn := by
  rw [setSleepsOn, threadTable_modifyThread]; split <;> rfl

@[simp] lemma setSleepsOn_pagetable :
    ((s.setSleepsOn t r).threadTable u).pagetable = (s.threadTable u).pagetable := by
  rw [setSleepsOn, threadTable_modifyThread]; split <;> rfl

@[simp] lemma setSleepsOn_processId :
    ((s.setSleepsOn t r).threadTable u).processId = (s.threadTable u).processId := by
  rw [setSleepsOn, threadTable_modifyThread]; split <;> rfl

@[simp] lemma setSleepsOn_next : (s.setSleepsOn t r).next u = s.next u := by
  rw [next, setSleepsOn, threadTable_modifyThread]; split <;> rfl

@[simp] lemma setNext_state :
    ((s.setNext t n).threadTable u).state = (s.threadTable u).state := by
  rw [setNext, threadTable_modifyThread]; split <;> rfl

@[simp] lemma setNext_sleepsOn :
    ((s.setNext t n).threadTable u).sleepsOn = (s.threadTable u).sleepsOn := by
  rw [setNext, threadTable_modifyThread]; split <;> rfl

@[simp] lemma setNext_pagetable :
    ((s.setNext t n).threadTable u).pagetable = (s.threadTable u).pagetable := by
  rw [setNext, threadTable_modifyThread]; split <;> rfl

@[simp] lemma setNext_processId :
    ((s.setNext t n).threadTable u).processId = (s.threadTable u).processId := by
  rw [setNext, threadTable_modifyThread]; split <;> rfl

@[simp] lemma setNext_next : (s.setNext t n).next u = if u = t then n else s.next u := by
  rw [next, setNext, threadTable_modifyThread]; split <;> rfl

end

end State

/-- The state after `thread_table_init`, `scheduler_init` and `sleepq_init`. -/
def initialState : State where
  threadTable     := Function.update (fun _ => {}) idleThreadTid { state := .ready }
  readyHead       := -1
  readyTail       := -1
  sleepqHashtable := fun _ => -1
  currentThread   := fun _ => 0
  nextTid         := 0

/-! ### The scheduler -/

/-- `scheduler_add_to_ready_list`. -/
def schedulerAddToReadyList (s : State) (t : ℤ) : Option State :=
  if t = idleThreadTid then none
  else if ¬ (0 ≤ t ∧ t < configMaxThreads) then none
  else if s.readyTail < 0 then
    some { s.setNext t (-1) with readyHead := t, readyTail := t }
  else
    some { (s.setNext s.readyTail t).setNext t (-1) with readyTail := t }

/-- `scheduler_remove_first_ready`: the thread to run next, the idle thread if the ready list
is empty. -/
def schedulerRemoveFirstReady (s : State) : Option (State × ℤ) :=
  let t := s.readyHead
  if t = idleThreadTid then none
  else if t < 0 then some (s, idleThreadTid)
  else if (s.threadTable t).state ≠ .ready then none
  else
    let s' := if s.readyTail = t then { s with readyTail := -1 } else s
    some ({ s' with readyHead := (s.threadTable t).next }, t)

/-- `scheduler_add_ready`. -/
def schedulerAddReady (s : State) (t : ℤ) : Option State := do
  let s ← schedulerAddToReadyList s t
  return s.setState t .ready

/-- The first half of `scheduler_schedule`: take the thread off its CPU. -/
def schedulerRetire (s : State) (t : ℤ) : Option State :=
  if (s.threadTable t).state = .dying then
    some (s.setState t .free)
  else if (s.threadTable t).sleepsOn ≠ 0 then
    some (s.setState t .sleeping)
  else do
    let s ← if t ≠ idleThreadTid then schedulerAddToReadyList s t else some s
    return s.setState t .ready

/-- `scheduler_schedule` on the given CPU. -/
def schedulerSchedule (s : State) (thisCpu : Fin configMaxCpus) : Option State := do
  let s ← schedulerRetire s (s.currentThread thisCpu)
  let (s, t) ← schedulerRemoveFirstReady s
  let s := s.setState t .running
  return { s with currentThread := Function.update s.currentThread thisCpu t }

/-! ### Threads -/

/-- The loop of `thread_create`: the first free row starting from `next_tid`, leaving out the
idle thread. -/
def findFreeTid (s : State) : Option ℤ :=
  ((List.range configMaxThreads).map fun i : ℕ => (i + s.nextTid) % configMaxThreads).find?
    fun t => t ≠ idleThreadTid ∧ (s.threadTable t).state = .free

/-- `thread_create`: the new state and the thread identifier, `-1` if the table is full. -/
def threadCreate (s : State) : State × ℤ :=
  match findFreeTid s with
  | none     => (s, -1)
  | some tid =>
    ({ s.modifyThread tid (fun _ => { state := .nonready, sleepsOn := 0, pagetable := 0,
                                      processId := -1, next := -1 })
        with nextTid := (tid + 1) % configMaxThreads }, tid)

/-- `thread_run`. -/
def threadRun (s : State) (t : ℤ) : Option State := schedulerAddReady s t

/-- `thread_finish` on the given CPU, up to the software interrupt that leaves the thread. -/
def threadFinish (s : State) (thisCpu : Fin configMaxCpus) : Option State :=
  let myTid := s.currentThread thisCpu
  if (s.threadTable myTid).pagetable ≠ 0 then none
  else some (s.setState myTid .dying)

/-- `thread_get_thread_entry_by_pid`: the index of the row it returns. -/
def threadGetThreadEntryByPid (s : State) (pid : ℤ) : Option ℤ :=
  ((List.range configMaxThreads).map fun i : ℕ => (i : ℤ)).find?
    fun i => (s.threadTable i).processId = pid

/-! ### The sleep queue -/

/-- `SLEEPQ_HASH`. -/
def sleepqHash (resource : UInt32) : Fin sleepqHashtableSize :=
  ⟨resource.toNat % sleepqHashtableSize, Nat.mod_lt _ (by decide)⟩

/-- One round of the loop of `sleepq_add` that looks for the end of a chain. -/
def chainEndStep (s : State) (prev : ℤ) : ℤ ⊕ ℤ :=
  if (s.threadTable prev).next > 0 then .inl (s.threadTable prev).next else .inr prev

/-- `sleepq_add` by the thread running on the given CPU. -/
def sleepqAdd (s : State) (thisCpu : Fin configMaxCpus) (resource : UInt32) : Option State :=
  let hash := sleepqHash resource
  let myTid := s.currentThread thisCpu
  let s := (s.setNext myTid (-1)).setSleepsOn myTid resource
  if myTid = idleThreadTid then none
  else if s.sleepqHashtable hash ≤ 0 then
    some { s with sleepqHashtable := Function.update s.sleepqHashtable hash myTid }
  else do
    let prev ← loop (chainEndStep s) configMaxThreads (s.sleepqHashtable hash)
    return s.setNext prev myTid

/-- One round of the search for a thread that sleeps on `resource`; the loop variables are
`prev` and `first`. -/
def findSleeperStep (s : State) (resource : UInt32) : ℤ × ℤ → (ℤ × ℤ) ⊕ (ℤ × ℤ)
  | (prev, first) =>
    if first > 0 ∧ (s.threadTable first).sleepsOn ≠ resource then
      .inl (first, (s.threadTable first).next)
    else .inr (prev, first)

/-- The search loop of `sleepq_wake` and `sleepq_wake_all`. -/
def findSleeper (s : State) (resource : UInt32) (prev first : ℤ) : Option (ℤ × ℤ) :=
  loop (findSleeperStep s resource) configMaxThreads (prev, first)

/-- Take `first` out of the chain in slot `hash`. -/
def sleepqUnlink (s : State) (hash : Fin sleepqHashtableSize) (prev first : ℤ) : State :=
  if prev ≤ 0 then
    { s with sleepqHashtable :=
        Function.update s.sleepqHashtable hash (s.threadTable first).next }
  else s.setNext prev (s.threadTable first).next

/-- Clear the `sleeps_on` field of a thread taken out of its chain and add it to the ready list
if it has gone to sleep already. -/
def sleepqRelease (s : State) (t : ℤ) : Option State :=
  let s := (s.setSleepsOn t 0).setNext t (-1)
  if (s.threadTable t).state = .sleeping then
    schedulerAddToReadyList (s.setState t .ready) t
  else some s

/-- `sleepq_wake`. -/
def sleepqWake (s : State) (resource : UInt32) : Option State := do
  let hash := sleepqHash resource
  let (prev, first) ← findSleeper s resource (-1) (s.sleepqHashtable hash)
  if first > 0 then sleepqRelease (sleepqUnlink s hash prev first) first
  else return s

/-- One round of the outer loop of `sleepq_wake_all`; the loop variables are the state, `prev`
and `first`. -/
def wakeAllStep (resource : UInt32) :
    State × ℤ × ℤ → (State × ℤ × ℤ) ⊕ Option State
  | (s, prev, first) =>
    if first > 0 then
      match findSleeper s resource prev first with
      | none => .inr none
      | some (prev, wake) =>
        if wake > 0 then
          match sleepqRelease (sleepqUnlink s (sleepqHash resource) prev wake) wake with
          | none    => .inr none
          | some s' => .inl (s', prev, (s.threadTable wake).next)
        else .inl (s, prev, wake)
    else .inr (some s)

/-- `sleepq_wake_all`. -/
def sleepqWakeAll (s : State) (resource : UInt32) : Option State :=
  (loop (wakeAllStep resource) configMaxThreads
    (s, -1, s.sleepqHashtable (sleepqHash resource))).join

end Osm.Kernel
