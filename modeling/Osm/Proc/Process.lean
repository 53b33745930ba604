import Osm.Kernel.Semaphore

/-!
# Processes

A model of the process management of `proc/process.c`: the process table and the functions that
create, finish and join processes. Each definition is one critical section under
`process_table_slock`, or the statements between two of them; `Osm.Proc.Machine` puts them
together to the control flow of the source.

Loading an executable and copying an address space are left to the caller: of `process_start`
and `process_fork_setup` only the assignments to the thread table and to the process table are
modelled. A result `none` stands for a failed assertion or an access outside the process table.
-/

namespace Osm.Proc

open Osm.Kernel

/-- `PROCESS_MAX_PROCESSES`. -/
def processMaxProcesses : ℕ := 32

instance : NeZero processMaxProcesses := ⟨by decide⟩

/-- `PROCESS_MAX_FILELENGTH`. -/
def processMaxFilelength : ℕ := 64

/-- `CONFIG_MAX_OPEN_FILES`. -/
def configMaxOpenFiles : ℕ := 512

/-- `PROCESS_ILLEGAL_JOIN`. -/
def processIllegalJoin : ℤ := -2

/-- `process_state_t`. -/
inductive ProcessState
  | free
  | running
  | zombie
  deriving DecidableEq, Repr

/-- An index into the process table. -/
abbrev Pid := Fin processMaxProcesses

/-- A row of the process table (`process_control_block_t`); `executable` is the string stored
there. The default values are those of `process_reset`, which leaves `heapEnd` alone. -/
structure Pcb where
  executable : List UInt8                := []
  state      : ProcessState              := .free
  retval     : ℤ                         := 0
  parent     : ℤ                         := -1
  heapEnd    : UInt32                    := 0
  files      : Fin configMaxOpenFiles → ℤ := fun _ => -1

/-- The kernel, its semaphores and the process table. -/
structure ProcState extends SemState where
  processTable : Pid → Pcb

/-- Where the semaphore table and the process table are in memory: two arrays of 12 and 2128
bytes a row that do not overlap. -/
structure Layout where
  semaphoreTable : UInt32
  processTable   : UInt32
  sem_pos  : 0 < semaphoreTable.toNat
  sem_le   : semaphoreTable.toNat + 12 * configMaxSemaphores ≤ 2 ^ 32
  proc_pos : 0 < processTable.toNat
  proc_le  : processTable.toNat + 2128 * processMaxProcesses ≤ 2 ^ 32
  disjoint : semaphoreTable.toNat + 12 * configMaxSemaphores ≤ processTable.toNat ∨
    processTable.toNat + 2128 * processMaxProcesses ≤ semaphoreTable.toNat

/-- Both tables in kernel memory. -/
def Layout.sample : Layout where
  semaphoreTable := 0x80020000
  processTable   := 0x80030000
  sem_pos  := by decide
  sem_le   := by decide
  proc_pos := by decide
  proc_le  := by decide
  disjoint := by decide

/-- The address of a semaphore. -/
def Layout.sem (L : Layout) (sem : Sem) : UInt32 := semaphoreAddress L.semaphoreTable sem

/-- The address of a row of the process table, the resource on which a join sleeps. -/
def Layout.proc (L : Layout) (pid : Pid) : UInt32 := L.processTable + 2128 * UInt32.ofNat pid

/-- A C integer used as an index into the process table. -/
def toPid (pid : ℤ) : Option Pid :=
  if h : 0 ≤ pid ∧ pid < processMaxProcesses then some ⟨pid.toNat, by omega⟩ else none

namespace ProcState

/-- Assign to a row of the process table. -/
def modifyPcb (m : ProcState) (pid : Pid) (f : Pcb → Pcb) : ProcState :=
  { m with processTable := Function.update m.processTable pid (f (m.processTable pid)) }

/-- Assign to the row of a thread. -/
def modifyThread (m : ProcState) (t : ℤ) (f : Thread → Thread) : ProcState :=
  { m with kernel := m.kernel.modifyThread t f }

end ProcState

/-- `process_reset`. -/
def processReset (m : ProcState) (pid : Pid) : ProcState :=
  m.modifyPcb pid fun pcb => { heapEnd := pcb.heapEnd }

/-- `process_get_current_process`. -/
def processGetCurrentProcess (m : ProcState) (thisCpu : Fin configMaxCpus) : ℤ :=
  (m.kernel.threadTable (m.kernel.currentThread thisCpu)).processId

/-- `alloc_process_id`: the slot it reserves, `none` if the table is full. -/
def allocProcessId (m : ProcState) : ProcState × Option Pid :=
  match (List.finRange processMaxProcesses).find? fun i => (m.processTable i).state = .free with
  | none     => (m, none)
  | some pid => (m.modifyPcb pid fun pcb => { pcb with state := .running }, some pid)

/-- The assignments of `process_spawn` to the new slot. -/
def processSpawnFill (m : ProcState) (thisCpu : Fin configMaxCpus) (pid : Pid)
    (executable : List UInt8) : ProcState :=
  m.modifyPcb pid fun pcb =>
    { pcb with
      executable := executable.take (processMaxFilelength - 1)
      parent     := processGetCurrentProcess m thisCpu }

/-- The assignments of `process_fork` to the new slot. -/
def processForkFill (m : ProcState) (thisCpu : Fin configMaxCpus) (pidChild : Pid) :
    Option ProcState := do
  let pidParent := processGetCurrentProcess m thisCpu
  let parent ← toPid pidParent
  return m.modifyPcb pidChild fun pcb =>
    { pcb with
      executable := (m.processTable parent).executable
      parent     := pidParent
      heapEnd    := (m.processTable parent).heapEnd
      files      := (m.processTable parent).files }

/-- The first statements of `process_start` and of `process_fork_setup`: the thread is
associated with its process. -/
def processAttach (m : ProcState) (thisCpu : Fin configMaxCpus) (pid : Pid) : Option ProcState :=
  let t := m.kernel.currentThread thisCpu
  if (m.kernel.threadTable t).pagetable ≠ 0 then none
  else some (m.modifyThread t fun th => { th with processId := (pid : ℕ) })

/-- The thread gets the page table just created for it. -/
def processSetPagetable (m : ProcState) (thisCpu : Fin configMaxCpus) (pagetable : ℕ) :
    Option ProcState :=
  if pagetable = 0 then none
  else some (m.modifyThread (m.kernel.currentThread thisCpu)
    fun th => { th with pagetable := pagetable })

/-- The loop of `process_finish` over the process table: the children lose their parent. -/
def processOrphan (processTable : Pid → Pcb) (pid : ℤ) : Pid → Pcb := fun i =>
  if (processTable i).parent = pid then { processTable i with parent := -1 } else processTable i

/-- The critical section of `process_finish`. -/
def processFinish (L : Layout) (m : ProcState) (thisCpu : Fin configMaxCpus) (retval : ℤ) :
    Option ProcState := do
  let pid ← toPid (processGetCurrentProcess m thisCpu)
  let m := m.modifyPcb pid fun pcb => { pcb with retval := retval, state := .zombie }
  let m := m.modifyThread (m.kernel.currentThread thisCpu) fun th => { th with pagetable := 0 }
  let kernel ← sleepqWakeAll m.kernel (L.proc pid)
  return { m with kernel := kernel, processTable := processOrphan m.processTable (pid : ℕ) }

/-- The check of `process_join`, made without the lock: the value it returns at once, or the
slot it goes on to wait for. -/
def processJoinCheck (m : ProcState) (thisCpu : Fin configMaxCpus) (pid : ℤ) : ℤ ⊕ Pid :=
  match toPid pid with
  | none   => .inl processIllegalJoin
  | some p =>
    if (m.processTable p).parent ≠ processGetCurrentProcess m thisCpu then .inl processIllegalJoin
    else .inr p

/-- The critical section of `process_join`, entered again after every switch: the result is
the value to return, `none` if the thread has entered the sleep queue. -/
def processJoinRound (L : Layout) (m : ProcState) (thisCpu : Fin configMaxCpus) (pid : Pid) :
    Option (ProcState × Option ℤ) :=
  if (m.processTable pid).state ≠ .zombie then do
    let kernel ← sleepqAdd m.kernel thisCpu (L.proc pid)
    return ({ m with kernel := kernel }, none)
  else some (processReset m pid, some (m.processTable pid).retval)

/-! ### Addresses -/

namespace Layout

variable (L : Layout)

lemma toNat_proc (pid : Pid) : (L.proc pid).toNat = L.processTable.toNat + 2128 * pid :=
  @toNat_rowAddress _ 2128 _ _ (by decide) L.proc_le pid.isLt

lemma proc_injective : Function.Injective L.proc := by
  intro i j h
  have hval := congrArg UInt32.toNat h
  rw [L.toNat_proc, L.toNat_proc] at hval
  exact Fin.ext (by omega)

lemma proc_ne_zero (pid : Pid) : L.proc pid ≠ 0 := by
  intro h
  have hval := congrArg UInt32.toNat h
  have hpos := L.proc_pos
  rw [L.toNat_proc, UInt32.toNat_zero] at hval
  omega

lemma sem_ne_zero (sem : Sem) : L.sem sem ≠ 0 := semaphoreAddress_ne_zero L.sem_pos L.sem_le sem

lemma sem_ne_proc (sem : Sem) (pid : Pid) : L.sem sem ≠ L.proc pid := by
  intro h
  have hval := congrArg UInt32.toNat h
  have hpid := pid.isLt
  have hsem := sem.isLt
  have hdisjoint := L.disjoint
  simp only [processMaxProcesses, configMaxSemaphores] at hpid hsem hdisjoint
  rw [L.toNat_proc, Layout.sem, toNat_semaphoreAddress L.sem_le] at hval
  omega

/-- The resources on which threads sleep in the process management. -/
def Tracked (r : UInt32) : Prop := (∃ pid, r = L.proc pid) ∨ ∃ sem, r = L.sem sem

lemma not_tracked_zero : ¬ L.Tracked 0 := by
  rintro (⟨pid, h⟩ | ⟨sem, h⟩)
  · exact L.proc_ne_zero pid h.symm
  · exact L.sem_ne_zero sem h.symm

end Layout

lemma toPid_natCast (pid : Pid) : toPid (pid : ℕ) = some pid := by
  have hpid := pid.isLt
  rw [toPid]
  rw [dif_pos ⟨by omega, by exact_mod_cast hpid⟩]
  simp

lemma toPid_eq_some {pid : ℤ} {p : Pid} (h : toPid pid = some p) : pid = (p : ℕ) := by
  rw [toPid] at h
  split_ifs at h with hpid
  obtain rfl := Option.some.inj h
  exact (Int.toNat_of_nonneg hpid.1).symm

lemma processJoinCheck_eq_of_inl {m : ProcState} {cpu : Fin configMaxCpus} {pid value : ℤ}
    (h : processJoinCheck m cpu pid = .inl value) : value = processIllegalJoin := by
  rw [processJoinCheck] at h
  split at h
  case h_1 => exact (Sum.inl.inj h).symm
  case h_2 =>
    split_ifs at h
    exact (Sum.inl.inj h).symm

/-- Who passes the check of `process_join`. -/
lemma processJoinCheck_eq_inr {m : ProcState} {cpu : Fin configMaxCpus} {pid : ℤ} {p : Pid}
    (h : processJoinCheck m cpu pid = .inr p) :
    pid = (p : ℕ) ∧ (m.processTable p).parent = processGetCurrentProcess m cpu := by
  rw [processJoinCheck] at h
  split at h
  case h_1 => simp at h
  case h_2 p' hp' =>
    split_ifs at h with hparent
    obtain rfl : p' = p := Sum.inr.inj h
    exact ⟨toPid_eq_some hp', Decidable.of_not_not hparent⟩

end Osm.Proc
