import Osm.Kernel.Waiting
import Osm.Proc.Process

/-!
# Processes running concurrently

`Machine` runs the functions of `proc/process.c` in threads of the kernel model. Every thread
has a program counter that says where it is in `process_spawn`, `process_fork`,
`process_fork_setup`, `process_start`, `process_join` or `process_finish`; a step executes the
code up to the next point at which another CPU may interfere. The startup thread of the kernel
spawns the initial program and joins it.

Next to the state of the code there is a `History`. It numbers the processes in the order of
their creation, since process identifiers are used again, and keeps for every process its slot,
the process that created it and the value it has passed to `process_finish`. Process `0` stands
for the startup thread.
-/

namespace Osm.Proc

open Osm.Kernel

/-- Where a thread is in the code. A semaphore is present in the threads of a fork. -/
inductive Pc
  /-- outside the process management -/
  | kernel
  /-- the startup thread, before it spawns the initial program -/
  | boot
  /-- the startup thread, after the initial program has been spawned -/
  | booted (pid : Pid)
  /-- in userland -/
  | user
  /-- `alloc_process_id` has returned a slot -/
  | alloc (fork : Bool) (pid : Pid)
  /-- the slot has been filled in -/
  | filled (fork : Bool) (pid : Pid)
  /-- the semaphore for the new process has been created -/
  | armed (pid : Pid) (sem : Sem)
  /-- the thread of the new process has been created -/
  | created (pid : Pid) (tid : ℤ) (sem : Option Sem)
  /-- before the parent waits for the new process -/
  | waiting (pid : Pid) (sem : Sem)
  /-- inside `semaphore_P` -/
  | blocked (pid : Pid) (sem : Sem) (phase : Phase)
  /-- a new thread, before `process_start` or `process_fork_setup` -/
  | start (pid : Pid) (sem : Option Sem)
  /-- the thread has its process identifier -/
  | attached (pid : Pid) (sem : Option Sem)
  /-- the thread has a page table, and copies its parent -/
  | mapped (sem : Sem)
  /-- the check of `process_join` has been passed -/
  | join (pid : Pid)
  /-- `process_join` has entered the sleep queue -/
  | joinBlocked (pid : Pid) (phase : Phase)
  /-- `process_finish` has released the lock -/
  | finish
  deriving DecidableEq

namespace Pc

/-- What a thread waits for. -/
def wait (L : Layout) : Pc → Wait
  | .kernel                => none
  | .blocked _ sem phase   => some (L.sem sem, phase)
  | .joinBlocked pid phase => some (L.proc pid, phase)
  | _                      => some (0, .passing)

/-- The thread is switched out. -/
def switch : Pc → Pc
  | .blocked pid sem .blocking  => .blocked pid sem .switched
  | .joinBlocked pid .blocking  => .joinBlocked pid .switched
  | pc                          => pc

/-- The thread runs a process, or is about to, or is the startup thread. -/
def Runs : Pc → Prop
  | .kernel => False
  | .finish => False
  | _       => True

/-- The process identifier of the thread is that of its process. -/
def Attached : Pc → Prop
  | .kernel    => False
  | .finish    => False
  | .start _ _ => False
  | _          => True

/-- The slot of a new process that has no thread yet. -/
def pending : Pc → Option Pid
  | .alloc _ pid  => some pid
  | .filled _ pid => some pid
  | .armed pid _  => some pid
  | _             => none

/-- The slot that the thread joins. -/
def joining : Pc → Option Pid
  | .booted pid        => some pid
  | .join pid          => some pid
  | .joinBlocked pid _ => some pid
  | _                  => none

end Pc

/-- A call of `process_join` that has returned a value: the calling process, the identifier it
passed, the process that had the slot, and the value. -/
structure Join where
  caller : ℕ
  pid    : Pid
  child  : ℕ
  value  : ℤ
  deriving DecidableEq

/-- What has happened so far: processes are numbered from `1` to `fresh - 1`. -/
structure History where
  fresh   : ℕ
  slot    : ℕ → Option Pid
  creator : ℕ → ℕ
  exit    : ℕ → Option ℤ
  child   : Pid → ℕ
  joins   : List Join

namespace History

/-- The process has been created and has not finished. -/
def Live (H : History) (k : ℕ) : Prop := 1 ≤ k ∧ k < H.fresh ∧ H.exit k = none

/-- The process identifier of a process; the startup thread has `-1`. -/
def pidOf (H : History) (k : ℕ) : ℤ := match H.slot k with
  | none     => -1
  | some pid => (pid : ℕ)

/-- Process `k` has been created by process `creator` and is not joined yet. -/
def CurrentChild (H : History) (creator : ℕ) (pid : ℤ) (k : ℕ) : Prop :=
  1 ≤ k ∧ k < H.fresh ∧ H.creator k = creator ∧ (∃ p, H.slot k = some p ∧ pid = (p : ℕ)) ∧
    ∀ e ∈ H.joins, e.child ≠ k

/-- A new process in a slot. -/
def add (H : History) (creator : ℕ) (pid : Pid) : History :=
  { H with
    fresh   := H.fresh + 1
    slot    := Function.update H.slot H.fresh (some pid)
    creator := Function.update H.creator H.fresh creator
    child   := Function.update H.child pid H.fresh }

/-- A process passes a value to `process_finish`. -/
def finish (H : History) (k : ℕ) (retval : ℤ) : History :=
  { H with exit := Function.update H.exit k (some retval) }

/-- `process_join` returns the value of the process in a slot. -/
def join (H : History) (caller : ℕ) (pid : Pid) (value : ℤ) : History :=
  { H with joins := H.joins ++ [⟨caller, pid, H.child pid, value⟩] }

end History

/-- The state of the code with the program counters and the history; `self` is the process a
thread runs. -/
structure Machine extends ProcState, History where
  pc     : ℤ → Pc
  self   : ℤ → ℕ
  booted : Bool

namespace Machine

def setPc (M : Machine) (t : ℤ) (pc : Pc) : Machine := { M with pc := Function.update M.pc t pc }

/-- Replace the state of the code. -/
def withState (M : Machine) (m : ProcState) : Machine := { M with toProcState := m }

/-- Replace the kernel state. -/
def withKernel (M : Machine) (s : State) : Machine := { M with kernel := s }

/-- Replace the kernel and its semaphores. -/
def withSem (M : Machine) (m : SemState) : Machine :=
  { M with kernel := m.kernel, semaphoreTable := m.semaphoreTable, next := m.next }

end Machine

/-- What a thread does in the process management, up to the next point at which another CPU may
interfere. -/
inductive ProcAct
  | boot
  | alloc (fork : Bool)
  | fill (executable : List UInt8)
  | arm
  | create
  | run
  | wait
  | resume
  | attach
  | map (pagetable : ℕ) (heapEnd : UInt32)
  | signal
  | finish (retval : ℤ)
  | die
  | joinEnter (pid : ℤ)
  | joinRound

namespace Machine

variable (L : Layout) (M : Machine) (cpu : Fin configMaxCpus)

/-- The thread running on the CPU. -/
def tid : ℤ := M.kernel.currentThread cpu

/-- The startup thread of the kernel begins. -/
def stepBoot : Option Machine :=
  if M.pc (M.tid cpu) = .kernel ∧ M.tid cpu ≠ idleThreadTid ∧ M.booted = false ∧
      processGetCurrentProcess M.toProcState cpu = -1 ∧
      (M.kernel.threadTable (M.tid cpu)).sleepsOn = 0 then
    some { M.setPc (M.tid cpu) .boot with
      self := Function.update M.self (M.tid cpu) 0, booted := true }
  else none

/-- `alloc_process_id`, called by `process_spawn` or `process_fork`. If the table is full these
return at once. -/
def stepAlloc (fork : Bool) : Option Machine :=
  if M.pc (M.tid cpu) = .user ∨ (M.pc (M.tid cpu) = .boot ∧ fork = false) then
    match allocProcessId M.toProcState with
    | (_, none)      => some M
    | (m', some pid) =>
      some { (M.withState m').setPc (M.tid cpu) (.alloc fork pid) with
        toHistory := M.toHistory.add (M.self (M.tid cpu)) pid }
  else none

/-- Fill in the new slot. -/
def stepFill (executable : List UInt8) : Option Machine :=
  match M.pc (M.tid cpu) with
  | .alloc false pid =>
    some ((M.withState (processSpawnFill M.toProcState cpu pid executable)).setPc (M.tid cpu)
      (.filled false pid))
  | .alloc true pid =>
    (processForkFill M.toProcState cpu pid).map fun m' =>
      (M.withState m').setPc (M.tid cpu) (.filled true pid)
  | _ => none

/-- `process_fork` creates its semaphore. -/
def stepArm : Option Machine :=
  match M.pc (M.tid cpu) with
  | .filled true pid =>
    match semaphoreCreate M.toSemState cpu 0 with
    | some (m', some sem) => some ((M.withSem m').setPc (M.tid cpu) (.armed pid sem))
    | _                   => none
  | _ => none

/-- Create the thread of the new process. -/
def createThread (pid : Pid) (sem : Option Sem) : Option Machine :=
  match threadCreate M.kernel with
  | (s', tid) =>
    if tid < 0 then none
    else some { ((M.withKernel s').setPc tid (.start pid sem)).setPc (M.tid cpu)
        (.created pid tid sem) with self := Function.update M.self tid (M.child pid) }

/-- `thread_create`, called by `process_spawn` or `process_fork`. -/
def stepCreate : Option Machine :=
  match M.pc (M.tid cpu) with
  | .filled false pid => M.createThread cpu pid none
  | .armed pid sem    => M.createThread cpu pid (some sem)
  | _                 => none

/-- `thread_run`, called by `process_spawn` or `process_fork`; the former then returns. -/
def stepRun : Option Machine :=
  match M.pc (M.tid cpu) with
  | .created pid tid none =>
    (threadRun M.kernel tid).map fun s' => (M.withKernel s').setPc (M.tid cpu)
      (if M.self (M.tid cpu) = 0 then .booted pid else .user)
  | .created pid tid (some sem) =>
    (threadRun M.kernel tid).map fun s' => (M.withKernel s').setPc (M.tid cpu) (.waiting pid sem)
  | _ => none

/-- `process_fork` calls `semaphore_P`. -/
def stepWait : Option Machine :=
  match M.pc (M.tid cpu) with
  | .waiting pid sem =>
    (semaphoreP L.semaphoreTable M.toSemState cpu sem).map fun m' =>
      (M.withSem m').setPc (M.tid cpu) (.blocked pid sem
        (if (m'.semaphoreTable sem).value < 0 then .blocking else .passing))
  | _ => none

/-- `process_fork` returns from `semaphore_P`. -/
def stepResume : Option Machine :=
  match M.pc (M.tid cpu) with
  | .blocked _ _ .blocking => none
  | .blocked _ _ _         => some (M.setPc (M.tid cpu) .user)
  | _                      => none

/-- The thread of a new process gets its process identifier. -/
def stepAttach : Option Machine :=
  match M.pc (M.tid cpu) with
  | .start pid sem => (processAttach M.toProcState cpu pid).map fun m' =>
      (M.withState m').setPc (M.tid cpu) (.attached pid sem)
  | _ => none

/-- The thread of a new process gets its page table. A spawned process is loaded and enters
userland. -/
def stepMap (pagetable : ℕ) (heapEnd : UInt32) : Option Machine :=
  match M.pc (M.tid cpu) with
  | .attached pid none => (processSetPagetable M.toProcState cpu pagetable).map fun m' =>
      (M.withState (m'.modifyPcb pid fun pcb => { pcb with heapEnd := heapEnd })).setPc
        (M.tid cpu) .user
  | .attached _ (some sem) => (processSetPagetable M.toProcState cpu pagetable).map fun m' =>
      (M.withState m').setPc (M.tid cpu) (.mapped sem)
  | _ => none

/-- `process_fork_setup` has copied the parent: it calls `semaphore_V` and enters userland. -/
def stepSignal : Option Machine :=
  match M.pc (M.tid cpu) with
  | .mapped sem => (semaphoreV L.semaphoreTable M.toSemState sem).map fun m' =>
      (M.withSem m').setPc (M.tid cpu) .user
  | _ => none

/-- `process_finish`, up to the release of the lock. -/
def stepFinish (retval : ℤ) : Option Machine :=
  if M.pc (M.tid cpu) = .user then
    (processFinish L M.toProcState cpu retval).map fun m' =>
      { (M.withState m').setPc (M.tid cpu) .finish with
        toHistory := M.toHistory.finish (M.self (M.tid cpu)) retval }
  else none

/-- `process_finish` calls `thread_finish`. -/
def stepDie : Option Machine :=
  if M.pc (M.tid cpu) = .finish then
    (threadFinish M.kernel cpu).map fun s' => (M.withKernel s').setPc (M.tid cpu) .kernel
  else none

/-- The check at the beginning of `process_join`. The startup thread joins the initial
program. -/
def stepJoinEnter (pid : ℤ) : Option Machine :=
  if M.pc (M.tid cpu) = .user ∨ ∃ p, M.pc (M.tid cpu) = .booted p ∧ pid = (p : ℕ) then
    match processJoinCheck M.toProcState cpu pid with
    | .inl _ => some M
    | .inr p => some (M.setPc (M.tid cpu) (.join p))
  else none

/-- The critical section of `process_join` for the slot `pid`. -/
def joinSection (pid : Pid) : Option Machine :=
  match processJoinRound L M.toProcState cpu pid with
  | none                  => none
  | some (m', none)       => some ((M.withState m').setPc (M.tid cpu) (.joinBlocked pid .blocking))
  | some (m', some value) =>
    some { (M.withState m').setPc (M.tid cpu)
        (if M.self (M.tid cpu) = 0 then .kernel else .user) with
      toHistory := M.toHistory.join (M.self (M.tid cpu)) pid value }

/-- One round of `process_join`. -/
def stepJoinRound : Option Machine :=
  match M.pc (M.tid cpu) with
  | .join pid                  => M.joinSection L cpu pid
  | .joinBlocked _ .blocking   => none
  | .joinBlocked pid _         => M.joinSection L cpu pid
  | _                          => none

/-- One step of the thread running on a CPU. -/
def exec : ProcAct → Option Machine
  | .boot                  => M.stepBoot cpu
  | .alloc fork            => M.stepAlloc cpu fork
  | .fill executable       => M.stepFill cpu executable
  | .arm                   => M.stepArm cpu
  | .create                => M.stepCreate cpu
  | .run                   => M.stepRun cpu
  | .wait                  => M.stepWait L cpu
  | .resume                => M.stepResume cpu
  | .attach                => M.stepAttach cpu
  | .map pagetable heapEnd => M.stepMap cpu pagetable heapEnd
  | .signal                => M.stepSignal L cpu
  | .finish retval         => M.stepFinish L cpu retval
  | .die                   => M.stepDie cpu
  | .joinEnter pid         => M.stepJoinEnter cpu pid
  | .joinRound             => M.stepJoinRound L cpu

/-- `scheduler_schedule` on a CPU. -/
def schedule : Option Machine :=
  (schedulerSchedule M.kernel cpu).map fun s' =>
    (M.withKernel s').setPc (M.tid cpu) (M.pc (M.tid cpu)).switch

end Machine

/-- The state after the initialisation of the kernel. -/
def Machine.initial : Machine where
  kernel         := initialState
  semaphoreTable := fun _ => { value := 0, creator := -1 }
  next           := 0
  processTable   := fun _ => {}
  fresh          := 1
  slot           := fun _ => none
  creator        := fun _ => 0
  exit           := fun _ => none
  child          := fun _ => 0
  joins          := []
  pc             := fun _ => .kernel
  self           := fun _ => 0
  booted         := false

/-- Other kernel code acts on its own threads and resources only. -/
def OtherThread (M : Machine) : Action → Prop
  | .threadRun t => M.pc t = .kernel
  | _            => True

/-- One step of a machine with `n` CPUs: the running thread of a CPU executes process code, a
CPU schedules, or some other kernel code runs. -/
inductive Step (n : ℕ) (L : Layout) : Machine → Machine → Prop
  | proc {M M' : Machine} {cpu : Fin configMaxCpus} (a : ProcAct) (hcpu : cpu < n)
      (hrun : (M.kernel.threadTable (M.tid cpu)).state = .running)
      (hexec : M.exec L cpu a = some M') : Step n L M M'
  | schedule {M M' : Machine} {cpu : Fin configMaxCpus} (hcpu : cpu < n)
      (hexec : M.schedule cpu = some M') : Step n L M M'
  | kernel {M : Machine} {s' : State} (a : Action) (ha : a.Enabled n M.kernel)
      (helse : Waits.Elsewhere L.Tracked M.kernel (fun t => (M.pc t).wait L) a)
      (hother : OtherThread M a) (hexec : a.exec M.kernel = some s') : Step n L M (M.withKernel s')

/-- The states of a machine with `n` CPUs. -/
def Reachable (n : ℕ) (L : Layout) (M : Machine) : Prop :=
  Relation.ReflTransGen (Step n L) Machine.initial M

/-- The startup thread has been created and made ready. -/
def Machine.startup : Machine :=
  let s := (threadCreate initialState).1
  Machine.initial.withKernel ((threadRun s 1).getD s)

/-- Steps of one CPU one after the other; `none` stands for `scheduler_schedule`. -/
def Machine.runs (L : Layout) (cpu : Fin configMaxCpus) :
    List (Option ProcAct) → Machine → Option Machine
  | [],          M => some M
  | none :: l,   M => (M.schedule cpu).bind (Machine.runs L cpu l)
  | some a :: l, M =>
    if (M.kernel.threadTable (M.tid cpu)).state = .running then
      (M.exec L cpu a).bind (Machine.runs L cpu l)
    else none

/-! ### What a step does -/

namespace Machine

section Steps

variable {L : Layout} {M M' : Machine} {cpu : Fin configMaxCpus} {fork : Bool} {pid : Pid}
  {sem : Option Sem}

lemma stepBoot_eq_some (h : M.stepBoot cpu = some M') :
    (M.pc (M.tid cpu) = .kernel ∧ M.tid cpu ≠ idleThreadTid ∧ M.booted = false ∧
      processGetCurrentProcess M.toProcState cpu = -1 ∧
      (M.kernel.threadTable (M.tid cpu)).sleepsOn = 0) ∧
    M' = { M.setPc (M.tid cpu) .boot with
      self := Function.update M.self (M.tid cpu) 0, booted := true } := by
  rw [stepBoot] at h
  split_ifs at h with hcond
  exact ⟨hcond, (Option.some.inj h).symm⟩

lemma stepAlloc_eq_some (h : M.stepAlloc cpu fork = some M') :
    (M.pc (M.tid cpu) = .user ∨ (M.pc (M.tid cpu) = .boot ∧ fork = false)) ∧
    (M' = M ∨ ∃ pid, (M.processTable pid).state = .free ∧
      M' = { (M.withState (M.toProcState.modifyPcb pid fun pcb =>
          { pcb with state := .running })).setPc (M.tid cpu) (.alloc fork pid) with
        toHistory := M.toHistory.add (M.self (M.tid cpu)) pid }) := by
  rw [stepAlloc, allocProcessId] at h
  split_ifs at h with hpc
  refine ⟨hpc, ?_⟩
  cases hfind : (List.finRange processMaxProcesses).find?
      fun i => (M.processTable i).state = .free with
  | none =>
    rw [hfind] at h
    exact .inl (Option.some.inj h).symm
  | some pid =>
    rw [hfind] at h
    exact .inr ⟨pid, by simpa using List.find?_some hfind, (Option.some.inj h).symm⟩

/-- The new slot gets the running process as parent. -/
lemma stepFill_eq_some {executable : List UInt8} (h : M.stepFill cpu executable = some M') :
    ∃ fork pid pcb, M.pc (M.tid cpu) = .alloc fork pid ∧
      pcb.state = (M.processTable pid).state ∧ pcb.retval = (M.processTable pid).retval ∧
      pcb.parent = processGetCurrentProcess M.toProcState cpu ∧
      M' = { M with processTable := Function.update M.processTable pid pcb }.setPc (M.tid cpu)
        (.filled fork pid) := by
  rw [stepFill] at h
  split at h
  case h_1 pid hpc =>
    refine ⟨false, pid, _, hpc, ?_, ?_, ?_, (Option.some.inj h).symm⟩ <;> rfl
  case h_2 pid hpc =>
    obtain ⟨m', hm', rfl⟩ := Option.map_eq_some_iff.mp h
    obtain ⟨parent, -, hm'⟩ := Option.bind_eq_some_iff.mp hm'
    obtain rfl := Option.some.inj hm'
    refine ⟨true, pid, _, hpc, ?_, ?_, ?_, rfl⟩ <;> rfl
  case h_3 => cases h

lemma stepArm_eq_some (h : M.stepArm cpu = some M') :
    ∃ pid m' sem, M.pc (M.tid cpu) = .filled true pid ∧
      semaphoreCreate M.toSemState cpu 0 = some (m', some sem) ∧
      M' = (M.withSem m').setPc (M.tid cpu) (.armed pid sem) := by
  rw [stepArm] at h
  split at h
  case h_1 pid hpc =>
    split at h
    case h_1 m' sem hm' => exact ⟨pid, m', sem, hpc, hm', (Option.some.inj h).symm⟩
    case h_2 => cases h
  case h_2 => cases h

/-- The thread of a new process is a thread that was free. -/
lemma createThread_eq_some (h : M.createThread cpu pid sem = some M') :
    ∃ tid s', findFreeTid M.kernel = some tid ∧ threadCreate M.kernel = (s', tid) ∧
      M' = { ((M.withKernel s').setPc tid (.start pid sem)).setPc (M.tid cpu)
        (.created pid tid sem) with self := Function.update M.self tid (M.child pid) } := by
  rw [createThread] at h
  cases hfree : findFreeTid M.kernel with
  | none => simp [threadCreate, hfree] at h
  | some tid =>
    have htid : (threadCreate M.kernel).2 = tid := by simp [threadCreate, hfree]
    obtain ⟨s', hs'⟩ : ∃ s', threadCreate M.kernel = (s', tid) := ⟨_, Prod.ext rfl htid⟩
    rw [hs'] at h
    dsimp only at h
    split_ifs at h
    exact ⟨tid, s', rfl, hs', (Option.some.inj h).symm⟩

lemma stepCreate_eq_some (h : M.stepCreate cpu = some M') :
    (∃ pid, M.pc (M.tid cpu) = .filled false pid ∧ M.createThread cpu pid none = some M') ∨
    ∃ pid sem, M.pc (M.tid cpu) = .armed pid sem ∧
      M.createThread cpu pid (some sem) = some M' := by
  rw [stepCreate] at h
  split at h
  case h_1 pid hpc => exact .inl ⟨pid, hpc, h⟩
  case h_2 pid sem hpc => exact .inr ⟨pid, sem, hpc, h⟩
  case h_3 => cases h

lemma stepRun_eq_some (h : M.stepRun cpu = some M') :
    ∃ pid tid sem s', M.pc (M.tid cpu) = .created pid tid sem ∧
      threadRun M.kernel tid = some s' ∧ M' = (M.withKernel s').setPc (M.tid cpu)
        (sem.elim (if M.self (M.tid cpu) = 0 then .booted pid else .user) (.waiting pid)) := by
  rw [stepRun] at h
  split at h
  case h_1 pid tid hpc =>
    obtain ⟨s', hs', rfl⟩ := Option.map_eq_some_iff.mp h
    exact ⟨pid, tid, none, s', hpc, hs', rfl⟩
  case h_2 pid tid sem hpc =>
    obtain ⟨s', hs', rfl⟩ := Option.map_eq_some_iff.mp h
    exact ⟨pid, tid, some sem, s', hpc, hs', rfl⟩
  case h_3 => cases h

lemma stepWait_eq_some (h : M.stepWait L cpu = some M') :
    ∃ pid sem m', M.pc (M.tid cpu) = .waiting pid sem ∧
      semaphoreP L.semaphoreTable M.toSemState cpu sem = some m' ∧
      M' = (M.withSem m').setPc (M.tid cpu) (.blocked pid sem
        (if (m'.semaphoreTable sem).value < 0 then .blocking else .passing)) := by
  rw [stepWait] at h
  split at h
  case h_1 pid sem hpc =>
    obtain ⟨m', hm', rfl⟩ := Option.map_eq_some_iff.mp h
    exact ⟨pid, sem, m', hpc, hm', rfl⟩
  case h_2 => cases h

lemma stepResume_eq_some (h : M.stepResume cpu = some M') :
    ∃ pid sem phase, M.pc (M.tid cpu) = .blocked pid sem phase ∧ phase ≠ .blocking ∧
      M' = M.setPc (M.tid cpu) .user := by
  rw [stepResume] at h
  split at h
  case h_1 => cases h
  case h_2 pid sem phase hphase hpc =>
    exact ⟨pid, sem, phase, hpc, hphase, (Option.some.inj h).symm⟩
  case h_3 => cases h

lemma stepAttach_eq_some (h : M.stepAttach cpu = some M') :
    ∃ pid sem, M.pc (M.tid cpu) = .start pid sem ∧
      M' = (M.withKernel (M.kernel.modifyThread (M.tid cpu) fun th =>
        { th with processId := (pid : ℕ) })).setPc (M.tid cpu) (.attached pid sem) := by
  rw [stepAttach] at h
  split at h
  case h_1 pid sem hpc =>
    obtain ⟨m', hm', rfl⟩ := Option.map_eq_some_iff.mp h
    unfold processAttach at hm'
    dsimp only at hm'
    split_ifs at hm'
    obtain rfl := Option.some.inj hm'
    exact ⟨pid, sem, hpc, rfl⟩
  case h_2 => cases h

/-- A spawned process is loaded, a forked one copies its parent first. -/
lemma stepMap_eq_some {pagetable : ℕ} {heapEnd : UInt32}
    (h : M.stepMap cpu pagetable heapEnd = some M') :
    ∃ s', s' = M.kernel.modifyThread (M.tid cpu) (fun th => { th with pagetable := pagetable }) ∧
    ((∃ pid, M.pc (M.tid cpu) = .attached pid none ∧
      M' = ({ M.withKernel s' with
        processTable := (Function.update M.processTable pid
          { M.processTable pid with heapEnd := heapEnd }) }).setPc (M.tid cpu) .user) ∨
    ∃ pid sem, M.pc (M.tid cpu) = .attached pid (some sem) ∧
      M' = (M.withKernel s').setPc (M.tid cpu) (.mapped sem)) := by
  refine ⟨_, rfl, ?_⟩
  rw [stepMap, processSetPagetable] at h
  split at h
  case h_1 pid hpc =>
    obtain ⟨m', hm', rfl⟩ := Option.map_eq_some_iff.mp h
    split_ifs at hm'
    obtain rfl := Option.some.inj hm'
    exact .inl ⟨pid, hpc, rfl⟩
  case h_2 pid sem hpc =>
    obtain ⟨m', hm', rfl⟩ := Option.map_eq_some_iff.mp h
    split_ifs at hm'
    obtain rfl := Option.some.inj hm'
    exact .inr ⟨pid, sem, hpc, rfl⟩
  case h_3 => cases h

lemma stepSignal_eq_some (h : M.stepSignal L cpu = some M') :
    ∃ sem m', M.pc (M.tid cpu) = .mapped sem ∧
      semaphoreV L.semaphoreTable M.toSemState sem = some m' ∧
      M' = (M.withSem m').setPc (M.tid cpu) .user := by
  rw [stepSignal] at h
  split at h
  case h_1 sem hpc =>
    obtain ⟨m', hm', rfl⟩ := Option.map_eq_some_iff.mp h
    exact ⟨sem, m', hpc, hm', rfl⟩
  case h_2 => cases h

lemma stepFinish_eq_some {retval : ℤ} (h : M.stepFinish L cpu retval = some M') :
    M.pc (M.tid cpu) = .user ∧ ∃ pid kernel,
      toPid (processGetCurrentProcess M.toProcState cpu) = some pid ∧
      sleepqWakeAll (M.kernel.modifyThread (M.tid cpu) fun th => { th with pagetable := 0 })
        (L.proc pid) = some kernel ∧
      M' = { ({ M.withKernel kernel with
          processTable := (processOrphan (Function.update M.processTable pid
            { M.processTable pid with retval := retval, state := .zombie }) (pid : ℕ)) }).setPc
              (M.tid cpu) .finish with
        toHistory := M.toHistory.finish (M.self (M.tid cpu)) retval } := by
  rw [stepFinish] at h
  split_ifs at h with hpc
  obtain ⟨m', hm', rfl⟩ := Option.map_eq_some_iff.mp h
  obtain ⟨pid, hpid, hm'⟩ := Option.bind_eq_some_iff.mp hm'
  obtain ⟨kernel, hkernel, hm'⟩ := Option.bind_eq_some_iff.mp hm'
  obtain rfl := Option.some.inj hm'
  exact ⟨hpc, pid, kernel, hpid, hkernel, rfl⟩

lemma stepDie_eq_some (h : M.stepDie cpu = some M') :
    M.pc (M.tid cpu) = .finish ∧ ∃ s', threadFinish M.kernel cpu = some s' ∧
      M' = (M.withKernel s').setPc (M.tid cpu) .kernel := by
  rw [stepDie] at h
  split_ifs at h with hpc
  obtain ⟨s', hs', rfl⟩ := Option.map_eq_some_iff.mp h
  exact ⟨hpc, s', hs', rfl⟩

lemma stepJoinEnter_eq_some {pid : ℤ} (h : M.stepJoinEnter cpu pid = some M') :
    (M.pc (M.tid cpu) = .user ∨ ∃ p, M.pc (M.tid cpu) = .booted p ∧ pid = (p : ℕ)) ∧
    (M' = M ∨ ∃ p, processJoinCheck M.toProcState cpu pid = .inr p ∧
      M' = M.setPc (M.tid cpu) (.join p)) := by
  rw [stepJoinEnter] at h
  split_ifs at h with hpc
  refine ⟨hpc, ?_⟩
  split at h
  case h_1 => exact .inl (Option.some.inj h).symm
  case h_2 p hp => exact .inr ⟨p, hp, (Option.some.inj h).symm⟩

/-- The child has finished and its slot is freed, or the thread enters the sleep queue. -/
lemma joinSection_eq_some (h : M.joinSection L cpu pid = some M') :
    ((M.processTable pid).state = .zombie ∧
      M' = { (M.withState (processReset M.toProcState pid)).setPc (M.tid cpu)
          (if M.self (M.tid cpu) = 0 then .kernel else .user) with
        toHistory := M.toHistory.join (M.self (M.tid cpu)) pid (M.processTable pid).retval }) ∨
    ((M.processTable pid).state ≠ .zombie ∧ ∃ s', sleepqAdd M.kernel cpu (L.proc pid) = some s' ∧
      M' = (M.withKernel s').setPc (M.tid cpu) (.joinBlocked pid .blocking)) := by
  rw [joinSection, processJoinRound] at h
  by_cases hzombie : (M.processTable pid).state = .zombie
  · rw [if_neg (not_not.mpr hzombie)] at h
    exact .inl ⟨hzombie, (Option.some.inj h).symm⟩
  · rw [if_pos hzombie] at h
    refine .inr ⟨hzombie, ?_⟩
    cases hadd : sleepqAdd M.toProcState.kernel cpu (L.proc pid) with
    | none =>
      rw [hadd] at h
      cases h
    | some s' =>
      rw [hadd] at h
      exact ⟨s', rfl, (Option.some.inj h).symm⟩

lemma stepJoinRound_eq_some (h : M.stepJoinRound L cpu = some M') :
    ∃ pid, (M.pc (M.tid cpu) = .join pid ∨
        ∃ phase, M.pc (M.tid cpu) = .joinBlocked pid phase ∧ phase ≠ .blocking) ∧
      M.joinSection L cpu pid = some M' := by
  rw [stepJoinRound] at h
  split at h
  case h_1 pid hpc => exact ⟨pid, .inl hpc, h⟩
  case h_2 => cases h
  case h_3 pid phase hphase hpc => exact ⟨pid, .inr ⟨phase, hpc, hphase⟩, h⟩
  case h_4 => cases h

end Steps

end Machine

lemma Reachable.startup (n : ℕ) (L : Layout) : Reachable n L Machine.startup := by
  have hcreate : Step n L Machine.initial (Machine.initial.withKernel (threadCreate initialState).1) :=
    Step.kernel .threadCreate trivial trivial trivial rfl
  exact (Relation.ReflTransGen.single hcreate).tail
    (Step.kernel (.threadRun 1) rfl trivial rfl rfl)

lemma Reachable.runs {n : ℕ} {L : Layout} {cpu : Fin configMaxCpus} (hcpu : cpu < n)
    {l : List (Option ProcAct)} {M M' : Machine} (h : Reachable n L M)
    (hrun : M.runs L cpu l = some M') : Reachable n L M' := by
  induction l generalizing M with
  | nil =>
    obtain rfl := Option.some.inj hrun
    exact h
  | cons a l ih =>
    cases a with
    | none =>
      obtain ⟨M₁, hM₁, hrun⟩ := Option.bind_eq_some_iff.mp hrun
      exact ih (h.tail (Step.schedule hcpu hM₁)) hrun
    | some a =>
      rw [Machine.runs] at hrun
      split_ifs at hrun with hst
      obtain ⟨M₁, hM₁, hrun⟩ := Option.bind_eq_some_iff.mp hrun
      exact ih (h.tail (Step.proc a hcpu hst hM₁)) hrun

end Osm.Proc
