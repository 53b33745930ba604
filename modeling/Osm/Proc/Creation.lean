import Osm.Kernel.ThreadLists
import Osm.Proc.Process

/-!
# What a call that creates a process leaves behind

Whole calls of `process_spawn` and `process_fork`. A call reserves a row of the process table, a
fork also a semaphore, and then a row of the thread table; nothing is given back on the way out.
So a call that finds the thread table full keeps the row of the process table, and a fork keeps
the semaphore whether it succeeds or not.

Nothing else runs until a fork waits for its child. From then on the child and all other threads
go on in any order, up to the return of the parent from `semaphore_P`. They do not create or
destroy semaphores, so that what the fork itself keeps can be seen.
-/

namespace Osm.Proc

open Osm.Kernel

/-- `PROCESS_PTABLE_FULL`. -/
def processPtableFull : ℤ := -1

/-- `PROCESS_TTABLE_FULL`. -/
def processTtableFull : ℤ := -3

namespace ProcState

/-- The reserved kernel semaphores. -/
def reserved (m : ProcState) : Set Sem := { sem | m.Created sem }

/-- Replace the threads. -/
def withKernel (m : ProcState) (s : State) : ProcState := { m with kernel := s }

/-- Replace the threads and the semaphores. -/
def withSem (m : ProcState) (s : SemState) : ProcState := { m with toSemState := s }

end ProcState

/-- `process_spawn`. -/
def processSpawn (m : ProcState) (thisCpu : Fin configMaxCpus) (executable : List UInt8) :
    Option (ProcState × ℤ) :=
  match allocProcessId m with
  | (m, none)     => some (m, processPtableFull)
  | (m, some pid) =>
    let m := processSpawnFill m thisCpu pid executable
    let (kernel, thread) := threadCreate m.kernel
    let m := m.withKernel kernel
    if thread < 0 then some (m, processTtableFull)
    else do
      let kernel ← threadRun m.kernel thread
      return (m.withKernel kernel, ((pid : ℕ) : ℤ))

/-- `process_fork` up to the call of `semaphore_P`: the value that it returns at once, or the
child and the semaphore that it goes on to wait for; `none` in place of the semaphore is `NULL`. -/
def processForkStart (m : ProcState) (thisCpu : Fin configMaxCpus) :
    Option (ProcState × (ℤ ⊕ Pid × Option Sem)) :=
  match allocProcessId m with
  | (m, none)          => some (m, .inl processPtableFull)
  | (m, some pidChild) => do
    let m ← processForkFill m thisCpu pidChild
    let (sems, semWait) ← semaphoreCreate m.toSemState thisCpu 0
    let m := m.withSem sems
    let (kernel, thread) := threadCreate m.kernel
    let m := m.withKernel kernel
    if thread < 0 then return (m, .inl processTtableFull)
    else
      let kernel ← threadRun m.kernel thread
      return (m.withKernel kernel, .inr (pidChild, semWait))

/-- What the child of a fork and the other threads do while the parent waits. -/
inductive OtherStep (L : Layout) : ProcState → ProcState → Prop
  | kernel {m : ProcState} {s' : State} (a : Action) (hexec : a.exec m.kernel = some s') :
      OtherStep L m (m.withKernel s')
  | attach {m m' : ProcState} {cpu : Fin configMaxCpus} {pid : Pid}
      (hexec : processAttach m cpu pid = some m') : OtherStep L m m'
  | setPagetable {m m' : ProcState} {cpu : Fin configMaxCpus} {pagetable : ℕ}
      (hexec : processSetPagetable m cpu pagetable = some m') : OtherStep L m m'
  | p {m : ProcState} {s' : SemState} {cpu : Fin configMaxCpus} {sem : Sem}
      (hexec : semaphoreP L.semaphoreTable m.toSemState cpu sem = some s') :
      OtherStep L m (m.withSem s')
  | v {m : ProcState} {s' : SemState} {sem : Sem}
      (hexec : semaphoreV L.semaphoreTable m.toSemState sem = some s') :
      OtherStep L m (m.withSem s')
  | spawn {m m' : ProcState} {cpu : Fin configMaxCpus} {executable : List UInt8} {ret : ℤ}
      (hexec : processSpawn m cpu executable = some (m', ret)) : OtherStep L m m'
  | finish {m m' : ProcState} {cpu : Fin configMaxCpus} {retval : ℤ}
      (hexec : processFinish L m cpu retval = some m') : OtherStep L m m'
  | join {m m' : ProcState} {cpu : Fin configMaxCpus} {pid : Pid} {ret : Option ℤ}
      (hexec : processJoinRound L m cpu pid = some (m', ret)) : OtherStep L m m'

/-- Any number of steps of the child and the other threads. -/
def Others (L : Layout) : ProcState → ProcState → Prop := Relation.ReflTransGen (OtherStep L)

/-- A call that creates a process. -/
inductive Creation
  | spawn (executable : List UInt8)
  | fork

/-- The call, made by the thread running on a CPU, returns a value. A fork that has got a thread
for its child waits on its semaphore and returns when it runs again, off the sleep queue; it
never returns from a wait on `NULL`. -/
inductive CreationReturns (L : Layout) (cpu : Fin configMaxCpus) (m : ProcState) :
    Creation → ProcState → ℤ → Prop
  | spawn {m' : ProcState} {executable : List UInt8} {ret : ℤ}
      (hexec : processSpawn m cpu executable = some (m', ret)) :
      CreationReturns L cpu m (.spawn executable) m' ret
  | forkFailed {m' : ProcState} {ret : ℤ} (hexec : processForkStart m cpu = some (m', .inl ret)) :
      CreationReturns L cpu m .fork m' ret
  | fork {m₁ m₂ m' : ProcState} {s : SemState} {cpu₂ cpu' : Fin configMaxCpus} {pid : Pid}
      {sem : Sem} (hexec : processForkStart m cpu = some (m₁, .inr (pid, some sem)))
      (hbefore : Others L m₁ m₂)
      (hp : m₂.kernel.currentThread cpu₂ = m.kernel.currentThread cpu)
      (hwait : semaphoreP L.semaphoreTable m₂.toSemState cpu₂ sem = some s)
      (hafter : Others L (m₂.withSem s) m')
      (hback : m'.kernel.currentThread cpu' = m.kernel.currentThread cpu)
      (hawake : (m'.kernel.threadTable (m.kernel.currentThread cpu)).sleepsOn = 0) :
      CreationReturns L cpu m .fork m' (pid : ℕ)

/-- A call that has failed leaves the three tables as they were, and a fork that has succeeded the
set of reserved semaphores. -/
def KeepsTables (m : ProcState) : Creation → ProcState → ℤ → Prop := fun call m' ret =>
  (ret < 0 → m'.processTable = m.processTable ∧ m'.kernel.threadTable = m.kernel.threadTable ∧
    m'.reserved = m.reserved) ∧
  (call = .fork → 0 ≤ ret → m'.reserved = m.reserved)

/-- The process table has no free row. -/
def ProcessTableFull (m : ProcState) : Prop := ∀ pid, (m.processTable pid).state ≠ .free

/-- The thread table has no free row but that of the idle thread. -/
def ThreadTableFull (m : ProcState) : Prop :=
  ∀ t : ℤ, 0 < t → t < configMaxThreads → (m.kernel.threadTable t).state ≠ .free

/-- The calls that leave the tables as they should. -/
def LeavesNothing (m : ProcState) : Creation → Prop
  | .spawn _ => ProcessTableFull m ∨ ¬ ThreadTableFull m
  | .fork    => ProcessTableFull m

/-! ### The functions called -/

lemma findFreeTid_eq_none_iff {s : State} :
    findFreeTid s = none ↔
      ∀ t : ℤ, 0 < t → t < configMaxThreads → (s.threadTable t).state ≠ .free := by
  rw [findFreeTid, List.find?_eq_none]
  constructor
  · intro h t hpos hlt hfree
    have hmem : t ∈ (List.range configMaxThreads).map
        fun i : ℕ => (i + s.nextTid) % configMaxThreads := by
      refine List.mem_map.mpr ⟨((t - s.nextTid) % configMaxThreads).toNat, ?_, ?_⟩
      · simp only [configMaxThreads] at hlt ⊢
        exact List.mem_range.mpr (by omega)
      · simp only [configMaxThreads] at hlt ⊢
        omega
    have hfound : t ≠ idleThreadTid ∧ (s.threadTable t).state = .free := ⟨hpos.ne', hfree⟩
    exact h t hmem (decide_eq_true hfound)
  · intro h t ht hfound
    obtain ⟨i, -, rfl⟩ := List.mem_map.mp ht
    have hpos : (0 : ℤ) < configMaxThreads := by decide
    have hnonneg := Int.emod_nonneg (i + s.nextTid) hpos.ne'
    obtain ⟨hne, hfree⟩ : (i + s.nextTid) % configMaxThreads ≠ idleThreadTid ∧
        (s.threadTable ((i + s.nextTid) % configMaxThreads)).state = .free :=
      of_decide_eq_true hfound
    exact h _ (lt_of_le_of_ne hnonneg (Ne.symm hne)) (Int.emod_lt_of_pos _ hpos) hfree

lemma threadCreate_of_none {s : State} (h : findFreeTid s = none) : threadCreate s = (s, -1) := by
  rw [threadCreate, h]

lemma threadCreate_of_some {s : State} {t : ℤ} (h : findFreeTid s = some t) :
    (threadCreate s).2 = t ∧ 0 < t := by
  rw [threadCreate, h]
  exact ⟨rfl, (Represents.findFreeTid_some h).1⟩

/-- What `alloc_process_id` does. -/
lemma allocProcessId_cases (m : ProcState) :
    ProcessTableFull m ∧ allocProcessId m = (m, none) ∨
      ∃ pid, (m.processTable pid).state = .free ∧
        allocProcessId m =
          (m.modifyPcb pid fun pcb => { pcb with state := .running }, some pid) := by
  rw [allocProcessId]
  cases hfind : (List.finRange processMaxProcesses).find?
      fun i => (m.processTable i).state = .free with
  | none =>
    refine .inl ⟨fun pid hfree => ?_, rfl⟩
    exact absurd (List.find?_eq_none.mp hfind pid (List.mem_finRange pid)) (by simp [hfree])
  | some pid =>
    have hfound := List.find?_some hfind
    exact .inr ⟨pid, of_decide_eq_true hfound, rfl⟩

/-- What a `process_spawn` that has found a free row of the process table does. -/
lemma processSpawn_cases {m m' : ProcState} {cpu : Fin configMaxCpus} {executable : List UInt8}
    {ret : ℤ} (h : processSpawn m cpu executable = some (m', ret)) :
    m'.reserved = m.reserved ∧
      (ProcessTableFull m ∧ m' = m ∨
        ∃ pid, (m.processTable pid).state = .free ∧ (m'.processTable pid).state = .running ∧
          (ThreadTableFull m ∧ ret < 0 ∨ ¬ ThreadTableFull m ∧ 0 ≤ ret)) := by
  rw [processSpawn] at h
  obtain ⟨hfull, halloc⟩ | ⟨pid, hfree, halloc⟩ := allocProcessId_cases m
  · rw [halloc] at h
    cases h
    exact ⟨rfl, .inl ⟨hfull, rfl⟩⟩
  · rw [halloc] at h
    cases htid : findFreeTid m.kernel with
    | none =>
      have hcreate := threadCreate_of_none htid
      simp only [processSpawnFill, ProcState.modifyPcb, hcreate] at h
      cases h
      refine ⟨rfl, .inr ⟨pid, hfree, ?_, .inl ⟨findFreeTid_eq_none_iff.mp htid, by decide⟩⟩⟩
      simp [ProcState.withKernel]
    | some t =>
      obtain ⟨hcreate, hpos⟩ := threadCreate_of_some htid
      simp only [processSpawnFill, ProcState.modifyPcb, hcreate, not_lt.mpr hpos.le,
        if_false] at h
      obtain ⟨kernel, -, h⟩ := Option.bind_eq_some_iff.mp h
      cases h
      refine ⟨rfl, .inr ⟨pid, hfree, ?_, .inr ⟨fun hfull => ?_, Int.natCast_nonneg _⟩⟩⟩
      · simp [ProcState.withKernel]
      · rw [findFreeTid_eq_none_iff.mpr hfull] at htid
        cases htid

/-- What a `process_fork` has done when it returns at once or goes on to wait. Having found a free
row of the process table, it fails with the row kept, or waits with a semaphore that was free. -/
lemma processForkStart_cases {m m' : ProcState} {cpu : Fin configMaxCpus}
    {res : ℤ ⊕ Pid × Option Sem} (hcaller : 0 ≤ m.kernel.currentThread cpu)
    (h : processForkStart m cpu = some (m', res)) :
    (ProcessTableFull m ∧ m' = m ∧ res = .inl processPtableFull) ∨
      ∃ pid, (m.processTable pid).state = .free ∧
        (res = .inl processTtableFull ∧ (m'.processTable pid).state = .running ∨
          ∃ semWait, res = .inr (pid, semWait) ∧
            ∀ sem ∈ semWait, ¬ m.Created sem ∧ m'.Created sem) := by
  rw [processForkStart] at h
  obtain ⟨hfull, halloc⟩ | ⟨pid, hfree, halloc⟩ := allocProcessId_cases m
  · rw [halloc] at h
    cases h
    exact .inl ⟨hfull, rfl, rfl⟩
  · rw [halloc] at h
    obtain ⟨m₁, hfill, h⟩ := Option.bind_eq_some_iff.mp h
    obtain ⟨parent, -, hm₁⟩ := Option.bind_eq_some_iff.mp hfill
    obtain ⟨⟨sems, semWait⟩, hcreate, h⟩ := Option.bind_eq_some_iff.mp h
    refine .inr ⟨pid, hfree, ?_⟩
    cases htid : findFreeTid (m₁.withSem sems).kernel with
    | none =>
      have hthread := threadCreate_of_none htid
      simp only [hthread] at h
      cases h
      cases hm₁
      refine .inl ⟨rfl, ?_⟩
      simp [ProcState.withKernel, ProcState.withSem, ProcState.modifyPcb]
    | some t =>
      obtain ⟨hthread, hpos⟩ := threadCreate_of_some htid
      simp only [hthread, not_lt.mpr hpos.le, if_false] at h
      obtain ⟨kernel, -, h⟩ := Option.bind_eq_some_iff.mp h
      cases h
      refine .inr ⟨semWait, rfl, fun sem hsem => ?_⟩
      obtain ⟨-, ⟨rfl, -⟩ | ⟨sem', rfl, hsemfree, rfl⟩⟩ := semaphoreCreate_cases hcreate
      · cases hsem
      · cases hsem
        cases hm₁
        constructor
        · exact fun hcreated => hcreated hsemfree
        · simp only [SemState.Created, ProcState.withKernel, ProcState.withSem,
            Function.update_self]
          have hcreator : m.kernel.currentThread cpu ≠ -1 := by omega
          exact hcreator

/-! ### The wait of a fork -/

/-- The others create and destroy no semaphore. -/
lemma OtherStep.reserved {L : Layout} {m m' : ProcState} (h : OtherStep L m m') :
    m'.reserved = m.reserved := by
  cases h with
  | kernel => rfl
  | attach hexec =>
    rw [processAttach] at hexec
    split_ifs at hexec
    cases hexec
    rfl
  | setPagetable hexec =>
    rw [processSetPagetable] at hexec
    split_ifs at hexec
    cases hexec
    rfl
  | p hexec =>
    obtain ⟨kernel, rfl, -⟩ := semaphoreP_cases hexec
    exact Set.ext fun _ => SemState.created_setValue
  | v hexec =>
    obtain ⟨kernel, rfl, -⟩ := semaphoreV_cases hexec
    exact Set.ext fun _ => SemState.created_setValue
  | spawn hexec => exact (processSpawn_cases hexec).1
  | finish hexec =>
    obtain ⟨pid, -, hexec⟩ := Option.bind_eq_some_iff.mp hexec
    obtain ⟨kernel, -, hexec⟩ := Option.bind_eq_some_iff.mp hexec
    cases hexec
    rfl
  | join hexec =>
    rw [processJoinRound] at hexec
    split_ifs at hexec
    · obtain ⟨kernel, -, hexec⟩ := Option.bind_eq_some_iff.mp hexec
      cases hexec
      rfl
    · cases hexec
      rfl

lemma Others.reserved {L : Layout} {m m' : ProcState} (h : Others L m m') :
    m'.reserved = m.reserved := by
  induction h with
  | refl => rfl
  | tail _ hstep ih => rw [hstep.reserved, ih]

/-- The semaphore of a fork that returns a process identifier stays reserved. -/
lemma CreationReturns.reserved_ne {L : Layout} {cpu : Fin configMaxCpus} {m m' : ProcState}
    {ret : ℤ} (hcaller : 0 ≤ m.kernel.currentThread cpu)
    (h : CreationReturns L cpu m .fork m' ret) (hret : 0 ≤ ret) :
    m'.reserved ≠ m.reserved := by
  intro hsame
  cases h with
  | forkFailed hexec =>
    obtain ⟨-, -, hres⟩ | ⟨pid, -, ⟨hres, -⟩ | ⟨semWait, hres, -⟩⟩ :=
      processForkStart_cases hcaller hexec
    · cases hres
      exact absurd hret (by decide)
    · cases hres
      exact absurd hret (by decide)
    · cases hres
  | fork hexec hbefore hp hwait hafter hback hawake =>
    obtain ⟨-, -, hres⟩ | ⟨pid, hfree, ⟨hres, -⟩ | ⟨semWait, hres, hsem⟩⟩ :=
      processForkStart_cases hcaller hexec
    · cases hres
    · cases hres
    · cases hres
      obtain ⟨hnot, hcreated⟩ := hsem _ rfl
      have hwaited := (OtherStep.p hwait).reserved
      rw [hafter.reserved, hwaited, hbefore.reserved] at hsame
      exact hnot (hsame.subset hcreated)

/-- A call keeps the tables as it should exactly if it is a `process_spawn` that finds the process
table full or a free row in the thread table, or a `process_fork` that finds the process table
full: the semaphore of a fork that succeeds stays reserved, and the row of the process table of
a call that finds no thread stays in use. -/
theorem CreationReturns.keepsTables_iff {L : Layout} {cpu : Fin configMaxCpus} {m m' : ProcState}
    {call : Creation} {ret : ℤ} (hcaller : 0 ≤ m.kernel.currentThread cpu)
    (h : CreationReturns L cpu m call m' ret) :
    KeepsTables m call m' ret ↔ LeavesNothing m call := by
  cases h with
  | spawn hexec =>
    obtain ⟨hreserved, ⟨hfull, rfl⟩ | ⟨pid, hfree, hrun, ⟨hfull, hret⟩ | ⟨hfull, hret⟩⟩⟩ :=
      processSpawn_cases hexec
    · exact iff_of_true ⟨fun _ => ⟨rfl, rfl, rfl⟩, fun _ _ => rfl⟩ (.inl hfull)
    · have hbad : ¬ LeavesNothing m (.spawn []) :=
        not_or.mpr ⟨fun hall => hall pid hfree, not_not.mpr hfull⟩
      refine iff_of_false (fun hkeeps => ?_) hbad
      rw [(hkeeps.1 hret).1, hfree] at hrun
      cases hrun
    · exact iff_of_true ⟨fun hneg => absurd hneg (not_lt.mpr hret), fun hcall => by cases hcall⟩
        (.inr hfull)
  | forkFailed hexec =>
    obtain ⟨hfull, rfl, -⟩ | ⟨pid, hfree, ⟨hres, hrun⟩ | ⟨semWait, hres, -⟩⟩ :=
      processForkStart_cases hcaller hexec
    · exact iff_of_true ⟨fun _ => ⟨rfl, rfl, rfl⟩, fun _ _ => rfl⟩ hfull
    · obtain rfl := Sum.inl.inj hres
      refine iff_of_false (fun hkeeps => ?_) fun hall => hall pid hfree
      rw [(hkeeps.1 (by decide)).1, hfree] at hrun
      cases hrun
    · cases hres
  | fork hexec hbefore hp hwait hafter hback hawake =>
    have hreturns := CreationReturns.fork hexec hbefore hp hwait hafter hback hawake
    have hne := hreturns.reserved_ne hcaller (Int.natCast_nonneg _)
    refine iff_of_false (fun hkeeps => hne (hkeeps.2 rfl (Int.natCast_nonneg _))) ?_
    obtain ⟨-, -, hres⟩ | ⟨pid, hfree, -⟩ := processForkStart_cases hcaller hexec
    · cases hres
    · exact fun hfull => hfull pid hfree

/-- One process, number `0`, run by thread `1` on the first CPU. -/
def ProcState.oneProcess : ProcState where
  kernel :=
    { initialState with
      threadTable   := Function.update initialState.threadTable 1
        { state := .running, pagetable := 1, processId := 0 }
      currentThread := Function.update initialState.currentThread 0 1
      nextTid       := 2 }
  semaphoreTable := fun _ => { value := 0, creator := -1 }
  next           := 0
  processTable   := Function.update (fun _ => {}) 0 { state := .running }

/-- The process forks. The child gets its process and its page table and raises the semaphore
before the parent comes to wait on it. -/
lemma CreationReturns.fork_oneProcess :
    ∃ m', CreationReturns Layout.sample 0 ProcState.oneProcess .fork m' 1 := by
  obtain ⟨m₁, h₁⟩ : ∃ m, processForkStart ProcState.oneProcess 0 = some (m, .inr (1, some 0)) :=
    ⟨_, rfl⟩
  obtain ⟨s₂, h₂⟩ : ∃ s, Action.exec m₁.kernel (.schedulerSchedule 0) = some s := by
    cases h₁; exact ⟨_, rfl⟩
  obtain ⟨m₃, h₃⟩ : ∃ m, processAttach (m₁.withKernel s₂) 0 1 = some m := by
    cases h₁; cases h₂; exact ⟨_, rfl⟩
  obtain ⟨m₄, h₄⟩ : ∃ m, processSetPagetable m₃ 0 2 = some m := by
    cases h₁; cases h₂; cases h₃; exact ⟨_, rfl⟩
  obtain ⟨s₅, h₅⟩ : ∃ s, semaphoreV Layout.sample.semaphoreTable m₄.toSemState 0 = some s := by
    cases h₁; cases h₂; cases h₃; cases h₄; exact ⟨_, rfl⟩
  obtain ⟨s₆, h₆⟩ : ∃ s, Action.exec (m₄.withSem s₅).kernel (.schedulerSchedule 0) = some s := by
    cases h₁; cases h₂; cases h₃; cases h₄; cases h₅; exact ⟨_, rfl⟩
  obtain ⟨s₇, h₇⟩ : ∃ s, semaphoreP Layout.sample.semaphoreTable
      ((m₄.withSem s₅).withKernel s₆).toSemState 0 0 = some s := by
    cases h₁; cases h₂; cases h₃; cases h₄; cases h₅; cases h₆; exact ⟨_, rfl⟩
  have hback : ((m₄.withSem s₅).withKernel s₆).kernel.currentThread 0 = 1 := by
    cases h₁; cases h₂; cases h₃; cases h₄; cases h₅; cases h₆; rfl
  have hback' : s₇.kernel.currentThread 0 = 1 ∧ (s₇.kernel.threadTable 1).sleepsOn = 0 := by
    cases h₁; cases h₂; cases h₃; cases h₄; cases h₅; cases h₆; cases h₇; exact ⟨rfl, rfl⟩
  have hothers : Others Layout.sample m₁ ((m₄.withSem s₅).withKernel s₆) :=
    ((((Relation.ReflTransGen.single (.kernel _ h₂)).tail (.attach h₃)).tail
      (.setPagetable h₄)).tail (.v h₅)).tail (.kernel _ h₆)
  exact ⟨_, .fork h₁ hothers hback h₇ .refl hback'.1 hback'.2⟩

/-- The fork of the only process returns the process identifier of the child, with a semaphore
reserved that was free before. -/
theorem CreationReturns.fork_not_keepsTables : ∃ m',
    CreationReturns Layout.sample 0 ProcState.oneProcess .fork m' 1 ∧
    ¬ KeepsTables ProcState.oneProcess .fork m' 1 := by
  obtain ⟨m', hreturns⟩ := CreationReturns.fork_oneProcess
  have hne := hreturns.reserved_ne (by decide) (by decide)
  exact ⟨m', hreturns, fun hkeeps => hne (hkeeps.2 rfl (by decide))⟩

/-- A `process_spawn` in a state with a free process and a free thread keeps the tables. -/
theorem CreationReturns.keepsTables_iff_spawn : ∃ m' ret,
    CreationReturns Layout.sample 0 ProcState.oneProcess (.spawn []) m' ret ∧
    KeepsTables ProcState.oneProcess (.spawn []) m' ret := by
  obtain ⟨⟨m', ret⟩, hexec⟩ : ∃ r, processSpawn ProcState.oneProcess 0 [] = some r := ⟨_, rfl⟩
  have hreturns : CreationReturns Layout.sample 0 ProcState.oneProcess (.spawn []) m' ret :=
    .spawn hexec
  refine ⟨m', ret, hreturns, (CreationReturns.keepsTables_iff (by decide) hreturns).mpr ?_⟩
  exact .inr fun hfull => hfull 2 (by decide) (by decide) rfl

end Osm.Proc
