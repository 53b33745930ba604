import Osm.Proc.LifeCycle

/-!
# Zombies and their parents

Who can still join a process that has finished. While the creator of a process is live, it is the
parent in the slot of the process, and a join by it returns at once and frees the slot. When the
creator finishes, `process_finish` sets the parent in the slots of its children to `-1`: they keep
running with a parent that is no process, and nobody can join them.
-/

namespace Osm.Proc

open Osm.Kernel

variable {n : ℕ} {L : Layout} {M M' : Machine} {q : Threads} {cpu : Fin configMaxCpus} {pid : Pid}

/-- Processes are created by earlier ones, and a slot in use names the creator of its process as
parent while the creator is live, as soon as the slot has been filled in. -/
structure ParentsNamed (M : Machine) : Prop where
  creator : ∀ pid, (M.processTable pid).state ≠ .free → M.creator (M.child pid) < M.fresh
  parent  : ∀ pid, (M.processTable pid).state ≠ .free → M.Live (M.creator (M.child pid)) →
    (∀ t fork, M.pc t ≠ .alloc fork pid) →
    (M.processTable pid).parent = M.pidOf (M.creator (M.child pid))

namespace ParentsNamed

/-- Steps that keep the states, the parents and the history, and take no thread from the place
between reserving a slot and filling it in. -/
lemma frame (h : ParentsNamed M)
    (hstate : ∀ pid, (M'.processTable pid).state = (M.processTable pid).state)
    (hparent : ∀ pid, (M'.processTable pid).parent = (M.processTable pid).parent)
    (hhistory : M'.toHistory = M.toHistory)
    (hpc : ∀ t fork pid, M.pc t = .alloc fork pid → M'.pc t = .alloc fork pid) :
    ParentsNamed M' := by
  constructor
  case creator =>
    intro pid hused
    rw [hstate] at hused
    rw [hhistory]
    exact h.creator pid hused
  case parent =>
    intro pid hused hlive hfilled
    rw [hstate] at hused
    rw [hhistory] at hlive
    rw [hparent, hhistory]
    exact h.parent pid hused hlive fun t fork ht => hfilled t fork (hpc t fork pid ht)

/-- The running thread moves on. -/
lemma move {t : ℤ} {c : Pc} (h : ParentsNamed M)
    (hstate : ∀ pid, (M'.processTable pid).state = (M.processTable pid).state)
    (hparent : ∀ pid, (M'.processTable pid).parent = (M.processTable pid).parent)
    (hhistory : M'.toHistory = M.toHistory) (hpc : M'.pc = Function.update M.pc t c)
    (hne : ∀ fork pid, M.pc t ≠ .alloc fork pid) : ParentsNamed M' := by
  refine h.frame hstate hparent hhistory fun u fork pid hu => ?_
  have hut : u ≠ t := by
    rintro rfl
    exact hne fork pid hu
  rw [hpc, Function.update_of_ne hut, hu]

/-- A slot is reserved, and the running thread is about to fill it in. -/
lemma alloc {fork : Bool} (h : ParentsNamed M) (hinv : ProcInv n L M q)
    (hexec : M.stepAlloc cpu fork = some M') : ParentsNamed M' := by
  obtain ⟨hpc, rfl | ⟨pid, -, rfl⟩⟩ := Machine.stepAlloc_eq_some hexec
  · exact h
  · have hruns : (M.pc (M.tid cpu)).Runs := by
      rcases hpc with hpc | ⟨hpc, -⟩ <;> rw [hpc] <;> trivial
    have hself : M.self (M.tid cpu) < M.fresh := by
      rcases (hinv.thread.ok (M.tid cpu)).live hruns with hzero | hlive
      · rw [hzero]
        exact hinv.table.fresh
      · exact hlive.2.1
    have htab : ∀ p, p ≠ pid → ∀ f, (M.toProcState.modifyPcb pid f).processTable p =
        M.processTable p := fun p hp f => Function.update_of_ne hp _ _
    constructor
    case creator =>
      intro p hused
      by_cases hp : p = pid
      · subst hp
        have hchild : (M.toHistory.add (M.self (M.tid cpu)) p).child p = M.fresh :=
          Function.update_self _ _ _
        have hcreator : (M.toHistory.add (M.self (M.tid cpu)) p).creator M.fresh =
            M.self (M.tid cpu) := Function.update_self _ _ _
        simp only [hchild, hcreator]
        exact Nat.lt_succ_of_lt hself
      · simp only [Machine.setPc, Machine.withState, htab p hp] at hused
        have hslot := (hinv.table.slot p hused).2.1.ne
        simp only [M.toHistory.add_child (M.self (M.tid cpu)) pid hp,
          M.toHistory.add_creator (M.self (M.tid cpu)) pid hslot]
        exact Nat.lt_succ_of_lt (h.creator p hused)
    case parent =>
      intro p hused hlive hfilled
      have hp : p ≠ pid := by
        rintro rfl
        exact hfilled (M.tid cpu) fork (Function.update_self _ _ _)
      simp only [Machine.setPc, Machine.withState, htab p hp] at hused ⊢
      have hslot := (hinv.table.slot p hused).2.1.ne
      simp only [M.toHistory.add_child (M.self (M.tid cpu)) pid hp,
        M.toHistory.add_creator (M.self (M.tid cpu)) pid hslot] at hlive ⊢
      have hold := h.creator p hused
      rw [M.toHistory.add_pidOf _ _ hold.ne]
      refine h.parent p hused ⟨hlive.1, hold, hlive.2.2⟩ fun t fork' ht => ?_
      have hut : t ≠ M.tid cpu := by
        rintro rfl
        rw [ht] at hpc
        rcases hpc with hpc | ⟨hpc, -⟩ <;> cases hpc
      exact hfilled t fork' ((Function.update_of_ne hut _ _).trans ht)

/-- The creator of a process becomes the parent in its slot. -/
lemma setParent {pcb : Pcb} {fork : Bool} (h : ParentsNamed M) (hinv : ProcInv n L M q)
    (hpc : M.pc (M.tid cpu) = .alloc fork pid)
    (hstate : pcb.state = (M.processTable pid).state)
    (hparent : pcb.parent = processGetCurrentProcess M.toProcState cpu) :
    ParentsNamed ({ M with processTable := Function.update M.processTable pid pcb }.setPc
      (M.tid cpu) (.filled fork pid)) := by
  have hatt : (M.pc (M.tid cpu)).Attached := by rw [hpc]; trivial
  obtain ⟨-, hcreator⟩ := (hinv.thread.ok (M.tid cpu)).pending pid (by rw [hpc]; rfl)
  obtain ⟨tab, htab⟩ : ∃ tab, tab = Function.update M.processTable pid pcb := ⟨_, rfl⟩
  have hself : tab pid = pcb := by rw [htab, Function.update_self]
  have hother : ∀ p, p ≠ pid → tab p = M.processTable p := fun p hp => by
    rw [htab, Function.update_of_ne hp]
  have hstate' : ∀ p, (tab p).state = (M.processTable p).state := by
    intro p
    by_cases hp : p = pid
    · rw [hp, hself, hstate]
    · rw [hother p hp]
  rw [← htab]
  constructor
  case creator =>
    intro p hused
    exact h.creator p (by rw [← hstate']; exact hused)
  case parent =>
    intro p hused hlive hfilled
    change (tab p).parent = M.pidOf (M.creator (M.child p))
    by_cases hp : p = pid
    · rw [hp, hself, hparent, hinv.processGetCurrentProcess_eq hatt, hcreator]
    · rw [hother p hp]
      refine h.parent p (by rw [← hstate']; exact hused) hlive fun t fork' ht => ?_
      have hut : t ≠ M.tid cpu := by
        rintro rfl
        rw [hpc] at ht
        cases ht
        exact hp rfl
      exact hfilled t fork' ((Function.update_of_ne hut _ _).trans ht)

lemma fill {executable : List UInt8} (h : ParentsNamed M) (hinv : ProcInv n L M q)
    (hexec : M.stepFill cpu executable = some M') : ParentsNamed M' := by
  obtain ⟨fork, pid, pcb, hpc, hstate, -, hparent, rfl⟩ := Machine.stepFill_eq_some hexec
  exact h.setParent hinv hpc hstate hparent

/-- The children of a process that finishes lose their parent, and no others. -/
lemma finish {retval : ℤ} (h : ParentsNamed M) (hinv : ProcInv n L M q)
    (hexec : M.stepFinish L cpu retval = some M') : ParentsNamed M' := by
  obtain ⟨hpc, pid, kernel, hpid, -, rfl⟩ := Machine.stepFinish_eq_some hexec
  have hatt : (M.pc (M.tid cpu)).Attached := by rw [hpc]; trivial
  obtain ⟨pid', hslot, hlive⟩ := hinv.slot_of_user hpc
  obtain rfl : pid' = pid := by
    rw [hinv.processGetCurrentProcess_eq hatt, History.pidOf_eq hslot, toPid_natCast] at hpid
    exact Option.some.inj hpid
  obtain ⟨tab, htab⟩ : ∃ tab, tab = processOrphan (Function.update M.processTable pid'
      { M.processTable pid' with retval := retval, state := .zombie }) (pid' : ℕ) := ⟨_, rfl⟩
  obtain ⟨-, hother, -⟩ := processOrphan_finish M.processTable pid' retval htab
  have hused : ∀ p, (tab p).state ≠ .free → (M.processTable p).state ≠ .free := by
    intro p hp
    by_cases hpid' : p = pid'
    · rw [hpid', (hinv.table.slot_of_live hlive hslot).1]
      simp
    · rwa [← (hother p hpid').1]
  have hparent : ∀ p, (M.processTable p).parent ≠ (pid' : ℕ) →
      (tab p).parent = (M.processTable p).parent := by
    intro p hp
    rw [htab, processOrphan]
    by_cases hpid' : p = pid'
    · subst hpid'
      simp only [Function.update_self]
      rw [if_neg hp]
    · simp only [Function.update_of_ne hpid']
      rw [if_neg hp]
  constructor
  case creator =>
    intro p hp
    exact h.creator p (hused p (by rw [htab]; exact hp))
  case parent =>
    intro p hp hcreator hfilled
    obtain ⟨hcreator, hne⟩ := History.finish_live.mp hcreator
    have hold := h.parent p (hused p (by rw [htab]; exact hp)) hcreator fun t fork ht => by
      have hut : t ≠ M.tid cpu := by
        rintro rfl
        rw [hpc] at ht
        cases ht
      exact hfilled t fork ((Function.update_of_ne hut _ _).trans ht)
    change (processOrphan (Function.update M.processTable pid'
      { M.processTable pid' with retval := retval, state := .zombie }) (pid' : ℕ) p).parent =
        M.pidOf (M.creator (M.child p))
    rw [← htab, hparent p, hold]
    rw [hold, ← History.pidOf_eq hslot]
    exact fun heq => hne (hinv.table.eq_of_pidOf hcreator hlive heq)

/-- A join that returns frees the slot of the child. -/
lemma joinSection (h : ParentsNamed M) (hpc : ∀ fork pid, M.pc (M.tid cpu) ≠ .alloc fork pid)
    (hexec : M.joinSection L cpu pid = some M') : ParentsNamed M' := by
  obtain ⟨-, rfl⟩ | ⟨-, s', -, rfl⟩ := Machine.joinSection_eq_some hexec
  · have hother : ∀ p, p ≠ pid → (processReset M.toProcState pid).processTable p =
        M.processTable p := fun p hp => Function.update_of_ne hp _ _
    have hne : ∀ p, ((processReset M.toProcState pid).processTable p).state ≠ .free → p ≠ pid := by
      rintro p hused rfl
      refine hused ?_
      change (Function.update M.processTable p _ p).state = _
      rw [Function.update_self]
    constructor
    case creator =>
      intro p hused
      have hp := hne p hused
      exact h.creator p (by rw [← hother p hp]; exact hused)
    case parent =>
      intro p hused hlive hfilled
      have hp := hne p hused
      change ((processReset M.toProcState pid).processTable p).parent = _
      rw [hother p hp]
      refine h.parent p (by rw [← hother p hp]; exact hused) hlive fun t fork ht => ?_
      have hut : t ≠ M.tid cpu := by
        rintro rfl
        exact hpc fork p ht
      exact hfilled t fork ((Function.update_of_ne hut _ _).trans ht)
  · exact h.move (fun _ => rfl) (fun _ => rfl) rfl rfl hpc

/-- The thread of a new process is a thread that was free. -/
lemma createThread {sem : Option Sem} (h : ParentsNamed M) (hinv : ProcInv n L M q)
    (hpc : ∀ fork pid, M.pc (M.tid cpu) ≠ .alloc fork pid)
    (hexec : M.createThread cpu pid sem = some M') : ParentsNamed M' := by
  obtain ⟨tid, s', hfree, -, rfl⟩ := Machine.createThread_eq_some hexec
  have hstfree := (Represents.findFreeTid_some hfree).2.2
  rw [hinv.waits.models.rep.state] at hstfree
  refine h.frame (fun _ => rfl) (fun _ => rfl) rfl fun t fork p ht => ?_
  have hnew : t ≠ tid := by
    rintro rfl
    exact (hinv.kernel.alive t (by rw [ht]; simp)).1 hstfree
  have hself : t ≠ M.tid cpu := by
    rintro rfl
    exact hpc fork p ht
  simp only [Machine.setPc, Machine.withKernel]
  rw [Function.update_of_ne hself, Function.update_of_ne hnew, ht]

/-- Every step of the code. -/
lemma exec {a : ProcAct} (h : ParentsNamed M) (hinv : ProcInv n L M q)
    (hexec : M.exec L cpu a = some M') : ParentsNamed M' := by
  cases a with
  | boot =>
    obtain ⟨hcond, rfl⟩ := Machine.stepBoot_eq_some hexec
    exact h.move (fun _ => rfl) (fun _ => rfl) rfl rfl (by simp [hcond.1])
  | alloc fork => exact h.alloc hinv hexec
  | fill executable => exact h.fill hinv hexec
  | arm =>
    obtain ⟨pid, m', sem, hpc, -, rfl⟩ := Machine.stepArm_eq_some hexec
    exact h.move (fun _ => rfl) (fun _ => rfl) rfl rfl (by simp [hpc])
  | create =>
    obtain ⟨pid, hpc, hexec⟩ | ⟨pid, sem, hpc, hexec⟩ := Machine.stepCreate_eq_some hexec
    · exact h.createThread hinv (by simp [hpc]) hexec
    · exact h.createThread hinv (by simp [hpc]) hexec
  | run =>
    obtain ⟨pid, tid, sem, s', hpc, -, rfl⟩ := Machine.stepRun_eq_some hexec
    exact h.move (fun _ => rfl) (fun _ => rfl) rfl rfl (by simp [hpc])
  | wait =>
    obtain ⟨pid, sem, m', hpc, -, rfl⟩ := Machine.stepWait_eq_some hexec
    exact h.move (fun _ => rfl) (fun _ => rfl) rfl rfl (by simp [hpc])
  | resume =>
    obtain ⟨pid, sem, phase, hpc, -, rfl⟩ := Machine.stepResume_eq_some hexec
    exact h.move (fun _ => rfl) (fun _ => rfl) rfl rfl (by simp [hpc])
  | attach =>
    obtain ⟨pid, sem, hpc, rfl⟩ := Machine.stepAttach_eq_some hexec
    exact h.move (fun _ => rfl) (fun _ => rfl) rfl rfl (by simp [hpc])
  | map pagetable heapEnd =>
    obtain ⟨s', -, ⟨pid, hpc, rfl⟩ | ⟨pid, sem, hpc, rfl⟩⟩ := Machine.stepMap_eq_some hexec
    · refine h.move (fun p => ?_) (fun p => ?_) rfl rfl (by simp [hpc])
      · by_cases hp : p = pid <;> simp [Machine.setPc, hp]
      · by_cases hp : p = pid <;> simp [Machine.setPc, hp]
    · exact h.move (fun _ => rfl) (fun _ => rfl) rfl rfl (by simp [hpc])
  | signal =>
    obtain ⟨sem, m', hpc, -, rfl⟩ := Machine.stepSignal_eq_some hexec
    exact h.move (fun _ => rfl) (fun _ => rfl) rfl rfl (by simp [hpc])
  | finish retval => exact h.finish hinv hexec
  | die =>
    obtain ⟨hpc, s', -, rfl⟩ := Machine.stepDie_eq_some hexec
    exact h.move (fun _ => rfl) (fun _ => rfl) rfl rfl (by simp [hpc])
  | joinEnter pid =>
    obtain ⟨hpc, rfl | ⟨p, -, rfl⟩⟩ := Machine.stepJoinEnter_eq_some hexec
    · exact h
    · refine h.move (fun _ => rfl) (fun _ => rfl) rfl rfl fun fork pid' hne => ?_
      rw [hne] at hpc
      rcases hpc with hpc | ⟨p', hpc, -⟩ <;> cases hpc
  | joinRound =>
    obtain ⟨pid, hpc | ⟨phase, hpc, -⟩, hexec⟩ := Machine.stepJoinRound_eq_some hexec
    · exact h.joinSection (by simp [hpc]) hexec
    · exact h.joinSection (by simp [hpc]) hexec

lemma step (h : ParentsNamed M) (hinv : ProcInv n L M q) (hstep : Step n L M M') :
    ParentsNamed M' := by
  cases hstep with
  | proc a hcpu hrun hexec => exact h.exec hinv hexec
  | schedule hcpu hexec =>
    obtain ⟨s', -, rfl⟩ := Option.map_eq_some_iff.mp hexec
    refine h.frame (fun _ => rfl) (fun _ => rfl) rfl fun t fork pid ht => ?_
    simp only [Machine.setPc, Machine.withKernel, Function.update_apply]
    split_ifs with htid
    · rw [← htid, ht]
      rfl
    · exact ht
  | kernel a ha helse hother hexec => exact h.frame (fun _ => rfl) (fun _ => rfl) rfl fun _ _ _ => id

end ParentsNamed

lemma Reachable.parentsNamed (h : Reachable n L M) : ParentsNamed M := by
  induction h with
  | refl => exact ⟨fun _ hused => absurd rfl hused, fun _ hused => absurd rfl hused⟩
  | tail hreach hstep ih =>
    obtain ⟨q, hq⟩ := Reachable.procInv hreach
    exact ih.step hq hstep

/-! ### Zombies -/

/-- The process in the slot can be joined by the process that created it: this is the live process
whose identifier is the parent in the slot, and a join by it returns the value that the child has
passed to `process_finish` and frees the slot. -/
structure CanBeJoined (L : Layout) (M : Machine) (pid : Pid) : Prop where
  live   : M.Live (M.creator (M.child pid))
  parent : ∃ p, M.slot (M.creator (M.child pid)) = some p ∧
    (M.processTable p).state = .running ∧ (M.processTable pid).parent = (p : ℕ)
  join   : ∀ cpu, M.self (M.tid cpu) = M.creator (M.child pid) → M.pc (M.tid cpu) = .user →
    ∃ M' M'', M.exec L cpu (.joinEnter (pid : ℕ)) = some M' ∧
      M'.exec L cpu .joinRound = some M'' ∧ (M''.processTable pid).state = .free ∧
      M''.joins = M.joins ++ [⟨M.self (M.tid cpu), pid, M.child pid, (M.processTable pid).retval⟩]

/-- A join of a zombie by its parent returns. -/
lemma exec_join (hinv : ProcInv n L M q) (hzombie : (M.processTable pid).state = .zombie)
    (hpc : M.pc (M.tid cpu) = .user)
    (hparent : (M.processTable pid).parent = M.pidOf (M.self (M.tid cpu))) :
    ∃ M' M'', M.exec L cpu (.joinEnter (pid : ℕ)) = some M' ∧
      M'.exec L cpu .joinRound = some M'' ∧ (M''.processTable pid).state = .free ∧
      M''.joins =
        M.joins ++ [⟨M.self (M.tid cpu), pid, M.child pid, (M.processTable pid).retval⟩] := by
  have hcurrent : processGetCurrentProcess M.toProcState cpu = M.pidOf (M.self (M.tid cpu)) :=
    hinv.processGetCurrentProcess_eq (by rw [hpc]; trivial)
  have hcheck : processJoinCheck M.toProcState cpu (pid : ℕ) = .inr pid := by
    rw [processJoinCheck, toPid_natCast]
    exact if_neg (not_not.mpr (hparent.trans hcurrent.symm))
  have henter : M.exec L cpu (.joinEnter (pid : ℕ)) = some (M.setPc (M.tid cpu) (.join pid)) := by
    simp only [Machine.exec, Machine.stepJoinEnter, hpc, true_or, if_true, hcheck]
  have htid : (M.setPc (M.tid cpu) (.join pid)).tid cpu = M.tid cpu := rfl
  have hjoin : (M.setPc (M.tid cpu) (.join pid)).pc (M.tid cpu) = .join pid :=
    Function.update_self _ _ _
  have hround : processJoinRound L (M.setPc (M.tid cpu) (.join pid)).toProcState cpu pid =
      some (processReset M.toProcState pid, some (M.processTable pid).retval) :=
    if_neg (not_not.mpr hzombie)
  have hexec : (M.setPc (M.tid cpu) (.join pid)).exec L cpu .joinRound =
      some { ((M.setPc (M.tid cpu) (.join pid)).withState (processReset M.toProcState pid)).setPc
          (M.tid cpu) (if M.self (M.tid cpu) = 0 then .kernel else .user) with
        toHistory := M.toHistory.join (M.self (M.tid cpu)) pid (M.processTable pid).retval } := by
    simp only [Machine.exec, Machine.stepJoinRound, htid, hjoin, Machine.joinSection, hround]
    rfl
  have hfree : ((processReset M.toProcState pid).processTable pid).state = .free := by
    simp only [processReset, ProcState.modifyPcb, Function.update_self]
  exact ⟨_, _, henter, hexec, hfree, rfl⟩

/-- A zombie whose creator is live can be joined by it. When the creator of a zombie has finished,
the zombie has no parent. -/
theorem reachable_zombie (h : Reachable n L M) (hzombie : (M.processTable pid).state = .zombie)
    (hinit : M.creator (M.child pid) ≠ 0) :
    (M.exit (M.creator (M.child pid)) = none → CanBeJoined L M pid) ∧
      (M.exit (M.creator (M.child pid)) ≠ none → (M.processTable pid).parent = -1) := by
  obtain ⟨q, hq⟩ := h.procInv
  have hnamed := h.parentsNamed
  have hused : (M.processTable pid).state ≠ .free := by simp [hzombie]
  constructor
  · intro hexit
    have hlive : M.Live (M.creator (M.child pid)) :=
      ⟨Nat.one_le_iff_ne_zero.mpr hinit, hnamed.creator pid hused, hexit⟩
    have hfilled : ∀ t fork, M.pc t ≠ .alloc fork pid := by
      intro t fork ht
      have hrunning := ((hq.thread.ok t).pending pid (by rw [ht]; rfl)).1
      rw [hzombie] at hrunning
      cases hrunning
    have hparent := hnamed.parent pid hused hlive hfilled
    obtain ⟨p, hslot, hrunning, -⟩ := hq.table.live _ hlive
    exact
      { live := hlive
        parent := ⟨p, hslot, hrunning, hparent.trans (History.pidOf_eq hslot)⟩
        join := fun cpu hself hpc => exec_join hq hzombie hpc (by rw [hself, hparent]) }
  · intro hexit
    by_contra hparent
    exact hexit (hq.table.parent pid hparent).2.1.2.2

/-- The initial program spawns a process in slot `1`, which finishes with the value `7`. -/
theorem reachable_zombie_spawned : ∃ M, Reachable 1 Layout.sample M ∧
    (M.processTable 1).state = .zombie ∧ M.creator (M.child 1) = 1 ∧
    (M.exit (M.creator (M.child 1)) = none → CanBeJoined Layout.sample M 1) ∧
      (M.exit (M.creator (M.child 1)) ≠ none → (M.processTable 1).parent = -1) := by
  have hrun : ((Machine.startup.runs Layout.sample 0
      [none, some .boot, some (.alloc false), some (.fill []), some .create, some .run,
        some (.joinEnter 0), some .joinRound, none, some .attach, some (.map 1 0),
        some (.alloc false), some (.fill []), some .create, some .run, some (.joinEnter 1),
        some .joinRound, none, some .attach, some (.map 2 0), some (.finish 7)]).map
      fun M => ((M.processTable 1).state, M.creator (M.child 1))) = some (.zombie, 1) := by
    decide +kernel
  obtain ⟨M, hM, heq⟩ := Option.map_eq_some_iff.mp hrun
  obtain ⟨hzombie, hcreator⟩ := Prod.mk.inj heq
  have hreach := (Reachable.startup 1 Layout.sample).runs Nat.one_pos hM
  exact ⟨M, hreach, hzombie, hcreator, reachable_zombie hreach hzombie (by rw [hcreator]; decide)⟩

/-- The initial program spawns a process in slot `1` and finishes. Then that process finishes, and
its parent is no process. -/
theorem not_forall_zombie_parent_live : ¬ ∀ (M : Machine) (pid : Pid),
    Reachable 1 Layout.sample M → (M.processTable pid).state = .zombie →
    M.creator (M.child pid) ≠ 0 →
    ∃ k p, M.Live k ∧ M.slot k = some p ∧ (M.processTable pid).parent = (p : ℕ) := by
  intro hall
  have hrun : ((Machine.startup.runs Layout.sample 0
      [none, some .boot, some (.alloc false), some (.fill []), some .create, some .run,
        some (.joinEnter 0), some .joinRound, none, some .attach, some (.map 1 0),
        some (.alloc false), some (.fill []), some .create, some .run, some (.finish 3),
        some .die, none, some .attach, some (.map 2 0), some (.finish 7)]).map
      fun M => ((M.processTable 1).state, M.creator (M.child 1), (M.processTable 1).parent)) =
      some (.zombie, 1, -1) := by
    decide +kernel
  obtain ⟨M, hM, heq⟩ := Option.map_eq_some_iff.mp hrun
  simp only [Prod.mk.injEq] at heq
  obtain ⟨hzombie, hcreator, hparent⟩ := heq
  obtain ⟨k, p, -, -, hlive⟩ := hall M 1 ((Reachable.startup 1 Layout.sample).runs Nat.one_pos hM)
    hzombie (by rw [hcreator]; decide)
  omega

end Osm.Proc
