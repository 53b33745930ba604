import Osm.Proc.Invariant

/-!
# The life cycle of processes

Every step of a machine keeps the invariant `ProcInv`, and so it holds in every reachable state.
What it says about slots, joins and sleeping threads is `reachable_lifeCycle`.
-/

namespace Osm.Proc

open Osm.Kernel

/-- What `process_finish` does to the process table. -/
lemma processOrphan_finish (tab : Pid → Pcb) (pid : Pid) (retval : ℤ) {tab' : Pid → Pcb}
    (htab' : tab' = processOrphan (Function.update tab pid
      { tab pid with retval := retval, state := .zombie }) (pid : ℕ)) :
    ((tab' pid).state = .zombie ∧ (tab' pid).retval = retval) ∧
    (∀ p, p ≠ pid → (tab' p).state = (tab p).state ∧ (tab' p).retval = (tab p).retval) ∧
    ∀ p, (tab' p).parent ≠ -1 → (tab' p).parent = (tab p).parent ∧
      (tab p).parent ≠ (pid : ℕ) := by
  subst htab'
  refine ⟨?_, fun p hp => ?_, fun p => ?_⟩
  · simp only [processOrphan, Function.update_self]
    split_ifs <;> simp
  · simp only [processOrphan, Function.update_of_ne hp]
    split_ifs <;> simp
  · simp only [processOrphan, Function.update_apply]
    split_ifs with hp hpar hpar
    · simp
    · subst hp; exact fun _ => ⟨rfl, hpar⟩
    · simp
    · exact fun _ => ⟨rfl, hpar⟩

namespace ProcInv

variable {n : ℕ} {L : Layout} {M M' : Machine} {q q' : Threads} {cpu : Fin configMaxCpus} {t : ℤ}
  {s' : State} {c : Pc} {pid : Pid} {S : UInt32 → Prop}

/-! ### The running thread -/

lemma not_created (h : ProcInv n L M q) (hst : q.state t = .running) (u : ℤ) (pid : Pid)
    (sem : Option Sem) : M.pc u ≠ .created pid t sem := by
  intro hu
  have hnon := h.kernel.nonready u pid t sem hu
  rw [hst] at hnon
  simp at hnon

lemma ne_idle (h : ProcInv n L M q) (hpc : M.pc t ≠ .kernel) : t ≠ idleThreadTid := by
  rintro rfl
  exact hpc (Pc.wait_eq_none.mp h.waits.idle)

/-- A thread that runs is on no chain, unless it has just entered the sleep queue. -/
lemma sleepsOn_eq_zero {r : UInt32} {phase : Phase} (h : ProcInv n L M q)
    (hst : q.state t = .running) (hw : (M.pc t).wait L = some (r, phase))
    (hphase : phase ≠ .blocking) : q.sleepsOn t = 0 := by
  have hok := h.waits.ok t
  rw [Function.comp_apply, hw] at hok
  exact hok.sleepsOn_eq_zero hphase hst

lemma processGetCurrentProcess_eq (h : ProcInv n L M q) (hpc : (M.pc (M.tid cpu)).Attached) :
    processGetCurrentProcess M.toProcState cpu = M.pidOf (M.self (M.tid cpu)) := by
  rw [← h.kernel.processId _ hpc, ← h.waits.models.rep.processId]
  rfl

/-- The slot of the process that a thread in userland runs. -/
lemma slot_of_user (h : ProcInv n L M q) (hpc : M.pc t = .user) :
    ∃ pid, M.slot (M.self t) = some pid ∧ M.Live (M.self t) := by
  have hlive := (h.thread.ok t).live_of_user (by rw [hpc]; trivial) (by rw [hpc]; trivial)
  obtain ⟨pid, hslot, -⟩ := h.table.live _ hlive
  exact ⟨pid, hslot, hlive⟩

/-! ### Parts of steps -/

/-- The running thread moves on in the code. -/
lemma setPc (h : ProcInv n L M q) (hst : q.state t = .running) (hpc : M.pc t ≠ .kernel)
    (hwait : WaitOk L.Tracked q t (c.wait L))
    (hok : PcOk M.processTable M.toHistory (M.self t) c)
    (hid : c.Attached → q.processId t = M.pidOf (M.self t)) (hruns : c.Runs → (M.pc t).Runs)
    (hpending : ∀ pid, c.pending = some pid → (M.pc t).pending = some pid)
    (hcreated : ∀ pid tid sem, c ≠ .created pid tid sem) : ProcInv n L (M.setPc t c) q where
  waits := by
    have hwaits := h.waits.setWait (h.ne_idle hpc) hwait
    rwa [← Function.comp_update] at hwaits
  table := h.table
  thread := h.thread.setPc (h.not_created hst) hok hruns hpending fun pid tid sem hp =>
    absurd hp (hcreated pid tid sem)
  kernel := h.kernel.setPc (fun _ => h.kernel.alive t hpc) hid fun pid tid sem hp =>
    absurd hp (hcreated pid tid sem)

/-- The kernel works on its queues. -/
lemma withKernel (h : ProcInv n L M q) (hwaits : Waits n L.Tracked s' q' (Pc.wait L ∘ M.pc))
    (hf : Frame (fun _ => True) S q q')
    (hS : ∀ pid, (M.processTable pid).state = .zombie → ¬ S (L.proc pid)) :
    ProcInv n L (M.withKernel s') q' where
  waits := hwaits
  table := h.table
  thread := h.thread
  kernel := h.kernel.frame_all hf hS

/-- Fields of the process table that play no role here. -/
lemma withPcb (pid : Pid) (pcb : Pcb) (h : ProcInv n L M q)
    (hstate : pcb.state = (M.processTable pid).state)
    (hretval : pcb.retval = (M.processTable pid).retval)
    (hparent : pcb.parent = (M.processTable pid).parent) :
    ProcInv n L { M with processTable := Function.update M.processTable pid pcb } q := by
  have hfield : ∀ {α : Type} (f : Pcb → α), f pcb = f (M.processTable pid) → ∀ p,
      f (Function.update M.processTable pid pcb p) = f (M.processTable p) := by
    intro α f hf
    exact (Function.forall_update_iff M.processTable fun p pcb => f pcb = f (M.processTable p)).mpr
      ⟨hf, fun _ _ => rfl⟩
  have hstate' := hfield Pcb.state hstate
  exact ⟨h.waits, h.table.congr hstate' (hfield Pcb.retval hretval) (hfield Pcb.parent hparent),
    h.thread.congr hstate', h.kernel.congr hstate'⟩

/-- The running thread, which is on its way into the sleep queue, enters it. -/
lemma sleepqAdd {r : UInt32} (h : ProcInv n L M q) (hst : q.state (M.tid cpu) = .running)
    (hzero : q.sleepsOn (M.tid cpu) = 0) (hr : r ≠ 0)
    (hw : (M.pc (M.tid cpu)).wait L = some (r, .blocking))
    (hS : ∀ pid, (M.processTable pid).state = .zombie → L.proc pid ≠ r) :
    ∃ s' q', Kernel.sleepqAdd M.kernel cpu r = some s' ∧ ProcInv n L (M.withKernel s') q' := by
  have hpc : M.pc (M.tid cpu) ≠ .kernel := fun hk => by simp [hk, Pc.wait] at hw
  obtain ⟨s', hs', hwaits⟩ := h.waits.sleepqAdd rfl hr (h.ne_idle hpc) hst hzero (Or.inr rfl)
  have hself : Function.update (Pc.wait L ∘ M.pc) (M.kernel.currentThread cpu)
      (some (r, .blocking)) = Pc.wait L ∘ M.pc := by
    rw [← hw]
    exact Function.update_eq_self _ _
  rw [hself] at hwaits
  exact ⟨s', _, hs', h.withKernel hwaits (Frame.sleep _ q _ r) fun pid hpid => hS pid hpid⟩

/-! ### Creating a process -/

lemma boot (h : ProcInv n L M q) (hst : q.state (M.tid cpu) = .running)
    (hexec : M.stepBoot cpu = some M') : ProcInv n L M' q := by
  obtain ⟨⟨hpc, hidle, hboot, hid, hsleeps⟩, rfl⟩ := Machine.stepBoot_eq_some hexec
  constructor
  case waits =>
    have hzero : q.sleepsOn (M.tid cpu) = 0 := (h.waits.models.rep.sleepsOn _).symm.trans hsleeps
    have hwaits := h.waits.setWait (w := Pc.wait L .boot) hidle hzero
    rwa [← Function.comp_update] at hwaits
  case table => exact h.table
  case thread =>
    refine h.thread.setSelf hpc ?_ (h.thread.startup hboot) (fun u pid hu => ?_) rfl (by simp)
      (by simp)
    · exact ⟨fun _ => Or.inl rfl, by simp [Pc.IsUser], by simp, by simp [Pc.pending],
        by simp [Pc.joining]⟩
    · have hrun := ((h.thread.ok u).pending pid hu).1
      exact (Nat.ne_of_gt (h.table.slot pid (by simp [hrun])).1).symm
  case kernel =>
    refine h.kernel.setSelf hpc (by simp [hst]) (fun _ => ?_) (by simp)
    rw [← h.waits.models.rep.processId, History.pidOf]
    exact hid.trans (by rw [h.table.startup])

lemma alloc {fork : Bool} (h : ProcInv n L M q) (hst : q.state (M.tid cpu) = .running)
    (hexec : M.stepAlloc cpu fork = some M') : ProcInv n L M' q := by
  obtain ⟨hpc, rfl | ⟨pid, hfree, rfl⟩⟩ := Machine.stepAlloc_eq_some hexec
  · exact h
  · obtain ⟨tab', htab'⟩ : ∃ tab', tab' = Function.update M.processTable pid
        { M.processTable pid with state := .running } := ⟨_, rfl⟩
    have hself : (tab' pid).state = .running := by rw [htab', Function.update_self]
    have hparent : (tab' pid).parent = (M.processTable pid).parent := by
      rw [htab', Function.update_self]
    have hother : ∀ p, p ≠ pid → tab' p = M.processTable p := by
      intro p hp
      rw [htab', Function.update_of_ne hp]
    have hne : M.pc (M.tid cpu) ≠ .kernel := by
      rcases hpc with hpc | ⟨hpc, -⟩ <;> simp [hpc]
    have hatt : (M.pc (M.tid cpu)).Attached := by
      rcases hpc with hpc | ⟨hpc, -⟩ <;> rw [hpc] <;> trivial
    have hpassing : (M.pc (M.tid cpu)).wait L = some (0, .passing) := by
      rcases hpc with hpc | ⟨hpc, -⟩ <;> rw [hpc] <;> rfl
    have hthread := h.thread.add h.table hfree hself hother hpc
    have hkernel := h.kernel.add h.thread h.table (M.self (M.tid cpu)) hself hother
    rw [htab'] at hthread hkernel
    constructor
    case waits =>
      have hzero := h.sleepsOn_eq_zero hst hpassing (by simp)
      have hwaits := h.waits.setWait (w := Pc.wait L (.alloc fork pid)) (h.ne_idle hne) hzero
      rwa [← Function.comp_update] at hwaits
    case table =>
      have htable := h.table.add (M.self (M.tid cpu)) hfree hself hparent hother
      rwa [htab'] at htable
    case thread => exact hthread
    case kernel =>
      exact hkernel.setPc (fun _ => h.kernel.alive _ hne) (fun _ => hkernel.processId _ hatt)
        fun p tid sem hp => by simp at hp

/-- The creator of a process becomes the parent in its slot. -/
lemma setParent {pcb : Pcb} {fork : Bool} (h : ProcInv n L M q)
    (hst : q.state (M.tid cpu) = .running) (hpc : M.pc (M.tid cpu) = .alloc fork pid)
    (hstate : pcb.state = (M.processTable pid).state)
    (hretval : pcb.retval = (M.processTable pid).retval)
    (hparent : pcb.parent = processGetCurrentProcess M.toProcState cpu) :
    ProcInv n L ({ M with processTable := Function.update M.processTable pid pcb }.setPc
      (M.tid cpu) (.filled fork pid)) q := by
  have hok := h.thread.ok (M.tid cpu)
  have hatt : (M.pc (M.tid cpu)).Attached := by rw [hpc]; trivial
  obtain ⟨hrun, hcreator⟩ := hok.pending pid (by rw [hpc]; rfl)
  obtain ⟨tab, htab⟩ : ∃ tab, tab = Function.update M.processTable pid pcb := ⟨_, rfl⟩
  have hstate' : ∀ p, (tab p).state = (M.processTable p).state := by
    rw [htab]
    exact (Function.forall_update_iff _ fun p (pcb : Pcb) => pcb.state = (M.processTable p).state).mpr
      ⟨hstate, fun _ _ => rfl⟩
  have htable : TableInv tab M.toHistory := by
    refine h.table.setParent pid (by simp [hrun]) hstate' ?_ (fun p hp => ?_) ?_ ?_
    · rw [htab]
      exact (Function.forall_update_iff _ fun p (pcb : Pcb) => pcb.retval = (M.processTable p).retval).mpr
        ⟨hretval, fun _ _ => rfl⟩
    · rw [htab, Function.update_of_ne hp]
    · rw [htab, Function.update_self, hparent, h.processGetCurrentProcess_eq hatt, hcreator]
    · rw [hcreator]
      exact hok.live hatt.runs
  have hM : ProcInv n L { M with processTable := tab } q :=
    ⟨h.waits, htable, h.thread.congr hstate', h.kernel.congr hstate'⟩
  rw [← htab]
  refine hM.setPc hst (by simp [hpc]) ?_ ?_ (fun _ => h.kernel.processId _ hatt)
    (fun _ => hatt.runs) (fun p hp => by rw [hpc]; exact hp) (by simp)
  · exact h.sleepsOn_eq_zero hst (by rw [hpc]; rfl) (by simp)
  · have hok' := hM.thread.ok (M.tid cpu)
    rw [hpc] at hok'
    exact ⟨hok'.live, hok'.user, by simp, hok'.pending, by simp [Pc.joining]⟩

lemma fill {executable : List UInt8} (h : ProcInv n L M q)
    (hst : q.state (M.tid cpu) = .running) (hexec : M.stepFill cpu executable = some M') :
    ProcInv n L M' q := by
  obtain ⟨fork, pid, pcb, hpc, hstate, hretval, hparent, rfl⟩ := Machine.stepFill_eq_some hexec
  exact h.setParent hst hpc hstate hretval hparent

lemma arm (h : ProcInv n L M q) (hst : q.state (M.tid cpu) = .running)
    (hexec : M.stepArm cpu = some M') : ProcInv n L M' q := by
  obtain ⟨pid, m', sem, hpc, hm', rfl⟩ := Machine.stepArm_eq_some hexec
  have hkernel : m'.kernel = M.kernel := semaphoreCreate_kernel hm'
  have hM : ProcInv n L (M.withSem m') q :=
    ⟨by simpa only [Machine.withSem, hkernel] using h.waits, h.table, h.thread, h.kernel⟩
  have hok := h.thread.ok (M.tid cpu)
  rw [hpc] at hok
  have hatt : (M.pc (M.tid cpu)).Attached := by rw [hpc]; trivial
  refine hM.setPc hst (by simp [Machine.withSem, hpc]) ?_ ?_
    (fun _ => h.kernel.processId _ hatt) (fun _ => hatt.runs)
    (fun p hp => by simp only [Machine.withSem, hpc]; exact hp) (by simp)
  · exact h.sleepsOn_eq_zero hst (by rw [hpc]; rfl) (by simp)
  · exact ⟨hok.live, fun _ => hok.user rfl, by simp, hok.pending, by simp [Pc.joining]⟩

/-- The thread of a new process is created: the creator hands the slot over to it. -/
lemma createThread {sem : Option Sem} (h : ProcInv n L M q)
    (hst : q.state (M.tid cpu) = .running) (hpc : (M.pc (M.tid cpu)).pending = some pid)
    (hatt : (M.pc (M.tid cpu)).Attached) (hsem : sem ≠ none → (M.pc (M.tid cpu)).IsUser)
    (hzero : q.sleepsOn (M.tid cpu) = 0)
    (hexec : M.createThread cpu pid sem = some M') : ∃ q', ProcInv n L M' q' := by
  obtain ⟨t, ht⟩ : ∃ t, t = M.tid cpu := ⟨_, rfl⟩
  obtain ⟨tid, s', hfree, hs', rfl⟩ := Machine.createThread_eq_some hexec
  rw [← ht] at hst hpc hatt hsem hzero ⊢
  have hwaits := h.waits.threadCreate hfree (w := some (0, .passing)) (Or.inr ⟨0, rfl⟩)
  rw [hs'] at hwaits
  have hstfree := (Represents.findFreeTid_some hfree).2.2
  rw [h.waits.models.rep.state] at hstfree
  have hkernel : M.pc tid = .kernel := by
    by_contra hne
    exact (h.kernel.alive tid hne).1 hstfree
  have hne : tid ≠ t := by
    rintro rfl
    rw [hst] at hstfree
    simp at hstfree
  have halive : M.pc t ≠ .kernel := by
    rintro hk
    rw [hk] at hatt
    exact hatt
  have hP : ∀ u, M.pc u ≠ .kernel → u ≠ tid := by
    rintro u hu rfl
    exact hu hkernel
  have hframe := h.kernel.frame (Frame.create (P := (· ≠ tid)) (fun h => h rfl) q) hP
    (fun p _ => L.proc_ne_zero p) fun u p tid' sem' hu => by
      have hstart := (h.thread.created u p tid' sem' hu).1
      exact hP tid' (by simp [hstart])
  refine ⟨q.create tid, ?_, h.table, ?_, ?_⟩
  · have hmove := hwaits.setWait (t := t) (w := some (0, .passing)) (h.ne_idle halive)
      ((Function.update_of_ne (Ne.symm hne) _ _).trans hzero)
    simp only [Machine.setPc, Machine.withKernel, Function.comp_update]
    exact hmove
  · exact h.thread.create h.table (h.not_created hst) hpc hatt.runs
      (fun hs => (h.thread.ok t).user (hsem hs)) hkernel
  · have hstart := hframe.setSelf (t := tid) (k := M.child pid) (c := .start pid sem) hkernel
      (by simp [Threads.create]) (fun hp => hp.elim) (by simp)
    refine hstart.setPc (fun _ => hframe.alive t halive) (fun _ => ?_) fun p tid' sem' hp => ?_
    · rw [Function.update_of_ne hne.symm]
      exact hframe.processId t hatt
    · simp only [Pc.created.injEq] at hp
      rw [← hp.2.1]
      exact Function.update_self _ _ _

lemma create (h : ProcInv n L M q) (hst : q.state (M.tid cpu) = .running)
    (hexec : M.stepCreate cpu = some M') : ∃ q', ProcInv n L M' q' := by
  obtain ⟨pid, hpc, hexec⟩ | ⟨pid, sem, hpc, hexec⟩ := Machine.stepCreate_eq_some hexec
  · refine h.createThread hst (by rw [hpc]; rfl) (by rw [hpc]; trivial) (by simp) ?_ hexec
    exact h.sleepsOn_eq_zero hst (by rw [hpc]; rfl) (by simp)
  · refine h.createThread hst (by rw [hpc]; rfl) (by rw [hpc]; trivial)
      (fun _ => by rw [hpc]; trivial) ?_ hexec
    exact h.sleepsOn_eq_zero hst (by rw [hpc]; rfl) (by simp)

/-- A new thread is run for the first time, by a thread that goes on to `c`. -/
lemma runThread {tid : ℤ} {sem : Option Sem} (h : ProcInv n L M q)
    (hst : q.state t = .running) (hpc : M.pc t = .created pid tid sem)
    (hzero : WaitOk L.Tracked q t (c.wait L))
    (hok : PcOk M.processTable M.toHistory (M.self t) c)
    (hpending : c.pending = none) (hcreated : ∀ pid tid sem, c ≠ .created pid tid sem) :
    ∃ s', threadRun M.kernel tid = some s' ∧
      ProcInv n L ((M.withKernel s').setPc t c) (q.run tid) := by
  have hatt : (M.pc t).Attached := by rw [hpc]; trivial
  obtain ⟨hstart, hcreator⟩ := h.thread.created t pid tid sem hpc
  have hmove := h.setPc (c := c) hst (by simp [hpc]) hzero hok
    (fun _ => h.kernel.processId t hatt) (fun _ => hatt.runs)
    (fun p hp => by rw [hpending] at hp; simp at hp) hcreated
  obtain ⟨s', hs', hwaits⟩ := hmove.waits.threadRun (h.kernel.nonready t pid tid sem hpc)
  refine ⟨s', hs', hwaits, hmove.table, hmove.thread, hmove.kernel.run fun u p sem' hu => ?_⟩
  -- the creator of a process runs its thread, and nobody else
  have hut : u ≠ t := by
    rintro rfl
    simp only [Machine.setPc, Function.update_self] at hu
    exact hcreated p tid sem' hu
  simp only [Machine.setPc, Function.update_of_ne hut] at hu
  have hcreator' := (h.thread.created u p tid sem' hu).2
  exact hut (h.thread.unique u t (by rw [hu]; trivial) hatt.runs (hcreator'.symm.trans hcreator))

lemma run (h : ProcInv n L M q) (hst : q.state (M.tid cpu) = .running)
    (hexec : M.stepRun cpu = some M') : ∃ q', ProcInv n L M' q' := by
  obtain ⟨pid, tid, sem, s', hpc, hs', rfl⟩ := Machine.stepRun_eq_some hexec
  have hok := h.thread.ok (M.tid cpu)
  rw [hpc] at hok
  have hzero := h.sleepsOn_eq_zero hst (by rw [hpc]; rfl) (by simp)
  cases sem with
  | none =>
    rw [Option.elim_none]
    obtain ⟨hstart, hcreator⟩ := h.thread.created _ pid tid none hpc
    have hslot := (h.thread.ok tid).start pid none hstart
    have hlive := (h.thread.ok tid).live_of_user (by rw [hstart]; trivial) (by rw [hstart]; trivial)
    obtain ⟨hrun, hchild⟩ := h.table.slot_of_live hlive hslot
    split_ifs with hself
    · obtain ⟨s'', hs'', hinv⟩ := h.runThread (c := .booted pid) hst hpc hzero
        ⟨fun _ => Or.inl hself, by simp [Pc.IsUser], by simp, by simp [Pc.pending], fun p hp => by
          obtain rfl : pid = p := Option.some.inj hp
          exact ⟨by simp [hrun], by rw [hchild]; exact hcreator⟩⟩ rfl (by simp)
      obtain rfl : s' = s'' := Option.some.inj (hs'.symm.trans hs'')
      exact ⟨_, hinv⟩
    · obtain ⟨s'', hs'', hinv⟩ := h.runThread (c := .user) hst hpc hzero
        ⟨fun _ => hok.live trivial, fun _ => hself, by simp, by simp [Pc.pending],
          by simp [Pc.joining]⟩ rfl (by simp)
      obtain rfl : s' = s'' := Option.some.inj (hs'.symm.trans hs'')
      exact ⟨_, hinv⟩
  | some sem =>
    rw [Option.elim_some]
    obtain ⟨s'', hs'', hinv⟩ := h.runThread (c := .waiting pid sem) hst hpc hzero
      ⟨fun _ => hok.live trivial, fun _ => hok.user (by simp [Pc.IsUser]), by simp,
        by simp [Pc.pending], by simp [Pc.joining]⟩ rfl (by simp)
    obtain rfl : s' = s'' := Option.some.inj (hs'.symm.trans hs'')
    exact ⟨_, hinv⟩

/-- A thread of a user process moves on to a place in the code that refers to nothing. -/
lemma moveUser (h : ProcInv n L M q) (hst : q.state t = .running) (hpc : (M.pc t).IsUser)
    (hatt : (M.pc t).Attached) (hwait : WaitOk L.Tracked q t (c.wait L))
    (hstart : ∀ pid sem, c ≠ .start pid sem) (hpending : c.pending = none)
    (hjoining : c.joining = none) (hcreated : ∀ pid tid sem, c ≠ .created pid tid sem) :
    ProcInv n L (M.setPc t c) q := by
  refine h.setPc hst (fun hk => ?_) hwait ⟨fun _ => (h.thread.ok t).live hatt.runs,
    fun _ => (h.thread.ok t).user hpc, fun p sem hp => absurd hp (hstart p sem), fun p hp => ?_,
    fun p hp => ?_⟩ (fun _ => h.kernel.processId t hatt) (fun _ => hatt.runs) (fun p hp => ?_)
    hcreated
  · rw [hk] at hatt
    exact hatt
  · rw [hpending] at hp
    simp at hp
  · rw [hjoining] at hp
    simp at hp
  · rw [hpending] at hp
    simp at hp

lemma wait (h : ProcInv n L M q) (hst : q.state (M.tid cpu) = .running)
    (hexec : M.stepWait L cpu = some M') : ∃ q', ProcInv n L M' q' := by
  obtain ⟨pid, sem, m', hpc, hm', rfl⟩ := Machine.stepWait_eq_some hexec
  have huser : (M.pc (M.tid cpu)).IsUser := by rw [hpc]; trivial
  have hatt : (M.pc (M.tid cpu)).Attached := by rw [hpc]; trivial
  have hzero := h.sleepsOn_eq_zero hst (by rw [hpc]; rfl) (by simp)
  obtain ⟨kernel, hm', hcase⟩ := semaphoreP_cases hm'
  have hvalue : (m'.semaphoreTable sem).value =
      Kernel.toInt ((M.semaphoreTable sem).value - 1) := by
    rw [hm']
    simp [SemState.setValue]
  rw [hvalue]
  rcases hcase with ⟨hpos, hk⟩ | ⟨hneg, hk⟩
  · rw [if_neg (not_lt.mpr hpos)]
    refine ⟨q, ?_⟩
    have hmove := h.moveUser (c := .blocked pid sem .passing) hst huser hatt hzero (by simp) rfl
      rfl (by simp)
    rw [hm', hk]
    exact ⟨hmove.waits, hmove.table, hmove.thread, hmove.kernel⟩
  · rw [if_pos hneg]
    have hmove := h.moveUser (c := .blocked pid sem .blocking) hst huser hatt
      ⟨hst, Or.inl hzero⟩ (by simp) rfl rfl (by simp)
    obtain ⟨s', q', hs', hinv⟩ := hmove.sleepqAdd (r := L.sem sem) hst hzero
      (L.sem_ne_zero sem) (by simp [Machine.setPc, Machine.tid, Pc.wait])
      fun p _ => (L.sem_ne_proc sem p).symm
    obtain rfl : kernel = s' := Option.some.inj (hk.symm.trans hs')
    rw [hm']
    exact ⟨q', hinv.waits, hinv.table, hinv.thread, hinv.kernel⟩

lemma resume (h : ProcInv n L M q) (hst : q.state (M.tid cpu) = .running)
    (hexec : M.stepResume cpu = some M') : ProcInv n L M' q := by
  obtain ⟨pid, sem, phase, hpc, hphase, rfl⟩ := Machine.stepResume_eq_some hexec
  refine h.moveUser hst (by rw [hpc]; trivial) (by rw [hpc]; trivial) ?_ (by simp) rfl rfl
    (by simp)
  exact h.sleepsOn_eq_zero hst (by rw [hpc]; rfl) hphase

/-! ### The thread of a new process -/

/-- Assign to the fields of the running thread that belong to its process. -/
lemma modifyThread {f : Thread → Thread} (h : ProcInv n L M q) (t : ℤ)
    (hstate : ∀ th, (f th).state = th.state) (hsleeps : ∀ th, (f th).sleepsOn = th.sleepsOn)
    (hnext : ∀ th, (f th).next = th.next)
    (hid : (M.pc t).Attached → ∀ th, (f th).processId = th.processId) :
    ProcInv n L (M.withKernel (M.kernel.modifyThread t f)) (q.setProcess t
      (f (M.kernel.threadTable t)).pagetable (f (M.kernel.threadTable t)).processId) where
  waits := h.waits.modifyThread t hstate hsleeps hnext
  table := h.table
  thread := h.thread
  kernel := h.kernel.setProcess fun hatt => by
    rw [hid hatt, h.waits.models.rep.processId]
    exact h.kernel.processId t hatt

lemma attach (h : ProcInv n L M q) (hst : q.state (M.tid cpu) = .running)
    (hexec : M.stepAttach cpu = some M') : ∃ q', ProcInv n L M' q' := by
  obtain ⟨pid, sem, hpc, rfl⟩ := Machine.stepAttach_eq_some hexec
  have hok := h.thread.ok (M.tid cpu)
  have hslot := hok.start pid sem hpc
  have hruns : (M.pc (M.tid cpu)).Runs := by rw [hpc]; trivial
  have hzero := h.sleepsOn_eq_zero hst (by rw [hpc]; rfl) (by simp)
  have hM := h.modifyThread (f := fun th => { th with processId := (pid : ℕ) }) (M.tid cpu)
    (fun _ => rfl) (fun _ => rfl) (fun _ => rfl) fun hatt => by
      rw [hpc] at hatt
      exact hatt.elim
  refine ⟨_, hM.setPc (t := M.tid cpu) (c := .attached pid sem) hst ?_ hzero ?_ ?_ (fun _ => hruns)
    (by simp [Pc.pending]) (by simp)⟩
  · simp [Machine.withKernel, hpc]
  · exact ⟨fun _ => hok.live hruns, fun _ => hok.user (by rw [hpc]; trivial), by simp,
      by simp [Pc.pending], by simp [Pc.joining]⟩
  · exact fun _ => (Function.update_self _ _ _).trans (History.pidOf_eq hslot).symm

lemma map {pagetable : ℕ} {heapEnd : UInt32} (h : ProcInv n L M q)
    (hst : q.state (M.tid cpu) = .running)
    (hexec : M.stepMap cpu pagetable heapEnd = some M') : ∃ q', ProcInv n L M' q' := by
  have hM := h.modifyThread (f := fun th => { th with pagetable := pagetable }) (M.tid cpu)
      (fun _ => rfl) (fun _ => rfl) (fun _ => rfl) fun _ _ => rfl
  obtain ⟨s', rfl, ⟨pid, hpc, rfl⟩ | ⟨pid, sem, hpc, rfl⟩⟩ := Machine.stepMap_eq_some hexec
  · refine ⟨_, (hM.withPcb pid { M.processTable pid with heapEnd := heapEnd }
      rfl rfl rfl).moveUser (c := .user) hst ?_ ?_ ?_ (by simp) rfl rfl (by simp)⟩
    · simp only [Machine.withKernel, hpc]; trivial
    · simp only [Machine.withKernel, hpc]; trivial
    · exact h.sleepsOn_eq_zero hst (by rw [hpc]; rfl) (by simp)
  · refine ⟨_, hM.moveUser (c := .mapped sem) hst ?_ ?_ ?_ (by simp) rfl rfl (by simp)⟩
    · simp only [Machine.withKernel, hpc]; trivial
    · simp only [Machine.withKernel, hpc]; trivial
    · exact h.sleepsOn_eq_zero hst (by rw [hpc]; rfl) (by simp)

lemma signal (h : ProcInv n L M q) (hst : q.state (M.tid cpu) = .running)
    (hexec : M.stepSignal L cpu = some M') : ∃ q', ProcInv n L M' q' := by
  obtain ⟨sem, m', hpc, hm', rfl⟩ := Machine.stepSignal_eq_some hexec
  have hmove := h.moveUser (c := .user) hst (by rw [hpc]; trivial) (by rw [hpc]; trivial)
    (h.sleepsOn_eq_zero hst (by rw [hpc]; rfl) (by simp)) (by simp) rfl rfl (by simp)
  obtain ⟨kernel, rfl, ⟨-, rfl⟩ | ⟨-, hk⟩⟩ := semaphoreV_cases hm'
  · exact ⟨q, hmove.waits, hmove.table, hmove.thread, hmove.kernel⟩
  · obtain ⟨s', hs', hwaits⟩ := hmove.waits.sleepqWake L.not_tracked_zero (L.sem sem)
    obtain rfl : kernel = s' := Option.some.inj (hk.symm.trans hs')
    have hwake := hmove.withKernel hwaits (Frame.wake _ q _) fun p _ => L.proc_ne_zero p
    exact ⟨_, hwake.waits, hwake.table, hwake.thread, hwake.kernel⟩

/-! ### Finishing and joining -/

lemma finish {retval : ℤ} (h : ProcInv n L M q) (hst : q.state (M.tid cpu) = .running)
    (hexec : M.stepFinish L cpu retval = some M') : ∃ q', ProcInv n L M' q' := by
  obtain ⟨hpc, pid, kernel, hpid, hkernel, rfl⟩ := Machine.stepFinish_eq_some hexec
  have hatt : (M.pc (M.tid cpu)).Attached := by rw [hpc]; trivial
  -- the slot is that of the process the thread runs
  obtain ⟨pid', hslot, hlive⟩ := h.slot_of_user hpc
  obtain rfl : pid' = pid := by
    rw [h.processGetCurrentProcess_eq hatt, History.pidOf_eq hslot, toPid_natCast] at hpid
    exact Option.some.inj hpid
  obtain ⟨hself, hother, hparent⟩ := processOrphan_finish M.processTable pid' retval rfl
  have hM := h.modifyThread (f := fun th => { th with pagetable := 0 }) (M.tid cpu)
    (fun _ => rfl) (fun _ => rfl) (fun _ => rfl) fun _ _ => rfl
  obtain ⟨s', hs', hwaits⟩ := (hM.waits.setWait (t := M.tid cpu) (w := Pc.wait L .finish)
    (h.ne_idle (by simp [hpc])) (h.sleepsOn_eq_zero hst (by rw [hpc]; rfl) (by simp))).sleepqWakeAll
    L.not_tracked_zero (L.proc pid')
  obtain rfl : kernel = s' := Option.some.inj (hkernel.symm.trans hs')
  rw [← Function.comp_update] at hwaits
  refine ⟨_, hwaits, h.table.finish hlive hslot hself.1 hself.2 hother hparent,
    h.thread.finish h.table hpc hslot hself.1 fun p hp => (hother p hp).1, ?_⟩
  have hwoken := hM.kernel.frame_all (Frame.wakeAll _ _ (L.proc pid')) fun p _ => L.proc_ne_zero p
  exact (hwoken.setPc (c := .finish) (fun _ => hwoken.alive _ (by simp [Machine.withKernel, hpc]))
    (fun hp => hp.elim) (by simp)).finish (Threads.wakeAll_sleepsOn_ne hM.waits.models.inv (L.proc_ne_zero pid'))
    fun p hp => (hother p hp).1

lemma die (h : ProcInv n L M q) (hst : q.state (M.tid cpu) = .running)
    (hexec : M.stepDie cpu = some M') : ∃ q', ProcInv n L M' q' := by
  obtain ⟨hpc, s', hs', rfl⟩ := Machine.stepDie_eq_some hexec
  have hzero := h.sleepsOn_eq_zero hst (by rw [hpc]; rfl) (by simp)
  have hmove := h.setPc (c := .kernel) hst (by simp [hpc])
    (WaitOk.of_zero L.not_tracked_zero hzero (by simp [Pc.wait])) (PcOk.of_not_runs id)
    (fun hp => hp.elim) (fun hp => hp.elim) (by simp [Pc.pending]) (by simp)
  have hself : (M.setPc (M.tid cpu) .kernel).pc (M.tid cpu) = .kernel := Function.update_self _ _ _
  have hwaits := hmove.waits.threadFinish rfl hst hzero (fun r hr => by
    simp [Machine.setPc, Machine.tid, Pc.wait] at hr) hs'
  have hcur : q.current cpu = M.tid cpu := (h.waits.models.rep.current cpu).symm
  refine ⟨_, hwaits, hmove.table, hmove.thread, hmove.kernel.frame (P := (· ≠ M.tid cpu))
    (S := fun _ => False) (Frame.of_state (fun ht => ht rfl) (fun u hu => ?_) rfl rfl)
    (fun u hu hut => ?_) (fun _ _ => id) fun u p tid sem hu htid => ?_⟩
  · simp [Threads.finish, Threads.setState, hcur, hu]
  · subst hut
    exact hu hself
  · subst htid
    have hstart := (hmove.thread.created u p _ sem hu).1
    rw [hself] at hstart
    simp at hstart

/-- The children of a user process are those whose slots name it as parent. -/
lemma child_of_parent {p : Pid} (h : ProcInv n L M q) (hatt : (M.pc (M.tid cpu)).Attached)
    (hself : M.self (M.tid cpu) ≠ 0)
    (hparent : (M.processTable p).parent = processGetCurrentProcess M.toProcState cpu) :
    (M.processTable p).state ≠ .free ∧ M.creator (M.child p) = M.self (M.tid cpu) := by
  have hlive := ((h.thread.ok _).live hatt.runs).resolve_left hself
  obtain ⟨pid, hslot, -⟩ := h.table.live _ hlive
  rw [h.processGetCurrentProcess_eq hatt] at hparent
  obtain ⟨hused, hlive', hparent'⟩ := h.table.parent p (hparent ▸ History.pidOf_ne hslot)
  exact ⟨hused, h.table.eq_of_pidOf hlive' hlive (hparent'.symm.trans hparent)⟩

lemma joinEnter {pid : ℤ} (h : ProcInv n L M q) (hst : q.state (M.tid cpu) = .running)
    (hexec : M.stepJoinEnter cpu pid = some M') : ProcInv n L M' q := by
  obtain ⟨hpc, rfl | ⟨p, hp, rfl⟩⟩ := Machine.stepJoinEnter_eq_some hexec
  · exact h
  · obtain ⟨hpid, hparent⟩ := processJoinCheck_eq_inr hp
    have hatt : (M.pc (M.tid cpu)).Attached := by
      rcases hpc with hpc | ⟨p', hpc, -⟩ <;> rw [hpc] <;> trivial
    have hpassing : (M.pc (M.tid cpu)).wait L = some (0, .passing) := by
      rcases hpc with hpc | ⟨p', hpc, -⟩ <;> rw [hpc] <;> rfl
    have hjoining : (M.processTable p).state ≠ .free ∧
        M.creator (M.child p) = M.self (M.tid cpu) := by
      rcases hpc with hpc | ⟨p', hpc, hp'⟩
      · exact h.child_of_parent hatt ((h.thread.ok _).user (by rw [hpc]; trivial)) hparent
      · obtain rfl : p' = p := Fin.ext (by omega)
        exact (h.thread.ok _).joining p' (by rw [hpc]; rfl)
    refine h.setPc hst (fun hk => ?_) (h.sleepsOn_eq_zero hst hpassing (by simp))
      ⟨fun _ => (h.thread.ok _).live hatt.runs, by simp [Pc.IsUser], by simp, by simp [Pc.pending],
        fun p' hp' => ?_⟩ (fun _ => h.kernel.processId _ hatt) (fun _ => hatt.runs)
      (by simp [Pc.pending]) (by simp)
    · rw [hk] at hatt
      exact hatt
    · obtain rfl : p = p' := Option.some.inj hp'
      exact hjoining

/-- Whoever is not a current child cannot be joined. -/
lemma processJoinCheck_eq_inl {pid : ℤ} (h : ProcInv n L M q) (hpc : M.pc (M.tid cpu) = .user)
    (hnone : ∀ k, ¬ M.CurrentChild (M.self (M.tid cpu)) pid k) :
    processJoinCheck M.toProcState cpu pid = .inl processIllegalJoin := by
  rcases hcheck : processJoinCheck M.toProcState cpu pid with value | p
  · rw [processJoinCheck_eq_of_inl hcheck]
  · obtain ⟨hpid, hparent⟩ := processJoinCheck_eq_inr hcheck
    obtain ⟨hused, hcreator⟩ := h.child_of_parent (by rw [hpc]; trivial)
      ((h.thread.ok _).user (by rw [hpc]; trivial)) hparent
    obtain ⟨hpos, hlt, hslot, hjoins⟩ := h.table.slot p hused
    exact absurd ⟨hpos, hlt, hcreator, ⟨p, hslot, hpid⟩, hjoins⟩ (hnone (M.child p))

/-- One round of `process_join`. -/
lemma joinSection {r : UInt32} {phase : Phase} (h : ProcInv n L M q)
    (hst : q.state (M.tid cpu) = .running) (hpc : (M.pc (M.tid cpu)).joining = some pid)
    (hatt : (M.pc (M.tid cpu)).Attached) (hw : (M.pc (M.tid cpu)).wait L = some (r, phase))
    (hphase : phase ≠ .blocking) (hexec : M.joinSection L cpu pid = some M') :
    ∃ q', ProcInv n L M' q' := by
  have hzero := h.sleepsOn_eq_zero hst hw hphase
  have hok := h.thread.ok (M.tid cpu)
  have hkernel : M.pc (M.tid cpu) ≠ .kernel := fun hk => by
    rw [hk] at hatt
    exact hatt
  obtain ⟨hzombie, rfl⟩ | ⟨hzombie, s', hs', rfl⟩ := Machine.joinSection_eq_some hexec
  · obtain ⟨c, hpc'⟩ : ∃ c, c = if M.self (M.tid cpu) = 0 then Pc.kernel else Pc.user :=
      ⟨_, rfl⟩
    have hcases : (c = .user ∧ M.self (M.tid cpu) ≠ 0) ∨ c = .kernel := by
      rw [hpc']
      split_ifs with hself
      · exact Or.inr rfl
      · exact Or.inl ⟨rfl, hself⟩
    have hother : ∀ p, p ≠ pid → (processReset M.toProcState pid).processTable p =
        M.processTable p := fun p hp => Function.update_of_ne hp _ _
    have hreset : (processReset M.toProcState pid).processTable pid =
        { heapEnd := (M.processTable pid).heapEnd } := Function.update_self _ _ _
    have hfree : ((processReset M.toProcState pid).processTable pid).state = .free := by rw [hreset]
    rw [← hpc', ← (hok.joining pid hpc).2]
    refine ⟨q, ?_, h.table.join hzombie hfree (congrArg Pcb.parent hreset) hother,
      h.thread.join hpc hatt.runs (h.not_created hst) hzombie hother hcases, ?_⟩
    · have hwaits := h.waits.setWait (t := M.tid cpu) (w := c.wait L) (h.ne_idle hkernel) ?_
      · rwa [← Function.comp_update] at hwaits
      · refine WaitOk.of_zero L.not_tracked_zero hzero fun r hr => ?_
        rcases hcases with ⟨rfl, -⟩ | rfl <;> simp [Pc.wait] at hr
    · refine (h.kernel.setPc (fun _ => h.kernel.alive _ hkernel)
        (fun _ => h.kernel.processId _ hatt) fun p tid sem hp => ?_).join hfree hother
      rcases hcases with ⟨rfl, -⟩ | rfl <;> simp at hp
  · have hmove := h.setPc (c := .joinBlocked pid .blocking) hst hkernel ⟨hst, Or.inl hzero⟩
      ⟨fun _ => hok.live hatt.runs, by simp [Pc.IsUser], by simp, by simp [Pc.pending],
        fun p hp => hok.joining p (hpc.trans hp)⟩ (fun _ => h.kernel.processId _ hatt)
      (fun _ => hatt.runs) (by simp [Pc.pending]) (by simp)
    obtain ⟨s'', q', hs'', hinv⟩ := hmove.sleepqAdd (r := L.proc pid) hst hzero
      (L.proc_ne_zero pid) (by simp [Machine.setPc, Machine.tid, Pc.wait]) fun p hp heq =>
        hzombie (L.proc_injective heq ▸ hp)
    obtain rfl : s' = s'' := Option.some.inj (hs'.symm.trans hs'')
    exact ⟨q', hinv⟩

lemma joinRound (h : ProcInv n L M q) (hst : q.state (M.tid cpu) = .running)
    (hexec : M.stepJoinRound L cpu = some M') : ∃ q', ProcInv n L M' q' := by
  obtain ⟨pid, hpc | ⟨phase, hpc, hphase⟩, hexec⟩ := Machine.stepJoinRound_eq_some hexec
  · exact h.joinSection hst (by rw [hpc]; rfl) (by rw [hpc]; trivial) (by rw [hpc]; rfl) (by simp)
      hexec
  · exact h.joinSection hst (by rw [hpc]; rfl) (by rw [hpc]; trivial) (by rw [hpc]; rfl) hphase hexec

/-! ### Scheduling and other kernel code -/

lemma schedule (h : ProcInv n L M q) (hcpu : cpu < n) (hexec : M.schedule cpu = some M') :
    ProcInv n L M' (q.schedule cpu) := by
  obtain ⟨s', hs', rfl⟩ := Option.map_eq_some_iff.mp hexec
  have hwaits := h.waits.schedulerSchedule L.not_tracked_zero hcpu hs'
  have hkernel := h.kernel.frame_all (S := fun _ => False)
    (Frame.schedule h.waits.models.inv hcpu) fun _ _ => id
  obtain ⟨t, ht⟩ : ∃ t, t = M.tid cpu := ⟨_, rfl⟩
  have hwaits' : Waits n L.Tracked s' (q.schedule cpu)
      (Pc.wait L ∘ Function.update M.pc t (M.pc t).switch) := by
    rw [Function.comp_update, Pc.wait_switch, ht]
    exact hwaits
  have hok := h.thread.ok t
  rw [← ht]
  rcases (M.pc t).switch_cases with heq | ⟨pid, sem, hpc, heq⟩ | ⟨pid, hpc, heq⟩
  · rw [heq, Function.update_eq_self] at hwaits'
    rw [heq, Machine.setPc, show (M.withKernel s').pc = M.pc from rfl, Function.update_eq_self]
    exact ⟨hwaits', h.table, h.thread, hkernel⟩
  · have hnew : ∀ u pid sem, M.pc u ≠ .created pid t sem := h.thread.ne_created (by simp [hpc])
    have hatt : (M.pc t).Attached := by rw [hpc]; trivial
    rw [hpc] at hok
    rw [heq] at hwaits' ⊢
    refine ⟨hwaits', h.table, h.thread.setPc hnew ⟨hok.live, hok.user, by simp, by simp [Pc.pending],
      by simp [Pc.joining]⟩ (fun _ => hatt.runs) (by simp [Pc.pending]) (by simp), ?_⟩
    exact hkernel.setPc (fun _ => hkernel.alive t (by simp [hpc]))
      (fun _ => hkernel.processId t hatt) (by simp)
  · have hnew : ∀ u pid sem, M.pc u ≠ .created pid t sem := h.thread.ne_created (by simp [hpc])
    have hatt : (M.pc t).Attached := by rw [hpc]; trivial
    rw [hpc] at hok
    rw [heq] at hwaits' ⊢
    refine ⟨hwaits', h.table, h.thread.setPc hnew ⟨hok.live, hok.user, by simp, by simp [Pc.pending],
      hok.joining⟩ (fun _ => hatt.runs) (by simp [Pc.pending]) (by simp), ?_⟩
    exact hkernel.setPc (fun _ => hkernel.alive t (by simp [hpc]))
      (fun _ => hkernel.processId t hatt) (by simp)

lemma other {a : Action} (h : ProcInv n L M q) (ha : a.Enabled n M.kernel)
    (helse : Waits.Elsewhere L.Tracked M.kernel (fun t => (M.pc t).wait L) a)
    (hother : OtherThread M a) (hexec : a.exec M.kernel = some s') :
    ∃ q', ProcInv n L (M.withKernel s') q' := by
  obtain ⟨q', hwaits, -, hframe⟩ := h.waits.elsewhere L.not_tracked_zero ha helse hexec
  have hP : ∀ t, M.pc t ≠ .kernel →
      (Pc.wait L ∘ M.pc) t ≠ none ∧ q.state t ≠ .free ∧ a ≠ .threadRun t := by
    refine fun t ht => ⟨fun hw => ht (Pc.wait_eq_none.mp hw), (h.kernel.alive t ht).1, ?_⟩
    rintro rfl
    exact ht hother
  refine ⟨q', hwaits, h.table, h.thread, h.kernel.frame hframe hP ?_ fun t pid tid sem ht => ?_⟩
  · exact fun pid _ hnot => hnot (Or.inl ⟨pid, rfl⟩)
  · exact hP tid (by simp [(h.thread.created t pid tid sem ht).1])

/-- Every step of the code keeps the invariant. -/
lemma exec {a : ProcAct} (h : ProcInv n L M q) (hst : q.state (M.tid cpu) = .running)
    (hexec : M.exec L cpu a = some M') : ∃ q', ProcInv n L M' q' := by
  cases a with
  | boot => exact ⟨q, h.boot hst hexec⟩
  | alloc fork => exact ⟨q, h.alloc hst hexec⟩
  | fill executable => exact ⟨q, h.fill hst hexec⟩
  | arm => exact ⟨q, h.arm hst hexec⟩
  | create => exact h.create hst hexec
  | run => exact h.run hst hexec
  | wait => exact h.wait hst hexec
  | resume => exact ⟨q, h.resume hst hexec⟩
  | attach => exact h.attach hst hexec
  | map pagetable heapEnd => exact h.map hst hexec
  | signal => exact h.signal hst hexec
  | finish retval => exact h.finish hst hexec
  | die => exact h.die hst hexec
  | joinEnter pid => exact ⟨q, h.joinEnter hst hexec⟩
  | joinRound => exact h.joinRound hst hexec

lemma step (h : ProcInv n L M q) (hstep : Step n L M M') : ∃ q', ProcInv n L M' q' := by
  cases hstep with
  | proc a hcpu hrun hexec => exact h.exec ((h.waits.models.rep.state _).symm.trans hrun) hexec
  | schedule hcpu hexec => exact ⟨_, h.schedule hcpu hexec⟩
  | kernel a ha helse hother hexec => exact h.other ha helse hother hexec

lemma initial (n : ℕ) (L : Layout) : ∃ q, ProcInv n L Machine.initial q := by
  obtain ⟨q, hq⟩ := Waits.initialState n L.not_tracked_zero
  refine ⟨q, hq, ?_, ?_, ?_⟩
  · constructor <;> simp [Machine.initial, History.Live]
    omega
  · constructor <;> simp [Machine.initial, Pc.Runs, Pc.pending]
    exact PcOk.of_not_runs id
  · constructor <;> simp [Machine.initial, Pc.Attached]

end ProcInv

lemma Reachable.procInv {n : ℕ} {L : Layout} {M : Machine} (h : Reachable n L M) :
    ∃ q, ProcInv n L M q := by
  induction h with
  | refl => exact ProcInv.initial n L
  | tail _ hstep ih =>
    obtain ⟨q, hq⟩ := ih
    exact hq.step hstep

/-- In every state reached by any interleaving: a slot belongs to one live process at most, and
every live process has one; every join that has returned a value was made by the process that
created the child under that identifier, returned what the child passed to `process_finish`, and
no child is joined twice; a join of anything but a current child is refused and changes nothing;
and no thread sleeps on the slot of a zombie. -/
theorem reachable_lifeCycle {n : ℕ} {L : Layout} {M : Machine} (h : Reachable n L M) :
    (∀ k, M.Live k → ∃ pid, M.slot k = some pid ∧ (M.processTable pid).state = .running ∧
      ∀ k', M.Live k' → M.slot k' = some pid → k' = k) ∧
    (∀ e ∈ M.joins, M.slot e.child = some e.pid ∧ M.creator e.child = e.caller ∧
      M.exit e.child = some e.value) ∧
    (M.joins.map Join.child).Nodup ∧
    (∀ cpu pid, M.pc (M.tid cpu) = .user → (∀ k, ¬ M.CurrentChild (M.self (M.tid cpu)) pid k) →
      processJoinCheck M.toProcState cpu pid = .inl processIllegalJoin ∧
      M.exec L cpu (.joinEnter pid) = some M) ∧
    ∀ pid, (M.processTable pid).state = .zombie →
      ∀ t, (M.kernel.threadTable t).sleepsOn ≠ L.proc pid := by
  obtain ⟨q, hq⟩ := h.procInv
  refine ⟨fun k hk => ?_, hq.table.joins, hq.table.joins_nodup, fun cpu pid hpc hnone => ?_,
    fun pid hpid t => ?_⟩
  · obtain ⟨pid, hslot, hst, -⟩ := hq.table.live k hk
    exact ⟨pid, hslot, hst, fun k' hk' hslot' => hq.table.eq_of_slot hk' hk hslot' hslot⟩
  · have hcheck : processJoinCheck M.toProcState cpu pid = .inl processIllegalJoin :=
      hq.processJoinCheck_eq_inl hpc hnone
    refine ⟨hcheck, ?_⟩
    simp only [Machine.exec, Machine.stepJoinEnter, hpc, true_or, if_true, hcheck]
  · rw [hq.waits.models.rep.sleepsOn]
    exact hq.kernel.zombie pid hpid t

/-- The startup thread spawns the initial program in slot `0` and joins it. The initial program
spawns a process in slot `1` and joins it. That process finishes with the value `7`, and the
join returns. -/
theorem reachable_lifeCycle_joined : ∃ M, Reachable 1 Layout.sample M ∧
    M.joins = [{ caller := 1, pid := 1, child := 2, value := 7 }] ∧ M.creator 2 = 1 ∧
    M.exit 2 = some 7 := by
  have hrun : ((Machine.startup.runs Layout.sample 0
      [none, some .boot, some (.alloc false), some (.fill []), some .create, some .run,
        some (.joinEnter 0), some .joinRound, none, some .attach, some (.map 1 0),
        some (.alloc false), some (.fill []), some .create, some .run, some (.joinEnter 1),
        some .joinRound, none, some .attach, some (.map 2 0), some (.finish 7), some .die, none,
        some .joinRound]).map fun M => M.joins) =
      some [{ caller := 1, pid := 1, child := 2, value := 7 }] := by decide +kernel
  obtain ⟨M, hM, hjoins⟩ := Option.map_eq_some_iff.mp hrun
  have hreach := (Reachable.startup 1 Layout.sample).runs Nat.one_pos hM
  obtain ⟨-, hreturned, -⟩ := reachable_lifeCycle hreach
  obtain ⟨-, hcreator, hexit⟩ := hreturned _ (by rw [hjoins]; exact List.mem_singleton_self _)
  exact ⟨M, hreach, hjoins, hcreator, hexit⟩

end Osm.Proc
