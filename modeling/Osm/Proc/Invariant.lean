import Osm.Proc.Machine

/-!
# The invariant of the process management

`TableInv` ties the process table to the history: a slot in use belongs to one process, the last
one created in it, and its parent, if it still has one, is the process that created it.
`ThreadInv` says that no two threads run the same process and keeps track of what the program
counters refer to. `KernelInv` is about the threads in the kernel: above all, nobody sleeps on
the slot of a process that has finished.
-/

namespace Osm.Proc

open Osm.Kernel

namespace Pc

/-- Only threads of user processes get here. -/
def IsUser : Pc → Prop
  | .user               => True
  | .alloc fork _       => fork = true
  | .filled fork _      => fork = true
  | .armed _ _          => True
  | .created _ _ sem    => sem ≠ none
  | .waiting _ _        => True
  | .blocked _ _ _      => True
  | .start _ _          => True
  | .attached _ _       => True
  | .mapped _           => True
  | _                   => False

lemma wait_eq_none {L : Layout} {pc : Pc} : pc.wait L = none ↔ pc = .kernel := by
  cases pc <;> simp [wait]

lemma Attached.runs {pc : Pc} (h : pc.Attached) : pc.Runs := by
  cases pc <;> simp_all [Attached, Runs]

/-- A switch only concerns threads that have entered the sleep queue. -/
lemma switch_cases (pc : Pc) : pc.switch = pc ∨
    (∃ pid sem, pc = .blocked pid sem .blocking ∧ pc.switch = .blocked pid sem .switched) ∨
    ∃ pid, pc = .joinBlocked pid .blocking ∧ pc.switch = .joinBlocked pid .switched := by
  rcases pc with _ | _ | _ | _ | _ | _ | _ | _ | _ | ⟨_, _, _ | _ | _⟩ | _ | _ | _ | _ |
    ⟨_, _ | _ | _⟩ | _ <;> simp [switch]

lemma wait_switch (L : Layout) (pc : Pc) : pc.switch.wait L = (pc.wait L).switch := by
  rcases pc with _ | _ | _ | _ | _ | _ | _ | _ | _ | ⟨_, _, _ | _ | _⟩ | _ | _ | _ | _ |
    ⟨_, _ | _ | _⟩ | _ <;> simp [wait, switch, Wait.switch]

end Pc

/-- The process table agrees with the history. -/
structure TableInv (tab : Pid → Pcb) (H : History) : Prop where
  fresh : 1 ≤ H.fresh
  startup : H.slot 0 = none
  exit : ∀ k, H.fresh ≤ k → H.exit k = none
  slot : ∀ pid, (tab pid).state ≠ .free → 1 ≤ H.child pid ∧ H.child pid < H.fresh ∧
    H.slot (H.child pid) = some pid ∧ ∀ e ∈ H.joins, e.child ≠ H.child pid
  running : ∀ pid, (tab pid).state = .running → H.exit (H.child pid) = none
  zombie : ∀ pid, (tab pid).state = .zombie → H.exit (H.child pid) = some (tab pid).retval
  parent : ∀ pid, (tab pid).parent ≠ -1 → (tab pid).state ≠ .free ∧
    H.Live (H.creator (H.child pid)) ∧ (tab pid).parent = H.pidOf (H.creator (H.child pid))
  live : ∀ k, H.Live k → ∃ pid, H.slot k = some pid ∧ (tab pid).state = .running ∧ H.child pid = k
  joins : ∀ e ∈ H.joins, H.slot e.child = some e.pid ∧ H.creator e.child = e.caller ∧
    H.exit e.child = some e.value
  joins_nodup : (H.joins.map Join.child).Nodup

/-- What the program counter of a thread that runs process `k` refers to. -/
structure PcOk (tab : Pid → Pcb) (H : History) (k : ℕ) (pc : Pc) : Prop where
  live : pc.Runs → k = 0 ∨ H.Live k
  user : pc.IsUser → k ≠ 0
  start : ∀ pid sem, pc = .start pid sem → H.slot k = some pid
  pending : ∀ pid, pc.pending = some pid → (tab pid).state = .running ∧
    H.creator (H.child pid) = k
  joining : ∀ pid, pc.joining = some pid → (tab pid).state ≠ .free ∧ H.creator (H.child pid) = k

/-- The threads and the processes they run; `me` is the process of a thread. -/
structure ThreadInv (tab : Pid → Pcb) (H : History) (pc : ℤ → Pc) (me : ℤ → ℕ) (booted : Bool) :
    Prop where
  ok : ∀ t, PcOk tab H (me t) (pc t)
  unique : ∀ t t', (pc t).Runs → (pc t').Runs → me t = me t' → t = t'
  pending : ∀ t pid, (pc t).pending = some pid → ∀ t', (pc t').Runs → me t' ≠ H.child pid
  created : ∀ t pid tid sem, pc t = .created pid tid sem → pc tid = .start pid sem ∧
    H.creator (me tid) = me t
  startup : booted = false → ∀ t, (pc t).Runs → me t ≠ 0

/-- The threads of the kernel and the processes. -/
structure KernelInv (L : Layout) (tab : Pid → Pcb) (H : History) (pc : ℤ → Pc) (me : ℤ → ℕ)
    (q : Threads) : Prop where
  alive : ∀ t, pc t ≠ .kernel → q.state t ≠ .free ∧ q.state t ≠ .dying
  processId : ∀ t, (pc t).Attached → q.processId t = H.pidOf (me t)
  nonready : ∀ t pid tid sem, pc t = .created pid tid sem → q.state tid = .nonready
  zombie : ∀ pid, (tab pid).state = .zombie → ∀ t, q.sleepsOn t ≠ L.proc pid

/-- The invariant of the process management. -/
structure ProcInv (n : ℕ) (L : Layout) (M : Machine) (q : Threads) : Prop where
  waits : Waits n L.Tracked M.kernel q (Pc.wait L ∘ M.pc)
  table : TableInv M.processTable M.toHistory
  thread : ThreadInv M.processTable M.toHistory M.pc M.self M.booted
  kernel : KernelInv L M.processTable M.toHistory M.pc M.self q

/-! ### The history -/

namespace History

variable {H : History}

lemma pidOf_eq {k : ℕ} {pid : Pid} (h : H.slot k = some pid) : H.pidOf k = (pid : ℕ) := by
  rw [pidOf, h]

lemma pidOf_ne {k : ℕ} {pid : Pid} (h : H.slot k = some pid) : H.pidOf k ≠ -1 := by
  rw [pidOf_eq h]
  omega

end History

namespace TableInv

variable {tab tab' : Pid → Pcb} {H : History} {k k' : ℕ} {pid : Pid}

/-- Two live processes do not share a slot. -/
lemma eq_of_slot (h : TableInv tab H) (hk : H.Live k) (hk' : H.Live k') (hs : H.slot k = some pid)
    (hs' : H.slot k' = some pid) : k = k' := by
  obtain ⟨p, hp, -, rfl⟩ := h.live k hk
  obtain ⟨p', hp', -, rfl⟩ := h.live k' hk'
  rw [hs] at hp
  rw [hs'] at hp'
  rw [← Option.some.inj hp, ← Option.some.inj hp']

lemma eq_of_pidOf (h : TableInv tab H) (hk : H.Live k) (hk' : H.Live k')
    (hpid : H.pidOf k = H.pidOf k') : k = k' := by
  obtain ⟨p, hp, -⟩ := h.live k hk
  obtain ⟨p', hp', -⟩ := h.live k' hk'
  rw [History.pidOf_eq hp, History.pidOf_eq hp'] at hpid
  have heq : p = p' := Fin.ext (by omega)
  exact h.eq_of_slot hk hk' hp (heq ▸ hp')

lemma child_ne (h : TableInv tab H) {pid' : Pid} (hst : (tab pid).state ≠ .free)
    (hst' : (tab pid').state ≠ .free) (hne : pid' ≠ pid) : H.child pid' ≠ H.child pid := by
  intro heq
  have h₁ := (h.slot pid hst).2.2.1
  have h₂ := (h.slot pid' hst').2.2.1
  rw [heq, h₁] at h₂
  exact hne (Option.some.inj h₂).symm

/-- The slot of a live process. -/
lemma slot_of_live (h : TableInv tab H) (hk : H.Live k) (hs : H.slot k = some pid) :
    (tab pid).state = .running ∧ H.child pid = k := by
  obtain ⟨p, hp, hst, hchild⟩ := h.live k hk
  rw [hs] at hp
  obtain rfl := Option.some.inj hp
  exact ⟨hst, hchild⟩

/-- Only the states, the return values and the parents matter. -/
lemma congr (h : TableInv tab H) (hstate : ∀ pid, (tab' pid).state = (tab pid).state)
    (hretval : ∀ pid, (tab' pid).retval = (tab pid).retval)
    (hparent : ∀ pid, (tab' pid).parent = (tab pid).parent) : TableInv tab' H where
  fresh := h.fresh
  startup := h.startup
  exit := h.exit
  slot pid := by rw [hstate]; exact h.slot pid
  running pid := by rw [hstate]; exact h.running pid
  zombie pid := by rw [hstate, hretval]; exact h.zombie pid
  parent pid := by rw [hstate, hparent]; exact h.parent pid
  live k hk := by
    obtain ⟨pid, hs, hst, hchild⟩ := h.live k hk
    exact ⟨pid, hs, (hstate pid).trans hst, hchild⟩
  joins := h.joins
  joins_nodup := h.joins_nodup

end TableInv

/-! ### Threads -/

namespace PcOk

variable {tab tab' : Pid → Pcb} {H : History} {k : ℕ} {pc : Pc}

lemma congr (h : PcOk tab H k pc) (hstate : ∀ pid, (tab' pid).state = (tab pid).state) :
    PcOk tab' H k pc where
  live := h.live
  user := h.user
  start := h.start
  pending pid := by rw [hstate]; exact h.pending pid
  joining pid := by rw [hstate]; exact h.joining pid

lemma of_not_runs (h : ¬ pc.Runs) : PcOk tab H k pc := by
  cases pc <;> first | exact absurd trivial h | constructor <;> simp [Pc.Runs, Pc.IsUser,
    Pc.pending, Pc.joining]

/-- A thread in userland runs a live process. -/
lemma live_of_user (h : PcOk tab H k pc) (hruns : pc.Runs) (huser : pc.IsUser) : H.Live k :=
  (h.live hruns).resolve_left (h.user huser)

end PcOk

namespace ThreadInv

variable {tab tab' : Pid → Pcb} {H : History} {pc : ℤ → Pc} {me : ℤ → ℕ} {booted : Bool}

lemma congr (h : ThreadInv tab H pc me booted)
    (hstate : ∀ pid, (tab' pid).state = (tab pid).state) : ThreadInv tab' H pc me booted where
  ok t := (h.ok t).congr hstate
  unique := h.unique
  pending := h.pending
  created := h.created
  startup := h.startup

/-- Only a thread that has not started can be run for the first time. -/
lemma ne_created {t : ℤ} (h : ThreadInv tab H pc me booted) (ht : ∀ pid sem, pc t ≠ .start pid sem)
    (u : ℤ) (pid : Pid) (sem : Option Sem) : pc u ≠ .created pid t sem :=
  fun hu => ht pid sem (h.created u pid t sem hu).1

/-- A thread that nobody is about to run for the first time moves on in the code. -/
lemma setPc {t : ℤ} {c : Pc} (h : ThreadInv tab H pc me booted)
    (hnew : ∀ u pid sem, pc u ≠ .created pid t sem) (hok : PcOk tab H (me t) c)
    (hruns : c.Runs → (pc t).Runs) (hpending : ∀ pid, c.pending = some pid →
      (pc t).pending = some pid) (hcreated : ∀ pid tid sem, c = .created pid tid sem →
      tid ≠ t ∧ pc tid = .start pid sem ∧ H.creator (me tid) = me t) :
    ThreadInv tab H (Function.update pc t c) me booted := by
  have hold : ∀ u, (Function.update pc t c u).Runs → (pc u).Runs :=
    (Function.forall_update_iff pc fun u p => p.Runs → (pc u).Runs).mpr ⟨hruns, fun _ _ hu => hu⟩
  constructor
  case ok =>
    exact (Function.forall_update_iff pc fun u p => PcOk tab H (me u) p).mpr
      ⟨hok, fun u _ => h.ok u⟩
  case unique => exact fun u u' hu hu' => h.unique u u' (hold u hu) (hold u' hu')
  case pending =>
    intro u pid hu u' hu'
    refine h.pending u pid ?_ u' (hold u' hu')
    by_cases hut : u = t
    · subst hut; rw [Function.update_self] at hu; exact hpending pid hu
    · rwa [Function.update_of_ne hut] at hu
  case created =>
    intro u pid tid sem hu
    by_cases hut : u = t
    · subst hut
      rw [Function.update_self] at hu
      obtain ⟨htid, hstart⟩ := hcreated pid tid sem hu
      rw [Function.update_of_ne htid]
      exact hstart
    · rw [Function.update_of_ne hut] at hu
      have htid : tid ≠ t := fun htid => hnew u pid sem (htid ▸ hu)
      rw [Function.update_of_ne htid]
      exact h.created u pid tid sem hu
  case startup => exact fun hb u hu => h.startup hb u (hold u hu)

end ThreadInv

namespace KernelInv

variable {L : Layout} {tab tab' : Pid → Pcb} {H : History} {pc : ℤ → Pc} {me : ℤ → ℕ}
  {q q' : Threads} {P : ℤ → Prop} {S : UInt32 → Prop}

lemma congr (h : KernelInv L tab H pc me q) (hstate : ∀ pid, (tab' pid).state = (tab pid).state) :
    KernelInv L tab' H pc me q where
  alive := h.alive
  processId := h.processId
  nonready := h.nonready
  zombie pid := by rw [hstate]; exact h.zombie pid

/-- Operations of the kernel on other threads and other resources. -/
lemma frame (h : KernelInv L tab H pc me q) (hf : Frame P S q q')
    (hP : ∀ t, pc t ≠ .kernel → P t) (hS : ∀ pid, (tab pid).state = .zombie → ¬ S (L.proc pid))
    (hnew : ∀ t pid tid sem, pc t = .created pid tid sem → P tid) :
    KernelInv L tab H pc me q' where
  alive t ht := hf.alive t (hP t ht) (h.alive t ht)
  processId t ht := by
    rcases hf.processId t with hid | ⟨hnot, -⟩
    · exact hid.trans (h.processId t ht)
    · refine absurd (hP t fun hpc => ?_) hnot
      rw [hpc] at ht
      exact ht
  nonready t pid tid sem ht :=
    hf.nonready tid (hnew t pid tid sem ht) (h.nonready t pid tid sem ht)
  zombie pid hpid t := by
    rcases hf.sleepsOn t with ht | ht
    · rw [ht]; exact h.zombie pid hpid t
    · exact fun heq => hS pid hpid (heq ▸ ht)

/-- Operations of the kernel that leave all threads alive. -/
lemma frame_all (h : KernelInv L tab H pc me q) (hf : Frame (fun _ => True) S q q')
    (hS : ∀ pid, (tab pid).state = .zombie → ¬ S (L.proc pid)) : KernelInv L tab H pc me q' :=
  h.frame hf (fun _ _ => trivial) hS fun _ _ _ _ _ => trivial

lemma setPc {t : ℤ} {c : Pc} (h : KernelInv L tab H pc me q)
    (halive : c ≠ .kernel → q.state t ≠ .free ∧ q.state t ≠ .dying)
    (hid : c.Attached → q.processId t = H.pidOf (me t))
    (hcreated : ∀ pid tid sem, c = .created pid tid sem → q.state tid = .nonready) :
    KernelInv L tab H (Function.update pc t c) me q where
  alive := (Function.forall_update_iff pc fun u p =>
    p ≠ .kernel → q.state u ≠ .free ∧ q.state u ≠ .dying).mpr ⟨halive, fun u _ => h.alive u⟩
  processId := (Function.forall_update_iff pc fun u p =>
    p.Attached → q.processId u = H.pidOf (me u)).mpr ⟨hid, fun u _ => h.processId u⟩
  nonready := (Function.forall_update_iff pc fun _ p => ∀ pid tid sem,
    p = .created pid tid sem → q.state tid = .nonready).mpr ⟨hcreated, fun u _ => h.nonready u⟩
  zombie := h.zombie

/-- A new thread runs for the first time. -/
lemma run {tid : ℤ} (h : KernelInv L tab H pc me q)
    (hnew : ∀ t pid sem, pc t ≠ .created pid tid sem) : KernelInv L tab H pc me (q.run tid) := by
  have hstate : ∀ u, u ≠ tid → (q.run tid).state u = q.state u := by
    intro u hu
    simp [Threads.run, Threads.setState, Threads.addReady, hu]
  refine ⟨fun t ht => ?_, h.processId, fun t pid u sem ht => ?_, h.zombie⟩
  · by_cases htid : t = tid
    · simp [htid, Threads.run, Threads.setState]
    · rw [hstate t htid]; exact h.alive t ht
  · have hu : u ≠ tid := fun hu => hnew t pid sem (hu ▸ ht)
    rw [hstate u hu]
    exact h.nonready t pid u sem ht

lemma setProcess {t : ℤ} {pagetable : ℕ} {processId : ℤ} (h : KernelInv L tab H pc me q)
    (hid : (pc t).Attached → processId = H.pidOf (me t)) :
    KernelInv L tab H pc me (q.setProcess t pagetable processId) where
  alive := h.alive
  processId := (Function.forall_update_iff q.processId fun u id => (pc u).Attached →
    id = H.pidOf (me u)).mpr ⟨hid, fun u _ => h.processId u⟩
  nonready := h.nonready
  zombie := h.zombie

end KernelInv

/-! ### New threads -/

section Create

variable {L : Layout} {tab : Pid → Pcb} {H : History} {pc : ℤ → Pc} {me : ℤ → ℕ} {booted : Bool}
  {q : Threads} {t tid : ℤ} {pid : Pid} {k : ℕ}

/-- A thread begins to run a process that no other thread runs. -/
lemma ThreadInv.setSelf (h : ThreadInv tab H pc me booted) {c : Pc} {booted' : Bool}
    (hpc : pc t = .kernel) (hok : PcOk tab H k c) (hnew : ∀ u, (pc u).Runs → me u ≠ k)
    (hpending : ∀ u pid, (pc u).pending = some pid → k ≠ H.child pid)
    (hpc' : c.pending = none) (hcreated : ∀ pid tid sem, c ≠ .created pid tid sem)
    (hboot : booted' = false → booted = false ∧ k ≠ 0) :
    ThreadInv tab H (Function.update pc t c) (Function.update me t k) booted' := by
  have hother : ∀ u, (pc u).Runs → u ≠ t := by
    rintro u hu rfl
    rw [hpc] at hu
    exact hu
  have hold : ∀ u, u ≠ t → (Function.update pc t c u).Runs → (pc u).Runs := by
    intro u hut hu
    rwa [Function.update_of_ne hut] at hu
  constructor
  case ok =>
    intro u
    by_cases hut : u = t
    · subst hut; rw [Function.update_self, Function.update_self]; exact hok
    · rw [Function.update_of_ne hut, Function.update_of_ne hut]; exact h.ok u
  case unique =>
    intro u u' hu hu' heq
    by_cases hut : u = t <;> by_cases hut' : u' = t
    · rw [hut, hut']
    · rw [hut, Function.update_self, Function.update_of_ne hut'] at heq
      exact absurd heq.symm (hnew u' (hold u' hut' hu'))
    · rw [hut', Function.update_self, Function.update_of_ne hut] at heq
      exact absurd heq (hnew u (hold u hut hu))
    · rw [Function.update_of_ne hut, Function.update_of_ne hut'] at heq
      exact h.unique u u' (hold u hut hu) (hold u' hut' hu') heq
  case pending =>
    intro u pid hu u' hu'
    by_cases hut : u = t
    · subst hut
      rw [Function.update_self, hpc'] at hu
      simp at hu
    · rw [Function.update_of_ne hut] at hu
      by_cases hut' : u' = t
      · rw [hut', Function.update_self]; exact hpending u pid hu
      · rw [Function.update_of_ne hut']; exact h.pending u pid hu u' (hold u' hut' hu')
  case created =>
    intro u pid tid sem hu
    by_cases hut : u = t
    · subst hut
      rw [Function.update_self] at hu
      exact absurd hu (hcreated pid tid sem)
    · rw [Function.update_of_ne hut] at hu ⊢
      have hstart := h.created u pid tid sem hu
      have htid : tid ≠ t := hother tid (by rw [hstart.1]; trivial)
      rw [Function.update_of_ne htid, Function.update_of_ne htid]
      exact hstart
  case startup =>
    intro hb u hu
    obtain ⟨hb, hk⟩ := hboot hb
    by_cases hut : u = t
    · rw [hut, Function.update_self]; exact hk
    · rw [Function.update_of_ne hut]; exact h.startup hb u (hold u hut hu)

lemma KernelInv.setSelf (h : KernelInv L tab H pc me q) {c : Pc} (hpc : pc t = .kernel)
    (halive : q.state t ≠ .free ∧ q.state t ≠ .dying)
    (hid : c.Attached → q.processId t = H.pidOf k)
    (hcreated : ∀ pid tid sem, c ≠ .created pid tid sem) :
    KernelInv L tab H (Function.update pc t c) (Function.update me t k) q := by
  have hme : KernelInv L tab H pc (Function.update me t k) q := by
    refine ⟨h.alive, fun u hu => ?_, h.nonready, h.zombie⟩
    have hut : u ≠ t := by
      rintro rfl
      rw [hpc] at hu
      exact hu
    rw [Function.update_of_ne hut]
    exact h.processId u hu
  refine hme.setPc (fun _ => halive) (fun hp => ?_) fun pid tid sem hp =>
    absurd hp (hcreated pid tid sem)
  rw [Function.update_self]
  exact hid hp

/-- A thread creates the thread of a new process and hands the slot over to it. -/
lemma ThreadInv.create {sem : Option Sem} (h : ThreadInv tab H pc me booted) (htab : TableInv tab H)
    (hnew : ∀ u pid sem, pc u ≠ .created pid t sem) (hpc : (pc t).pending = some pid)
    (hruns : (pc t).Runs) (hsem : sem ≠ none → me t ≠ 0) (hkernel : pc tid = .kernel) :
    ThreadInv tab H (Function.update (Function.update pc tid (.start pid sem)) t
      (.created pid tid sem)) (Function.update me tid (H.child pid)) booted := by
  have hne : tid ≠ t := by
    rintro rfl
    rw [hkernel] at hruns
    exact hruns
  obtain ⟨hrun, hcreator⟩ := (h.ok t).pending pid hpc
  have hused : (tab pid).state ≠ .free := by simp [hrun]
  obtain ⟨hpos, hlt, hslot, -⟩ := htab.slot pid hused
  have hlive : H.Live (H.child pid) := ⟨hpos, hlt, htab.running pid hrun⟩
  have hme : Function.update me tid (H.child pid) t = me t := Function.update_of_ne hne.symm _ _
  -- the slot belongs to nobody for a moment
  have hfreed := h.setPc (c := .boot) hnew
    ⟨fun _ => (h.ok t).live hruns, by simp [Pc.IsUser], by simp, by simp [Pc.pending],
      by simp [Pc.joining]⟩ (fun _ => hruns) (by simp [Pc.pending]) (by simp)
  have hold : ∀ u, (Function.update pc t .boot u).Runs → (pc u).Runs :=
    (Function.forall_update_iff pc fun u p => p.Runs → (pc u).Runs).mpr
      ⟨fun _ => hruns, fun _ _ hu => hu⟩
  have hothers : ∀ u p, (Function.update pc t .boot u).pending = some p →
      H.child pid ≠ H.child p := by
    intro u p hu heq
    have hut : u ≠ t := by
      rintro rfl
      rw [Function.update_self] at hu
      simp [Pc.pending] at hu
    rw [Function.update_of_ne hut] at hu
    obtain ⟨hrun', hcreator'⟩ := (h.ok u).pending p hu
    rw [← heq, hcreator] at hcreator'
    refine hut (h.unique u t ?_ hruns hcreator'.symm)
    cases hpcu : pc u <;> simp_all [Pc.pending, Pc.Runs]
  have hstart := hfreed.setSelf (t := tid) (k := H.child pid) (c := .start pid sem)
    ((Function.update_of_ne hne _ _).trans hkernel)
    ⟨fun _ => Or.inr hlive, fun _ => Nat.ne_of_gt hpos, fun p sem' hp => by
      simp only [Pc.start.injEq] at hp
      rw [← hp.1]
      exact hslot, by simp [Pc.pending], by simp [Pc.joining]⟩
    (fun u hu => h.pending t pid hpc u (hold u hu)) hothers rfl (by simp)
    fun hb => ⟨hb, Nat.ne_of_gt hpos⟩
  have hfinal := hstart.setPc (t := t) (c := .created pid tid sem) (hstart.ne_created fun p sem' => ?_)
    ⟨fun _ => ?_, fun hu => ?_, by simp, by simp [Pc.pending], by simp [Pc.joining]⟩ (fun _ => ?_)
    (by simp [Pc.pending]) fun p tid' sem' hp => ?_
  · rwa [Function.update_comm hne, Function.update_idem, Function.update_comm hne.symm] at hfinal
  · rw [Function.update_of_ne hne.symm, Function.update_self]
    simp
  · rw [hme]
    exact (h.ok t).live hruns
  · rw [hme]
    exact hsem hu
  · rw [Function.update_of_ne hne.symm, Function.update_self]
    trivial
  · simp only [Pc.created.injEq] at hp
    obtain ⟨rfl, rfl, rfl⟩ := hp
    rw [Function.update_self, Function.update_self, hme]
    exact ⟨hne, rfl, hcreator⟩

end Create

/-! ### A new process -/

section Add

variable {tab tab' : Pid → Pcb} {H : History} {k k' : ℕ} {pid : Pid}

lemma History.Live.ne_fresh (h : H.Live k) : k ≠ H.fresh := Nat.ne_of_lt h.2.1

lemma History.add_live (H : History) (creator : ℕ) (pid : Pid) (h : H.Live k) :
    (H.add creator pid).Live k :=
  ⟨h.1, Nat.lt_succ_of_lt h.2.1, h.2.2⟩

lemma History.add_slot (H : History) (creator : ℕ) (pid : Pid) (hk : k ≠ H.fresh) :
    (H.add creator pid).slot k = H.slot k := Function.update_of_ne hk _ _

lemma History.add_creator (H : History) (creator : ℕ) (pid : Pid) (hk : k ≠ H.fresh) :
    (H.add creator pid).creator k = H.creator k := Function.update_of_ne hk _ _

lemma History.add_child (H : History) (creator : ℕ) (pid : Pid) {p : Pid} (hp : p ≠ pid) :
    (H.add creator pid).child p = H.child p := Function.update_of_ne hp _ _

lemma History.add_pidOf (H : History) (creator : ℕ) (pid : Pid) (hk : k ≠ H.fresh) :
    (H.add creator pid).pidOf k = H.pidOf k := by
  rw [pidOf, pidOf, H.add_slot creator pid hk]

lemma TableInv.add (h : TableInv tab H) (creator : ℕ) (hfree : (tab pid).state = .free)
    (hself : (tab' pid).state = .running) (hparent : (tab' pid).parent = (tab pid).parent)
    (hother : ∀ p, p ≠ pid → tab' p = tab p) : TableInv tab' (H.add creator pid) := by
  have hchild : (H.add creator pid).child pid = H.fresh := Function.update_self _ _ _
  have hjoin : ∀ e ∈ H.joins, e.child ≠ H.fresh := by
    intro e he heq
    have hexit := (h.joins e he).2.2
    rw [h.exit _ heq.ge] at hexit
    simp at hexit
  constructor
  case fresh => exact Nat.le_add_left 1 H.fresh
  case startup =>
    rw [H.add_slot creator pid (Nat.ne_of_lt h.fresh)]
    exact h.startup
  case exit => exact fun k hk => h.exit k (Nat.le_of_succ_le hk)
  case slot =>
    intro p hp
    by_cases hpid : p = pid
    · subst hpid
      rw [hchild]
      exact ⟨h.fresh, Nat.lt_succ_self _, Function.update_self _ _ _, hjoin⟩
    · rw [hother p hpid] at hp
      obtain ⟨h₁, h₂, h₃, h₄⟩ := h.slot p hp
      rw [H.add_child creator pid hpid, H.add_slot creator pid (Nat.ne_of_lt h₂)]
      exact ⟨h₁, Nat.lt_succ_of_lt h₂, h₃, h₄⟩
  case running =>
    intro p hp
    by_cases hpid : p = pid
    · subst hpid
      rw [hchild]
      exact h.exit _ le_rfl
    · rw [hother p hpid] at hp
      rw [H.add_child creator pid hpid]
      exact h.running p hp
  case zombie =>
    intro p hp
    by_cases hpid : p = pid
    · subst hpid
      rw [hself] at hp
      simp at hp
    · rw [hother p hpid] at hp ⊢
      rw [H.add_child creator pid hpid]
      exact h.zombie p hp
  case parent =>
    intro p hp
    have hpid : p ≠ pid := by
      rintro rfl
      rw [hparent] at hp
      exact (h.parent p hp).1 hfree
    rw [hother p hpid] at hp ⊢
    obtain ⟨h₁, h₂, h₃⟩ := h.parent p hp
    rw [H.add_child creator pid hpid, H.add_creator creator pid (Nat.ne_of_lt (h.slot p h₁).2.1),
      H.add_pidOf creator pid h₂.ne_fresh]
    exact ⟨h₁, H.add_live creator pid h₂, h₃⟩
  case live =>
    rintro k ⟨hpos, hlt, hexit⟩
    by_cases hk : k = H.fresh
    · exact ⟨pid, by rw [hk]; exact Function.update_self _ _ _, hself, hchild.trans hk.symm⟩
    · obtain ⟨p, hs, hst, hc⟩ := h.live k ⟨hpos, by
        have : k < H.fresh + 1 := hlt
        omega, hexit⟩
      have hpid : p ≠ pid := by
        rintro rfl
        rw [hfree] at hst
        simp at hst
      refine ⟨p, ?_, by rw [hother p hpid]; exact hst, ?_⟩
      · rw [H.add_slot creator pid hk]; exact hs
      · rw [H.add_child creator pid hpid]; exact hc
  case joins =>
    intro e he
    rw [H.add_slot creator pid (hjoin e he), H.add_creator creator pid (hjoin e he)]
    exact h.joins e he
  case joins_nodup => exact h.joins_nodup

/-- A thread does not notice the creation of a process by another thread. -/
lemma PcOk.add {pc : Pc} (h : PcOk tab H k pc) (htab : TableInv tab H) (creator : ℕ)
    (hfree : (tab pid).state = .free) (hother : ∀ p, p ≠ pid → tab' p = tab p)
    (hruns : pc.Runs) : PcOk tab' (H.add creator pid) k pc := by
  have hk : k ≠ H.fresh := by
    rcases h.live hruns with rfl | hlive
    · exact Nat.ne_of_lt htab.fresh
    · exact hlive.ne_fresh
  have hne : ∀ p, (tab p).state ≠ .free → p ≠ pid := by
    rintro p hp rfl
    exact hp hfree
  constructor
  case live => exact fun hr => (h.live hr).imp_right (H.add_live creator pid)
  case user => exact h.user
  case start =>
    intro p sem hp
    rw [H.add_slot creator pid hk]
    exact h.start p sem hp
  case pending =>
    intro p hp
    obtain ⟨hst, hcreator⟩ := h.pending p hp
    have hused : (tab p).state ≠ .free := by simp [hst]
    rw [hother p (hne p hused), H.add_child creator pid (hne p hused),
      H.add_creator creator pid (Nat.ne_of_lt (htab.slot p hused).2.1)]
    exact ⟨hst, hcreator⟩
  case joining =>
    intro p hp
    obtain ⟨hused, hcreator⟩ := h.joining p hp
    rw [hother p (hne p hused), H.add_child creator pid (hne p hused),
      H.add_creator creator pid (Nat.ne_of_lt (htab.slot p hused).2.1)]
    exact ⟨hused, hcreator⟩

/-- The thread that creates the process holds its slot from now on. -/
lemma ThreadInv.add {pc : ℤ → Pc} {me : ℤ → ℕ} {booted : Bool} {t : ℤ} {fork : Bool}
    (h : ThreadInv tab H pc me booted) (htab : TableInv tab H) (hfree : (tab pid).state = .free)
    (hself : (tab' pid).state = .running) (hother : ∀ p, p ≠ pid → tab' p = tab p)
    (hpc : pc t = .user ∨ (pc t = .boot ∧ fork = false)) :
    ThreadInv tab' (H.add (me t) pid) (Function.update pc t (.alloc fork pid)) me booted := by
  have hruns : (pc t).Runs := by rcases hpc with hpc | ⟨hpc, -⟩ <;> rw [hpc] <;> trivial
  have hold : ∀ u, (Function.update pc t (.alloc fork pid) u).Runs → (pc u).Runs :=
    (Function.forall_update_iff pc fun u p => p.Runs → (pc u).Runs).mpr
      ⟨fun _ => hruns, fun _ _ hu => hu⟩
  have hchild : (H.add (me t) pid).child pid = H.fresh := Function.update_self _ _ _
  have hfresh : ∀ u, (pc u).Runs → me u ≠ H.fresh := by
    intro u hu
    rcases (h.ok u).live hu with hzero | hlive
    · rw [hzero]; exact Nat.ne_of_lt htab.fresh
    · exact hlive.ne_fresh
  constructor
  case ok =>
    refine (Function.forall_update_iff pc fun u p => PcOk tab' (H.add (me t) pid) (me u) p).mpr
      ⟨⟨fun _ => ?_, fun huser => ?_, by simp, fun p hp => ?_, by simp [Pc.joining]⟩, fun u _ => ?_⟩
    · exact ((h.ok t).live hruns).imp_right (H.add_live _ pid)
    · rcases hpc with hpc | ⟨-, hfork⟩
      · exact (h.ok t).user (by rw [hpc]; trivial)
      · rw [Pc.IsUser, hfork] at huser
        simp at huser
    · obtain rfl : pid = p := Option.some.inj hp
      rw [hchild]
      exact ⟨hself, Function.update_self _ _ _⟩
    · by_cases hu : (pc u).Runs
      · exact (h.ok u).add htab (me t) hfree hother hu
      · exact PcOk.of_not_runs hu
  case unique => exact fun u u' hu hu' => h.unique u u' (hold u hu) (hold u' hu')
  case pending =>
    intro u p hu u' hu'
    by_cases hut : u = t
    · subst hut
      rw [Function.update_self] at hu
      obtain rfl : pid = p := Option.some.inj hu
      rw [hchild]
      exact hfresh u' (hold u' hu')
    · rw [Function.update_of_ne hut] at hu
      have hp : p ≠ pid := by
        rintro rfl
        have hst := ((h.ok u).pending p hu).1
        rw [hfree] at hst
        simp at hst
      rw [H.add_child _ pid hp]
      exact h.pending u p hu u' (hold u' hu')
  case created =>
    intro u p tid sem hu
    by_cases hut : u = t
    · subst hut
      rw [Function.update_self] at hu
      simp at hu
    · rw [Function.update_of_ne hut] at hu
      obtain ⟨hstart, hcreator⟩ := h.created u p tid sem hu
      have htid : tid ≠ t := by
        rintro rfl
        rcases hpc with hpc | ⟨hpc, -⟩ <;> simp [hpc] at hstart
      rw [Function.update_of_ne htid, H.add_creator _ pid (hfresh tid (by rw [hstart]; trivial))]
      exact ⟨hstart, hcreator⟩
  case startup => exact fun hb u hu => h.startup hb u (hold u hu)

lemma KernelInv.add {L : Layout} {pc : ℤ → Pc} {me : ℤ → ℕ} {booted : Bool} {q : Threads}
    (h : KernelInv L tab H pc me q) (hthread : ThreadInv tab H pc me booted)
    (htab : TableInv tab H) (creator : ℕ) (hself : (tab' pid).state = .running)
    (hother : ∀ p, p ≠ pid → tab' p = tab p) :
    KernelInv L tab' (H.add creator pid) pc me q where
  alive := h.alive
  processId t ht := by
    rw [h.processId t ht, H.add_pidOf]
    rcases (hthread.ok t).live ht.runs with hzero | hlive
    · rw [hzero]; exact Nat.ne_of_lt htab.fresh
    · exact hlive.ne_fresh
  nonready := h.nonready
  zombie p hp := by
    have hpid : p ≠ pid := by
      rintro rfl
      rw [hself] at hp
      simp at hp
    rw [hother p hpid] at hp
    exact h.zombie p hp

end Add

/-! ### The other changes of the process table -/

section Update

variable {tab tab' : Pid → Pcb} {H : History} {k : ℕ} {pid : Pid}

/-- The creator of a process becomes its parent. -/
lemma TableInv.setParent (h : TableInv tab H) (pid : Pid) (hst : (tab pid).state ≠ .free)
    (hstate : ∀ p, (tab' p).state = (tab p).state) (hretval : ∀ p, (tab' p).retval = (tab p).retval)
    (hother : ∀ p, p ≠ pid → (tab' p).parent = (tab p).parent)
    (hparent : (tab' pid).parent = H.pidOf (H.creator (H.child pid)))
    (hcreator : H.creator (H.child pid) = 0 ∨ H.Live (H.creator (H.child pid))) :
    TableInv tab' H := by
  constructor
  case fresh => exact h.fresh
  case startup => exact h.startup
  case exit => exact h.exit
  case slot => intro p; rw [hstate]; exact h.slot p
  case running => intro p; rw [hstate]; exact h.running p
  case zombie => intro p; rw [hstate, hretval]; exact h.zombie p
  case parent =>
    intro p hp
    by_cases hpid : p = pid
    · subst hpid
      refine ⟨by rw [hstate]; exact hst, hcreator.resolve_left fun hzero => hp ?_, hparent⟩
      rw [hparent, hzero, History.pidOf, h.startup]
    · rw [hother p hpid] at hp ⊢
      rw [hstate]
      exact h.parent p hp
  case live =>
    intro k hk
    obtain ⟨p, hs, hst, hchild⟩ := h.live k hk
    exact ⟨p, hs, (hstate p).trans hst, hchild⟩
  case joins => exact h.joins
  case joins_nodup => exact h.joins_nodup

lemma History.finish_live {k' : ℕ} {retval : ℤ} :
    (H.finish k retval).Live k' ↔ H.Live k' ∧ k' ≠ k := by
  by_cases hk : k' = k
  · subst hk; simp [Live, finish]
  · simp [Live, finish, hk]

/-- Process `k` finishes: its slot becomes a zombie and its children lose their parent. -/
lemma TableInv.finish {retval : ℤ} (h : TableInv tab H) (hlive : H.Live k)
    (hslot : H.slot k = some pid) (hself : (tab' pid).state = .zombie)
    (hretval : (tab' pid).retval = retval)
    (hother : ∀ p, p ≠ pid → (tab' p).state = (tab p).state ∧ (tab' p).retval = (tab p).retval)
    (hparent : ∀ p, (tab' p).parent ≠ -1 → (tab' p).parent = (tab p).parent ∧
      (tab p).parent ≠ (pid : ℕ)) : TableInv tab' (H.finish k retval) := by
  obtain ⟨hst, hchild⟩ := h.slot_of_live hlive hslot
  have hused : (tab pid).state ≠ .free := by simp [hst]
  have hne : ∀ p, p ≠ pid → (tab p).state ≠ .free → H.child p ≠ k := by
    intro p hp hst
    rw [← hchild]
    exact h.child_ne hused hst hp
  have hexit : ∀ k', k' ≠ k → (H.finish k retval).exit k' = H.exit k' :=
    fun k' hk' => Function.update_of_ne hk' _ _
  have hfree : ∀ p, (tab' p).state ≠ .free → (tab p).state ≠ .free := by
    intro p hp
    by_cases hpid : p = pid
    · rw [hpid]; exact hused
    · rwa [(hother p hpid).1] at hp
  constructor
  case fresh => exact h.fresh
  case startup => exact h.startup
  case exit =>
    intro k' hk'
    have hlt := hlive.2.1
    rw [hexit k' (by
      rintro rfl
      have : H.fresh ≤ k' := hk'
      omega)]
    exact h.exit k' hk'
  case slot => exact fun p hp => h.slot p (hfree p hp)
  case running =>
    intro p hp
    have hpid : p ≠ pid := by
      rintro rfl
      rw [hself] at hp
      simp at hp
    rw [(hother p hpid).1] at hp
    exact (hexit _ (hne p hpid (by simp [hp]))).trans (h.running p hp)
  case zombie =>
    intro p hp
    by_cases hpid : p = pid
    · subst hpid
      rw [hretval]
      exact (congrArg _ hchild).trans (Function.update_self _ _ _)
    · rw [(hother p hpid).1] at hp
      rw [(hother p hpid).2]
      exact (hexit _ (hne p hpid (by simp [hp]))).trans (h.zombie p hp)
  case parent =>
    intro p hp
    obtain ⟨heq, hpar⟩ := hparent p hp
    obtain ⟨h₁, h₂, h₃⟩ := h.parent p (heq ▸ hp)
    refine ⟨?_, History.finish_live.mpr ⟨h₂, fun hk => ?_⟩, heq.trans h₃⟩
    · by_cases hpid : p = pid
      · rw [hpid, hself]; simp
      · rw [(hother p hpid).1]; exact h₁
    · have hcreator : H.creator (H.child p) = k := hk
      rw [h₃, hcreator, History.pidOf_eq hslot] at hpar
      exact hpar rfl
  case live =>
    intro k' hk'
    obtain ⟨hlive', hk'⟩ := History.finish_live.mp hk'
    obtain ⟨p, hs, hst, hc⟩ := h.live k' hlive'
    have hpid : p ≠ pid := by
      rintro rfl
      exact hk' (hc.symm.trans hchild)
    exact ⟨p, hs, by rw [(hother p hpid).1]; exact hst, hc⟩
  case joins =>
    intro e he
    obtain ⟨h₁, h₂, h₃⟩ := h.joins e he
    refine ⟨h₁, h₂, (hexit _ ?_).trans h₃⟩
    rintro hk
    rw [hk, hlive.2.2] at h₃
    simp at h₃
  case joins_nodup => exact h.joins_nodup

/-- A finished process is joined by the process that created it. -/
lemma TableInv.join (h : TableInv tab H) (hst : (tab pid).state = .zombie)
    (hfree : (tab' pid).state = .free) (hparent : (tab' pid).parent = -1)
    (hother : ∀ p, p ≠ pid → tab' p = tab p) :
    TableInv tab' (H.join (H.creator (H.child pid)) pid (tab pid).retval) := by
  have hused : (tab pid).state ≠ .free := by simp [hst]
  have hslot := h.slot pid hused
  have hne : ∀ p, (tab' p).state ≠ .free → p ≠ pid := by
    rintro p hp rfl
    exact hp hfree
  constructor
  case fresh => exact h.fresh
  case startup => exact h.startup
  case exit => exact h.exit
  case slot =>
    intro p hp
    have hpid := hne p hp
    rw [hother p hpid] at hp
    obtain ⟨h₁, h₂, h₃, h₄⟩ := h.slot p hp
    refine ⟨h₁, h₂, h₃, fun e he => ?_⟩
    rcases List.mem_append.mp he with he | he
    · exact h₄ e he
    · rw [List.mem_singleton.mp he]
      exact (h.child_ne hused hp hpid).symm
  case running =>
    intro p hp
    rw [hother p (hne p (by simp [hp]))] at hp
    exact h.running p hp
  case zombie =>
    intro p hp
    have hpid := hne p (by simp [hp])
    rw [hother p hpid] at hp ⊢
    exact h.zombie p hp
  case parent =>
    intro p hp
    have hpid : p ≠ pid := by
      rintro rfl
      exact hp hparent
    rw [hother p hpid] at hp ⊢
    exact h.parent p hp
  case live =>
    intro k hk
    obtain ⟨p, hs, hrun, hc⟩ := h.live k hk
    have hpid : p ≠ pid := by
      rintro rfl
      rw [hst] at hrun
      simp at hrun
    exact ⟨p, hs, by rw [hother p hpid]; exact hrun, hc⟩
  case joins =>
    intro e he
    rcases List.mem_append.mp he with he | he
    · exact h.joins e he
    · rw [List.mem_singleton.mp he]
      exact ⟨hslot.2.2.1, rfl, h.zombie pid hst⟩
  case joins_nodup =>
    simp only [History.join, List.map_append, List.map_cons, List.map_nil]
    refine List.nodup_append.mpr ⟨h.joins_nodup, List.nodup_singleton _, ?_⟩
    intro c hc c' hc' heq
    obtain ⟨e, he, rfl⟩ := List.mem_map.mp hc
    exact hslot.2.2.2 e he (heq.trans (List.mem_singleton.mp hc'))

lemma ThreadInv.finish {pc : ℤ → Pc} {me : ℤ → ℕ} {booted : Bool} {t : ℤ} {retval : ℤ}
    (h : ThreadInv tab H pc me booted) (htab : TableInv tab H) (hpc : pc t = .user)
    (hslot : H.slot (me t) = some pid) (hself : (tab' pid).state = .zombie)
    (hother : ∀ p, p ≠ pid → (tab' p).state = (tab p).state) :
    ThreadInv tab' (H.finish (me t) retval) (Function.update pc t .finish) me booted := by
  have hruns : (pc t).Runs := by rw [hpc]; trivial
  have hlive : H.Live (me t) := (h.ok t).live_of_user hruns (by rw [hpc]; trivial)
  have hchild := (htab.slot_of_live hlive hslot).2
  have hold : ∀ u, (Function.update pc t .finish u).Runs → (pc u).Runs ∧ u ≠ t := by
    intro u hu
    by_cases hut : u = t
    · subst hut; rw [Function.update_self] at hu; exact hu.elim
    · rw [Function.update_of_ne hut] at hu; exact ⟨hu, hut⟩
  constructor
  case ok =>
    refine (Function.forall_update_iff pc fun u p => PcOk tab' (H.finish (me t) retval) (me u) p).mpr
      ⟨PcOk.of_not_runs id, fun u hut => ⟨fun hu => ?_, (h.ok u).user, (h.ok u).start,
        fun p hp => ?_, fun p hp => ?_⟩⟩
    · refine ((h.ok u).live hu).imp_right fun hl => History.finish_live.mpr ⟨hl, fun heq => ?_⟩
      exact hut (h.unique u t hu hruns heq)
    · obtain ⟨hst, hcreator⟩ := (h.ok u).pending p hp
      have hpid : p ≠ pid := by
        rintro rfl
        exact h.pending u p hp t hruns hchild.symm
      exact ⟨by rw [hother p hpid]; exact hst, hcreator⟩
    · obtain ⟨hst, hcreator⟩ := (h.ok u).joining p hp
      refine ⟨?_, hcreator⟩
      by_cases hpid : p = pid
      · rw [hpid, hself]; simp
      · rw [hother p hpid]; exact hst
  case unique => exact fun u u' hu hu' => h.unique u u' (hold u hu).1 (hold u' hu').1
  case pending =>
    intro u p hu u' hu'
    refine h.pending u p ?_ u' (hold u' hu').1
    by_cases hut : u = t
    · subst hut; rw [Function.update_self] at hu; simp [Pc.pending] at hu
    · rwa [Function.update_of_ne hut] at hu
  case created =>
    intro u p tid sem hu
    by_cases hut : u = t
    · subst hut; rw [Function.update_self] at hu; simp at hu
    · rw [Function.update_of_ne hut] at hu
      obtain ⟨hstart, hcreator⟩ := h.created u p tid sem hu
      have htid : tid ≠ t := by
        rintro rfl
        simp [hpc] at hstart
      rw [Function.update_of_ne htid]
      exact ⟨hstart, hcreator⟩
  case startup => exact fun hb u hu => h.startup hb u (hold u hu).1

/-- Nobody may sleep on the slot of a process that finishes. -/
lemma KernelInv.finish {L : Layout} {pc : ℤ → Pc} {me : ℤ → ℕ} {q : Threads} {retval : ℤ}
    (h : KernelInv L tab H pc me q) (hself : ∀ t, q.sleepsOn t ≠ L.proc pid)
    (hother : ∀ p, p ≠ pid → (tab' p).state = (tab p).state) :
    KernelInv L tab' (H.finish k retval) pc me q where
  alive := h.alive
  processId := h.processId
  nonready := h.nonready
  zombie p hp := by
    by_cases hpid : p = pid
    · rw [hpid]; exact hself
    · rw [hother p hpid] at hp; exact h.zombie p hp

/-- The slot of a joined process is nobody else's business. -/
lemma ThreadInv.join {pc : ℤ → Pc} {me : ℤ → ℕ} {booted : Bool} {t : ℤ} {c : Pc} {caller : ℕ}
    {value : ℤ} (h : ThreadInv tab H pc me booted) (hjoin : (pc t).joining = some pid)
    (hruns : (pc t).Runs) (hnew : ∀ u pid sem, pc u ≠ .created pid t sem)
    (hst : (tab pid).state = .zombie) (hother : ∀ p, p ≠ pid → tab' p = tab p)
    (hpc' : (c = .user ∧ me t ≠ 0) ∨ c = .kernel) :
    ThreadInv tab' (H.join caller pid value) (Function.update pc t c) me booted := by
  have hcreator := ((h.ok t).joining pid hjoin).2
  have hok : PcOk tab H (me t) c := by
    rcases hpc' with ⟨rfl, hme⟩ | rfl
    · exact ⟨fun _ => (h.ok t).live hruns, fun _ => hme, by simp, by simp [Pc.pending],
        by simp [Pc.joining]⟩
    · exact PcOk.of_not_runs id
  have hset : ThreadInv tab H (Function.update pc t c) me booted := by
    refine h.setPc hnew hok (fun _ => hruns) (fun p hp => ?_) fun p tid sem hp => ?_ <;>
      rcases hpc' with ⟨rfl, -⟩ | rfl <;> simp [Pc.pending] at hp
  have hne : ∀ u p, (Function.update pc t c u).joining = some p → p ≠ pid := by
    rintro u p hu rfl
    by_cases hut : u = t
    · subst hut
      rw [Function.update_self] at hu
      rcases hpc' with ⟨rfl, -⟩ | rfl <;> simp [Pc.joining] at hu
    · have hcr := ((hset.ok u).joining p hu).2
      rw [Function.update_of_ne hut] at hu
      refine hut (h.unique u t ?_ hruns (hcr.symm.trans hcreator))
      cases hpc : pc u <;> simp_all [Pc.joining, Pc.Runs]
  constructor
  case ok =>
    refine fun u => ⟨(hset.ok u).live, (hset.ok u).user, (hset.ok u).start, fun p hp => ?_,
      fun p hp => ?_⟩
    · obtain ⟨hrun, hcr⟩ := (hset.ok u).pending p hp
      have hpid : p ≠ pid := by
        rintro rfl
        rw [hst] at hrun
        simp at hrun
      exact ⟨by rw [hother p hpid]; exact hrun, hcr⟩
    · obtain ⟨hused, hcr⟩ := (hset.ok u).joining p hp
      exact ⟨by rw [hother p (hne u p hp)]; exact hused, hcr⟩
  case unique => exact hset.unique
  case pending => exact hset.pending
  case created => exact hset.created
  case startup => exact hset.startup

lemma KernelInv.join {L : Layout} {pc : ℤ → Pc} {me : ℤ → ℕ} {q : Threads} {caller : ℕ} {value : ℤ}
    (h : KernelInv L tab H pc me q) (hfree : (tab' pid).state = .free)
    (hother : ∀ p, p ≠ pid → tab' p = tab p) :
    KernelInv L tab' (H.join caller pid value) pc me q where
  alive := h.alive
  processId := h.processId
  nonready := h.nonready
  zombie p hp := by
    have hpid : p ≠ pid := by
      rintro rfl
      rw [hfree] at hp
      simp at hp
    rw [hother p hpid] at hp
    exact h.zombie p hp

end Update

end Osm.Proc
