import Osm.Proc.LifeCycle

/-!
# Finding the thread of a process

`thread_get_thread_entry_by_pid` returns the first row of the thread table with the given process
identifier. `process_finish` leaves the identifier of the finished process in the row of its
thread, where it stays until `thread_create` uses the row again. So the lookup finds the thread
of a live process as long as no process starts in a thread above a row that still has its
identifier.
-/

namespace Osm.Kernel

/-! ### Process identifiers in the kernel -/

/-- No thread gets another process identifier. -/
def SameIds (s s' : State) : Prop :=
  ∀ u, (s'.threadTable u).processId = (s.threadTable u).processId

namespace SameIds

variable {s s' : State} {t : ℤ} {r : UInt32} {cpu : Fin configMaxCpus}

lemma trans {s'' : State} (h : SameIds s s') (h' : SameIds s' s'') : SameIds s s'' :=
  fun u => (h' u).trans (h u)

lemma schedulerAddToReadyList (h : Kernel.schedulerAddToReadyList s t = some s') : SameIds s s' := by
  rw [Kernel.schedulerAddToReadyList] at h
  split_ifs at h <;> (obtain rfl := Option.some.inj h; intro u; simp)

lemma threadRun (h : Kernel.threadRun s t = some s') : SameIds s s' := by
  obtain ⟨s₁, hs₁, h⟩ := Option.bind_eq_some_iff.mp h
  obtain rfl := Option.some.inj h
  exact (schedulerAddToReadyList hs₁).trans fun u => by simp

lemma threadFinish (h : Kernel.threadFinish s cpu = some s') : SameIds s s' := by
  unfold Kernel.threadFinish at h
  dsimp only at h
  split_ifs at h
  obtain rfl := Option.some.inj h
  exact fun u => by simp

lemma schedulerSchedule (h : Kernel.schedulerSchedule s cpu = some s') : SameIds s s' := by
  obtain ⟨s₁, hs₁, h⟩ := Option.bind_eq_some_iff.mp h
  obtain ⟨⟨s₂, t⟩, hs₂, h⟩ := Option.bind_eq_some_iff.mp h
  obtain rfl := Option.some.inj h
  have hretire : SameIds s s₁ := by
    rw [schedulerRetire] at hs₁
    split_ifs at hs₁
    · obtain rfl := Option.some.inj hs₁
      exact fun u => by simp
    · obtain rfl := Option.some.inj hs₁
      exact fun u => by simp
    · obtain ⟨s', hs', h⟩ := Option.bind_eq_some_iff.mp hs₁
      obtain rfl := Option.some.inj h
      exact (schedulerAddToReadyList hs').trans fun u => by simp
    · obtain rfl := Option.some.inj hs₁
      exact fun u => by simp
  have hfirst : SameIds s₁ s₂ := by
    rw [schedulerRemoveFirstReady] at hs₂
    dsimp only at hs₂
    split_ifs at hs₂ <;>
      (simp only [Option.some.injEq, Prod.mk.injEq] at hs₂; rw [← hs₂.1]; exact fun u => rfl)
  exact (hretire.trans hfirst).trans fun u => by simp

lemma sleepqAdd (h : Kernel.sleepqAdd s cpu r = some s') : SameIds s s' := by
  unfold Kernel.sleepqAdd at h
  dsimp only at h
  split_ifs at h
  · obtain rfl := Option.some.inj h
    exact fun u => by simp
  · obtain ⟨prev, -, h⟩ := Option.bind_eq_some_iff.mp h
    obtain rfl := Option.some.inj h
    exact fun u => by simp

lemma sleepqUnlink (s : State) (hash : Fin sleepqHashtableSize) (prev first : ℤ) :
    SameIds s (Kernel.sleepqUnlink s hash prev first) := by
  rw [Kernel.sleepqUnlink]
  split_ifs
  · exact fun u => rfl
  · exact fun u => by simp

lemma sleepqRelease (h : Kernel.sleepqRelease s t = some s') : SameIds s s' := by
  unfold Kernel.sleepqRelease at h
  dsimp only at h
  split_ifs at h
  · exact fun u => (schedulerAddToReadyList h u).trans (by simp)
  · obtain rfl := Option.some.inj h
    exact fun u => by simp

lemma sleepqWake (h : Kernel.sleepqWake s r = some s') : SameIds s s' := by
  obtain ⟨⟨prev, first⟩, -, h⟩ := Option.bind_eq_some_iff.mp h
  dsimp only at h
  split_ifs at h
  · exact (sleepqUnlink s _ prev first).trans (sleepqRelease h)
  · obtain rfl := Option.some.inj h
    exact fun u => rfl

lemma wakeAllStep {p p' : State × ℤ × ℤ} (h : Kernel.wakeAllStep r p = .inl p') :
    SameIds p.1 p'.1 := by
  obtain ⟨s, prev, first⟩ := p
  simp only [Kernel.wakeAllStep] at h
  split_ifs at h
  split at h
  · simp at h
  · split_ifs at h
    · split at h
      · simp at h
      · rename_i s₁ hs₁
        obtain rfl := Sum.inl.inj h
        exact (sleepqUnlink s _ _ _).trans (sleepqRelease hs₁)
    · obtain rfl := Sum.inl.inj h
      exact fun u => rfl

lemma sleepqWakeAll (h : Kernel.sleepqWakeAll s r = some s') : SameIds s s' := by
  refine Core.loop_partial (fun p : State × ℤ × ℤ => SameIds s p.1)
    (fun res => ∀ s', res = some s' → SameIds s s') (fun p p' hp hp' => hp.trans (wakeAllStep hp'))
    (fun p res hp hres s' hs' => ?_) _ _ _ (fun u => rfl) (Option.join_eq_some_iff.mp h) s' rfl
  obtain ⟨s₁, prev, first⟩ := p
  subst hs'
  simp only [Kernel.wakeAllStep] at hres
  split_ifs at hres
  · split at hres
    · simp at hres
    · split_ifs at hres
      split at hres <;> simp at hres
  · obtain rfl := Option.some.inj (Sum.inr.inj hres)
    exact hp

end SameIds

end Osm.Kernel

namespace Osm.Proc

open Osm.Kernel

/-- What a step does to the processes of the threads, unless a thread gets its identifier:
identifiers are at most cleared, and no thread begins or changes its process. -/
structure Moves (M M' : Machine) : Prop where
  ids : ∀ u, (M'.kernel.threadTable u).processId = (M.kernel.threadTable u).processId ∨
    (M'.kernel.threadTable u).processId = -1
  attached : ∀ t, (M'.pc t).Attached →
    ((M.pc t).Attached ∧ M'.self t = M.self t) ∨ M'.self t = 0
  slot : ∀ k, k < M.fresh → M'.slot k = M.slot k

namespace Moves

variable {n : ℕ} {L : Layout} {M M' : Machine} {q : Threads} {cpu : Fin configMaxCpus} {t : ℤ}
  {c : Pc}

lemma refl (M : Machine) : Moves M M where
  ids _ := Or.inl rfl
  attached _ ht := Or.inl ⟨ht, rfl⟩
  slot _ _ := rfl

/-- A thread moves on in the code. -/
lemma of_update (hpc : M'.pc = Function.update M.pc t c)
    (hatt : c.Attached → (M.pc t).Attached) (hself : M'.self = M.self) (hslot : M'.slot = M.slot)
    (hids : SameIds M.kernel M'.kernel) : Moves M M' where
  ids u := Or.inl (hids u)
  attached := by
    rw [hpc, hself]
    exact (Function.forall_update_iff M.pc fun u p => p.Attached →
      ((M.pc u).Attached ∧ M.self u = M.self u) ∨ M.self u = 0).mpr
      ⟨fun h => Or.inl ⟨hatt h, rfl⟩, fun u _ h => Or.inl ⟨h, rfl⟩⟩
  slot k _ := by rw [hslot]

lemma boot (hexec : M.stepBoot cpu = some M') : Moves M M' := by
  obtain ⟨-, rfl⟩ := Machine.stepBoot_eq_some hexec
  refine ⟨fun u => Or.inl rfl, fun u hu => ?_, fun k _ => rfl⟩
  by_cases hut : u = M.tid cpu
  · rw [hut]; exact Or.inr (Function.update_self _ _ _)
  · refine Or.inl ⟨?_, Function.update_of_ne hut _ _⟩
    simpa only [Machine.setPc, Function.update_of_ne hut] using hu

lemma alloc {fork : Bool} (hexec : M.stepAlloc cpu fork = some M') : Moves M M' := by
  obtain ⟨hpc, rfl | ⟨pid, -, rfl⟩⟩ := Machine.stepAlloc_eq_some hexec
  · exact refl M'
  · have hatt : (M.pc (M.tid cpu)).Attached := by
      rcases hpc with hpc | ⟨hpc, -⟩ <;> rw [hpc] <;> trivial
    exact ⟨fun u => Or.inl rfl, (@of_update M (M.setPc _ _) _ _ rfl (fun _ => hatt) rfl
      rfl fun u => rfl).attached, fun k hk => Function.update_of_ne (Nat.ne_of_lt hk) _ _⟩

lemma create {pid : Pid} {sem : Option Sem} (h : ProcInv n L M q)
    (hst : q.state (M.tid cpu) = .running) (hatt : (M.pc (M.tid cpu)).Attached)
    (hexec : M.createThread cpu pid sem = some M') : Moves M M' := by
  obtain ⟨tid, s', hfree, hs', rfl⟩ := Machine.createThread_eq_some hexec
  have hstfree := (Represents.findFreeTid_some hfree).2.2
  rw [h.waits.models.rep.state] at hstfree
  have hne : tid ≠ M.tid cpu := by
    rintro rfl
    rw [hst] at hstfree
    simp at hstfree
  simp only [threadCreate, hfree, Prod.mk.injEq, and_true] at hs'
  refine ⟨fun u => ?_, fun u hu => ?_, fun k _ => rfl⟩
  · simp only [Machine.setPc, Machine.withKernel, ← hs', State.threadTable_modifyThread]
    split_ifs
    · exact Or.inr rfl
    · exact Or.inl rfl
  · have hut : u ≠ tid := by
      rintro rfl
      simp only [Machine.setPc, Function.update_of_ne hne, Function.update_self] at hu
      exact hu
    refine Or.inl ⟨?_, Function.update_of_ne hut _ _⟩
    by_cases hu' : u = M.tid cpu
    · rw [hu']; exact hatt
    · simpa only [Machine.setPc, Machine.withKernel, Function.update_of_ne hut,
        Function.update_of_ne hu'] using hu

lemma joinSection {pid : Pid} (hatt : (M.pc (M.tid cpu)).Attached)
    (hexec : M.joinSection L cpu pid = some M') : Moves M M' := by
  obtain ⟨-, rfl⟩ | ⟨-, s', hs', rfl⟩ := Machine.joinSection_eq_some hexec
  · exact of_update rfl (fun _ => hatt) rfl rfl fun u => rfl
  · exact of_update rfl (fun _ => hatt) rfl rfl (SameIds.sleepqAdd hs')

/-- Every step of the code but one. -/
lemma exec {a : ProcAct} (h : ProcInv n L M q) (hst : q.state (M.tid cpu) = .running)
    (ha : a ≠ .attach) (hexec : M.exec L cpu a = some M') : Moves M M' := by
  have hids : ∀ s : State, SameIds s s := fun s u => rfl
  cases a with
  | boot => exact boot hexec
  | alloc fork => exact alloc hexec
  | fill executable =>
    obtain ⟨fork, pid, pcb, hpc, -, -, -, rfl⟩ := Machine.stepFill_eq_some hexec
    exact of_update rfl (fun _ => by rw [hpc]; trivial) rfl rfl (hids _)
  | arm =>
    obtain ⟨pid, m', sem, hpc, hm', rfl⟩ := Machine.stepArm_eq_some hexec
    refine of_update rfl (fun _ => by rw [hpc]; trivial) rfl rfl fun u => ?_
    simp only [Machine.setPc, Machine.withSem, semaphoreCreate_kernel hm']
  | create =>
    obtain ⟨pid, hpc, hexec⟩ | ⟨pid, sem, hpc, hexec⟩ := Machine.stepCreate_eq_some hexec
    · exact create h hst (by rw [hpc]; trivial) hexec
    · exact create h hst (by rw [hpc]; trivial) hexec
  | run =>
    obtain ⟨pid, tid, sem, s', hpc, hs', rfl⟩ := Machine.stepRun_eq_some hexec
    exact of_update rfl (fun _ => by rw [hpc]; trivial) rfl rfl (SameIds.threadRun hs')
  | wait =>
    obtain ⟨pid, sem, m', hpc, hm', rfl⟩ := Machine.stepWait_eq_some hexec
    refine of_update rfl (fun _ => by rw [hpc]; trivial) rfl rfl ?_
    obtain ⟨kernel, rfl, ⟨-, rfl⟩ | ⟨-, hk⟩⟩ := semaphoreP_cases hm'
    · exact hids _
    · exact SameIds.sleepqAdd hk
  | resume =>
    obtain ⟨pid, sem, phase, hpc, -, rfl⟩ := Machine.stepResume_eq_some hexec
    exact of_update rfl (fun _ => by rw [hpc]; trivial) rfl rfl (hids _)
  | attach => exact absurd rfl ha
  | map pagetable heapEnd =>
    have hmap : SameIds M.kernel (M.kernel.modifyThread (M.tid cpu)
        fun th => { th with pagetable := pagetable }) := by
      intro u
      rw [State.threadTable_modifyThread]
      split <;> rfl
    obtain ⟨s', rfl, ⟨pid, hpc, rfl⟩ | ⟨pid, sem, hpc, rfl⟩⟩ := Machine.stepMap_eq_some hexec
    · exact of_update rfl (fun _ => by rw [hpc]; trivial) rfl rfl hmap
    · exact of_update rfl (fun _ => by rw [hpc]; trivial) rfl rfl hmap
  | signal =>
    obtain ⟨sem, m', hpc, hm', rfl⟩ := Machine.stepSignal_eq_some hexec
    refine of_update rfl (fun _ => by rw [hpc]; trivial) rfl rfl ?_
    obtain ⟨kernel, rfl, ⟨-, rfl⟩ | ⟨-, hk⟩⟩ := semaphoreV_cases hm'
    · exact hids _
    · exact SameIds.sleepqWake hk
  | finish retval =>
    obtain ⟨hpc, pid, kernel, -, hkernel, rfl⟩ := Machine.stepFinish_eq_some hexec
    refine of_update rfl (fun hp => hp.elim) rfl rfl (SameIds.trans (fun u => ?_)
      (SameIds.sleepqWakeAll hkernel))
    rw [State.threadTable_modifyThread]
    split <;> rfl
  | die =>
    obtain ⟨-, s', hs', rfl⟩ := Machine.stepDie_eq_some hexec
    exact of_update rfl (fun hp => hp.elim) rfl rfl (SameIds.threadFinish hs')
  | joinEnter pid =>
    obtain ⟨hpc, rfl | ⟨p, -, rfl⟩⟩ := Machine.stepJoinEnter_eq_some hexec
    · exact refl M'
    · refine of_update rfl (fun _ => ?_) rfl rfl (hids _)
      rcases hpc with hpc | ⟨p', hpc, -⟩ <;> rw [hpc] <;> trivial
  | joinRound =>
    obtain ⟨pid, hpc | ⟨phase, hpc, -⟩, hexec⟩ := Machine.stepJoinRound_eq_some hexec
    · exact joinSection (by rw [hpc]; trivial) hexec
    · exact joinSection (by rw [hpc]; trivial) hexec

lemma schedule (hexec : M.schedule cpu = some M') : Moves M M' := by
  obtain ⟨s', hs', rfl⟩ := Option.map_eq_some_iff.mp hexec
  refine of_update rfl (fun hatt => ?_) rfl rfl (SameIds.schedulerSchedule hs')
  rcases (M.pc (M.tid cpu)).switch_cases with heq | ⟨pid, sem, hpc, -⟩ | ⟨pid, hpc, -⟩
  · rwa [heq] at hatt
  · rw [hpc]; trivial
  · rw [hpc]; trivial

lemma kernel {a : Action} {s' : State} (hexec : a.exec M.kernel = some s') :
    Moves M (M.withKernel s') := by
  suffices hids : ∀ u, (s'.threadTable u).processId = (M.kernel.threadTable u).processId ∨
      (s'.threadTable u).processId = -1 from
    ⟨hids, fun t ht => Or.inl ⟨ht, rfl⟩, fun _ _ => rfl⟩
  cases a with
  | threadCreate =>
    obtain rfl := Option.some.inj hexec
    intro u
    rw [threadCreate]
    split
    · exact Or.inl rfl
    · simp only [State.threadTable_modifyThread]
      split_ifs
      · exact Or.inr rfl
      · exact Or.inl rfl
  | threadRun t => exact fun u => Or.inl (SameIds.threadRun hexec u)
  | schedulerSchedule cpu => exact fun u => Or.inl (SameIds.schedulerSchedule hexec u)
  | sleepqAdd cpu r => exact fun u => Or.inl (SameIds.sleepqAdd hexec u)
  | sleepqWake r => exact fun u => Or.inl (SameIds.sleepqWake hexec u)
  | sleepqWakeAll r => exact fun u => Or.inl (SameIds.sleepqWakeAll hexec u)
  | threadFinish cpu => exact fun u => Or.inl (SameIds.threadFinish hexec u)

end Moves

/-! ### The lookup -/

lemma threadGetThreadEntryByPid_eq_some {s : State} {pid t : ℤ} :
    threadGetThreadEntryByPid s pid = some t ↔ 0 ≤ t ∧ t < configMaxThreads ∧
      (s.threadTable t).processId = pid ∧
      ∀ u, 0 ≤ u → u < t → (s.threadTable u).processId ≠ pid := by
  rw [threadGetThreadEntryByPid]
  rw [List.find?_map, Option.map_eq_some_iff]
  constructor
  · rintro ⟨i, hi, rfl⟩
    obtain ⟨hid, hmem, hbelow⟩ := List.find?_range_eq_some.mp hi
    refine ⟨by omega, by exact_mod_cast List.mem_range.mp hmem, by simpa using hid,
      fun u hpos hlt => ?_⟩
    have hu := hbelow u.toNat (by omega)
    rw [Function.comp_apply, Int.toNat_of_nonneg hpos] at hu
    simpa using hu
  · rintro ⟨hpos, hlt, hid, hbelow⟩
    refine ⟨t.toNat, List.find?_range_eq_some.mpr ⟨?_, ?_, fun j hj => ?_⟩, ?_⟩
    · rw [Function.comp_apply, Int.toNat_of_nonneg hpos]
      simpa using hid
    · exact List.mem_range.mpr (by omega)
    · simpa using hbelow j (by omega) (by omega)
    · exact Int.toNat_of_nonneg hpos

/-- When a thread gets its process identifier in a step, no row below its own has it. -/
def NoStaleRow (M M' : Machine) : Prop :=
  ∀ t pid sem, M.pc t = .start pid sem → M'.pc t = .attached pid sem →
    ∀ u, 0 ≤ u → u < t → (M.kernel.threadTable u).processId ≠ (pid : ℕ)

/-- The thread of a live process has the first row with its identifier. -/
def FirstRow (M : Machine) : Prop :=
  ∀ t pid, (M.pc t).Attached → M.slot (M.self t) = some pid →
    ∀ u, 0 ≤ u → u < t → (M.kernel.threadTable u).processId ≠ (pid : ℕ)

section Steps

variable {n : ℕ} {L : Layout} {M M' : Machine} {q q' : Threads} {cpu : Fin configMaxCpus}

lemma Moves.firstRow (hmoves : Moves M M') (h : ProcInv n L M q) (h' : ProcInv n L M' q')
    (hfirst : FirstRow M) : FirstRow M' := by
  intro t pid ht hslot u hpos hlt hu
  rcases hmoves.attached t ht with ⟨hatt, hself⟩ | hzero
  · have hk : M.self t < M.fresh := by
      rcases (h.thread.ok t).live hatt.runs with hzero | hlive
      · rw [hzero]; exact h.table.fresh
      · exact hlive.2.1
    rw [hself, hmoves.slot _ hk] at hslot
    rcases hmoves.ids u with hid | hid
    · exact hfirst t pid hatt hslot u hpos hlt (hid.symm.trans hu)
    · rw [hid] at hu
      omega
  · rw [hzero, h'.table.startup] at hslot
    simp at hslot

/-- A step that gives no identifier to a thread. -/
lemma Moves.not_attaches (hmoves : Moves M M') (h' : ProcInv n L M' q') {t : ℤ} {pid : Pid}
    {sem : Option Sem} (hpc : M.pc t = .start pid sem) (hpc' : M'.pc t = .attached pid sem) :
    False := by
  rcases hmoves.attached t (by rw [hpc']; trivial) with ⟨hatt, -⟩ | hzero
  · rw [hpc] at hatt
    exact hatt
  · exact (h'.thread.ok t).user (by rw [hpc']; trivial) hzero

/-- What the remaining step does. -/
lemma stepAttach_cases (hexec : M.stepAttach cpu = some M') : ∃ pid sem,
    M.pc (M.tid cpu) = .start pid sem ∧
    M'.pc = Function.update M.pc (M.tid cpu) (.attached pid sem) ∧ M'.self = M.self ∧
    M'.toHistory = M.toHistory ∧
    ∀ u, (M'.kernel.threadTable u).processId =
      if u = M.tid cpu then ((pid : ℕ) : ℤ) else (M.kernel.threadTable u).processId := by
  obtain ⟨pid, sem, hpc, rfl⟩ := Machine.stepAttach_eq_some hexec
  refine ⟨pid, sem, hpc, rfl, rfl, rfl, fun u => ?_⟩
  simp only [Machine.setPc, Machine.withKernel, State.threadTable_modifyThread]
  split_ifs <;> rfl

lemma FirstRow.attach (hfirst : FirstRow M) (h : ProcInv n L M q)
    (hexec : M.stepAttach cpu = some M') (hclean : NoStaleRow M M') : FirstRow M' := by
  obtain ⟨pid, sem, hpc, hpc', hself, hhist, hids⟩ := stepAttach_cases hexec
  obtain ⟨t, ht⟩ : ∃ t, t = M.tid cpu := ⟨_, rfl⟩
  rw [← ht] at hpc hpc' hids
  have hruns : (M.pc t).Runs := by rw [hpc]; trivial
  have hslot := (h.thread.ok t).start pid sem hpc
  intro t' pid' ht' hslot' u hpos hlt hu
  rw [hself, hhist] at hslot'
  rw [hids] at hu
  by_cases htt : t' = t
  · subst htt
    obtain rfl : pid = pid' := Option.some.inj (hslot.symm.trans hslot')
    rw [if_neg (by omega)] at hu
    exact hclean t' pid sem hpc (by rw [hpc', Function.update_self]) u hpos hlt hu
  · rw [hpc', Function.update_of_ne htt] at ht'
    split_ifs at hu with hut
    · -- the two threads would run the same process
      have hpid : pid = pid' := Fin.ext (by omega)
      have hne : M.self t' ≠ 0 := by
        intro hzero
        rw [hzero, h.table.startup] at hslot'
        simp at hslot'
      have hlive := ((h.thread.ok t').live ht'.runs).resolve_left hne
      have hlive' := (h.thread.ok t).live_of_user hruns (by rw [hpc]; trivial)
      exact htt (h.thread.unique t' t ht'.runs hruns
        (h.table.eq_of_slot hlive hlive' hslot' (hpid ▸ hslot)))
    · exact hfirst t' pid' ht' hslot' u hpos hlt hu

lemma FirstRow.step (hfirst : FirstRow M) (h : ProcInv n L M q) (h' : ProcInv n L M' q')
    (hstep : Step n L M M') (hclean : NoStaleRow M M') : FirstRow M' := by
  cases hstep with
  | proc a hcpu hrun hexec =>
    have hst := (h.waits.models.rep.state _).symm.trans hrun
    by_cases ha : a = .attach
    · subst ha
      exact hfirst.attach h hexec hclean
    · exact (Moves.exec h hst ha hexec).firstRow h h' hfirst
  | schedule hcpu hexec => exact (Moves.schedule hexec).firstRow h h' hfirst
  | kernel a ha helse hother hexec => exact (Moves.kernel hexec).firstRow h h' hfirst

end Steps

/-! ### Runs -/

/-- The states of a machine on which no process starts above a row with its identifier. -/
def CleanReachable (n : ℕ) (L : Layout) (M : Machine) : Prop :=
  Relation.ReflTransGen (fun M M' => Step n L M M' ∧ NoStaleRow M M') Machine.initial M

namespace CleanReachable

variable {n : ℕ} {L : Layout} {M M' : Machine} {cpu : Fin configMaxCpus}

lemma procInv (h : CleanReachable n L M) : ∃ q, ProcInv n L M q := by
  induction h with
  | refl => exact ProcInv.initial n L
  | tail _ hstep ih =>
    obtain ⟨q, hq⟩ := ih
    exact hq.step hstep.1

lemma firstRow (h : CleanReachable n L M) : FirstRow M := by
  induction h with
  | refl => exact fun t pid ht => ht.elim
  | tail hreach hstep ih =>
    obtain ⟨q, hq⟩ := CleanReachable.procInv hreach
    obtain ⟨q', hq'⟩ := hq.step hstep.1
    exact ih.step hq hq' hstep.1 hstep.2

/-- A step that gives no identifier to a thread is harmless. -/
lemma tail_moves (h : CleanReachable n L M) (hstep : Step n L M M') (hmoves : Moves M M') :
    CleanReachable n L M' := by
  obtain ⟨q, hq⟩ := h.procInv
  obtain ⟨q', hq'⟩ := hq.step hstep
  exact Relation.ReflTransGen.tail h
    ⟨hstep, fun t pid sem hpc hpc' => (hmoves.not_attaches hq' hpc hpc').elim⟩

lemma runs (hcpu : cpu < n) {l : List (Option ProcAct)} (hl : some .attach ∉ l)
    (h : CleanReachable n L M) (hrun : M.runs L cpu l = some M') : CleanReachable n L M' := by
  induction l generalizing M with
  | nil =>
    obtain rfl := Option.some.inj hrun
    exact h
  | cons a l ih =>
    obtain ⟨ha, htail⟩ := not_or.mp (mt List.mem_cons.mpr hl)
    cases a with
    | none =>
      obtain ⟨M₁, hM₁, hrun⟩ := Option.bind_eq_some_iff.mp hrun
      exact ih htail (h.tail_moves (Step.schedule hcpu hM₁) (Moves.schedule hM₁)) hrun
    | some a =>
      rw [Machine.runs] at hrun
      split_ifs at hrun with hst
      obtain ⟨M₁, hM₁, hrun⟩ := Option.bind_eq_some_iff.mp hrun
      obtain ⟨q, hq⟩ := h.procInv
      have hmoves := Moves.exec hq ((hq.waits.models.rep.state _).symm.trans hst)
        (fun heq => ha (congrArg some heq.symm)) hM₁
      exact ih htail (h.tail_moves (Step.proc a hcpu hst hM₁) hmoves) hrun

lemma startup (n : ℕ) (L : Layout) : CleanReachable n L Machine.startup := by
  have hcreate : CleanReachable n L (Machine.initial.withKernel (threadCreate initialState).1) :=
    tail_moves Relation.ReflTransGen.refl (Step.kernel .threadCreate trivial trivial trivial rfl)
      (Moves.kernel (a := .threadCreate) rfl)
  exact hcreate.tail_moves (Step.kernel (.threadRun 1) rfl trivial rfl rfl)
    (Moves.kernel (a := .threadRun 1) rfl)

end CleanReachable

/-- As long as no process has started above a row that still has its identifier, the lookup finds
the thread of every live process, and never that of a finished one. The first such start makes
the lookup fail. -/
theorem lookup_of_noStaleRow {n : ℕ} {L : Layout} {M : Machine} (h : CleanReachable n L M) :
    (∀ k t pid, M.Live k → M.slot k = some pid → (M.pc t).Attached → M.self t = k →
      threadGetThreadEntryByPid M.kernel (pid : ℕ) = some t ∧
      (M.kernel.threadTable t).state ≠ .free ∧ (M.kernel.threadTable t).state ≠ .dying) ∧
    ∀ M', Step n L M M' → ¬ NoStaleRow M M' → ∃ k t pid, M'.Live k ∧ M'.slot k = some pid ∧
      (M'.pc t).Attached ∧ M'.self t = k ∧
      threadGetThreadEntryByPid M'.kernel (pid : ℕ) ≠ some t := by
  obtain ⟨q, hq⟩ := h.procInv
  have hrep := hq.waits.models.rep
  refine ⟨?_, fun M' hstep hstale => ?_⟩
  · rintro k t pid hlive hslot hatt rfl
    have hpc : M.pc t ≠ .kernel := fun hk => by
      rw [hk] at hatt
      exact hatt
    have halive := hq.kernel.alive t hpc
    have htid := hq.waits.models.inv.tid_pos (hq.ne_idle hpc) halive.1
    rw [hrep.state]
    refine ⟨threadGetThreadEntryByPid_eq_some.mpr ⟨by omega, htid.2, ?_, ?_⟩, halive⟩
    · rw [hrep.processId, hq.kernel.processId t hatt, History.pidOf_eq hslot]
    · exact h.firstRow t pid hatt hslot
  · obtain ⟨q', hq'⟩ := hq.step hstep
    simp only [NoStaleRow, not_forall, not_not] at hstale
    obtain ⟨t, pid, sem, hpc, hpc', u, hpos, hlt, hu⟩ := hstale
    have hatt : (M'.pc t).Attached := by rw [hpc']; trivial
    have hlive := (hq'.thread.ok t).live_of_user hatt.runs (by rw [hpc']; trivial)
    cases hstep with
    | schedule hcpu hexec => exact ((Moves.schedule hexec).not_attaches hq' hpc hpc').elim
    | kernel a ha helse hother hexec => exact ((Moves.kernel hexec).not_attaches hq' hpc hpc').elim
    | proc a hcpu hrun hexec =>
      by_cases ha : a = .attach
      · subst ha
        obtain ⟨pid', sem', -, hupdate, hself, hhist, hids⟩ := stepAttach_cases hexec
        have hslot := (hq.thread.ok t).start pid sem hpc
        refine ⟨_, t, pid, hlive, by rw [hself, hhist]; exact hslot, hatt, rfl, fun hlook => ?_⟩
        refine (threadGetThreadEntryByPid_eq_some.mp hlook).2.2.2 u hpos hlt ?_
        rw [hids]
        split_ifs with hut
        · -- the row below cannot be that of the thread itself
          rw [hupdate, Function.update_of_ne (by omega), hpc] at hpc'
          simp at hpc'
        · exact hu
      · have hst := (hrep.state _).symm.trans hrun
        exact ((Moves.exec hq hst ha hexec).not_attaches hq' hpc hpc').elim

/-- The thread of the initial program gets its identifier `0` and is found. -/
theorem lookup_of_noStaleRow_first : ∃ M, CleanReachable 1 Layout.sample M ∧
    M.pc 2 = .attached 0 none ∧ threadGetThreadEntryByPid M.kernel 0 = some 2 := by
  have hrun : (Machine.startup.runs Layout.sample 0 [none, some .boot, some (.alloc false),
      some (.fill []), some .create, some .run, some (.joinEnter 0), some .joinRound, none]).any
      (fun M => M.tid 0 = 2 ∧ M.pc 2 = .start 0 none ∧ M.slot (M.self 2) = some 0 ∧
        (M.kernel.threadTable 2).state = .running ∧ (M.stepAttach 0).isSome ∧
        (M.kernel.threadTable 0).processId = -1 ∧ (M.kernel.threadTable 1).processId = -1) := by
    decide +kernel
  obtain ⟨M, hM, heq⟩ := (Option.any_eq_true _ _).mp hrun
  obtain ⟨htid, hpc, hslot, hst, hattach, h₀, h₁⟩ := of_decide_eq_true heq
  have hreach := CleanReachable.runs Nat.one_pos (by simp) (CleanReachable.startup 1 _) hM
  obtain ⟨M', hM'⟩ := Option.isSome_iff_exists.mp hattach
  obtain ⟨pid, sem, hpc₁, hpc', hself, hhist, -⟩ := stepAttach_cases hM'
  rw [htid] at hpc₁ hpc'
  obtain ⟨rfl, rfl⟩ : pid = 0 ∧ sem = none := by simpa [hpc] using hpc₁.symm
  have hattached : M'.pc 2 = .attached 0 none := by rw [hpc', Function.update_self]
  have hclean : NoStaleRow M M' := by
    intro t pid sem ht ht' u hpos hlt
    by_cases htwo : t = 2
    · subst htwo
      obtain rfl | rfl : u = 0 ∨ u = 1 := by omega
      · rw [h₀]; omega
      · rw [h₁]; omega
    · rw [hpc', Function.update_of_ne htwo, ht] at ht'
      simp at ht'
  have hreach' : CleanReachable 1 Layout.sample M' := Relation.ReflTransGen.tail hreach
    ⟨Step.proc .attach Nat.one_pos (by rw [htid]; exact hst) hM', hclean⟩
  have hslot' : M'.slot (M'.self 2) = some 0 := by rw [hself, hhist]; exact hslot
  obtain ⟨q, hq⟩ := hreach'.procInv
  have hlive := (hq.thread.ok 2).live_of_user (by rw [hattached]; trivial) (by rw [hattached]; trivial)
  exact ⟨M', hreach', hattached, ((lookup_of_noStaleRow hreach').1 _ 2 0 hlive hslot'
    (by rw [hattached]; trivial) rfl).1⟩

/-- The initial program, in slot `0` and thread `2`, spawns a process in slot `1` and thread `3`
and joins it. The next process it spawns gets slot `1` again, but thread `4`, and the lookup
returns row `3`, which is free. -/
theorem lookup_stale_row : ∃ M, Reachable 1 Layout.sample M ∧ M.Live 3 ∧ M.slot 3 = some 1 ∧
    M.pc 4 = .attached 1 none ∧ M.self 4 = 3 ∧
    threadGetThreadEntryByPid M.kernel 1 = some 3 ∧ (M.kernel.threadTable 3).state = .free := by
  have hrun : (Machine.startup.runs Layout.sample 0
      [none, some .boot, some (.alloc false), some (.fill []), some .create, some .run,
        some (.joinEnter 0), some .joinRound, none, some .attach, some (.map 1 0),
        some (.alloc false), some (.fill []), some .create, some .run, some (.joinEnter 1),
        some .joinRound, none, some .attach, some (.map 2 0), some (.finish 7), some .die, none,
        some .joinRound, some (.alloc false), some (.fill []), some .create, some .run, none,
        some .attach]).any fun M => M.fresh = 4 ∧ M.exit 3 = none ∧ M.slot 3 = some 1 ∧
          M.pc 4 = .attached 1 none ∧ M.self 4 = 3 ∧
          threadGetThreadEntryByPid M.kernel 1 = some 3 ∧
          (M.kernel.threadTable 3).state = .free := by decide +kernel
  obtain ⟨M, hM, heq⟩ := (Option.any_eq_true _ _).mp hrun
  obtain ⟨hfresh, hexit, hslot, hpc, hself, hlookup, hst⟩ := of_decide_eq_true heq
  exact ⟨M, (Reachable.startup 1 Layout.sample).runs Nat.one_pos hM,
    ⟨by omega, by rw [hfresh]; omega, hexit⟩, hslot, hpc, hself, hlookup, hst⟩

end Osm.Proc
