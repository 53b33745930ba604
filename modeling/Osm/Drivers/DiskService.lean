import Osm.Drivers.DiskRuns

/-!
# The service of the disk driver

In every state of every run the requests have been given to the device in the order of the queue,
one at a time, and what is queued can always be handled to its end.
-/

namespace Osm.Drivers

open Osm.Core Osm.Kernel DiskRealDevice DiskSystem

variable {M M' : DiskSystem} {l : List UInt32} {r : UInt32} {sem : Sem}

/-- The driver serves the requests in the order in which they have been queued. -/
structure ServesInOrder (M : DiskSystem) : Prop where
  /-- The queue is finite, and what is in it has not been given to the device yet. -/
  queue     : ∃ l, M.toDiskRealDevice.Queue l ∧ l.Nodup ∧ M.queued = M.issued ++ l.map M.job
  once      : (M.queued.map Job.call).Nodup
  /-- The device has at most one command that it has not completed. -/
  inService : M.busy = false ∧ M.issued = M.completed ∨
    ∃ job, M.busy = true ∧ M.issued = M.completed ++ [job]
  /-- The semaphores are raised after the completion of their requests. -/
  raised    : M.irq = false ∧ M.completed = M.raised ∨
    ∃ job, M.irq = true ∧ M.completed = M.raised ++ [job]
  /-- The device and the interrupt handler can handle everything that is queued. -/
  drains    : ∃ M', DiskRun M M' ∧ M'.queued = M.queued ∧ M'.issued = M.queued ∧
    M'.raised = M.queued
  /-- A synchronous call has returned 1, after its request was completed. -/
  returned  : ∀ call ret, (call, ret) ∈ M.returned → ret = 1 ∧ call ∈ M.completed.map Job.call
  /-- Besides those of others, there is one semaphore for each synchronous call. -/
  reserved  : {sem | (M.semaphoreTable sem).creator ≠ -1}.ncard =
    M.others.card + {r | (M.pc r).Sync}.ncard
  /-- No assertion fails. -/
  submits   : M.slock = false → ∀ r sync, M.pc r = .submitting sync →
    ∃ fuel res, diskQueueRequest fuel M.toDiskRealDevice r = some res
  handles   : M.slock = false → ∃ res, diskInterruptHandle M.toDiskRealDevice = some res
  advances  : M.slock = true → ∃ res, diskInterruptNext M.toDiskRealDevice = some res

namespace DiskInv

/-! ### No assertion fails -/

lemma submits (h : DiskInv M l) (hslock : M.slock = false) {sync : Bool}
    (hpc : M.pc r = .submitting sync) :
    ∃ fuel res, diskQueueRequest fuel M.toDiskRealDevice r = some res := by
  have hok := h.calls r
  rw [hpc] at hok
  have hfresh := fresh_of_submitting hok
  obtain ⟨fuel, d, given, hexec, -⟩ := diskQueueRequest_spec h.queue.queue hfresh.ne_zero
    (fun hmem => hfresh.notMem (List.mem_append_right _ hmem)) hfresh.next fun hzero =>
      ⟨h.queue.idle hslock hzero, (h.queue.idle_device (serving_of_zero hzero)).1⟩
  exact ⟨fuel, (d, given), hexec⟩

lemma sem_of_pending (h : DiskInv M l) (hmem : r ∈ M.serving ++ l) :
    ∃ sem, (M.requests r).sem = some sem := by
  rcases h.pending_cases hmem with ⟨-, sem, hsem, -⟩ | ⟨-, sem, hsem, -⟩ | ⟨-, sem, hsem, -⟩ <;>
    exact ⟨sem, hsem⟩

/-- The handler finds the request that the device has completed. -/
lemma handles_irq (h : DiskInv M l) (hirq : M.irq = true) : M.serving = [M.requestServed] ∧
    ∃ d sem, diskInterruptHandle M.toDiskRealDevice = some (d, some sem) := by
  have hone : M.serving = [M.requestServed] := (ite_eq_or_eq ..).resolve_left (h.queue.irq hirq)
  have hserved : M.requestServed ≠ 0 := by
    intro hzero
    rw [serving_of_zero hzero] at hone
    cases hone
  obtain ⟨sem, hsem⟩ := h.sem_of_pending (r := M.requestServed) (by
    rw [hone]
    exact List.mem_cons_self)
  have hnot : ¬ M.irq = false := fun hfalse => Bool.false_ne_true (hfalse.symm.trans hirq)
  refine ⟨hone, ?_⟩
  simp only [diskInterruptHandle, if_neg hnot, if_neg hserved, hsem]
  exact ⟨_, sem, rfl⟩

lemma handles (h : DiskInv M l) : ∃ res, diskInterruptHandle M.toDiskRealDevice = some res := by
  cases hirq : M.irq with
  | false => exact ⟨_, if_pos hirq⟩
  | true =>
    obtain ⟨-, d, sem, hexec⟩ := h.handles_irq hirq
    exact ⟨_, hexec⟩

lemma advances (h : DiskInv M l) (hslock : M.slock = true) :
    ∃ d given, diskInterruptNext M.toDiskRealDevice = some (d, given) := by
  have hbusy := (h.queue.idle_device (serving_of_slock hslock)).1
  rcases diskNextRequest_spec (d := { M.toDiskRealDevice with requestServed := 0 }) h.queue.queue
    hbusy rfl with ⟨-, hexec⟩ | ⟨-, -, d, -, hexec, -⟩
  · exact ⟨_, _, hexec⟩
  · exact ⟨_, _, hexec⟩

/-! ### What is queued is handled -/

/-- `semaphore_V` finds the thread that it wakes. -/
lemma exists_wakes (h : DiskInv M l) (hmem : r ∈ M.serving ++ l)
    (hsem : (M.requests r).sem = some sem) : ∃ woken, M.Wakes sem woken := by
  rcases h.pending_cases hmem with ⟨-, s, hs, -, hvalue⟩ | ⟨-, s, hs, hin⟩ | ⟨hpc, s, hs, -, hvalue⟩
  · cases hsem.symm.trans hs
    refine ⟨none, fun hle => ?_⟩
    rw [hvalue] at hle
    exact absurd hle (by decide)
  · cases hsem.symm.trans hs
    refine ⟨none, fun _ x hasleep hx => ?_⟩
    have hok := h.calls x
    rw [hasleep] at hok
    obtain ⟨-, s', hs', hnotMem, -⟩ := hok
    cases hx.symm.trans hs'
    exact hnotMem hin
  · cases hsem.symm.trans hs
    refine ⟨some r, ?_, hpc, hsem⟩
    rw [hvalue]
    decide

/-- The handler raises the semaphore of a request that is completed. -/
lemma exists_interrupt (h : DiskInv M l) (hslock : M.slock = false) (hirq : M.irq = true) :
    ∃ M', DiskStep M M' ∧ DiskInv M' l ∧ M'.slock = true ∧ M'.queued = M.queued := by
  obtain ⟨hone, d, sem, hexec⟩ := h.handles_irq hirq
  have hmem : M.requestServed ∈ M.serving ++ l := by
    rw [hone]
    exact List.mem_cons_self
  have hsem := (@QueueInv.handle M l d h.queue M.pc M.semaphoreTable sem hslock hexec).2.1
  obtain ⟨woken, hwakes⟩ := h.exists_wakes hmem hsem
  obtain ⟨pc, -, hraise⟩ := h.raise_spec hmem hsem hwakes
  refine ⟨_, .interrupt hslock hexec hwakes, h.interrupt hslock hexec hwakes, rfl, ?_⟩
  show (M.raise _ _ _).queued = M.queued
  rw [hraise]

/-- The device completes its command, and the handler raises the semaphore. -/
lemma exists_handled (h : DiskInv M l) (hslock : M.slock = false) (hserving : M.serving ≠ []) :
    ∃ M', DiskRun M M' ∧ DiskInv M' l ∧ M'.slock = true ∧ M'.queued = M.queued := by
  cases hirq : M.irq with
  | true =>
    obtain ⟨M', hstep, h'⟩ := h.exists_interrupt hslock hirq
    exact ⟨M', .single hstep, h'⟩
  | false =>
    have hbusy : M.busy = true := h.queue.busy.mpr ⟨hserving, hirq⟩
    obtain ⟨job, hlast⟩ : ∃ job, M.issued.getLast? = some job := by
      have hone : M.serving = [M.requestServed] := (ite_eq_or_eq ..).resolve_left hserving
      rw [h.queue.issued, hone, List.map_singleton, List.getLast?_concat]
      exact ⟨_, rfl⟩
    obtain ⟨M', hstep, h'⟩ := (h.complete hbusy hlast).exists_interrupt hslock rfl
    exact ⟨M', .tail (.single (.complete hbusy hlast)) hstep, h'⟩

/-- From `semaphore_V` on, everything that is in the queue is handled; the induction is on its
length. -/
lemma exists_drained (h : DiskInv M l) (hslock : M.slock = true) : ∃ M', DiskRun M M' ∧
    M'.queued = M.queued ∧ M'.issued = M.queued ∧ M'.raised = M.queued := by
  induction l generalizing M with
  | nil =>
    have hserving : M.serving = [] := serving_of_slock hslock
    have hqueued := h.queue.queued
    have hissued := h.queue.issued
    rw [hserving] at hqueued hissued
    have hraised : M.raised = M.queued := (hqueued.trans (List.append_nil _)).symm
    exact ⟨M, .refl, rfl, hissued.trans ((List.append_nil _).trans hraised), hraised⟩
  | cons q l ih =>
    obtain ⟨d, given, hexec⟩ := h.advances hslock
    obtain ⟨l', hpending, h₁⟩ := h.advance hslock hexec
    have hqueued₁ : (M.setDevice d given).queued = M.queued := by
      cases given <;> rfl
    set M₁ : DiskSystem := { M.setDevice d given with slock := false }
    have hserving : M₁.serving ≠ [] := by
      intro hnil
      have hzero : M₁.requestServed = 0 := by
        by_contra hne
        rw [serving_of_ne rfl hne] at hnil
        cases hnil
      rw [hnil, h₁.queue.idle rfl hzero] at hpending
      cases hpending
    have hl : l' = l := by
      have hone : M₁.serving = [M₁.requestServed] := (ite_eq_or_eq ..).resolve_left hserving
      rw [hone] at hpending
      exact (List.cons.inj hpending).2
    subst hl
    obtain ⟨M₂, hrun₂, h₂, hslock₂, hqueued₂⟩ := h₁.exists_handled rfl hserving
    obtain ⟨M₃, hrun₃, hqueued₃, hissued₃, hraised₃⟩ := ih h₂ hslock₂
    have hqueued : M₂.queued = M.queued := hqueued₂.trans hqueued₁
    exact ⟨M₃, .trans (.head (.next hslock hexec) hrun₂) hrun₃, hqueued₃.trans hqueued,
      hissued₃.trans hqueued, hraised₃.trans hqueued⟩

lemma drains (h : DiskInv M l) : ∃ M', DiskRun M M' ∧ M'.queued = M.queued ∧
    M'.issued = M.queued ∧ M'.raised = M.queued := by
  cases hslock : M.slock with
  | true => exact h.exists_drained hslock
  | false =>
    by_cases hserving : M.serving = []
    · have hzero : M.requestServed = 0 := by
        by_contra hne
        rw [serving_of_ne hslock hne] at hserving
        cases hserving
      have hqueued := h.queue.queued
      have hissued := h.queue.issued
      rw [hserving, h.queue.idle hslock hzero] at hqueued
      rw [hserving] at hissued
      have hraised : M.raised = M.queued := (hqueued.trans (List.append_nil _)).symm
      exact ⟨M, .refl, rfl, hissued.trans ((List.append_nil _).trans hraised), hraised⟩
    · obtain ⟨M₁, hrun, h₁, hslock₁, hqueued⟩ := h.exists_handled hslock hserving
      rw [← hqueued]
      obtain ⟨M₂, hrun', hdrained⟩ := h₁.exists_drained hslock₁
      exact ⟨M₂, hrun.trans hrun', hdrained⟩

/-! ### The semaphores -/

lemma exists_sem (h : DiskInv M l) (hsync : (M.pc r).Sync) :
    ∃ sem, (M.requests r).sem = some sem ∧ sem ∉ M.others := by
  have hok := h.calls r
  cases hpc : M.pc r with
  | outside => exact absurd hpc hsync.ne_outside
  | submitting sync =>
    rw [hpc] at hok hsync
    obtain rfl : sync = true := hsync
    obtain ⟨-, sem, hsem, hin, -⟩ := hok
    exact ⟨sem, hsem, hin⟩
  | submitted sync =>
    rw [hpc] at hok hsync
    obtain rfl : sync = true := hsync
    rcases hok with ⟨-, sem, hsem, hin, -⟩ | ⟨-, sem, hsem, hin, -⟩
    · exact ⟨sem, hsem, hin⟩
    · exact ⟨sem, hsem, hin⟩
  | asleep =>
    rw [hpc] at hok
    obtain ⟨-, sem, hsem, hin, -⟩ := hok
    exact ⟨sem, hsem, hin⟩
  | woken =>
    rw [hpc] at hok
    obtain ⟨-, sem, hsem, hin, -⟩ := hok
    exact ⟨sem, hsem, hin⟩

/-- There are as many semaphores of synchronous calls as there are such calls. -/
lemma ncard_owned (h : DiskInv M l) :
    {sem | M.Owned sem}.ncard = {r | (M.pc r).Sync}.ncard := by
  have himage : some '' {sem | M.Owned sem} =
      (fun r => (M.requests r).sem) '' {r | (M.pc r).Sync} := by
    ext s
    constructor
    · rintro ⟨sem, ⟨r, hr, hsem⟩, rfl⟩
      exact ⟨r, hr, hsem⟩
    · rintro ⟨r, hr, rfl⟩
      obtain ⟨sem, hsem, -⟩ := h.exists_sem hr
      exact ⟨sem, ⟨r, hr, hsem⟩, hsem.symm⟩
  have hinj : Set.InjOn (fun r => (M.requests r).sem) {r | (M.pc r).Sync} := by
    intro r hr r' hr' heq
    obtain ⟨sem, hsem, -⟩ := h.exists_sem hr
    exact h.owners.unique r r' sem hr hr' hsem (heq.symm.trans hsem)
  rw [← hinj.ncard_image, ← himage,
    Set.ncard_image_of_injective _ (Option.some_injective _)]

lemma ncard_reserved (h : DiskInv M l) :
    {sem | (M.semaphoreTable sem).creator ≠ -1}.ncard =
      M.others.card + {r | (M.pc r).Sync}.ncard := by
  have hunion : {sem | (M.semaphoreTable sem).creator ≠ -1} =
      (M.others : Set Sem) ∪ {sem | M.Owned sem} := Set.ext h.owners.reserved
  have hdisjoint : Disjoint (M.others : Set Sem) {sem | M.Owned sem} := by
    rw [Set.disjoint_left]
    rintro sem hmem ⟨r, hr, hsem⟩
    obtain ⟨sem', hsem', hin⟩ := h.exists_sem hr
    cases hsem.symm.trans hsem'
    exact hin hmem
  rw [hunion, Set.ncard_union_eq hdisjoint (Set.toFinite _) (Set.toFinite _), h.ncard_owned,
    Set.ncard_coe_finset]

lemma servesInOrder (h : DiskInv M l) : ServesInOrder M where
  queue := by
    refine ⟨l, h.queue.queue, h.queue.queue.nodup, ?_⟩
    rw [h.queue.queued, h.queue.issued, List.map_append, List.append_assoc]
  once := h.numbers.once
  inService := by
    have hissued := h.queue.issued
    have hcompleted := h.queue.completed
    cases hbusy : M.busy with
    | true =>
      obtain ⟨hserving, hirq⟩ := h.queue.busy.mp hbusy
      have hone : M.serving = [M.requestServed] := (ite_eq_or_eq ..).resolve_left hserving
      rw [hirq] at hcompleted
      rw [hone] at hissued
      exact .inr ⟨M.job M.requestServed, rfl,
        hissued.trans (congrArg (· ++ _) (hcompleted.trans (List.append_nil _)).symm)⟩
    | false =>
      refine .inl ⟨rfl, hissued.trans ?_⟩
      rw [hcompleted]
      split_ifs with hirq
      · rfl
      · have hserving : M.serving = [] := by
          by_contra hne
          have htrue := h.queue.busy.mpr ⟨hne, Bool.eq_false_of_not_eq_true hirq⟩
          exact Bool.false_ne_true (hbusy.symm.trans htrue)
        rw [hserving]
        rfl
  raised := by
    have hcompleted := h.queue.completed
    cases hirq : M.irq with
    | true =>
      have hone : M.serving = [M.requestServed] :=
        (ite_eq_or_eq ..).resolve_left (h.queue.irq hirq)
      rw [hirq, hone] at hcompleted
      exact .inr ⟨M.job M.requestServed, rfl, hcompleted⟩
    | false =>
      rw [hirq] at hcompleted
      exact .inl ⟨rfl, hcompleted.trans (List.append_nil _)⟩
  drains := h.drains
  returned call ret hentry := by
    obtain ⟨hret, hmem⟩ := h.returned (call, ret) hentry
    refine ⟨hret, ?_⟩
    rw [h.queue.completed, List.map_append]
    exact List.mem_append_left _ hmem
  reserved := h.ncard_reserved
  submits hslock _ _ hpc := h.submits hslock hpc
  handles _ := h.handles
  advances hslock := by
    obtain ⟨d, given, hexec⟩ := h.advances hslock
    exact ⟨(d, given), hexec⟩

end DiskInv

/-- In every run of the calls, the device and the interrupt handler the driver serves the requests
in the order in which they have been queued. -/
theorem diskRun_servesInOrder (h : M.Start) (hrun : DiskRun M M') : ServesInOrder M' := by
  obtain ⟨l, hinv⟩ := diskInv_run h hrun
  exact hinv.servesInOrder

/-- An idle device; all requests read block 5, and no semaphore is reserved. -/
def DiskSystem.sample : DiskSystem where
  requests       := fun _ => ⟨5, 0x1000, none, .read, 0, 0⟩
  requestQueue   := 0
  requestServed  := 0
  busy           := false
  irq            := false
  tsector        := 0
  dmaaddr        := 0
  command        := .read
  slock          := false
  semaphoreTable := fun _ => ⟨0, -1⟩
  pc             := fun _ => .outside
  call           := fun _ => 0
  calls          := 0
  queued         := []
  issued         := []
  completed      := []
  raised         := []
  returned       := []
  others         := ∅

lemma sample_start : DiskSystem.sample.Start where
  requestQueue  := rfl
  requestServed := rfl
  busy          := rfl
  irq           := rfl
  slock         := rfl
  pc _          := rfl
  queued        := rfl
  issued        := rfl
  completed     := rfl
  raised        := rfl
  returned      := rfl
  others sem    := iff_of_false (Finset.notMem_empty sem) (not_not.mpr rfl)

/-- Three synchronous calls. The second and the third one queue their requests while the first one is
in service, and the first one has returned. -/
lemma exists_sampleRun : ∃ M, DiskRun DiskSystem.sample M ∧
    M.queued.map Job.call = [0, 1, 2] ∧ M.raised.map Job.call = [0, 1] ∧ M.returned = [(0, 1)] := by
  have h₁ : DiskRun DiskSystem.sample _ :=
    .single (@DiskStep.submitSync _ 0x2000 .read 0 1 (by decide) rfl rfl rfl (by decide))
  have h₂ := h₁.tail (@DiskStep.queue _ 0x2000 _ 0 _ _ rfl rfl rfl)
  have h₃ := h₂.tail (@DiskStep.submitSync _ 0x3000 .read 1 1 (by decide) rfl rfl rfl (by decide))
  have h₄ := h₃.tail (@DiskStep.submitSync _ 0x4000 .read 2 1 (by decide) rfl rfl rfl (by decide))
  have h₅ := h₄.tail (@DiskStep.queue _ 0x3000 _ 2 _ _ rfl rfl rfl)
  have h₆ := h₅.tail (@DiskStep.queue _ 0x4000 _ 2 _ _ rfl rfl rfl)
  have h₇ := h₆.tail (.complete rfl rfl)
  have h₈ := h₇.tail (@DiskStep.lower _ 0x2000 0 rfl rfl)
  have h₉ := h₈.tail (@DiskStep.interrupt _ _ 0 (some 0x2000) rfl rfl ⟨by decide, rfl, rfl⟩)
  have h₁₀ := h₉.tail (.next rfl rfl)
  have h₁₁ := h₁₀.tail (@DiskStep.return _ 0x2000 0 rfl rfl)
  have h₁₂ := h₁₁.tail (.complete rfl rfl)
  have h₁₃ := h₁₂.tail (@DiskStep.interrupt _ _ 1 none rfl rfl
    fun h => absurd h (by decide))
  exact ⟨_, h₁₃, rfl, rfl, rfl⟩

theorem diskRun_servesInOrder_sample :
    ∃ M, DiskRun DiskSystem.sample M ∧ M.queued.map Job.call = [0, 1, 2] ∧
      M.raised.map Job.call = [0, 1] ∧ M.returned = [(0, 1)] ∧ ServesInOrder M := by
  obtain ⟨M, hrun, hqueued, hraised, hreturned⟩ := exists_sampleRun
  exact ⟨M, hrun, hqueued, hraised, hreturned, diskRun_servesInOrder sample_start hrun⟩

end Osm.Drivers
