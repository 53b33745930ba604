import Osm.Drivers.DiskQueue
import Mathlib.Data.Set.Card

/-!
# The requests of the disk driver

What holds in every interleaving of the calls, the device and the interrupt handler. What has been
queued is what has been raised, followed by the request that is served and by the queue; the device
is idle only when there are neither. A synchronous call has a semaphore of its own, whose value says
whether the request has been handled.
-/

namespace Osm.Drivers

open Osm.Core Osm.Kernel DiskRealDevice

variable {M M' : DiskSystem} {l l' : List UInt32} {r : UInt32} {sem : Sem} {d : DiskRealDevice}
variable {given : Bool}

/-! ### The invariant -/

namespace DiskSystem

/-- The request that is served. From `semaphore_V` on there is none any more. -/
def serving (M : DiskSystem) : List UInt32 :=
  if M.slock = true ∨ M.requestServed = 0 then [] else [M.requestServed]

/-- A call that has not queued its request; these requests are pending. -/
structure Fresh (M : DiskSystem) (pending : List UInt32) (r : UInt32) : Prop where
  notMem  : r ∉ pending
  ne_zero : r ≠ 0
  next    : (M.requests r).next = 0
  call    : M.call r ∉ M.queued.map Job.call

/-- The request of a call has been handled. -/
structure Done (M : DiskSystem) (pending : List UInt32) (r : UInt32) : Prop where
  notMem      : r ∉ pending
  returnValue : (M.requests r).returnValue = 0
  raised      : M.call r ∈ M.raised.map Job.call

/-- A call has a semaphore with this value that is not one of the others. -/
def OwnSem (M : DiskSystem) (r : UInt32) (value : ℤ) : Prop :=
  ∃ sem, (M.requests r).sem = some sem ∧ sem ∉ M.others ∧ (M.semaphoreTable sem).value = value

/-- A call has the semaphore of someone else. -/
def OthersSem (M : DiskSystem) (r : UInt32) : Prop :=
  ∃ sem, (M.requests r).sem = some sem ∧ sem ∈ M.others

/-- A call is pending until its semaphore is raised. -/
def CallOk (M : DiskSystem) (pending : List UInt32) (r : UInt32) : SubmitPc → Prop
  | .outside          => r ∉ pending
  | .submitting true  => M.Fresh pending r ∧ M.OwnSem r 0
  | .submitting false => M.Fresh pending r ∧ M.OthersSem r
  | .submitted true   => r ∈ pending ∧ M.OwnSem r 0 ∨ M.Done pending r ∧ M.OwnSem r 1
  | .submitted false  => r ∈ pending ∧ M.OthersSem r
  | .asleep           => r ∈ pending ∧ M.OwnSem r (-1)
  | .woken            => M.Done pending r ∧ M.OwnSem r 0

end DiskSystem

open DiskSystem

/-- The queue, the device and what has been recorded of them agree. -/
structure QueueInv (M : DiskSystem) (l : List UInt32) : Prop where
  queue     : M.toDiskRealDevice.Queue l
  nodup     : (M.serving ++ l).Nodup
  idle      : M.slock = false → M.requestServed = 0 → l = []
  busy      : M.busy = true ↔ M.serving ≠ [] ∧ M.irq = false
  irq       : M.irq = true → M.serving ≠ []
  queued    : M.queued = M.raised ++ (M.serving ++ l).map M.job
  issued    : M.issued = M.raised ++ M.serving.map M.job
  completed : M.completed = M.raised ++ if M.irq = true then M.serving.map M.job else []

/-- Every call has a number of its own. -/
structure NumberInv (M : DiskSystem) : Prop where
  lt        : ∀ r, M.pc r ≠ .outside → M.call r < M.calls
  injective : ∀ r r', M.pc r ≠ .outside → M.pc r' ≠ .outside → M.call r = M.call r' → r = r'
  queued    : ∀ job ∈ M.queued, job.call < M.calls
  once      : (M.queued.map Job.call).Nodup

/-- A semaphore is reserved by others or by a single synchronous call. -/
structure OwnerInv (M : DiskSystem) : Prop where
  reserved : ∀ sem, (M.semaphoreTable sem).creator ≠ -1 ↔ sem ∈ M.others ∨ M.Owned sem
  unique   : ∀ r r' sem, (M.pc r).Sync → (M.pc r').Sync → (M.requests r).sem = some sem →
    (M.requests r').sem = some sem → r = r'

structure DiskInv (M : DiskSystem) (l : List UInt32) : Prop where
  queue    : QueueInv M l
  calls    : ∀ r, M.CallOk (M.serving ++ l) r (M.pc r)
  numbers  : NumberInv M
  owners   : OwnerInv M
  returned : ∀ entry ∈ M.returned, entry.2 = 1 ∧ entry.1 ∈ M.raised.map Job.call

/-! ### What a step leaves alone -/

/-- The step does not concern the call with a request. -/
structure Leaves (M M' : DiskSystem) (l l' : List UInt32) (r : UInt32) : Prop where
  pc          : M'.pc r = M.pc r
  mem         : r ∈ l' ↔ r ∈ l
  call        : M'.call r = M.call r
  sem         : M.pc r ≠ .outside → (M'.requests r).sem = (M.requests r).sem
  returnValue : M.pc r ≠ .outside → (M'.requests r).returnValue = (M.requests r).returnValue
  next        : M.pc r ≠ .outside → r ∉ l → (M'.requests r).next = (M.requests r).next
  queued      : M.pc r ≠ .outside → M.call r ∉ M.queued.map Job.call →
    M.call r ∉ M'.queued.map Job.call
  raised      : M.raised ⊆ M'.raised
  own         : (M.pc r).Sync → ∀ sem, (M.requests r).sem = some sem → sem ∉ M.others →
    sem ∉ M'.others ∧ (M'.semaphoreTable sem).value = (M.semaphoreTable sem).value
  others      : M.pc r ≠ .outside → ∀ sem, (M.requests r).sem = some sem → sem ∈ M.others →
    sem ∈ M'.others

namespace Leaves

lemma fresh (h : Leaves M M' l l' r) (hin : M.pc r ≠ .outside) (hfresh : M.Fresh l r) :
    M'.Fresh l' r where
  notMem  := mt h.mem.mp hfresh.notMem
  ne_zero := hfresh.ne_zero
  next    := (h.next hin hfresh.notMem).trans hfresh.next
  call    := h.call.symm ▸ h.queued hin hfresh.call

lemma done (h : Leaves M M' l l' r) (hin : M.pc r ≠ .outside) (hdone : M.Done l r) :
    M'.Done l' r where
  notMem      := mt h.mem.mp hdone.notMem
  returnValue := (h.returnValue hin).trans hdone.returnValue
  raised      := h.call.symm ▸ List.map_subset _ h.raised hdone.raised

lemma ownSem (h : Leaves M M' l l' r) (hin : M.pc r ≠ .outside) (hsync : (M.pc r).Sync) {value : ℤ}
    (hown : M.OwnSem r value) : M'.OwnSem r value := by
  obtain ⟨sem, hsem, hothers, rfl⟩ := hown
  obtain ⟨hothers', hvalue⟩ := h.own hsync sem hsem hothers
  exact ⟨sem, (h.sem hin).trans hsem, hothers', hvalue⟩

lemma othersSem (h : Leaves M M' l l' r) (hin : M.pc r ≠ .outside) (hothers : M.OthersSem r) :
    M'.OthersSem r := by
  obtain ⟨sem, hsem, hmem⟩ := hothers
  exact ⟨sem, (h.sem hin).trans hsem, h.others hin sem hsem hmem⟩

lemma callOk (h : Leaves M M' l l' r) (hok : M.CallOk l r (M.pc r)) :
    M'.CallOk l' r (M'.pc r) := by
  have hfresh := h.fresh
  have hdone := h.done
  have hown := @h.ownSem
  have hothers := h.othersSem
  rw [h.pc]
  cases hpc : M.pc r with
  | outside =>
    rw [hpc] at hok
    exact mt h.mem.mp hok
  | submitting sync =>
    rw [hpc] at hok hfresh hown hothers
    cases sync with
    | true => exact hok.imp (hfresh nofun) (hown nofun rfl)
    | false => exact hok.imp (hfresh nofun) (hothers nofun)
  | submitted sync =>
    rw [hpc] at hok hdone hown hothers
    cases sync with
    | true =>
      exact hok.imp (.imp h.mem.mpr (hown nofun rfl)) (.imp (hdone nofun) (hown nofun rfl))
    | false => exact hok.imp h.mem.mpr (hothers nofun)
  | asleep =>
    rw [hpc] at hok hown
    exact hok.imp h.mem.mpr (hown nofun trivial)
  | woken =>
    rw [hpc] at hok hdone hown
    exact hok.imp (hdone nofun) (hown nofun trivial)

end Leaves

lemma Leaves.of_requests (hpc : M'.pc r = M.pc r) (hmem : r ∈ l' ↔ r ∈ l)
    (hcall : M'.call r = M.call r) (hreq : M.pc r ≠ .outside → M'.requests r = M.requests r)
    (hqueued : M'.queued = M.queued) (hraised : M'.raised = M.raised)
    (hothers : M'.others = M.others)
    (hrow : (M.pc r).Sync → ∀ sem, (M.requests r).sem = some sem → sem ∉ M.others →
      M'.semaphoreTable sem = M.semaphoreTable sem) : Leaves M M' l l' r where
  pc := hpc
  mem := hmem
  call := hcall
  sem hin := congrArg _ (hreq hin)
  returnValue hin := congrArg _ (hreq hin)
  next hin _ := congrArg _ (hreq hin)
  queued _ := by
    rw [hqueued]
    exact id
  raised := by
    rw [hraised]
    exact List.Subset.refl _
  own hsync sem hsem hmem := by
    rw [hothers, hrow hsync sem hsem hmem]
    exact ⟨hmem, rfl⟩
  others _ sem _ hmem := by
    rw [hothers]
    exact hmem

/-! ### The queue -/

namespace DiskSystem

lemma serving_of_slock (h : M.slock = true) : M.serving = [] := if_pos (.inl h)

lemma serving_of_zero (h : M.requestServed = 0) : M.serving = [] := if_pos (.inr h)

lemma serving_of_ne (hslock : M.slock = false) (h : M.requestServed ≠ 0) :
    M.serving = [M.requestServed] :=
  if_neg (not_or.mpr ⟨ne_true_of_eq_false hslock, h⟩)

end DiskSystem

/-- What is to be done for a request does not depend on its link. -/
lemma job_congr {x : UInt32} (hcall : M'.call x = M.call x)
    (h : (M'.requests x).unlinked = (M.requests x).unlinked) : M'.job x = M.job x := by
  have hsem := congrArg (·.sem) h
  have hblock := congrArg (·.block) h
  have hbuf := congrArg (·.buf) h
  have hoperation := congrArg (·.operation) h
  simp only [GbdRequest.unlinked] at hsem hblock hbuf hoperation
  simp [job, hcall, hsem, hblock, hbuf, hoperation]

lemma map_job_congr (h : ∀ x ∈ l, M'.call x = M.call x ∧
    (M'.requests x).unlinked = (M.requests x).unlinked) : l.map M'.job = l.map M.job :=
  List.map_congr_left fun x hx => job_congr (h x hx).1 (h x hx).2

namespace QueueInv

/-- The driver does nothing, and no pending request changes. -/
lemma frame (h : QueueInv M l) {requests semaphoreTable pc call calls returned others}
    (hsame : ∀ x ∈ M.serving ++ l, requests x = M.requests x ∧ call x = M.call x) :
    QueueInv { M with
      toDiskRealDevice := { M.toDiskRealDevice with requests }
      semaphoreTable, pc, call, calls, returned, others } l := by
  have hjob : ∀ x ∈ M.serving ++ l, call x = M.call x ∧
      (requests x).unlinked = (M.requests x).unlinked := fun x hx =>
    ⟨(hsame x hx).2, congrArg _ (hsame x hx).1⟩
  set M' : DiskSystem := { M with
      toDiskRealDevice := { M.toDiskRealDevice with requests }
      semaphoreTable, pc, call, calls, returned, others }
  have hserving : M.serving.map M'.job = M.serving.map M.job :=
    map_job_congr fun x hx => hjob x (List.mem_append_left l hx)
  have hpending : (M.serving ++ l).map M'.job = (M.serving ++ l).map M.job := map_job_congr hjob
  exact
    { queue := Linked.congr h.queue fun x hx =>
        congrArg _ (hsame x (List.mem_append_right M.serving hx)).1
      nodup := h.nodup
      idle := h.idle
      busy := h.busy
      irq := h.irq
      queued := h.queued.trans (congrArg _ hpending.symm)
      issued := h.issued.trans (congrArg _ hserving.symm)
      completed := by
        refine h.completed.trans (congrArg _ ?_)
        split_ifs
        · exact hserving.symm
        · rfl }

/-- The device is idle when no request is served. -/
lemma idle_device (h : QueueInv M l) (hserving : M.serving = []) :
    M.busy = false ∧ M.irq = false := by
  constructor
  · exact Bool.eq_false_of_not_eq_true fun hbusy => (h.busy.mp hbusy).1 hserving
  · exact Bool.eq_false_of_not_eq_true fun hirq => h.irq hirq hserving

/-- The device works on a request. -/
lemma serve {q : UInt32} (hslock : M.slock = false) (hserved : M.requestServed = q) (hq : q ≠ 0)
    (hbusy : M.busy = true) (hirq : M.irq = false) (hqueue : M.toDiskRealDevice.Queue l)
    (hnodup : (q :: l).Nodup) (hqueued : M.queued = M.raised ++ (q :: l).map M.job)
    (hissued : M.issued = M.raised ++ [M.job q]) (hcompleted : M.completed = M.raised) :
    M.serving = [q] ∧ QueueInv M l := by
  have hserving : M.serving = [q] := by
    rw [serving_of_ne hslock (hserved.symm ▸ hq), hserved]
  refine ⟨hserving, ?_⟩
  exact
    { queue := hqueue
      nodup := by
        rw [hserving]
        exact hnodup
      idle := fun _ hzero => absurd (hserved.symm.trans hzero) hq
      busy := by simp [hbusy, hirq, hserving]
      irq := fun htrue => absurd (hirq.symm.trans htrue) Bool.false_ne_true
      queued := by
        rw [hserving]
        exact hqueued
      issued := by
        rw [hserving]
        exact hissued
      completed := by simp [hirq, hcompleted] }

/-- A request is put at the end of the queue while another one is served. -/
lemma append (h : QueueInv M l) {pc} (hslock : M.slock = false) (hserved : M.requestServed ≠ 0)
    (hmem : r ∉ M.serving ++ l) {pending : List UInt32}
    (hsame : M.toDiskRealDevice.SameRequests d pending) (hqueue : d.Queue (l ++ [r]))
    (hserved' : d.requestServed = M.requestServed) (hbusy : d.busy = M.busy)
    (hirq : d.irq = M.irq) :
    QueueInv { M with toDiskRealDevice := d, pc, queued := M.queued ++ [M.job r] } (l ++ [r]) := by
  set M' : DiskSystem := { M with toDiskRealDevice := d, pc, queued := M.queued ++ [M.job r] }
  have hserving : M'.serving = M.serving := by
    rw [serving_of_ne hslock hserved]
    exact (serving_of_ne (M := M') hslock (hserved'.symm ▸ hserved)).trans
      (congrArg (fun x => [x]) hserved')
  have hjobs (l : List UInt32) : l.map M'.job = l.map M.job :=
    map_job_congr fun x _ => ⟨rfl, hsame.unlinked x⟩
  exact
    { queue := hqueue
      nodup := by
        rw [hserving, ← List.append_assoc]
        exact List.nodup_append.mpr ⟨h.nodup, List.nodup_singleton r, fun x hx y hy heq =>
          hmem (List.mem_singleton.mp hy ▸ heq ▸ hx)⟩
      idle := fun _ hzero => absurd (hserved'.symm.trans hzero) hserved
      busy := by
        rw [hserving]
        show d.busy = true ↔ _ ∧ d.irq = false
        rw [hbusy, hirq]
        exact h.busy
      irq := fun htrue => hserving ▸ h.irq (hirq.symm.trans htrue)
      queued := by
        rw [hserving, ← List.append_assoc, hjobs, List.map_append, ← List.append_assoc]
        exact congrArg (· ++ [M.job r]) h.queued
      issued := by
        rw [hserving, hjobs]
        exact h.issued
      completed := by
        rw [hserving, hjobs]
        show M.completed = M.raised ++ if d.irq = true then M.serving.map M.job else []
        rw [hirq]
        exact h.completed }

end QueueInv

/-- The device has been told to do what is to be done for the request. -/
lemma told_eq_job {pending : List UInt32} (hsame : M.toDiskRealDevice.SameRequests d pending)
    (hserves : Serves M.toDiskRealDevice d r) :
    ({ M with toDiskRealDevice := d } : DiskSystem).told = M.job r := by
  simp [told, job, hserves.served, hserves.tsector, hserves.dmaaddr, hserves.command, hsame.sem]

namespace QueueInv

/-- A request is queued: it gets behind the pending ones. -/
lemma enqueue (h : QueueInv M l) {fuel : ℕ} {pc} (hslock : M.slock = false)
    (hexec : diskQueueRequest fuel M.toDiskRealDevice r = some (d, given)) (hr : r ≠ 0)
    (hmem : r ∉ M.serving ++ l) (hnext : (M.requests r).next = 0) :
    M.toDiskRealDevice.SameRequests d (l ++ [r]) ∧ ∃ l',
      ({ M.setDevice d given with
        pc, queued := M.queued ++ [M.job r] } : DiskSystem).serving ++ l' = M.serving ++ l ++ [r] ∧
      QueueInv { M.setDevice d given with pc, queued := M.queued ++ [M.job r] } l' := by
  have hmeml : r ∉ l := fun hin => hmem (List.mem_append_right M.serving hin)
  have hidle : M.requestServed = 0 → l = [] ∧ M.busy = false := fun hzero =>
    ⟨h.idle hslock hzero, (h.idle_device (serving_of_zero hzero)).1⟩
  obtain ⟨fuel', d', given', hexec', hsame, hcase⟩ :=
    diskQueueRequest_spec h.queue hr hmeml hnext hidle
  cases diskQueueRequest_unique hexec hexec'
  refine ⟨hsame, ?_⟩
  rcases hcase with ⟨hserved, rfl, hqueue, hserved', hbusy, hirq⟩ | ⟨hserved, rfl, hqueue, hserves⟩
  · -- another request is served
    refine ⟨l ++ [r], ?_, h.append hslock hserved hmem hsame hqueue hserved' hbusy hirq⟩
    rw [serving_of_ne hslock hserved, ← List.append_assoc, serving_of_ne]
    · exact congrArg (fun x => [x] ++ l ++ [r]) hserved'
    · exact hslock
    · exact hserved'.symm ▸ hserved
  · -- the device gets a command for the request
    have hserving : M.serving = [] := serving_of_zero hserved
    obtain rfl := h.idle hslock hserved
    have hqueued := h.queued
    have hissued := h.issued
    have hcompleted := h.completed
    rw [(h.idle_device hserving).2] at hcompleted
    rw [hserving] at hqueued hissued ⊢
    have htold := told_eq_job hsame hserves
    set M' : DiskSystem := { M.setDevice d true with pc, queued := M.queued ++ [M.job r] }
    have hjob : M'.job r = M.job r := job_congr rfl (hsame.unlinked r)
    have hqueued' : M'.queued = M'.raised ++ [r].map M'.job := by
      show M.queued ++ [M.job r] = M.raised ++ [M'.job r]
      rw [hjob, hqueued, List.append_nil, List.map_nil, List.append_nil]
    have hissued' : M'.issued = M'.raised ++ [M'.job r] := by
      show M.issued ++ [_] = M.raised ++ [M'.job r]
      rw [htold, hjob, hissued, List.map_nil, List.append_nil]
    have hcompleted' : M'.completed = M'.raised := hcompleted.trans (List.append_nil _)
    obtain ⟨hserving', hinv⟩ := serve (M := M') hslock hserves.served hr hserves.busy
      (hserves.irq.trans (h.idle_device hserving).2) hqueue (List.nodup_singleton r) hqueued'
      hissued' hcompleted'
    exact ⟨[], by rw [hserving']; rfl, hinv⟩

/-- The device completes the command. -/
lemma complete (h : QueueInv M l) (hbusy : M.busy = true) {job : Job}
    (hlast : M.issued.getLast? = some job) :
    QueueInv { M with busy := false, irq := true, completed := M.completed ++ [job] } l := by
  obtain ⟨hserving, hirq⟩ := h.busy.mp hbusy
  have hone : M.serving = [M.requestServed] := by
    refine (ite_eq_or_eq ..).resolve_left hserving
  have hjob : job = M.job M.requestServed := by
    rw [h.issued, hone, List.map_singleton, List.getLast?_concat] at hlast
    exact (Option.some.inj hlast).symm
  exact
    { queue := h.queue
      nodup := h.nodup
      idle := h.idle
      busy := iff_of_false Bool.false_ne_true fun hfalse => Bool.false_ne_true hfalse.2.symm
      irq := fun _ => hserving
      queued := h.queued
      issued := h.issued
      completed := by
        show M.completed ++ [job] = M.raised ++ M.serving.map M.job
        rw [h.completed, hirq, hone, hjob]
        simp }

/-- The interrupt handler is done with the request that was served. -/
lemma handle (h : QueueInv M l) {pc semaphoreTable} {sem : Sem} (hslock : M.slock = false)
    (hexec : diskInterruptHandle M.toDiskRealDevice = some (d, some sem)) :
    M.serving = [M.requestServed] ∧ (M.requests M.requestServed).sem = some sem ∧
      d = { M.setRequest M.requestServed
        { M.requests M.requestServed with returnValue := 0 } with irq := false } ∧
      QueueInv { M with
        toDiskRealDevice := d
        semaphoreTable, pc, slock := true, raised := M.raised ++ [M.job M.requestServed] } l := by
  rcases diskInterruptHandle_eq_some hexec with ⟨-, -, hnone⟩ | ⟨hirq, hserved, hsem, -, rfl⟩
  · cases hnone
  have hone : M.serving = [M.requestServed] := serving_of_ne hslock hserved
  have hnodup := h.nodup
  rw [hone] at hnodup
  have hmem : M.requestServed ∉ l := (List.nodup_cons.mp hnodup).1
  refine ⟨hone, hsem.symm, rfl, ?_⟩
  set M' : DiskSystem := { M with
    toDiskRealDevice := { M.setRequest M.requestServed
      { M.requests M.requestServed with returnValue := 0 } with irq := false }
    semaphoreTable, pc, slock := true, raised := M.raised ++ [M.job M.requestServed] }
  have hserving : M'.serving = [] := serving_of_slock rfl
  have hrequests : ∀ x ∈ l, M'.requests x = M.requests x := fun x hx =>
    setRequest_of_ne fun heq => hmem (heq ▸ hx)
  have hjobs : l.map M'.job = l.map M.job := map_job_congr fun x hx =>
    ⟨rfl, congrArg _ (hrequests x hx)⟩
  have hqueued := h.queued
  have hissued := h.issued
  have hcompleted := h.completed
  rw [hone] at hqueued hissued hcompleted
  rw [if_pos hirq] at hcompleted
  have hbusy : M.busy = false := Bool.eq_false_of_not_eq_true fun hbusy =>
    Bool.false_ne_true ((h.busy.mp hbusy).2.symm.trans hirq)
  exact
    { queue := Linked.congr h.queue fun x hx => congrArg _ (hrequests x hx)
      nodup := by
        rw [hserving]
        exact (List.nodup_cons.mp hnodup).2
      idle := fun hfalse => absurd hfalse.symm Bool.false_ne_true
      busy := by
        rw [hserving]
        exact iff_of_false (ne_true_of_eq_false hbusy) fun hfalse => hfalse.1 rfl
      irq := fun hfalse => absurd hfalse Bool.false_ne_true
      queued := by
        rw [hserving, List.nil_append, hjobs]
        show M.queued = M.raised ++ [M.job M.requestServed] ++ l.map M.job
        rw [hqueued]
        simp
      issued := by
        rw [hserving]
        exact hissued.trans (List.append_nil _).symm
      completed := hcompleted.trans (List.append_nil _).symm }

/-- The interrupt handler goes on to the next request. -/
lemma advance (h : QueueInv M l) (hslock : M.slock = true)
    (hexec : diskInterruptNext M.toDiskRealDevice = some (d, given)) :
    M.toDiskRealDevice.SameRequests d l ∧ ∃ l',
      ({ M.setDevice d given with slock := false } : DiskSystem).serving ++ l' = l ∧
      QueueInv { M.setDevice d given with slock := false } l' := by
  have hserving : M.serving = [] := serving_of_slock hslock
  obtain ⟨hbusy, hirq⟩ := h.idle_device hserving
  have hnodup := h.nodup
  have hqueued := h.queued
  have hissued := h.issued
  have hcompleted := h.completed
  rw [hserving] at hnodup hqueued hissued hcompleted
  rw [hirq] at hcompleted
  rcases diskNextRequest_spec (d := { M.toDiskRealDevice with requestServed := 0 }) h.queue hbusy
    rfl with ⟨rfl, hnone⟩ | ⟨q, l', d', rfl, hsome, hqueue, hsame, hserves⟩
  · -- no request is left
    cases hexec.symm.trans hnone
    refine ⟨⟨fun _ => rfl, fun _ _ => rfl⟩, [], ?_⟩
    set M' : DiskSystem :=
      { M with toDiskRealDevice := { M.toDiskRealDevice with requestServed := 0 }, slock := false }
    have hserving' : M'.serving = [] := serving_of_zero rfl
    refine ⟨(List.append_nil _).trans hserving', ?_⟩
    show QueueInv M' []
    exact
      { queue := h.queue
        nodup := by
          rw [hserving']
          exact List.nodup_nil
        idle := fun _ _ => rfl
        busy := by
          rw [hserving']
          exact iff_of_false (ne_true_of_eq_false hbusy) fun hfalse => hfalse.1 rfl
        irq := fun htrue => absurd (hirq.symm.trans htrue) Bool.false_ne_true
        queued := by
          rw [hserving']
          exact hqueued
        issued := by
          rw [hserving']
          exact hissued
        completed := by
          rw [hserving']
          exact hcompleted.trans (congrArg _ (ite_self _).symm) }
  · cases hexec.symm.trans hsome
    have hq : q ≠ 0 := h.queue.2.1
    have htold := told_eq_job (M := { M with requestServed := 0 }) hsame hserves
    set M' : DiskSystem := { M.setDevice d true with slock := false }
    have hjobs : (q :: l').map M'.job = (q :: l').map M.job :=
      map_job_congr fun x _ => ⟨rfl, hsame.unlinked x⟩
    have hqueued' : M'.queued = M'.raised ++ (q :: l').map M'.job := by
      rw [hjobs]
      exact hqueued
    have hissued' : M'.issued = M'.raised ++ [M'.job q] := by
      rw [(List.cons.inj hjobs).1]
      show M.issued ++ [_] = M.raised ++ [M.job q]
      rw [hissued, List.map_nil, List.append_nil]
      exact congrArg (fun job => M.raised ++ [job]) htold
    obtain ⟨hserving', hinv⟩ := serve (M := M') rfl hserves.served hq hserves.busy
      (hserves.irq.trans hirq) hqueue hnodup hqueued' hissued'
      (hcompleted.trans (List.append_nil _))
    refine ⟨⟨hsame.unlinked, hsame.next⟩, l', ?_, hinv⟩
    rw [hserving']
    rfl

end QueueInv

/-! ### Numbers and semaphores -/

namespace NumberInv

lemma mono (h : NumberInv M) (hqueued : M'.queued = M.queued) (hcall : M'.call = M.call)
    (hcalls : M'.calls = M.calls) (hpc : ∀ r, M'.pc r ≠ .outside → M.pc r ≠ .outside) :
    NumberInv M' where
  lt r hr := by
    rw [hcall, hcalls]
    exact h.lt r (hpc r hr)
  injective r r' hr hr' := by
    rw [hcall]
    exact h.injective r r' (hpc r hr) (hpc r' hr')
  queued job := by
    rw [hqueued, hcalls]
    exact h.queued job
  once := by
    rw [hqueued]
    exact h.once

/-- A new call gets a new number. -/
lemma begin (h : NumberInv M) {pc : SubmitPc} (hpc : M'.pc = Function.update M.pc r pc)
    (hcall : M'.call = Function.update M.call r M.calls) (hcalls : M'.calls = M.calls + 1)
    (hqueued : M'.queued = M.queued) : NumberInv M' := by
  have hself : M'.call r = M.calls := by rw [hcall, Function.update_self]
  have hother : ∀ x, x ≠ r → M'.call x = M.call x ∧ M'.pc x = M.pc x := fun x hx => by
    rw [hcall, hpc, Function.update_of_ne hx, Function.update_of_ne hx]
    exact ⟨rfl, rfl⟩
  have hlt : ∀ x, x ≠ r → M'.pc x ≠ .outside → M'.call x < M.calls := fun x hx hin => by
    rw [(hother x hx).1]
    exact h.lt x ((hother x hx).2 ▸ hin)
  constructor
  · intro x hin
    rw [hcalls]
    by_cases hx : x = r
    · rw [hx, hself]
      exact Nat.lt_succ_self _
    · exact (hlt x hx hin).trans (Nat.lt_succ_self _)
  · intro x y hx hy heq
    by_cases hxr : x = r <;> by_cases hyr : y = r
    · exact hxr.trans hyr.symm
    · subst hxr
      exact absurd (heq.symm.trans hself) (hlt y hyr hy).ne
    · subst hyr
      exact absurd (heq.trans hself) (hlt x hxr hx).ne
    · rw [(hother x hxr).1, (hother y hyr).1] at heq
      exact h.injective x y ((hother x hxr).2 ▸ hx) ((hother y hyr).2 ▸ hy) heq
  · intro job hjob
    rw [hqueued] at hjob
    rw [hcalls]
    exact (h.queued job hjob).trans (Nat.lt_succ_self _)
  · rw [hqueued]
    exact h.once

/-- A call queues its request. -/
lemma enqueue (h : NumberInv M) (hqueued : M'.queued = M.queued ++ [M.job r])
    (hcall : M'.call = M.call) (hcalls : M'.calls = M.calls)
    (hpc : ∀ r, M'.pc r ≠ .outside → M.pc r ≠ .outside) (hin : M.pc r ≠ .outside)
    (hfresh : M.call r ∉ M.queued.map Job.call) : NumberInv M' where
  lt r hr := by
    rw [hcall, hcalls]
    exact h.lt r (hpc r hr)
  injective r r' hr hr' := by
    rw [hcall]
    exact h.injective r r' (hpc r hr) (hpc r' hr')
  queued job hjob := by
    rw [hqueued, List.mem_append, List.mem_singleton] at hjob
    rw [hcalls]
    rcases hjob with hjob | rfl
    · exact h.queued job hjob
    · exact h.lt r hin
  once := by
    rw [hqueued, List.map_append, List.map_singleton, ← List.concat_eq_append]
    exact List.Nodup.concat hfresh h.once

end NumberInv

/-- A change of the value leaves all creators as they are. -/
lemma DiskSystem.setRow_creator {row : Semaphore}
    (hrow : row.creator = (M.semaphoreTable sem).creator) (s : Sem) :
    ((M.setRow sem row).semaphoreTable s).creator = (M.semaphoreTable s).creator := by
  show (Function.update M.semaphoreTable sem row s).creator = _
  by_cases hs : s = sem
  · rw [hs, Function.update_self, hrow]
  · rw [Function.update_of_ne hs]

namespace OwnerInv

lemma frame (h : OwnerInv M)
    (hcreator : ∀ sem, (M'.semaphoreTable sem).creator = (M.semaphoreTable sem).creator)
    (hothers : M'.others = M.others) (hsync : ∀ r, (M'.pc r).Sync ↔ (M.pc r).Sync)
    (hsem : ∀ r, (M.pc r).Sync → (M'.requests r).sem = (M.requests r).sem) : OwnerInv M' := by
  have howned : ∀ sem, M'.Owned sem ↔ M.Owned sem := fun sem => exists_congr fun r => by
    rw [hsync]
    exact and_congr_right fun hr => by rw [hsem r hr]
  constructor
  · intro sem
    rw [hcreator, hothers, howned]
    exact h.reserved sem
  · intro r r' sem hr hr' hs hs'
    rw [hsync] at hr hr'
    rw [hsem r hr] at hs
    rw [hsem r' hr'] at hs'
    exact h.unique r r' sem hr hr' hs hs'

/-- A new synchronous call gets a semaphore that was free. -/
lemma submit (h : OwnerInv M) {row : Semaphore} (hpc : ¬ (M.pc r).Sync)
    (hfree : (M.semaphoreTable sem).creator = -1) (hcreator : row.creator ≠ -1)
    (htable : M'.semaphoreTable = Function.update M.semaphoreTable sem row)
    (hothers : M'.others = M.others) (hself : (M'.pc r).Sync)
    (hsync : ∀ x, x ≠ r → ((M'.pc x).Sync ↔ (M.pc x).Sync))
    (hsem : (M'.requests r).sem = some sem)
    (hsame : ∀ x, x ≠ r → (M'.requests x).sem = (M.requests x).sem) : OwnerInv M' := by
  have hnew : ∀ x s, (M.pc x).Sync → (M.requests x).sem = some s → s ≠ sem := by
    rintro x s hx hs rfl
    exact (h.reserved s).mpr (.inr ⟨x, hx, hs⟩) hfree
  have howned : ∀ s, M'.Owned s ↔ s = sem ∨ M.Owned s := by
    intro s
    constructor
    · rintro ⟨x, hx, hs⟩
      by_cases hxr : x = r
      · subst hxr
        exact .inl (Option.some.inj (hs.symm.trans hsem))
      · exact .inr ⟨x, (hsync x hxr).mp hx, (hsame x hxr).symm.trans hs⟩
    · rintro (rfl | ⟨x, hx, hs⟩)
      · exact ⟨r, hself, hsem⟩
      · have hxr : x ≠ r := fun heq => hpc (heq ▸ hx)
        exact ⟨x, (hsync x hxr).mpr hx, (hsame x hxr).trans hs⟩
  constructor
  · intro s
    rw [htable, hothers, howned]
    by_cases hs : s = sem
    · rw [hs, Function.update_self]
      exact iff_of_true hcreator (.inr (.inl rfl))
    · rw [Function.update_of_ne hs, h.reserved]
      exact or_congr_right (iff_or_self.mpr fun heq => absurd heq hs)
  · intro x y s hx hy hxs hys
    by_cases hxr : x = r <;> by_cases hyr : y = r
    · exact hxr.trans hyr.symm
    · subst hxr
      rw [hsame y hyr] at hys
      exact absurd (Option.some.inj (hxs.symm.trans hsem)) (hnew y s ((hsync y hyr).mp hy) hys)
    · subst hyr
      rw [hsame x hxr] at hxs
      exact absurd (Option.some.inj (hys.symm.trans hsem)) (hnew x s ((hsync x hxr).mp hx) hxs)
    · rw [hsame x hxr] at hxs
      rw [hsame y hyr] at hys
      exact h.unique x y s ((hsync x hxr).mp hx) ((hsync y hyr).mp hy) hxs hys

/-- A synchronous call returns and gives its semaphore back. -/
lemma leave (h : OwnerInv M) {row : Semaphore} (hpc : (M.pc r).Sync)
    (hsem : (M.requests r).sem = some sem) (hmem : sem ∉ M.others) (hcreator : row.creator = -1)
    (htable : M'.semaphoreTable = Function.update M.semaphoreTable sem row)
    (hothers : M'.others = M.others) (hself : ¬ (M'.pc r).Sync)
    (hsync : ∀ x, x ≠ r → ((M'.pc x).Sync ↔ (M.pc x).Sync))
    (hsame : ∀ x, x ≠ r → (M'.requests x).sem = (M.requests x).sem) : OwnerInv M' := by
  have hne : ∀ x, (M'.pc x).Sync → x ≠ r := by
    rintro x hx rfl
    exact hself hx
  have howned : ∀ s, M'.Owned s ↔ s ≠ sem ∧ M.Owned s := by
    intro s
    constructor
    · rintro ⟨x, hx, hs⟩
      have hxr := hne x hx
      have hxM := (hsync x hxr).mp hx
      rw [hsame x hxr] at hs
      refine ⟨?_, x, hxM, hs⟩
      rintro rfl
      exact hxr (h.unique x r s hxM hpc hs hsem)
    · rintro ⟨hs, x, hx, hxs⟩
      have hxr : x ≠ r := by
        rintro rfl
        exact hs (Option.some.inj (hxs.symm.trans hsem))
      exact ⟨x, (hsync x hxr).mpr hx, (hsame x hxr).trans hxs⟩
  constructor
  · intro s
    rw [htable, hothers, howned]
    by_cases hs : s = sem
    · rw [hs, Function.update_self]
      exact iff_of_false (not_not.mpr hcreator) (not_or.mpr ⟨hmem, fun hown => hown.1 rfl⟩)
    · rw [Function.update_of_ne hs, h.reserved, and_iff_right hs]
  · intro x y s hx hy hxs hys
    have hxr := hne x hx
    have hyr := hne y hy
    rw [hsame x hxr] at hxs
    rw [hsame y hyr] at hys
    exact h.unique x y s ((hsync x hxr).mp hx) ((hsync y hyr).mp hy) hxs hys

/-- Others reserve, use or free a semaphore that belongs to no synchronous call. -/
lemma othersDo (h : OwnerInv M) {row : Semaphore} (hown : ¬ M.Owned sem) :
    OwnerInv { M.setRow sem row with
      others := if row.creator = -1 then M.others.erase sem else insert sem M.others } where
  reserved s := by
    show (Function.update M.semaphoreTable sem row s).creator ≠ -1 ↔
      (s ∈ if row.creator = -1 then M.others.erase sem else insert sem M.others) ∨ M.Owned s
    by_cases hs : s = sem
    · rw [hs, Function.update_self, or_iff_left hown]
      split_ifs with hcreator
      · exact iff_of_false (not_not.mpr hcreator) (Finset.notMem_erase sem M.others)
      · exact iff_of_true hcreator (Finset.mem_insert_self sem M.others)
    · rw [Function.update_of_ne hs, h.reserved]
      split_ifs
      · rw [Finset.mem_erase, and_iff_right hs]
      · rw [Finset.mem_insert, or_iff_right hs]
  unique := h.unique

end OwnerInv

end Osm.Drivers
