import Osm.Drivers.Disk
import Mathlib.Data.Set.Card

/-!
# The queue of the disk driver

The requests in the queue are linked from the first one on, and the driver serves one more. What has
been given to the device and what is in the queue is what has been queued, in this order; and the
device is idle only when the queue is empty. A call that waits for its request has a semaphore of
its own, whose value says whether the request has been handled.
-/

namespace Osm.Drivers

open Osm.Core Osm.Kernel

variable {d d' : DiskRealDevice} {l : List UInt32} {r : UInt32} {fuel : ℕ} {given : Bool}

/-! ### The functions of the driver -/

/-- What a request has besides its link. -/
def GbdRequest.unlinked (req : GbdRequest) : GbdRequest := { req with next := 0 }

namespace DiskRealDevice

/-- The queue has these requests. -/
def Queue (d : DiskRealDevice) (l : List UInt32) : Prop :=
  Linked (fun r => (d.requests r).next) (· = 0) d.requestQueue l

/-- The requests are the same but for the links of some of them. -/
structure SameRequests (d d' : DiskRealDevice) (l : List UInt32) : Prop where
  unlinked : ∀ r, (d'.requests r).unlinked = (d.requests r).unlinked
  next     : ∀ r, r ∉ l → (d'.requests r).next = (d.requests r).next

namespace SameRequests

lemma setNext (d : DiskRealDevice) (q next : UInt32) :
    d.SameRequests (d.setRequest q { d.requests q with next }) [q] := by
  constructor
  · intro r
    by_cases hr : r = q
    · rw [hr, setRequest_self]
      rfl
    · rw [setRequest_of_ne hr]
  · intro r hr
    rw [setRequest_of_ne (List.ne_of_not_mem_cons hr)]

lemma mono {l l' : List UInt32} (h : d.SameRequests d' l) (hsub : l ⊆ l') :
    d.SameRequests d' l' := ⟨h.unlinked, fun r hr => h.next r fun hmem => hr (hsub hmem)⟩

lemma trans {d'' : DiskRealDevice} (h : d.SameRequests d' l) (h' : d'.SameRequests d'' l) :
    d.SameRequests d'' l :=
  ⟨fun r => (h'.unlinked r).trans (h.unlinked r), fun r hr => (h'.next r hr).trans (h.next r hr)⟩

lemma sem (h : d.SameRequests d' l) (r : UInt32) : (d'.requests r).sem = (d.requests r).sem :=
  congrArg (·.sem) (h.unlinked r)

lemma block (h : d.SameRequests d' l) (r : UInt32) :
    (d'.requests r).block = (d.requests r).block := congrArg (·.block) (h.unlinked r)

lemma buf (h : d.SameRequests d' l) (r : UInt32) : (d'.requests r).buf = (d.requests r).buf :=
  congrArg (·.buf) (h.unlinked r)

lemma operation (h : d.SameRequests d' l) (r : UInt32) :
    (d'.requests r).operation = (d.requests r).operation := congrArg (·.operation) (h.unlinked r)

lemma returnValue (h : d.SameRequests d' l) (r : UInt32) :
    (d'.requests r).returnValue = (d.requests r).returnValue :=
  congrArg (·.returnValue) (h.unlinked r)

end SameRequests

end DiskRealDevice

open DiskRealDevice

/-- The loop of `disksched_schedule` stops at the last request. -/
lemma loop_lastRound {a p : UInt32}
    (h : Linked (fun r => (d.requests r).next) (· = 0) a (l ++ [p])) :
    loop (lastRound d) (l.length + 1) a = some p := by
  induction l generalizing a with
  | nil =>
    obtain ⟨rfl, -, hend⟩ := h
    have hround : lastRound d a = .inr a := if_neg (not_not.mpr hend)
    exact loop_inr hround 0
  | cons x l ih =>
    obtain ⟨rfl, -, hrest⟩ := h
    have hne : (d.requests a).next ≠ 0 := by
      cases l with
      | nil => exact fun h => hrest.2.1 (hrest.1.symm.trans h)
      | cons y l => exact fun h => hrest.2.1 (hrest.1.symm.trans h)
    have hround : lastRound d a = .inl (d.requests a).next := if_pos hne
    rw [List.length_cons, loop_inl hround]
    exact ih hrest

/-- `disksched_schedule` puts a request at the end of the queue. -/
lemma diskschedSchedule_spec (h : d.Queue l) (hr : r ≠ 0) (hmem : r ∉ l)
    (hnext : (d.requests r).next = 0) : ∃ d',
      diskschedSchedule (l.length + 1) d r = some d' ∧ d'.Queue (l ++ [r]) ∧
      d.SameRequests d' l ∧
      d' = { d with requests := d'.requests, requestQueue := d'.requestQueue } := by
  rcases List.eq_nil_or_concat' l with rfl | ⟨l, p, rfl⟩
  · have hzero : d.requestQueue = 0 := h
    refine ⟨_, if_neg (not_not.mpr hzero), ⟨rfl, hr, hnext⟩, ⟨fun _ => rfl, fun _ _ => rfl⟩, rfl⟩
  · have hne : d.requestQueue ≠ 0 := by
      cases l with
      | nil => exact h.1 ▸ h.2.1
      | cons x l => exact h.1 ▸ h.2.1
    have hp : p ≠ r := fun heq => hmem (heq ▸ List.mem_append_right _ List.mem_cons_self)
    have hlast := loop_mono (Nat.le_add_right _ 1) (loop_lastRound h)
    rw [diskschedSchedule, if_pos hne, List.length_append, List.length_singleton, hlast]
    refine ⟨_, rfl, ?_, (SameRequests.setNext d p r).mono (List.subset_append_right l [p]), rfl⟩
    refine Linked.snoc h (fun y hy => ?_) ?_ hr ?_
    · have hyp : y ≠ p := by
        rintro rfl
        exact (List.nodup_append.mp h.nodup).2.2 y hy y List.mem_cons_self rfl
      rw [setRequest_of_ne hyp]
    · rw [setRequest_self]
    · rw [setRequest_of_ne hp.symm]
      exact hnext

lemma diskschedSchedule_unique {fuel' : ℕ} {d'' : DiskRealDevice}
    (h : diskschedSchedule fuel d r = some d') (h' : diskschedSchedule fuel' d r = some d'') :
    d' = d'' := by
  rw [diskschedSchedule] at h h'
  split_ifs at h h' with hne
  · obtain ⟨q, hloop, h⟩ := Option.bind_eq_some_iff.mp h
    obtain ⟨q', hloop', h'⟩ := Option.bind_eq_some_iff.mp h'
    cases loop_unique hloop hloop'
    exact Option.some.inj (h.symm.trans h')
  · exact Option.some.inj (h.symm.trans h')

/-- The device has been given a command for the request. -/
structure Serves (d d' : DiskRealDevice) (r : UInt32) : Prop where
  served  : d'.requestServed = r
  busy    : d'.busy = true
  irq     : d'.irq = d.irq
  tsector : d'.tsector = (d.requests r).block
  dmaaddr : d'.dmaaddr = (d.requests r).buf
  command : d'.command = (d.requests r).operation

/-- `disk_next_request` for an idle device. -/
lemma diskNextRequest_spec (h : d.Queue l) (hbusy : d.busy = false)
    (hserved : d.requestServed = 0) :
    l = [] ∧ diskNextRequest d = some (d, false) ∨
      ∃ q l' d', l = q :: l' ∧ diskNextRequest d = some (d', true) ∧ d'.Queue l' ∧
        d.SameRequests d' l ∧ Serves d d' q := by
  have hnot : ¬ d.busy = true := by
    rw [hbusy]
    exact Bool.false_ne_true
  rw [diskNextRequest, if_neg hnot, if_neg (not_not.mpr hserved)]
  cases l with
  | nil =>
    have hzero : d.requestQueue = 0 := h
    exact .inl ⟨rfl, if_pos hzero⟩
  | cons q l =>
    have hnodup := h.nodup
    obtain ⟨rfl, hne, hl⟩ := h
    have hsame := (SameRequests.setNext d d.requestQueue 0).mono
      (List.cons_subset_cons _ l.nil_subset)
    refine .inr ⟨_, l, _, rfl, if_neg hne, ?_, ⟨hsame.unlinked, hsame.next⟩, ?_⟩
    swap
    · exact ⟨rfl, rfl, rfl, rfl, rfl, rfl⟩
    refine Linked.congr hl fun x hx => ?_
    have hxq : x ≠ d.requestQueue := by
      rintro rfl
      exact (List.nodup_cons.mp hnodup).1 hx
    exact congrArg GbdRequest.next (Function.update_of_ne hxq _ _)

/-- What `disk_submit_request` does with `slock` taken: when a request is served, the new one gets
to the end of the queue; otherwise the device is given a command for it. -/
lemma diskQueueRequest_spec (h : d.Queue l) (hr : r ≠ 0) (hmem : r ∉ l)
    (hnext : (d.requests r).next = 0) (hidle : d.requestServed = 0 → l = [] ∧ d.busy = false) :
    ∃ fuel d' given, diskQueueRequest fuel d r = some (d', given) ∧
      d.SameRequests d' (l ++ [r]) ∧
      (d.requestServed ≠ 0 ∧ given = false ∧ d'.Queue (l ++ [r]) ∧
          d'.requestServed = d.requestServed ∧ d'.busy = d.busy ∧ d'.irq = d.irq ∨
        d.requestServed = 0 ∧ given = true ∧ d'.Queue [] ∧ Serves d d' r) := by
  obtain ⟨d₁, hexec, hqueue, hsame, hd₁⟩ := diskschedSchedule_spec h hr hmem hnext
  have hserved₁ : d₁.requestServed = d.requestServed := by rw [hd₁]
  have hbusy₁ : d₁.busy = d.busy := by rw [hd₁]
  have hirq₁ : d₁.irq = d.irq := by rw [hd₁]
  have hsame' := hsame.mono (List.subset_append_left l [r])
  refine ⟨l.length + 1, ?_⟩
  rw [diskQueueRequest, hexec, Option.bind_eq_bind, Option.bind_some]
  by_cases hserved : d.requestServed = 0
  · obtain ⟨rfl, hbusy⟩ := hidle hserved
    rcases diskNextRequest_spec hqueue (hbusy₁.trans hbusy) (hserved₁.trans hserved) with
      ⟨hnil, -⟩ | ⟨q, l', d₂, hcons, hexec₂, hqueue₂, hsame₂, hserves⟩
    · cases hnil
    · cases hcons
      rw [if_pos (hserved₁.trans hserved), hexec₂]
      refine ⟨d₂, true, rfl, hsame'.trans hsame₂, .inr ⟨hserved, rfl, hqueue₂, ?_⟩⟩
      exact ⟨hserves.served, hserves.busy, hserves.irq.trans hirq₁,
        hserves.tsector.trans (hsame.block r), hserves.dmaaddr.trans (hsame.buf r),
        hserves.command.trans (hsame.operation r)⟩
  · rw [if_neg (hserved₁ ▸ hserved)]
    exact ⟨d₁, false, rfl, hsame', .inl ⟨hserved, rfl, hqueue, hserved₁, hbusy₁, hirq₁⟩⟩

lemma diskQueueRequest_unique {fuel' : ℕ} {res res' : DiskRealDevice × Bool}
    (h : diskQueueRequest fuel d r = some res) (h' : diskQueueRequest fuel' d r = some res') :
    res = res' := by
  obtain ⟨d₁, hexec, h⟩ := Option.bind_eq_some_iff.mp h
  obtain ⟨d₂, hexec', h'⟩ := Option.bind_eq_some_iff.mp h'
  cases diskschedSchedule_unique hexec hexec'
  exact Option.some.inj (h.symm.trans h')

/-- What the interrupt handler does up to `semaphore_V`. -/
lemma diskInterruptHandle_eq_some {sem : Option Sem}
    (h : diskInterruptHandle d = some (d', sem)) :
    d.irq = false ∧ d' = d ∧ sem = none ∨
      d.irq = true ∧ d.requestServed ≠ 0 ∧ sem = (d.requests d.requestServed).sem ∧
        sem.isSome ∧ d' = { d.setRequest d.requestServed
          { d.requests d.requestServed with returnValue := 0 } with irq := false } := by
  rw [diskInterruptHandle] at h
  split_ifs at h with hirq hserved
  · cases h
    exact .inl ⟨hirq, rfl, rfl⟩
  · obtain ⟨s, hs, h⟩ := Option.bind_eq_some_iff.mp h
    cases h
    exact .inr ⟨Bool.eq_true_of_not_eq_false hirq, hserved, hs.symm, rfl, rfl⟩

end Osm.Drivers
