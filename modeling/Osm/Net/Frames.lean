import Osm.Net.Pop

/-!
# The frames of the POP queue

A frame that `pop_push_frame` has accepted stays in the queue until it is freed, and is freed once,
as long as no slot is evicted while the service thread discards its frame.
-/

namespace Osm.Net

variable {header : ℕ → PopHeader} {M M' : NetState} {a : PopAction}

namespace ServicePc

/-- The service thread is going to free the frame of the slot. -/
def Holds (slot frame : ℕ) : ServicePc → Prop
  | discarding s f | measuring s f | copying s f _ | returning s f _ _ | releasing s f =>
    s = slot ∧ f = frame
  | _ => False

/-- The service thread has freed the frame and is going to take it out of the slot. -/
def Leaves (slot frame : ℕ) : ServicePc → Prop
  | clearing s f | waking s f => s = slot ∧ f = frame
  | _ => False

/-- The service thread transfers the frame of the slot. -/
def Transfers (slot frame : ℕ) : ServicePc → Prop
  | measuring s f | copying s f _ | returning s f _ _ | releasing s f | waking s f =>
    s = slot ∧ f = frame
  | _ => False

/-- The service thread has chosen to discard the frame of the slot and has not yet taken it out. -/
def Discards (slot : ℕ) : ServicePc → Prop
  | discarding s _ | clearing s _ => s = slot
  | _ => False

variable {slot frame slot' frame' : ℕ} {bytes : UInt32}

lemma holds_afterReturn {stmt : Option ReturnStmt} :
    (afterReturn slot frame bytes stmt).Holds slot' frame' ↔ slot = slot' ∧ frame = frame' := by
  cases stmt <;> exact Iff.rfl

lemma leaves_afterReturn {stmt : Option ReturnStmt} :
    ¬ (afterReturn slot frame bytes stmt).Leaves slot' frame' := by
  cases stmt <;> exact id

lemma transfers_afterReturn {stmt : Option ReturnStmt} :
    (afterReturn slot frame bytes stmt).Transfers slot' frame' ↔
      slot = slot' ∧ frame = frame' := by
  cases stmt <;> exact Iff.rfl

/-- The frame of a transfer is going to be freed, or has been. -/
lemma Transfers.cases {service : ServicePc} (h : service.Transfers slot frame) :
    service.Holds slot frame ∨ service.Leaves slot frame := by
  cases service with
  | measuring => exact .inl h
  | copying => exact .inl h
  | returning => exact .inl h
  | releasing => exact .inl h
  | waking => exact .inr h
  | _ => exact h.elim

lemma Holds.transfers {service : ServicePc} (h : service.Holds slot frame)
    (hnot : ¬ service.Discards slot) : service.Transfers slot frame := by
  cases service with
  | discarding => exact absurd h.1 hnot
  | scanning | clearing | waking => exact h.elim
  | _ => exact h

lemma Leaves.transfers {service : ServicePc} (h : service.Leaves slot frame)
    (hnot : ¬ service.Discards slot) : service.Transfers slot frame := by
  cases service with
  | clearing => exact absurd h.1 hnot
  | waking => exact h
  | _ => exact h.elim

end ServicePc

/-- The step takes the frame of the slot: it reads it, frees it, or chooses it to be freed. -/
def PopAction.Takes (i : ℕ) : PopAction → Prop
  | .scan => i < configPopQueueSize
  | .choose _ slot | .evict slot _ | .free slot _ | .measure slot _ | .copy slot _ _ _ _
  | .assign slot _ _ => slot = i
  | _ => False

/-- Every accepted frame is freed at most once, it is freed or in the queue, and no step that meets
a condition takes a freed frame from the queue. -/
structure FramesSafe (header : ℕ → PopHeader) (C : NetState → PopAction → Prop) (M : NetState) :
    Prop where
  once   : M.freed.Nodup
  kept   : ∀ frame ∈ M.accepted,
    frame ∈ M.freed ∨ ∃ i < configPopQueueSize, (M.queue i).frame = some frame
  unread : ∀ a M' i frame, PopStep header M a M' → C M a → a.Takes i →
    (M.queue i).frame = some frame → frame ∉ M.freed

/-- No call of `pop_push_frame` chooses the slot whose frame the service thread discards. -/
def KeepsDiscarded (M : NetState) : PopAction → Prop
  | .choose _ slot => ¬ M.service.Discards slot
  | _              => True

/-- What holds of the frames in the queue in every run, also when a frame is freed twice. -/
structure QueueFrames (M : NetState) : Prop where
  queued   : ∀ i frame, (M.queue i).frame = some frame → frame ∈ M.accepted
  freed    : ∀ frame ∈ M.freed, frame ∈ M.accepted
  distinct : ∀ i j frame, (M.queue i).frame = some frame → (M.queue j).frame = some frame → i = j
  live     : ∀ i frame, (M.queue i).frame = some frame → frame ∈ M.freed →
    M.service.Leaves i frame ∨ ∃ p, M.pushing = some p ∧ p.slot = i ∧ p.freed = true

/-- The frames in the queue when one has been taken out of its slot. -/
lemma frame_cleared {queue : PopQueue} {slot i f : ℕ}
    (h : (Function.update queue slot { queue slot with frame := none } i).frame = some f) :
    i ≠ slot ∧ (queue i).frame = some f := by
  by_cases hslot : i = slot
  · subst hslot
    rw [Function.update_self] at h
    cases h
  · rw [Function.update_of_ne hslot] at h
    exact ⟨hslot, h⟩

namespace QueueFrames

/-- The frames in the queue when a new one has been stored. -/
lemma frame_stored {frame slot i f : ℕ} {now fromaddr : UInt32} (h : QueueFrames M)
    (hframe : frame ∉ M.accepted)
    (hi : (Function.update M.queue slot ⟨some frame, none, now, fromaddr, false⟩ i).frame =
      some f) :
    i = slot ∧ f = frame ∨ i ≠ slot ∧ f ≠ frame ∧ (M.queue i).frame = some f := by
  by_cases hslot : i = slot
  · subst hslot
    rw [Function.update_self] at hi
    cases hi
    exact .inl ⟨rfl, rfl⟩
  · rw [Function.update_of_ne hslot] at hi
    refine .inr ⟨hslot, ?_, hi⟩
    rintro rfl
    exact hframe (h.queued i f hi)

/-- The service thread goes on. -/
lemma setService {service : ServicePc} (h : QueueFrames M)
    (hleaves : ∀ slot frame, M.service.Leaves slot frame → service.Leaves slot frame) :
    QueueFrames { M with service } :=
  ⟨h.queued, h.freed, h.distinct,
    fun i frame hi hf => (h.live i frame hi hf).imp_left (hleaves i frame)⟩

/-- The service thread frees a frame that is in no other slot. -/
lemma free {slot frame : ℕ} {service : ServicePc} (h : QueueFrames M) (hframe : frame ∈ M.accepted)
    (halone : ∀ i, (M.queue i).frame = some frame → i = slot)
    (hnot : ∀ s f, ¬ M.service.Leaves s f) (hleaves : service.Leaves slot frame) :
    QueueFrames { M with service, freed := frame :: M.freed } where
  queued := h.queued
  freed f hf := by
    rcases List.mem_cons.mp hf with rfl | hf
    · exact hframe
    · exact h.freed f hf
  distinct := h.distinct
  live i f hi hf := by
    rcases List.mem_cons.mp hf with rfl | hf
    · obtain rfl := halone i hi
      exact .inl hleaves
    · rcases h.live i f hi hf with hleft | hpush
      · exact absurd hleft (hnot i f)
      · exact .inr hpush

/-- The service thread clears a slot. -/
lemma clear {slot frame : ℕ} (h : QueueFrames M) (hpc : M.service = .clearing slot frame) :
    QueueFrames { M with
      queue := Function.update M.queue slot { M.queue slot with frame := none }
      service := .scanning } := by
  refine ⟨fun i f hi => h.queued i f (frame_cleared hi).2, h.freed,
    fun i j f hi hj => h.distinct i j f (frame_cleared hi).2 (frame_cleared hj).2,
    fun i f hi hf => ?_⟩
  obtain ⟨hslot, hi⟩ := frame_cleared hi
  rcases h.live i f hi hf with hleft | hpush
  · rw [hpc] at hleft
    exact absurd hleft.1.symm hslot
  · exact .inr hpush

/-- `pop_push_frame` chooses a slot. -/
lemma choose {push : Push} (h : QueueFrames M) (hlock : M.pushing = none) :
    QueueFrames { M with pushing := some push } := by
  refine ⟨h.queued, h.freed, h.distinct, fun i f hi hf => ?_⟩
  rcases h.live i f hi hf with hleft | ⟨p, hp, -⟩
  · exact .inl hleft
  · rw [hlock] at hp
    cases hp

/-- A freed frame in the queue is the one that the service thread takes out, while
`pop_push_frame` has not freed the frame of its slot. -/
lemma leaves_of_freed {frame slot i f : ℕ} {fromaddr : UInt32} (h : QueueFrames M)
    (hpush : M.pushing = some ⟨frame, fromaddr, slot, false⟩) (hi : (M.queue i).frame = some f)
    (hf : f ∈ M.freed) : M.service.Leaves i f := by
  rcases h.live i f hi hf with hleft | ⟨p, hp, -, hp'⟩
  · exact hleft
  · rw [hpush] at hp
    cases hp
    cases hp'

/-- `pop_push_frame` frees the old frame of its slot. -/
lemma evict {frame slot old : ℕ} {fromaddr : UInt32} (h : QueueFrames M)
    (hpush : M.pushing = some ⟨frame, fromaddr, slot, false⟩)
    (hold : (M.queue slot).frame = some old) :
    QueueFrames { M with
      pushing := some ⟨frame, fromaddr, slot, true⟩, freed := old :: M.freed } where
  queued := h.queued
  freed f hf := by
    rcases List.mem_cons.mp hf with rfl | hf
    · exact h.queued slot f hold
    · exact h.freed f hf
  distinct := h.distinct
  live i f hi hf := by
    rcases List.mem_cons.mp hf with rfl | hf
    · exact .inr ⟨_, rfl, h.distinct slot i f hold hi, rfl⟩
    · exact .inl (h.leaves_of_freed hpush hi hf)

/-- The slot that `pop_push_frame` has chosen has no frame. -/
lemma keep {frame slot : ℕ} {fromaddr : UInt32} (h : QueueFrames M)
    (hpush : M.pushing = some ⟨frame, fromaddr, slot, false⟩) :
    QueueFrames { M with pushing := some ⟨frame, fromaddr, slot, true⟩ } :=
  ⟨h.queued, h.freed, h.distinct, fun _ _ hi hf => .inl (h.leaves_of_freed hpush hi hf)⟩

/-- `pop_push_frame` stores its frame. -/
lemma accept {frame slot : ℕ} {fromaddr now : UInt32} {freed : Bool} (h : QueueFrames M)
    (hpush : M.pushing = some ⟨frame, fromaddr, slot, freed⟩) (hframe : frame ∉ M.accepted) :
    QueueFrames { M with
      queue := Function.update M.queue slot ⟨some frame, none, now, fromaddr, false⟩
      pushing := none, accepted := frame :: M.accepted } := by
  refine ⟨fun i f hi => ?_, fun f hf => List.mem_cons_of_mem _ (h.freed f hf),
    fun i j f hi hj => ?_, fun i f hi hf => ?_⟩
  · rcases h.frame_stored hframe hi with ⟨-, rfl⟩ | ⟨-, -, hi⟩
    · exact List.mem_cons_self
    · exact List.mem_cons_of_mem _ (h.queued i f hi)
  · rcases h.frame_stored hframe hi with ⟨rfl, rfl⟩ | ⟨-, hne, hi⟩
    · rcases h.frame_stored hframe hj with ⟨rfl, -⟩ | ⟨-, hne, -⟩
      · rfl
      · exact absurd rfl hne
    · rcases h.frame_stored hframe hj with ⟨-, rfl⟩ | ⟨-, -, hj⟩
      · exact absurd rfl hne
      · exact h.distinct i j f hi hj
  · rcases h.frame_stored hframe hi with ⟨-, rfl⟩ | ⟨hslot, -, hi⟩
    · exact absurd (h.freed f hf) hframe
    · rcases h.live i f hi hf with hleft | ⟨p, hp, hp', -⟩
      · exact .inl hleft
      · rw [hpush] at hp
        cases hp
        exact absurd hp'.symm hslot

/-- While the service thread searches the queue, no freed frame is in it. -/
lemma unfreed (h : QueueFrames M) (hpc : M.service = .scanning) (hlock : M.pushing = none)
    {i f : ℕ} (hi : (M.queue i).frame = some f) : f ∉ M.freed := by
  intro hf
  rcases h.live i f hi hf with hleft | ⟨p, hp, -⟩
  · rw [hpc] at hleft
    exact hleft
  · rw [hlock] at hp
    cases hp

/-- The service thread searches the queue. -/
lemma scan {queue : PopQueue} {service : ServicePc} (h : QueueFrames M)
    (hpc : M.service = .scanning) (hlock : M.pushing = none)
    (hscan : Scanned header M.sockets M.queue queue service) :
    QueueFrames { M with queue, service } := by
  have hframe : ∀ i f, (queue i).frame = some f → (M.queue i).frame = some f := by
    intro i f hi
    rw [← hscan.frame i]
    exact hi
  exact ⟨fun i f hi => h.queued i f (hframe i f hi), h.freed,
    fun i j f hi hj => h.distinct i j f (hframe i f hi) (hframe j f hj),
    fun i f hi hf => absurd hf (h.unfreed hpc hlock (hframe i f hi))⟩

end QueueFrames

/-- The invariant of the frames. -/
structure FrameInv (M : NetState) : Prop where
  once     : M.freed.Nodup
  kept     : ∀ frame ∈ M.accepted,
    frame ∈ M.freed ∨ ∃ i < configPopQueueSize, (M.queue i).frame = some frame
  queued   : ∀ i frame, (M.queue i).frame = some frame → frame ∈ M.accepted
  freed    : ∀ frame ∈ M.freed, frame ∈ M.accepted
  distinct : ∀ i j frame, (M.queue i).frame = some frame → (M.queue j).frame = some frame → i = j
  live     : ∀ i frame, (M.queue i).frame = some frame → frame ∈ M.freed →
    M.service.Leaves i frame ∨ ∃ p, M.pushing = some p ∧ p.slot = i ∧ p.freed = true
  holds    : ∀ slot frame, M.service.Holds slot frame →
    (M.queue slot).frame = some frame ∧ frame ∉ M.freed
  leaves   : ∀ slot frame, M.service.Leaves slot frame →
    (M.queue slot).frame = some frame ∧ frame ∈ M.freed
  busy     : ∀ slot frame, M.service.Transfers slot frame → (M.queue slot).busy = true
  pushing  : ∀ p, M.pushing = some p → p.slot < configPopQueueSize ∧ p.frame ∉ M.accepted ∧
    (∀ frame, ¬ M.service.Holds p.slot frame) ∧ (∀ frame, ¬ M.service.Leaves p.slot frame) ∧
    (p.freed = true → ∀ frame, (M.queue p.slot).frame = some frame → frame ∈ M.freed)

lemma frameInv_popInit : FrameInv popInit where
  once := .nil
  kept _ h := nomatch h
  queued _ _ h := nomatch h
  freed _ h := nomatch h
  distinct _ _ _ h := nomatch h
  live _ _ h := nomatch h
  holds _ _ h := h.elim
  leaves _ _ h := h.elim
  busy _ _ h := h.elim
  pushing _ h := nomatch h

namespace FrameInv

lemma queueFrames (h : FrameInv M) : QueueFrames M := ⟨h.queued, h.freed, h.distinct, h.live⟩

lemma setSockets (h : FrameInv M) (sockets : Sockets) : FrameInv { M with sockets } :=
  ⟨h.once, h.kept, h.queued, h.freed, h.distinct, h.live, h.holds, h.leaves, h.busy, h.pushing⟩

/-- The service thread goes on with the same frame. -/
lemma setService {service : ServicePc} (h : FrameInv M)
    (hholds : ∀ slot frame, service.Holds slot frame ↔ M.service.Holds slot frame)
    (hleaves : ∀ slot frame, service.Leaves slot frame ↔ M.service.Leaves slot frame)
    (hbusy : ∀ slot frame, service.Transfers slot frame → M.service.Transfers slot frame) :
    FrameInv { M with service } where
  once := h.once
  kept := h.kept
  queued := h.queued
  freed := h.freed
  distinct := h.distinct
  live i frame hi hf := (h.live i frame hi hf).imp_left (hleaves i frame).mpr
  holds slot frame hs := h.holds slot frame ((hholds slot frame).mp hs)
  leaves slot frame hs := h.leaves slot frame ((hleaves slot frame).mp hs)
  busy slot frame hs := h.busy slot frame (hbusy slot frame hs)
  pushing p hp := by
    obtain ⟨hlt, hframe, hnot, hleft, hold⟩ := h.pushing p hp
    exact ⟨hlt, hframe, fun frame hs => hnot frame ((hholds p.slot frame).mp hs),
      fun frame hs => hleft frame ((hleaves p.slot frame).mp hs), hold⟩

/-- The service thread frees the frame of a slot. -/
lemma free {slot frame : ℕ} {service : ServicePc} (h : FrameInv M)
    (hholds : M.service.Holds slot frame) (hnot : ∀ s f, ¬ M.service.Leaves s f)
    (hnot' : ∀ s f, ¬ service.Holds s f)
    (hleaves : ∀ s f, service.Leaves s f ↔ s = slot ∧ f = frame)
    (hbusy : ∀ s f, service.Transfers s f → M.service.Transfers s f) :
    FrameInv { M with service, freed := frame :: M.freed } := by
  obtain ⟨hslot, hfresh⟩ := h.holds slot frame hholds
  have hqueue := h.queueFrames.free (h.queued slot frame hslot)
    (fun i hi => h.distinct i slot frame hi hslot) hnot ((hleaves slot frame).mpr ⟨rfl, rfl⟩)
  refine ⟨List.nodup_cons.mpr ⟨hfresh, h.once⟩,
    fun f hf => (h.kept f hf).imp_left (List.mem_cons_of_mem _), hqueue.queued, hqueue.freed,
    hqueue.distinct, hqueue.live, fun s f hs => absurd hs (hnot' s f), fun s f hs => ?_,
    fun s f hs => h.busy s f (hbusy s f hs), fun p hp => ?_⟩
  · obtain ⟨rfl, rfl⟩ := (hleaves s f).mp hs
    exact ⟨hslot, List.mem_cons_self⟩
  · obtain ⟨hlt, hframe, hother, -, hold⟩ := h.pushing p hp
    refine ⟨hlt, hframe, fun f hs => hnot' _ f hs, fun f hs => ?_,
      fun hfreed f hf => List.mem_cons_of_mem _ (hold hfreed f hf)⟩
    obtain ⟨heq, rfl⟩ := (hleaves p.slot f).mp hs
    exact hother f (heq ▸ hholds)

/-- The service thread takes a frame that it has freed out of its slot. -/
lemma clear {slot frame : ℕ} (h : FrameInv M) (hpc : M.service = .clearing slot frame) :
    FrameInv { M with
      queue := Function.update M.queue slot { M.queue slot with frame := none }
      service := .scanning } := by
  have hleaves : M.service.Leaves slot frame := by
    rw [hpc]
    exact ⟨rfl, rfl⟩
  have hqueue := h.queueFrames.clear hpc
  refine ⟨h.once, fun f hf => ?_, hqueue.queued, hqueue.freed, hqueue.distinct, hqueue.live,
    fun _ _ hs => hs.elim, fun _ _ hs => hs.elim, fun _ _ hs => hs.elim, fun p hp => ?_⟩
  · rcases h.kept f hf with hfreed | ⟨i, hi, hframe⟩
    · exact .inl hfreed
    · by_cases hslot : i = slot
      · subst hslot
        rw [(h.leaves i frame hleaves).1] at hframe
        cases hframe
        exact .inl (h.leaves i frame hleaves).2
      · exact .inr ⟨i, hi, by dsimp only; rw [Function.update_of_ne hslot]; exact hframe⟩
  · obtain ⟨hlt, hframe, -, hslot, hold⟩ := h.pushing p hp
    exact ⟨hlt, hframe, fun _ => id, fun _ => id,
      fun hfreed f hf => hold hfreed f (frame_cleared hf).2⟩

/-- `pop_push_frame` chooses a slot that the service thread does not use. -/
lemma choose {frame slot : ℕ} {fromaddr : UInt32} (h : FrameInv M) (hlock : M.pushing = none)
    (hframe : frame ∉ M.accepted) (hslot : slot < configPopQueueSize)
    (hholds : ∀ f, ¬ M.service.Holds slot f) (hleaves : ∀ f, ¬ M.service.Leaves slot f) :
    FrameInv { M with pushing := some ⟨frame, fromaddr, slot, false⟩ } where
  once := h.once
  kept := h.kept
  queued := h.queued
  freed := h.freed
  distinct := h.distinct
  live := (h.queueFrames.choose hlock).live
  holds := h.holds
  leaves := h.leaves
  busy := h.busy
  pushing p hp := by
    cases hp
    exact ⟨hslot, hframe, hholds, hleaves, fun hfreed => nomatch hfreed⟩

/-- `pop_push_frame` frees the old frame of its slot. -/
lemma evict {frame slot old : ℕ} {fromaddr : UInt32} (h : FrameInv M)
    (hpush : M.pushing = some ⟨frame, fromaddr, slot, false⟩)
    (hold : (M.queue slot).frame = some old) :
    FrameInv { M with
      pushing := some ⟨frame, fromaddr, slot, true⟩, freed := old :: M.freed } := by
  obtain ⟨hlt, hframe, hholds, hleaves, -⟩ := h.pushing _ hpush
  have hnotFreed : old ∉ M.freed := by
    intro hfreed
    exact hleaves old (h.queueFrames.leaves_of_freed hpush hold hfreed)
  have hqueue := h.queueFrames.evict hpush hold
  refine ⟨List.nodup_cons.mpr ⟨hnotFreed, h.once⟩,
    fun f hf => (h.kept f hf).imp_left (List.mem_cons_of_mem _), hqueue.queued, hqueue.freed,
    hqueue.distinct, hqueue.live, fun s f hs => ?_, fun s f hs => ?_, h.busy, fun p hp => ?_⟩
  · obtain ⟨hs', hfreed⟩ := h.holds s f hs
    refine ⟨hs', fun hmem => ?_⟩
    rcases List.mem_cons.mp hmem with rfl | hmem
    · have hslot : s = slot := h.distinct s slot f hs' hold
      exact hholds f (hslot ▸ hs)
    · exact hfreed hmem
  · obtain ⟨hs', hfreed⟩ := h.leaves s f hs
    exact ⟨hs', List.mem_cons_of_mem _ hfreed⟩
  · cases hp
    refine ⟨hlt, hframe, hholds, hleaves, fun _ f hf => ?_⟩
    rw [hold] at hf
    cases hf
    exact List.mem_cons_self

/-- The slot that `pop_push_frame` has chosen has no frame. -/
lemma keep {frame slot : ℕ} {fromaddr : UInt32} (h : FrameInv M)
    (hpush : M.pushing = some ⟨frame, fromaddr, slot, false⟩)
    (hold : (M.queue slot).frame = none) :
    FrameInv { M with pushing := some ⟨frame, fromaddr, slot, true⟩ } where
  once := h.once
  kept := h.kept
  queued := h.queued
  freed := h.freed
  distinct := h.distinct
  live := (h.queueFrames.keep hpush).live
  holds := h.holds
  leaves := h.leaves
  busy := h.busy
  pushing p hp := by
    cases hp
    obtain ⟨hlt, hframe, hholds, hleaves, -⟩ := h.pushing _ hpush
    refine ⟨hlt, hframe, hholds, hleaves, fun _ f hf => ?_⟩
    rw [hold] at hf
    cases hf

/-- `pop_push_frame` stores its frame. -/
lemma accept {frame slot : ℕ} {fromaddr now : UInt32} (h : FrameInv M)
    (hpush : M.pushing = some ⟨frame, fromaddr, slot, true⟩) :
    FrameInv { M with
      queue := Function.update M.queue slot ⟨some frame, none, now, fromaddr, false⟩
      pushing := none, accepted := frame :: M.accepted } := by
  obtain ⟨hlt, hframe, hholds, hleaves, hold⟩ := h.pushing _ hpush
  have hqueue := @QueueFrames.accept _ _ _ fromaddr now _ h.queueFrames hpush hframe
  have hother : ∀ s f, (M.queue s).frame = some f → s ≠ slot →
      (Function.update M.queue slot ⟨some frame, none, now, fromaddr, false⟩ s).frame = some f := by
    intro s f hs hne
    rw [Function.update_of_ne hne]
    exact hs
  refine ⟨h.once, fun f hf => ?_, hqueue.queued, hqueue.freed, hqueue.distinct, hqueue.live,
    fun s f hs => ?_, fun s f hs => ?_, fun s f hs => ?_, fun p hp => nomatch hp⟩
  · rcases List.mem_cons.mp hf with rfl | hf
    · exact .inr ⟨slot, hlt, by dsimp only; rw [Function.update_self]⟩
    · rcases h.kept f hf with hfreed | ⟨i, hi, hi'⟩
      · exact .inl hfreed
      · by_cases hslot : i = slot
        · subst hslot
          exact .inl (hold rfl f hi')
        · exact .inr ⟨i, hi, hother i f hi' hslot⟩
  · have hne : s ≠ slot := by
      rintro rfl
      exact hholds f hs
    exact ⟨hother s f (h.holds s f hs).1 hne, (h.holds s f hs).2⟩
  · have hne : s ≠ slot := by
      rintro rfl
      exact hleaves f hs
    exact ⟨hother s f (h.leaves s f hs).1 hne, (h.leaves s f hs).2⟩
  · have hne : s ≠ slot := by
      rintro rfl
      exact hs.cases.elim (hholds f) (hleaves f)
    dsimp only
    rw [Function.update_of_ne hne]
    exact h.busy s f hs

/-- The service thread searches the queue. -/
lemma scan {queue : PopQueue} {service : ServicePc} (h : FrameInv M) (hpc : M.service = .scanning)
    (hlock : M.pushing = none) (hscan : Scanned header M.sockets M.queue queue service) :
    FrameInv { M with queue, service } := by
  have hunfreed : ∀ i f, (queue i).frame = some f → f ∉ M.freed :=
    fun i f hi => h.queueFrames.unfreed hpc hlock ((hscan.frame i).symm.trans hi)
  have hqueue := h.queueFrames.scan hpc hlock hscan
  refine ⟨h.once, fun f hf => (h.kept f hf).imp_right ?_, hqueue.queued, hqueue.freed,
    hqueue.distinct, hqueue.live, fun s f hs => ?_, fun s f hs => ?_, fun s f hs => ?_,
    fun p hp => ?_⟩
  · rintro ⟨i, hi, hi'⟩
    exact ⟨i, hi, (hscan.frame i).trans hi'⟩
  · rcases hscan.chosen with rfl | ⟨slot, frame, -, hslot, rfl | ⟨rfl, -⟩⟩
    · exact hs.elim
    · obtain ⟨rfl, rfl⟩ := hs
      exact ⟨hslot, hunfreed _ _ hslot⟩
    · obtain ⟨rfl, rfl⟩ := hs
      exact ⟨hslot, hunfreed _ _ hslot⟩
  · rcases hscan.chosen with rfl | ⟨slot, frame, -, -, rfl | ⟨rfl, -⟩⟩
    all_goals exact hs.elim
  · rcases hscan.chosen with rfl | ⟨slot, frame, -, -, rfl | ⟨rfl, hbusy, -⟩⟩
    · exact hs.elim
    · exact hs.elim
    · obtain ⟨rfl, rfl⟩ := hs
      exact hbusy
  · rw [hlock] at hp
    cases hp

lemma step (h : FrameInv M) (hstep : PopStep header M a M') (hcond : KeepsDiscarded M a) :
    FrameInv M' := by
  cases hstep with
  | «open» => exact h.setSockets _
  | close => exact h.setSockets _
  | notReceived => exact h
  | recvfrom => exact h.setSockets _
  | drop => exact h
  | @choose frame fromaddr now slot hlock hframe hslot =>
    obtain ⟨hlt, hfree⟩ := PopQueue.pushSlot_eq_some hslot
    -- the slot of a transfer is busy and has a frame
    have htransfer : ∀ f, (M.queue slot).frame = some f → ¬ M.service.Transfers slot f := by
      intro f hf ht
      rcases hfree with hnone | hbusy
      · rw [hnone] at hf
        cases hf
      · rw [h.busy slot f ht] at hbusy
        cases hbusy
    refine h.choose hlock hframe hlt (fun f hs => ?_) (fun f hs => ?_)
    · exact htransfer f (h.holds slot f hs).1 (hs.transfers hcond)
    · exact htransfer f (h.leaves slot f hs).1 (hs.transfers hcond)
  | evict hpush hold => exact h.evict hpush hold
  | keep hpush hold => exact h.keep hpush hold
  | accept hpush => exact h.accept hpush
  | scan hpc hlock hscan =>
    exact h.scan hpc hlock (popScan_scanned (fun i hi => List.mem_range.mp hi) hscan)
  | @discard slot frame hpc =>
    have hholds : M.service.Holds slot frame := by
      rw [hpc]
      exact ⟨rfl, rfl⟩
    refine h.free hholds (fun _ _ => hpc ▸ id) (fun _ _ => id) (fun s f => ?_)
      (fun _ _ => False.elim)
    exact ⟨fun ⟨hs, hf⟩ => ⟨hs.symm, hf.symm⟩, fun ⟨hs, hf⟩ => ⟨hs.symm, hf.symm⟩⟩
  | @release slot frame hpc =>
    have hholds : M.service.Holds slot frame := by
      rw [hpc]
      exact ⟨rfl, rfl⟩
    refine h.free hholds (fun _ _ => hpc ▸ id) (fun _ _ => id) (fun s f => ?_)
      (fun _ _ => hpc ▸ id)
    exact ⟨fun ⟨hs, hf⟩ => ⟨hs.symm, hf.symm⟩, fun ⟨hs, hf⟩ => ⟨hs.symm, hf.symm⟩⟩
  | measure hpc =>
    exact h.setService (fun _ _ => hpc ▸ Iff.rfl) (fun _ _ => hpc ▸ Iff.rfl) (fun _ _ => hpc ▸ id)
  | copy hpc =>
    exact h.setService (fun _ _ => hpc ▸ Iff.rfl) (fun _ _ => hpc ▸ Iff.rfl) (fun _ _ => hpc ▸ id)
  | assign hpc =>
    refine (h.setSockets _).setService (fun s f => ?_) (fun s f => ?_) (fun s f hs => ?_)
    · rw [hpc, ServicePc.holds_afterReturn]
      rfl
    · rw [hpc]
      exact iff_of_false ServicePc.leaves_afterReturn id
    · rw [ServicePc.transfers_afterReturn] at hs
      rw [hpc]
      exact hs
  | wake hpc =>
    exact h.setService (fun _ _ => hpc ▸ Iff.rfl) (fun _ _ => hpc ▸ Iff.rfl)
      (fun _ _ => False.elim)
  | clear hpc => exact h.clear hpc

/-- No step takes a freed frame from the queue. -/
lemma unread (h : FrameInv M) (hstep : PopStep header M a M') (hcond : KeepsDiscarded M a)
    {i f : ℕ} (htakes : a.Takes i) (hi : (M.queue i).frame = some f) : f ∉ M.freed := by
  have hnext := h.step hstep hcond
  have hholds : ∀ slot frame, M.service.Holds slot frame → slot = i → f ∉ M.freed := by
    rintro slot frame hs rfl
    obtain ⟨hframe, hfreed⟩ := h.holds slot frame hs
    rw [hi] at hframe
    cases hframe
    exact hfreed
  cases hstep with
  | choose hlock =>
    intro hf
    cases htakes
    rcases h.live i f hi hf with hleft | ⟨p, hp, -⟩
    · exact (hnext.pushing _ rfl).2.2.2.1 f hleft
    · rw [hlock] at hp
      cases hp
  | evict hpush =>
    intro hf
    cases htakes
    exact (h.pushing _ hpush).2.2.2.1 f (h.queueFrames.leaves_of_freed hpush hi hf)
  | scan hpc hlock => exact h.queueFrames.unfreed hpc hlock hi
  | @discard slot frame hpc =>
    exact hholds slot frame (by rw [hpc]; exact ⟨rfl, rfl⟩) htakes
  | @release slot frame hpc =>
    exact hholds slot frame (by rw [hpc]; exact ⟨rfl, rfl⟩) htakes
  | @measure slot frame _ hpc =>
    exact hholds slot frame (by rw [hpc]; exact ⟨rfl, rfl⟩) htakes
  | @copy slot frame _ _ hpc =>
    exact hholds slot frame (by rw [hpc]; exact ⟨rfl, rfl⟩) htakes
  | @assign slot frame _ _ _ hpc =>
    exact hholds slot frame (by rw [hpc]; exact ⟨rfl, rfl⟩) htakes
  | _ => exact absurd htakes id

end FrameInv

lemma PopRun.frameInv (h : PopRun header KeepsDiscarded popInit M) : FrameInv M := by
  induction h with
  | refl => exact frameInv_popInit
  | tail _ hstep ih =>
    obtain ⟨a, hstep, hcond⟩ := hstep
    exact ih.step hstep hcond

/-- In every run in which no slot is evicted while its frame is discarded, the frames are safe. -/
theorem popRun_framesSafe (h : PopRun header KeepsDiscarded popInit M) :
    FramesSafe header KeepsDiscarded M where
  once := h.frameInv.once
  kept := h.frameInv.kept
  unread _ _ _ _ hstep hcond htakes hi := h.frameInv.unread hstep hcond htakes hi

/-! ### Frames that nobody receives -/

/-- A frame that nobody receives is discarded. -/
theorem popRun_framesSafe_discarded : ∃ M : NetState,
    PopRun headersForSeven KeepsDiscarded popInit M ∧ M.accepted = [0] ∧ M.freed = [0] ∧
      FramesSafe headersForSeven KeepsDiscarded M := by
  have hpushed : PopRun headersForSeven KeepsDiscarded popInit (filledState 1) :=
    filledState_run (fun M _ _ hpc hs => by rw [hpc] at hs; exact hs) (fun _ _ => trivial)
      (fun _ _ _ => trivial) (by decide)
  have hscanned : PopRun headersForSeven KeepsDiscarded popInit _ :=
    hpushed.tail ⟨_, @PopStep.scan _ _ _ (.discarding 0 0) rfl rfl rfl, trivial⟩
  have hfreed : PopRun headersForSeven KeepsDiscarded popInit _ :=
    hscanned.tail ⟨_, @PopStep.discard _ _ 0 0 rfl, trivial⟩
  have hcleared : PopRun headersForSeven KeepsDiscarded popInit _ :=
    hfreed.tail ⟨_, @PopStep.clear _ _ 0 0 rfl, trivial⟩
  exact ⟨_, hcleared, rfl, rfl, popRun_framesSafe hcleared⟩

/-- A frame is freed twice when its slot is evicted while the service thread discards it. -/
theorem not_framesSafe_evicted : ¬ ∀ (header : ℕ → PopHeader) (M : NetState),
    PopRun header (fun _ _ => True) popInit M → FramesSafe header (fun _ _ => True) M := by
  intro hall
  have hpushed : PopRun headersForSeven (fun _ _ => True) popInit (filledState 32) :=
    filledState_run (fun _ _ _ _ => trivial) (fun _ _ => trivial) (fun _ _ _ => trivial) le_rfl
  have hscanned : PopRun headersForSeven (fun _ _ => True) popInit _ :=
    hpushed.tail ⟨_, @PopStep.scan _ _ _ (.discarding 0 0) rfl rfl rfl, trivial⟩
  have hchosen : PopRun headersForSeven (fun _ _ => True) popInit _ :=
    hscanned.tail ⟨_, @PopStep.choose _ _ 32 0 250 0 rfl (by decide +kernel) (by decide +kernel),
      trivial⟩
  have hevicted : PopRun headersForSeven (fun _ _ => True) popInit _ :=
    hchosen.tail ⟨_, @PopStep.evict _ _ 32 0 0 0 rfl rfl, trivial⟩
  have hfreed : PopRun headersForSeven (fun _ _ => True) popInit _ :=
    hevicted.tail ⟨_, @PopStep.discard _ _ 0 0 rfl, trivial⟩
  exact (List.nodup_cons.mp (hall _ _ hfreed).once).1 List.mem_cons_self

end Osm.Net
