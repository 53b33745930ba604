import Osm.Core.Datagram
import Osm.Net.Frames

/-!
# POP as a datagram service

As long as no slot is evicted while its frame is discarded, the frames that `pop_push_frame` accepts
and those that the service thread copies to receivers are the sends and the deliveries of a channel:
no frame is delivered twice, and a frame is delivered with the address of its own sender.
-/

namespace Osm.Net

open Core

variable {header : ℕ → PopHeader} {M M' : NetState} {a : PopAction}

/-- What a step sends or delivers: a frame with the address of its sender. -/
def PopAction.transfer (M M' : NetState) : PopAction → Option (Transfer (ℕ × UInt32))
  | .accept slot frame     => some (.send (frame, (M'.queue slot).fromaddr))
  | .copy slot frame _ _ _ => some (.deliver (frame, (M.queue slot).fromaddr))
  | _                      => none

/-- The frames that are sent and delivered in a run in which no slot is evicted while its frame is
discarded. -/
inductive PopTrace (header : ℕ → PopHeader) : List (Transfer (ℕ × UInt32)) → NetState → Prop
  | nil : PopTrace header [] popInit
  | step {es M a M'} (hrun : PopTrace header es M) (hstep : PopStep header M a M')
      (hcond : KeepsDiscarded M a) :
      PopTrace header (es ++ (a.transfer M M').toList) M'

namespace ServicePc

variable {slot frame slot' frame' : ℕ} {bytes : UInt32}

/-- The service thread works on the frame of the slot. -/
def Uses (slot frame : ℕ) (service : ServicePc) : Prop :=
  service.Holds slot frame ∨ service.Leaves slot frame

/-- The service thread has copied or freed the frame of the slot. -/
def Past (slot frame : ℕ) : ServicePc → Prop
  | returning s f _ _ | releasing s f | waking s f | clearing s f => s = slot ∧ f = frame
  | _ => False

lemma uses_afterReturn {stmt : Option ReturnStmt} :
    (afterReturn slot frame bytes stmt).Uses slot' frame' ↔ slot = slot' ∧ frame = frame' := by
  rw [Uses, holds_afterReturn, or_iff_left leaves_afterReturn]

lemma past_afterReturn {stmt : Option ReturnStmt} :
    (afterReturn slot frame bytes stmt).Past slot' frame' ↔ slot = slot' ∧ frame = frame' := by
  cases stmt <;> exact Iff.rfl

end ServicePc

/-- The frames of the queue that may still be delivered, with the addresses of their senders. -/
def NetState.pending (M : NetState) : Set (ℕ × UInt32) :=
  {m | ∃ i, (M.queue i).frame = some m.1 ∧ (M.queue i).fromaddr = m.2 ∧ ¬ M.service.Past i m.1}

/-- The invariant of the deliveries. Nobody but the service thread writes to the slot of a transfer,
and the frame of the service thread is in no other slot. -/
structure MailInv (M : NetState) : Prop where
  queued    : ∀ i frame, (M.queue i).frame = some frame → frame ∈ M.accepted
  freed     : ∀ frame ∈ M.freed, frame ∈ M.accepted
  distinct  : ∀ i j frame, (M.queue i).frame = some frame → (M.queue j).frame = some frame → i = j
  live      : ∀ i frame, (M.queue i).frame = some frame → frame ∈ M.freed →
    M.service.Leaves i frame ∨ ∃ p, M.pushing = some p ∧ p.slot = i ∧ p.freed = true
  uses      : ∀ slot frame, M.service.Uses slot frame →
    frame ∈ M.accepted ∧ ∀ i, (M.queue i).frame = some frame → i = slot
  transfers : ∀ slot frame, M.service.Transfers slot frame →
    (M.queue slot).frame = some frame ∧ (M.queue slot).busy = true
  pushing   : ∀ p, M.pushing = some p →
    p.frame ∉ M.accepted ∧ ∀ frame, ¬ M.service.Transfers p.slot frame

lemma mailInv_popInit : MailInv popInit where
  queued _ _ h := nomatch h
  freed _ h := nomatch h
  distinct _ _ _ h := nomatch h
  live _ _ h := nomatch h
  uses _ _ h := h.elim False.elim False.elim
  transfers _ _ h := h.elim
  pushing _ h := nomatch h

namespace MailInv

lemma queueFrames (h : MailInv M) : QueueFrames M := ⟨h.queued, h.freed, h.distinct, h.live⟩

lemma setSockets (h : MailInv M) (sockets : Sockets) : MailInv { M with sockets } :=
  ⟨h.queued, h.freed, h.distinct, h.live, h.uses, h.transfers, h.pushing⟩

/-- The service thread goes on with the same frame. -/
lemma setService {service : ServicePc} (h : MailInv M)
    (huses : ∀ slot frame, service.Uses slot frame → M.service.Uses slot frame)
    (hleaves : ∀ slot frame, M.service.Leaves slot frame → service.Leaves slot frame)
    (htransfers : ∀ slot frame, service.Transfers slot frame → M.service.Transfers slot frame) :
    MailInv { M with service } where
  queued := h.queued
  freed := h.freed
  distinct := h.distinct
  live := (h.queueFrames.setService hleaves).live
  uses slot frame hs := h.uses slot frame (huses slot frame hs)
  transfers slot frame hs := h.transfers slot frame (htransfers slot frame hs)
  pushing p hp :=
    ⟨(h.pushing p hp).1, fun frame hs => (h.pushing p hp).2 frame (htransfers p.slot frame hs)⟩

/-- The service thread frees the frame of a slot, which may be in the slot no longer. -/
lemma free {slot frame : ℕ} {service : ServicePc} (h : MailInv M)
    (hholds : M.service.Holds slot frame) (hnot : ∀ s f, ¬ M.service.Leaves s f)
    (huses : ∀ s f, service.Uses s f → s = slot ∧ f = frame)
    (hleaves : service.Leaves slot frame)
    (htransfers : ∀ s f, service.Transfers s f → M.service.Transfers s f) :
    MailInv { M with service, freed := frame :: M.freed } := by
  obtain ⟨hframe, halone⟩ := h.uses slot frame (.inl hholds)
  have hqueue := h.queueFrames.free hframe halone hnot hleaves
  refine ⟨hqueue.queued, hqueue.freed, hqueue.distinct, hqueue.live, fun s f hs => ?_,
    fun s f hs => h.transfers s f (htransfers s f hs), fun p hp => ?_⟩
  · obtain ⟨rfl, rfl⟩ := huses s f hs
    exact ⟨hframe, halone⟩
  · exact ⟨(h.pushing p hp).1, fun f hs => (h.pushing p hp).2 f (htransfers p.slot f hs)⟩

/-- The service thread clears a slot. -/
lemma clear {slot frame : ℕ} (h : MailInv M) (hpc : M.service = .clearing slot frame) :
    MailInv { M with
      queue := Function.update M.queue slot { M.queue slot with frame := none }
      service := .scanning } := by
  have hqueue := h.queueFrames.clear hpc
  exact ⟨hqueue.queued, hqueue.freed, hqueue.distinct, hqueue.live,
    fun _ _ hs => hs.elim False.elim False.elim, fun _ _ hs => hs.elim,
    fun p hp => ⟨(h.pushing p hp).1, fun _ => id⟩⟩

/-- `pop_push_frame` chooses a slot that has no frame or is not busy. -/
lemma choose {frame slot : ℕ} {fromaddr : UInt32} (h : MailInv M) (hlock : M.pushing = none)
    (hframe : frame ∉ M.accepted)
    (hslot : (M.queue slot).frame = none ∨ (M.queue slot).busy = false) :
    MailInv { M with pushing := some ⟨frame, fromaddr, slot, false⟩ } where
  queued := h.queued
  freed := h.freed
  distinct := h.distinct
  live := (h.queueFrames.choose hlock).live
  uses := h.uses
  transfers := h.transfers
  pushing p hp := by
    cases hp
    refine ⟨hframe, fun f hs => ?_⟩
    obtain ⟨hf, hbusy⟩ := h.transfers slot f hs
    rcases hslot with hnone | hidle
    · rw [hnone] at hf
      cases hf
    · rw [hidle] at hbusy
      cases hbusy

/-- `pop_push_frame` frees the old frame of its slot. -/
lemma evict {frame slot old : ℕ} {fromaddr : UInt32} (h : MailInv M)
    (hpush : M.pushing = some ⟨frame, fromaddr, slot, false⟩)
    (hold : (M.queue slot).frame = some old) :
    MailInv { M with
      pushing := some ⟨frame, fromaddr, slot, true⟩, freed := old :: M.freed } where
  queued := h.queued
  freed := (h.queueFrames.evict hpush hold).freed
  distinct := h.distinct
  live := (h.queueFrames.evict hpush hold).live
  uses := h.uses
  transfers := h.transfers
  pushing p hp := by
    cases hp
    exact ⟨(h.pushing _ hpush).1, (h.pushing _ hpush).2⟩

/-- The slot that `pop_push_frame` has chosen has no frame. -/
lemma keep {frame slot : ℕ} {fromaddr : UInt32} (h : MailInv M)
    (hpush : M.pushing = some ⟨frame, fromaddr, slot, false⟩) :
    MailInv { M with pushing := some ⟨frame, fromaddr, slot, true⟩ } where
  queued := h.queued
  freed := h.freed
  distinct := h.distinct
  live := (h.queueFrames.keep hpush).live
  uses := h.uses
  transfers := h.transfers
  pushing p hp := by
    cases hp
    exact ⟨(h.pushing _ hpush).1, (h.pushing _ hpush).2⟩

/-- `pop_push_frame` stores its frame. -/
lemma accept {frame slot : ℕ} {fromaddr now : UInt32} {freed : Bool} (h : MailInv M)
    (hpush : M.pushing = some ⟨frame, fromaddr, slot, freed⟩) :
    MailInv { M with
      queue := Function.update M.queue slot ⟨some frame, none, now, fromaddr, false⟩
      pushing := none, accepted := frame :: M.accepted } := by
  obtain ⟨hframe, hother⟩ := h.pushing _ hpush
  have hqueue := @QueueFrames.accept _ _ _ fromaddr now _ h.queueFrames hpush hframe
  refine ⟨hqueue.queued, hqueue.freed, hqueue.distinct, hqueue.live, fun s f hs => ?_,
    fun s f hs => ?_, fun p hp => nomatch hp⟩
  · obtain ⟨hf, halone⟩ := h.uses s f hs
    refine ⟨List.mem_cons_of_mem _ hf, fun i hi => ?_⟩
    rcases h.queueFrames.frame_stored hframe hi with ⟨-, rfl⟩ | ⟨-, -, hi⟩
    · exact absurd hf hframe
    · exact halone i hi
  · have hne : s ≠ slot := by
      rintro rfl
      exact hother f hs
    dsimp only
    rw [Function.update_of_ne hne]
    exact h.transfers s f hs

/-- The service thread searches the queue. -/
lemma scan {queue : PopQueue} {service : ServicePc} (h : MailInv M) (hpc : M.service = .scanning)
    (hlock : M.pushing = none) (hscan : Scanned header M.sockets M.queue queue service) :
    MailInv { M with queue, service } := by
  have hqueue := h.queueFrames.scan hpc hlock hscan
  refine ⟨hqueue.queued, hqueue.freed, hqueue.distinct, hqueue.live, fun s f hs => ?_,
    fun s f hs => ?_, fun p hp => ?_⟩
  · rcases hscan.chosen with rfl | ⟨slot, frame, -, hslot, rfl | ⟨rfl, -⟩⟩
    · exact hs.elim False.elim False.elim
    all_goals
      obtain ⟨rfl, rfl⟩ := hs.resolve_right id
      exact ⟨hqueue.queued _ _ hslot, fun i hi => hqueue.distinct i _ _ hi hslot⟩
  · rcases hscan.chosen with rfl | ⟨slot, frame, -, hslot, rfl | ⟨rfl, hbusy, -⟩⟩
    · exact hs.elim
    · exact hs.elim
    · obtain ⟨rfl, rfl⟩ := hs
      exact ⟨hslot, hbusy⟩
  · rw [hlock] at hp
    cases hp

lemma step (h : MailInv M) (hstep : PopStep header M a M') : MailInv M' := by
  cases hstep with
  | «open» => exact h.setSockets _
  | close => exact h.setSockets _
  | notReceived => exact h
  | recvfrom => exact h.setSockets _
  | drop => exact h
  | choose hlock hframe hslot => exact h.choose hlock hframe (PopQueue.pushSlot_eq_some hslot).2
  | evict hpush hold => exact h.evict hpush hold
  | keep hpush => exact h.keep hpush
  | accept hpush => exact h.accept hpush
  | scan hpc hlock hscan =>
    exact h.scan hpc hlock (popScan_scanned (fun i hi => List.mem_range.mp hi) hscan)
  | @discard slot frame hpc =>
    have hholds : M.service.Holds slot frame := by
      rw [hpc]
      exact ⟨rfl, rfl⟩
    refine h.free hholds (fun _ _ => hpc ▸ id) (fun s f hs => ?_) ⟨rfl, rfl⟩ (fun _ _ => False.elim)
    obtain ⟨rfl, rfl⟩ := hs.resolve_left id
    exact ⟨rfl, rfl⟩
  | @release slot frame hpc =>
    have hholds : M.service.Holds slot frame := by
      rw [hpc]
      exact ⟨rfl, rfl⟩
    refine h.free hholds (fun _ _ => hpc ▸ id) (fun s f hs => ?_) ⟨rfl, rfl⟩ (fun _ _ => hpc ▸ id)
    obtain ⟨rfl, rfl⟩ := hs.resolve_left id
    exact ⟨rfl, rfl⟩
  | measure hpc =>
    exact h.setService (fun _ _ => hpc ▸ id) (fun _ _ => hpc ▸ id) (fun _ _ => hpc ▸ id)
  | copy hpc =>
    exact h.setService (fun _ _ => hpc ▸ id) (fun _ _ => hpc ▸ id) (fun _ _ => hpc ▸ id)
  | assign hpc =>
    refine (h.setSockets _).setService (fun s f hs => ?_) (fun _ _ => hpc ▸ False.elim)
      (fun s f hs => ?_)
    · rw [ServicePc.uses_afterReturn] at hs
      rw [hpc]
      exact .inl hs
    · rw [ServicePc.transfers_afterReturn] at hs
      rw [hpc]
      exact hs
  | wake hpc =>
    exact h.setService (fun _ _ => hpc ▸ id) (fun _ _ => hpc ▸ id) (fun _ _ => False.elim)
  | clear hpc => exact h.clear hpc

end MailInv

/-! ### Sends and deliveries -/

lemma findSocket_fromaddr {sockets : Sockets} {frame : ℕ} {slot : PopSlot} :
    (findSocket header sockets frame slot).fromaddr = slot.fromaddr := by
  rw [findSocket]
  split_ifs <;> rfl

/-- The search of the queue keeps the senders. -/
lemma popScan_fromaddr {sockets : Sockets} {l : List ℕ} {queue queue' : PopQueue}
    {service : ServicePc} (h : popScan header sockets l queue = (queue', service)) (i : ℕ) :
    (queue' i).fromaddr = (queue i).fromaddr := by
  induction l generalizing queue with
  | nil =>
    cases h
    rfl
  | cons k l ih =>
    rw [popScan] at h
    cases hframe : (queue k).frame with
    | none =>
      rw [hframe] at h
      exact ih h
    | some frame =>
      rw [hframe] at h
      have hfound : (Function.update queue k
          (findSocket header sockets frame (queue k)) i).fromaddr = (queue i).fromaddr := by
        by_cases hi : i = k
        · subst hi
          rw [Function.update_self, findSocket_fromaddr]
        · rw [Function.update_of_ne hi]
      dsimp only at h
      rw [← hfound]
      generalize Function.update queue k (findSocket header sockets frame (queue k)) = found at h ⊢
      cases hsocket : (found k).socket with
      | none =>
        rw [hsocket] at h
        cases h
        rfl
      | some j =>
        rw [hsocket] at h
        dsimp only at h
        split_ifs at h
        · cases h
          rfl
        · cases h
          by_cases hi : i = k
          · subst hi
            rw [Function.update_self]
            rfl
          · rw [Function.update_of_ne hi]
        · exact ih h

namespace MailInv

/-- A step that neither sends nor delivers leaves no new frame pending; a frame is sent once; and a
frame that is delivered has been pending and is so no longer. -/
lemma transfer (h : MailInv M) (hstep : PopStep header M a M') :
    (a.transfer M M' = none ∧ M'.accepted = M.accepted ∧ M'.pending ⊆ M.pending) ∨
      (∃ m, a.transfer M M' = some (.send m) ∧ m.1 ∉ M.accepted ∧
        M'.accepted = m.1 :: M.accepted ∧ M'.pending ⊆ insert m M.pending) ∨
      ∃ m, a.transfer M M' = some (.deliver m) ∧ M'.accepted = M.accepted ∧ m ∈ M.pending ∧
        M'.pending ⊆ M.pending \ {m} := by
  cases hstep with
  | @accept frame fromaddr slot now hpush =>
    refine .inr (.inl ⟨(frame, fromaddr), ?_, (h.pushing _ hpush).1, rfl, ?_⟩)
    · dsimp only [PopAction.transfer]
      rw [Function.update_self]
    · rintro m ⟨i, hi, hfrom, hpast⟩
      dsimp only at hi hfrom
      by_cases hslot : i = slot
      · subst hslot
        rw [Function.update_self] at hi hfrom
        cases hi
        cases hfrom
        exact Set.mem_insert _ _
      · rw [Function.update_of_ne hslot] at hi hfrom
        exact Set.mem_insert_of_mem _ ⟨i, hi, hfrom, hpast⟩
  | @copy slot frame bytes j hpc =>
    have htransfers : M.service.Transfers slot frame := by
      rw [hpc]
      exact ⟨rfl, rfl⟩
    have hframe := (h.transfers slot frame htransfers).1
    refine .inr (.inr ⟨(frame, (M.queue slot).fromaddr), rfl, rfl, ⟨slot, hframe, rfl, ?_⟩, ?_⟩)
    · rw [hpc]
      exact id
    · rintro m ⟨i, hi, hfrom, hpast⟩
      refine ⟨⟨i, hi, hfrom, by rw [hpc]; exact id⟩, ?_⟩
      rintro rfl
      exact hpast ⟨h.distinct slot i frame hframe hi, rfl⟩
  | @scan queue service hpc hlock hscan =>
    refine .inl ⟨rfl, rfl, ?_⟩
    rintro m ⟨i, hi, hfrom, -⟩
    have hscanned : Scanned header M.sockets M.queue queue service :=
      popScan_scanned (fun i hi => List.mem_range.mp hi) hscan
    refine ⟨i, (hscanned.frame i).symm.trans hi, (popScan_fromaddr hscan i).symm.trans hfrom, ?_⟩
    rw [hpc]
    exact id
  | @clear slot frame hpc =>
    refine .inl ⟨rfl, rfl, ?_⟩
    rintro m ⟨i, hi, hfrom, -⟩
    dsimp only at hi hfrom
    by_cases hslot : i = slot
    · subst hslot
      rw [Function.update_self] at hi
      cases hi
    · rw [Function.update_of_ne hslot] at hi hfrom
      refine ⟨i, hi, hfrom, ?_⟩
      rw [hpc]
      exact fun hpast => hslot hpast.1.symm
  | discard hpc | release hpc | measure hpc | wake hpc | assign hpc =>
    refine .inl ⟨rfl, rfl, ?_⟩
    rintro m ⟨i, hi, hfrom, hpast⟩
    refine ⟨i, hi, hfrom, fun h => hpast ?_⟩
    rw [hpc] at h
    first
      | exact h
      | exact h.elim
      | exact ServicePc.past_afterReturn.mpr h
  | _ => exact .inl ⟨rfl, rfl, subset_rfl⟩

/-- The frame that is copied has not been freed. -/
lemma copy_unfreed (h : MailInv M) {slot frame socket : ℕ} {buffer bytes : UInt32}
    (hstep : PopStep header M (.copy slot frame socket buffer bytes) M') : frame ∉ M.freed := by
  intro hfreed
  cases hstep with
  | copy hpc =>
    have htransfers : M.service.Transfers slot frame := by
      rw [hpc]
      exact ⟨rfl, rfl⟩
    rcases h.live slot frame (h.transfers slot frame htransfers).1 hfreed with
      hleft | ⟨p, hp, rfl, -⟩
    · rw [hpc] at hleft
      exact hleft
    · exact (h.pushing p hp).2 frame htransfers

end MailInv

namespace PopTrace

variable {es : List (Transfer (ℕ × UInt32))}

lemma popRun (h : PopTrace header es M) : PopRun header KeepsDiscarded popInit M := by
  induction h with
  | nil => exact .refl
  | step _ hstep hcond ih => exact ih.tail ⟨_, hstep, hcond⟩

/-- The runs of POP are runs of a channel, which keeps the frames that POP loses. -/
lemma channelRun (h : PopTrace header es M) : MailInv M ∧
    ∃ c, ChannelRun es c ∧ (∀ m ∈ c.sent, m.1 ∈ M.accepted) ∧ M.pending ⊆ c.pending := by
  induction h with
  | nil =>
    exact ⟨mailInv_popInit, ⟨∅, ∅⟩, .nil, fun _ hm => hm.elim, fun _ ⟨_, hi, _⟩ => nomatch hi⟩
  | step _ hstep _ ih =>
    obtain ⟨hinv, c, hrun, hsent, hpending⟩ := ih
    refine ⟨hinv.step hstep, ?_⟩
    rcases hinv.transfer hstep with ⟨hsilent, haccepted, hsub⟩ | ⟨m, hsend, hnew, haccepted, hsub⟩ |
      ⟨m, hdeliver, haccepted, hm, hsub⟩
    · rw [hsilent, haccepted]
      exact ⟨c, by simpa using hrun, hsent, hsub.trans hpending⟩
    · rw [hsend, haccepted]
      refine ⟨_, hrun.send fun hm => hnew (hsent m hm), fun m' hm' => ?_,
        hsub.trans (Set.insert_subset_insert hpending)⟩
      rcases hm' with rfl | hm'
      · exact List.mem_cons_self
      · exact List.mem_cons_of_mem _ (hsent m' hm')
    · rw [hdeliver, haccepted]
      exact ⟨_, hrun.deliver (hpending hm), hsent,
        hsub.trans (Set.sdiff_subset_sdiff_left hpending)⟩

/-- No frame is sent twice. -/
lemma sends_eq (h : PopTrace header es M) :
    (Transfer.sends es).map Prod.fst = M.accepted.reverse ∧ M.accepted.Nodup := by
  induction h with
  | nil => exact ⟨rfl, .nil⟩
  | step hrun hstep _ ih =>
    obtain ⟨hsends, hnodup⟩ := ih
    rcases hrun.channelRun.1.transfer hstep with ⟨hsilent, haccepted, -⟩ |
      ⟨m, hsend, hnew, haccepted, -⟩ | ⟨m, hdeliver, haccepted, -⟩
    · rw [hsilent, haccepted]
      exact ⟨by simpa using hsends, hnodup⟩
    · rw [hsend, haccepted]
      exact ⟨by simp [hsends], List.nodup_cons.mpr ⟨hnew, hnodup⟩⟩
    · rw [hdeliver, haccepted]
      exact ⟨by simpa using hsends, hnodup⟩

end PopTrace

open Transfer

/-- In every run in which no slot is evicted while its frame is discarded, no frame is delivered
twice, a delivered frame has been accepted by `pop_push_frame` and comes with the address of its own
sender, no frame is freed twice, and the frame that is copied has not been freed. -/
theorem popTrace_delivers_once {es : List (Transfer (ℕ × UInt32))} (h : PopTrace header es M) :
    ((deliveries es).map Prod.fst).Nodup ∧ (∀ m ∈ deliveries es, m ∈ sends es) ∧ M.freed.Nodup ∧
      ∀ slot frame socket buffer bytes M',
        PopStep header M (.copy slot frame socket buffer bytes) M' →
          frame ∉ M.freed ∧ (frame, (M.queue slot).fromaddr) ∈ sends es ∧
            frame ∉ (deliveries es).map Prod.fst := by
  obtain ⟨hinv, c, hrun, -, hpending⟩ := h.channelRun
  obtain ⟨hsends, hnodup⟩ := h.sends_eq
  have honce : ((sends es).map Prod.fst).Nodup := by
    rw [hsends]
    exact List.nodup_reverse.mpr hnodup
  obtain ⟨-, hdelivered, hsent⟩ := hrun.spec
  refine ⟨hrun.nodup_deliveries.map_on fun m hm m' hm' => ?_, hdelivered,
    h.popRun.frameInv.once, ?_⟩
  · exact List.inj_on_of_nodup_map honce (hdelivered m hm) (hdelivered m' hm')
  · intro slot frame socket buffer bytes M' hstep
    obtain ⟨hnone, -⟩ | ⟨m, hsend, -⟩ | ⟨m, hdeliver, -, hm, -⟩ := hinv.transfer hstep
    · cases hnone
    · cases hsend
    · cases hdeliver
      obtain ⟨hframe, hnew⟩ := hsent _ (hpending hm)
      refine ⟨hinv.copy_unfreed hstep, hframe, fun hmem => hnew ?_⟩
      obtain ⟨m', hm', hfst⟩ := List.mem_map.mp hmem
      rwa [← List.inj_on_of_nodup_map honce (hdelivered m' hm') hframe hfst]

/-- A frame from the address 5 is accepted and copied to a receiver. -/
theorem popTrace_delivers_once_received : ∃ es M, deliveries es = [(0, 5)] ∧
    ((deliveries es).map Prod.fst).Nodup ∧ (∀ m ∈ deliveries es, m ∈ sends es) ∧ M.freed.Nodup ∧
      ∀ slot frame socket buffer bytes M',
        PopStep headersForSeven M (.copy slot frame socket buffer bytes) M' →
          frame ∉ M.freed ∧ (frame, (M.queue slot).fromaddr) ∈ sends es ∧
            frame ∉ (deliveries es).map Prod.fst := by
  have hchosen : PopTrace headersForSeven _ _ :=
    .step .nil (@PopStep.choose _ popInit 0 5 0 0 rfl List.not_mem_nil
      (by rw [← pushSlot_filledQueue (k := 0) (by decide) 0]; rfl)) id
  have hkept : PopTrace headersForSeven _ _ :=
    hchosen.step (@PopStep.keep _ _ 0 5 0 rfl rfl) trivial
  have haccepted : PopTrace headersForSeven _ _ :=
    hkept.step (@PopStep.accept _ _ 0 5 0 0 rfl) trivial
  have hopened : PopTrace headersForSeven _ _ :=
    haccepted.step (@PopStep.open _ _ protocolPop 7 (some 0)) trivial
  have hwaiting : PopTrace headersForSeven _ _ :=
    hopened.step (@PopStep.recvfrom _ _ 0 8192 8196 4096 100 8200 _ (by decide) (by decide) rfl)
      trivial
  have hscanned : PopTrace headersForSeven _ _ :=
    hwaiting.step (@PopStep.scan _ _ _ (.measuring 0 0) rfl rfl rfl) trivial
  have hmeasured : PopTrace headersForSeven _ _ :=
    hscanned.step (@PopStep.measure _ _ 0 0 0 rfl rfl) trivial
  have hcopied : PopTrace headersForSeven _ _ :=
    hmeasured.step (@PopStep.copy _ _ 0 0 1 0 rfl rfl) trivial
  exact ⟨_, _, rfl, popTrace_delivers_once hcopied⟩

end Osm.Net
