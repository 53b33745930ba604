import Osm.Net.Frames

/-!
# Delivery of frames

A frame is delivered to an open POP socket on the port that it has been sent to, as long as no
socket that a queue slot refers to is reopened on another port, no socket is closed while the
service thread is about to copy to it, and no slot is evicted while its frame is discarded, so that
the page of a frame in the queue holds this frame.
-/

namespace Osm.Net

open Osm.Kernel

variable {header : ℕ → PopHeader} {M M' : NetState} {a : PopAction}

namespace ServicePc

/-- The service thread is going to copy the frame of the slot. -/
def Receives (slot frame : ℕ) : ServicePc → Prop
  | measuring s f | copying s f _ => s = slot ∧ f = frame
  | _ => False

/-- The service thread has chosen the slot, and does not copy its frame any more. -/
def Finishes (slot : ℕ) : ServicePc → Prop
  | discarding s _ | clearing s _ | returning s _ _ _ | releasing s _ | waking s _ => s = slot
  | _ => False

variable {slot frame slot' frame' : ℕ} {bytes : UInt32} {stmt : Option ReturnStmt}

lemma receives_afterReturn : ¬ (afterReturn slot frame bytes stmt).Receives slot' frame' := by
  cases stmt <;> exact id

lemma finishes_afterReturn :
    (afterReturn slot frame bytes stmt).Finishes slot' ↔ slot = slot' := by
  cases stmt <;> exact Iff.rfl

lemma Receives.not_finishes {service : ServicePc} (h : service.Receives slot frame) :
    ¬ service.Finishes slot' := by
  cases service with
  | measuring | copying => exact id
  | _ => exact h.elim

end ServicePc

/-- The statements after the copy change neither the protocol nor the port of the socket. -/
lemma ReturnStmt.assign_row (stmt : ReturnStmt) (s : Socket) :
    (stmt.assign s).protocol = s.protocol ∧ (stmt.assign s).port = s.port := by
  cases stmt <;> exact ⟨rfl, rfl⟩

/-- When the service thread copies a frame, the receiving socket is an open POP socket on the port
of the frame. -/
def Delivers (header : ℕ → PopHeader) (M : NetState) : Prop :=
  ∀ slot frame j buffer bytes M', PopStep header M (.copy slot frame j buffer bytes) M' →
    (M.sockets j).protocol = protocolPop ∧ (M.sockets j).port = (header frame).destPort

/-- A queue slot refers to the row of a socket for a frame that is still to be delivered. -/
def NetState.Refers (M : NetState) (i frame j : ℕ) : Prop :=
  (M.queue i).frame = some frame ∧ (M.queue i).socket = some j ∧ ¬ M.service.Finishes i

/-- No POP socket is opened on another port than a frame has whose slot refers to its row, and none
is closed that the service thread is about to copy to. -/
def KeepsPorts (header : ℕ → PopHeader) (M : NetState) : PopAction → Prop
  | .open protocol port sem => ∀ s i frame, (socketOpen M.sockets protocol port sem).2 = some s →
      ((socketOpen M.sockets protocol port sem).1 s).protocol = protocolPop →
      M.Refers i frame s →
      ((socketOpen M.sockets protocol port sem).1 s).port = (header frame).destPort
  | .close s => ∀ slot frame, M.service.Receives slot frame → (M.queue slot).socket ≠ some s
  | _        => True

/-- The invariant of the sockets of the queue slots. -/
structure PortInv (header : ℕ → PopHeader) (M : NetState) : Prop where
  ports    : ∀ i frame j, M.Refers i frame j → (M.sockets j).protocol = protocolPop →
    (M.sockets j).port = (header frame).destPort
  receives : ∀ slot frame, M.service.Receives slot frame → (M.queue slot).frame = some frame ∧
    (M.queue slot).busy = true ∧
    ∃ j, (M.queue slot).socket = some j ∧ (M.sockets j).protocol = protocolPop
  pushing  : ∀ p, M.pushing = some p → ∀ frame, ¬ M.service.Receives p.slot frame

namespace PortInv

/-- The sockets that the queue refers to keep their ports, or are closed, and the one that the
service thread is about to copy to is not closed. -/
lemma setSockets {sockets : Sockets} (h : PortInv header M)
    (hports : ∀ i frame j, M.Refers i frame j → (sockets j).protocol = protocolPop →
      (sockets j).port = (header frame).destPort)
    (hopen : ∀ slot frame j, M.service.Receives slot frame → (M.queue slot).socket = some j →
      (M.sockets j).protocol = protocolPop → (sockets j).protocol = protocolPop) :
    PortInv header { M with sockets } where
  ports := hports
  receives slot frame hs := by
    obtain ⟨hframe, hbusy, j, hj, hpop⟩ := h.receives slot frame hs
    exact ⟨hframe, hbusy, j, hj, hopen slot frame j hs hj hpop⟩
  pushing := h.pushing

/-- The protocols and the ports are as before. -/
lemma keepSockets {sockets : Sockets} (h : PortInv header M)
    (hrow : ∀ j, (sockets j).protocol = (M.sockets j).protocol ∧
      (sockets j).port = (M.sockets j).port) :
    PortInv header { M with sockets } := by
  refine h.setSockets (fun i frame j hrefers hpop => ?_) (fun slot frame j _ _ hpop => ?_)
  · rw [(hrow j).1] at hpop
    rw [(hrow j).2]
    exact h.ports i frame j hrefers hpop
  · rw [(hrow j).1]
    exact hpop

lemma «open» {protocol : UInt8} {port : UInt16} {sem : Option Sem} (h : PortInv header M)
    (hcond : KeepsPorts header M (.open protocol port sem)) :
    PortInv header { M with sockets := (socketOpen M.sockets protocol port sem).1 } := by
  refine h.setSockets (fun i frame j hrefers hpop => ?_) (fun slot frame j _ _ hpop => ?_)
  · rcases socketOpen_row j with ⟨hprotocol, hport, -⟩ | ⟨-, -, hrow⟩
    · rw [hprotocol] at hpop
      rw [hport]
      exact h.ports i frame j hrefers hpop
    · exact hcond j i frame hrow hpop hrefers
  · rcases socketOpen_row j with ⟨hprotocol, -, -⟩ | ⟨hclosed, -⟩
    · rw [hprotocol]
      exact hpop
    · rw [hpop] at hclosed
      cases hclosed

lemma close {s : ℕ} (h : PortInv header M) (hcond : KeepsPorts header M (.close s)) :
    PortInv header { M with sockets := socketClose M.sockets s } := by
  refine h.setSockets (fun i frame j hrefers hpop => ?_) (fun slot frame j hs hj hpop => ?_)
  · by_cases hjs : j = s
    · subst hjs
      have hself : socketClose M.sockets j j = M.sockets j ∨
          (socketClose M.sockets j j).protocol = 0 := socketClose_self
      rcases hself with heq | hclosed
      · rw [heq] at hpop ⊢
        exact h.ports i frame j hrefers hpop
      · rw [hclosed] at hpop
        cases hpop
    · rw [socketClose_of_ne hjs] at hpop ⊢
      exact h.ports i frame j hrefers hpop
  · have hjs : j ≠ s := by
      rintro rfl
      exact hcond slot frame hs hj
    rw [socketClose_of_ne hjs]
    exact hpop

/-- The service thread goes on with its slot. -/
lemma setService {service : ServicePc} {freed : List ℕ} (h : PortInv header M)
    (hreceives : ∀ slot frame, service.Receives slot frame → M.service.Receives slot frame)
    (hfinishes : ∀ slot, M.service.Finishes slot → service.Finishes slot) :
    PortInv header { M with service, freed } where
  ports i frame j hrefers := by
    obtain ⟨hframe, hj, hnot⟩ := hrefers
    exact h.ports i frame j ⟨hframe, hj, fun hf => hnot (hfinishes i hf)⟩
  receives slot frame hs := h.receives slot frame (hreceives slot frame hs)
  pushing p hp frame hs := h.pushing p hp frame (hreceives p.slot frame hs)

/-- `pop_push_frame` goes on with its slot. -/
lemma setPushing {p : Push} (h : PortInv header M)
    (hnot : ∀ frame, ¬ M.service.Receives p.slot frame) (freed : List ℕ) :
    PortInv header { M with pushing := some p, freed } where
  ports := h.ports
  receives := h.receives
  pushing p' hp := by
    cases hp
    exact hnot

lemma accept {frame slot : ℕ} {fromaddr now : UInt32} (h : PortInv header M)
    (hpush : M.pushing = some ⟨frame, fromaddr, slot, true⟩) :
    PortInv header { M with
      queue := Function.update M.queue slot ⟨some frame, none, now, fromaddr, false⟩
      pushing := none, accepted := frame :: M.accepted } where
  ports i f j hrefers := by
    obtain ⟨hframe, hj, hnot⟩ := hrefers
    by_cases hi : i = slot
    · subst hi
      dsimp only at hj
      rw [Function.update_self] at hj
      cases hj
    · dsimp only at hframe hj
      rw [Function.update_of_ne hi] at hframe hj
      exact h.ports i f j ⟨hframe, hj, hnot⟩
  receives s f hs := by
    have hne : s ≠ slot := by
      rintro rfl
      exact h.pushing _ hpush f hs
    dsimp only
    rw [Function.update_of_ne hne]
    exact h.receives s f hs
  pushing _ hp := nomatch hp

lemma scan {queue : PopQueue} {service : ServicePc} (h : PortInv header M)
    (hpc : M.service = .scanning) (hlock : M.pushing = none)
    (hscan : Scanned header M.sockets M.queue queue service) :
    PortInv header { M with queue, service } where
  ports i f j hrefers hpop := by
    obtain ⟨hframe, hj, -⟩ := hrefers
    have hframe' : (M.queue i).frame = some f := by
      rw [← hscan.frame i]
      exact hframe
    rcases hscan.socket i with heq | ⟨f', j', hf', hj', -, hport⟩
    · rw [heq] at hj
      exact h.ports i f j ⟨hframe', hj, by rw [hpc]; exact id⟩ hpop
    · rw [hframe'] at hf'
      rw [hj] at hj'
      cases hf'
      cases hj'
      exact hport
  receives s f hs := by
    rcases hscan.chosen with rfl | ⟨slot, frame, -, hslot, rfl | ⟨rfl, hbusy, j, hj, hpop, -⟩⟩
    · exact hs.elim
    · exact hs.elim
    · obtain ⟨rfl, rfl⟩ := hs
      exact ⟨hslot, hbusy, j, hj, hpop⟩
  pushing p hp := by
    rw [hlock] at hp
    cases hp

lemma clear {slot frame : ℕ} (h : PortInv header M) (hpc : M.service = .clearing slot frame) :
    PortInv header { M with
      queue := Function.update M.queue slot { M.queue slot with frame := none }
      service := .scanning } where
  ports i f j hrefers := by
    obtain ⟨hframe, hj, -⟩ := hrefers
    by_cases hi : i = slot
    · subst hi
      dsimp only at hframe
      rw [Function.update_self] at hframe
      cases hframe
    · dsimp only at hframe hj
      rw [Function.update_of_ne hi] at hframe hj
      refine h.ports i f j ⟨hframe, hj, ?_⟩
      rw [hpc]
      exact Ne.symm hi
  receives _ _ hs := hs.elim
  pushing _ _ _ := id

lemma step (h : PortInv header M) (hstep : PopStep header M a M')
    (hcond : KeepsPorts header M a) : PortInv header M' := by
  cases hstep with
  | «open» => exact h.open hcond
  | close => exact h.close hcond
  | notReceived => exact h
  | recvfrom _ _ hrecv => exact h.keepSockets (socketRecvfrom_row hrecv)
  | drop => exact h
  | choose _ _ hslot =>
    refine h.setPushing (fun f hs => ?_) _
    obtain ⟨hframe, hbusy, -⟩ := h.receives _ f hs
    rcases (PopQueue.pushSlot_eq_some hslot).2 with hfree | hidle
    · rw [hframe] at hfree
      cases hfree
    · rw [hbusy] at hidle
      cases hidle
  | evict hpush =>
    refine h.setPushing (fun f => ?_) _
    exact h.pushing _ hpush f
  | keep hpush =>
    refine h.setPushing (fun f => ?_) _
    exact h.pushing _ hpush f
  | accept hpush => exact h.accept hpush
  | scan hpc hlock hscan =>
    exact h.scan hpc hlock (popScan_scanned (fun i hi => List.mem_range.mp hi) hscan)
  | discard hpc => exact h.setService (fun _ _ => False.elim) (fun _ => hpc ▸ id)
  | measure hpc => exact h.setService (fun _ _ => hpc ▸ id) (fun _ => hpc ▸ id)
  | copy hpc => exact h.setService (fun _ _ => False.elim) (fun _ => hpc ▸ False.elim)
  | @assign slot frame bytes stmt j hpc =>
    have hrow : ∀ k, (Function.update M.sockets j (stmt.assign (M.sockets j)) k).protocol =
          (M.sockets k).protocol ∧
        (Function.update M.sockets j (stmt.assign (M.sockets j)) k).port = (M.sockets k).port := by
      intro k
      by_cases hk : k = j
      · subst hk
        rw [Function.update_self]
        exact stmt.assign_row _
      · rw [Function.update_of_ne hk]
        exact ⟨rfl, rfl⟩
    refine (h.keepSockets hrow).setService
      (fun _ _ hs => absurd hs ServicePc.receives_afterReturn) (fun s hs => ?_)
    rw [hpc] at hs
    exact ServicePc.finishes_afterReturn.mpr hs
  | release hpc => exact h.setService (fun _ _ => False.elim) (fun _ => hpc ▸ id)
  | wake hpc => exact h.setService (fun _ _ => False.elim) (fun _ => hpc ▸ id)
  | clear hpc => exact h.clear hpc

lemma delivers (h : PortInv header M) : Delivers header M := by
  intro slot frame j buffer bytes M' hstep
  cases hstep with
  | copy hpc hsocket =>
    have hreceives : M.service.Receives slot frame := by
      rw [hpc]
      exact ⟨rfl, rfl⟩
    obtain ⟨hframe, -, j', hj', hpop⟩ := h.receives slot frame hreceives
    rw [hsocket] at hj'
    cases hj'
    exact ⟨hpop, h.ports slot frame j ⟨hframe, hsocket, hreceives.not_finishes⟩ hpop⟩

end PortInv

lemma PopRun.portInv (h : PopRun header (KeepsPorts header) popInit M) : PortInv header M := by
  induction h with
  | refl =>
    exact ⟨fun _ _ _ hrefers => (nomatch hrefers.1), fun _ _ hs => hs.elim, fun _ hp => (nomatch hp)⟩
  | tail _ hstep ih =>
    obtain ⟨a, hstep, hcond⟩ := hstep
    exact ih.step hstep hcond

/-- The sockets of the queue keep their ports, and no slot is evicted while its frame is
discarded. -/
def KeepsDelivery (header : ℕ → PopHeader) (M : NetState) (a : PopAction) : Prop :=
  KeepsPorts header M a ∧ KeepsDiscarded M a

/-- In every run in which the sockets of the queue keep their ports and no slot is evicted while its
frame is discarded, the frames are delivered to sockets on their ports, no frame is freed twice, and
a frame that is copied is in its slot and has not been freed. -/
theorem popRun_delivers (h : PopRun header (KeepsDelivery header) popInit M) :
    Delivers header M ∧ M.freed.Nodup ∧
      ∀ slot frame j buffer bytes M', PopStep header M (.copy slot frame j buffer bytes) M' →
        (M.queue slot).frame = some frame ∧ frame ∉ M.freed := by
  have hports := (h.mono fun _ _ hcond => hcond.1).portInv
  have hframes := (h.mono fun _ _ hcond => hcond.2).frameInv
  refine ⟨hports.delivers, hframes.once, fun slot frame j buffer bytes M' hstep => ?_⟩
  have hframe : (M.queue slot).frame = some frame := by
    cases hstep with
    | copy hpc =>
      have hreceives : M.service.Receives slot frame := by
        rw [hpc]
        exact ⟨rfl, rfl⟩
      exact (hports.receives slot frame hreceives).1
  exact ⟨hframe, hframes.unread hstep trivial rfl hframe⟩

/-- A frame is copied to a socket on its port. -/
theorem popRun_delivers_received : ∃ M M' : NetState,
    PopRun headersForSeven (KeepsDelivery headersForSeven) popInit M ∧
      PopStep headersForSeven M (.copy 0 0 0 4096 1) M' ∧ (M.sockets 0).port = 7 := by
  have hpushed : PopRun headersForSeven (KeepsDelivery headersForSeven) popInit (filledState 1) :=
    filledState_run (fun M _ _ hpc => ⟨trivial, fun hs => by rw [hpc] at hs; exact hs⟩)
      (fun _ _ => ⟨trivial, trivial⟩) (fun _ _ _ => ⟨trivial, trivial⟩) (by decide)
  have hunfound : ∀ i frame j, ¬ (filledState 1).Refers i frame j := by
    rintro i frame j ⟨-, hj, -⟩
    by_cases hi : i < 1
    · simp [filledState, filledQueue, hi] at hj
    · simp [filledState, filledQueue, hi, PopSlot.empty] at hj
  have hopened : PopRun headersForSeven (KeepsDelivery headersForSeven) popInit _ :=
    hpushed.tail ⟨_, @PopStep.open _ _ protocolPop 7 (some 0),
      fun _ i frame _ _ hrefers => absurd hrefers (hunfound i frame _), trivial⟩
  have hwaiting : PopRun headersForSeven (KeepsDelivery headersForSeven) popInit _ :=
    hopened.tail ⟨_, @PopStep.recvfrom _ _ 0 8192 8196 4096 100 8200 _ (by decide) (by decide) rfl,
      trivial, trivial⟩
  have hscanned : PopRun headersForSeven (KeepsDelivery headersForSeven) popInit _ :=
    hwaiting.tail ⟨_, @PopStep.scan _ _ _ (.measuring 0 0) rfl rfl rfl, trivial, trivial⟩
  have hmeasured : PopRun headersForSeven (KeepsDelivery headersForSeven) popInit _ :=
    hscanned.tail ⟨_, @PopStep.measure _ _ 0 0 0 rfl rfl, trivial, trivial⟩
  refine ⟨_, _, hmeasured, @PopStep.copy _ _ 0 0 1 0 rfl rfl, ?_⟩
  exact ((popRun_delivers hmeasured).1 0 0 0 4096 1 _ (@PopStep.copy _ _ 0 0 1 0 rfl rfl)).2

/-- The search of the queue finds the socket in the first row for a frame, and nobody receives. -/
lemma popScan_filledQueue {sockets : Sockets} (hprotocol : (sockets 0).protocol = protocolPop)
    (hport : (sockets 0).port = 7) (hrbuf : (sockets 0).rbuf = 0) :
    popScan headersForSeven sockets (List.range configPopQueueSize) (filledQueue 1) =
      (Function.update (filledQueue 1) 0 ⟨some 0, some 0, 0, 0, false⟩, .scanning) := by
  have hrow : (List.range configMaxOpenSockets).find? (fun j => decide
      ((sockets j).protocol = protocolPop ∧ (sockets j).port = (headersForSeven 0).destPort)) =
      some 0 := by
    rw [List.find?_range_eq_some]
    exact ⟨by simp [hprotocol, hport, headersForSeven], by decide, fun j hj => absurd hj (by simp)⟩
  have hfind : findSocket headersForSeven sockets 0 (filledQueue 1 0) =
      ⟨some 0, some 0, 0, 0, false⟩ := by
    have hnone : (filledQueue 1 0).socket = none := rfl
    rw [findSocket, if_pos hnone, hrow]
    rfl
  have hrange : List.range configPopQueueSize = 0 :: List.range' 1 31 := by decide
  rw [hrange, popScan_waiting rfl hfind rfl hprotocol hrbuf]
  exact popScan_of_empty (by decide +kernel)

set_option maxRecDepth 2000 in
/-- A frame is delivered to another port when its socket is closed and the row opened again. -/
theorem not_delivers_reopened : ¬ ∀ (header : ℕ → PopHeader) (M : NetState),
    PopRun header (fun _ _ => True) popInit M → Delivers header M := by
  intro hall
  have hpushed : PopRun headersForSeven (fun _ _ => True) popInit (filledState 1) :=
    filledState_run (fun _ _ _ _ => trivial) (fun _ _ => trivial) (fun _ _ _ => trivial) (by decide)
  have hopened : PopRun headersForSeven (fun _ _ => True) popInit _ :=
    hpushed.tail ⟨_, @PopStep.open _ _ protocolPop 7 (some 0), trivial⟩
  have hfound : PopRun headersForSeven (fun _ _ => True) popInit _ :=
    hopened.tail ⟨_, .scan rfl rfl (popScan_filledQueue rfl rfl rfl), trivial⟩
  have hclosed : PopRun headersForSeven (fun _ _ => True) popInit _ :=
    hfound.tail ⟨_, @PopStep.close _ _ 0 (by decide), trivial⟩
  have hreopened : PopRun headersForSeven (fun _ _ => True) popInit _ :=
    hclosed.tail ⟨_, @PopStep.open _ _ protocolPop 9 (some 1), trivial⟩
  have hwaiting : PopRun headersForSeven (fun _ _ => True) popInit _ :=
    hreopened.tail ⟨_, @PopStep.recvfrom _ _ 0 8192 8196 4096 100 8200 _ (by decide) (by decide) rfl,
      trivial⟩
  have hscanned : PopRun headersForSeven (fun _ _ => True) popInit _ :=
    hwaiting.tail ⟨_, @PopStep.scan _ _ _ (.measuring 0 0) rfl rfl rfl, trivial⟩
  have hmeasured : PopRun headersForSeven (fun _ _ => True) popInit _ :=
    hscanned.tail ⟨_, @PopStep.measure _ _ 0 0 0 rfl rfl, trivial⟩
  have hport := (hall _ _ hmeasured _ _ _ _ _ _ (@PopStep.copy _ _ 0 0 1 0 rfl rfl)).2
  exact absurd hport (by decide +kernel)

end Osm.Net
