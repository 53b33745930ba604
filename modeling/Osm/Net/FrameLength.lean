import Osm.Net.Datagrams
import Osm.Net.Network

/-!
# The length of a delivery

The service thread copies what the header of a frame says, up to the length of the buffer. Nobody
has compared the header with the frame before, so a frame is cut to what its page holds only if its
header says no more or the buffer is not larger. The buffer is that of the receiver only as long as
the socket is not closed between the computation of the length and the report.
-/

namespace Osm.Net

/-- The bytes of the payload that a frame holds behind both headers. -/
def framePayload : ℕ := (netPageSize - sizeofFrameHeader - sizeofPopHeader).toNat

/-- The runs whose steps meet a condition, where what is in the frames may change at any time. -/
def FrameRun (C : NetState → PopAction → Prop) : NetState → NetState → Prop :=
  Relation.ReflTransGen fun M M' => ∃ header a, PopStep header M a M' ∧ C M a

lemma PopRun.frameRun {header : ℕ → PopHeader} {C : NetState → PopAction → Prop} {M M' : NetState}
    (h : PopRun header C M M') : FrameRun C M M' := by
  induction h with
  | refl => exact .refl
  | tail _ hstep ih =>
    obtain ⟨a, hstep, hC⟩ := hstep
    exact ih.tail ⟨header, a, hstep, hC⟩

/-- The service thread is in a transfer of the given length, or has finished it. -/
def ServicePc.Handles (bytes : UInt32) : ServicePc → Prop
  | .copying _ _ b | .returning _ _ b _ => b = bytes
  | .measuring _ _ => False
  | _ => True

/-- The service thread has computed the length, and has not yet reported it. -/
def ServicePc.Owes (slot : ℕ) (bytes : UInt32) : ServicePc → Prop
  | .copying s _ b => s = slot ∧ b = bytes
  | .returning s _ b stmt => (s = slot ∧ b = bytes) ∧ (stmt = .sender ∨ stmt = .copied)
  | _ => False

/-- The service thread does not search the queue again, and the receiving socket is not closed
before the length is reported. -/
def KeepsReceiver (M : NetState) : PopAction → Prop
  | .scan    => False
  | .close s => ∀ slot bytes, M.service.Owes slot bytes → (M.queue slot).socket ≠ some s
  | _        => True

/-- The rest of the transfer copies and reports no more bytes than there are in the buffer that is
copied to and in the frame. -/
structure CutsTransfer (M : NetState) : Prop where
  copied   : ∀ M' header slot frame j buffer bytes M'', FrameRun KeepsReceiver M M' →
    PopStep header M' (.copy slot frame j buffer bytes) M'' →
    bytes ≤ (M'.sockets j).bufsize ∧ bytes.toNat ≤ framePayload
  reported : ∀ M' header slot frame j address bytes b M'', FrameRun KeepsReceiver M M' →
    M'.service = .returning slot frame b .copied → (M'.queue slot).socket = some j →
    PopStep header M' (.assign slot frame (some (address, bytes))) M'' →
    bytes ≤ (M'.sockets j).bufsize ∧ bytes.toNat ≤ framePayload

variable {header : ℕ → PopHeader} {M M' : NetState} {slot frame j : ℕ} {bytes : UInt32}
  {a : PopAction}

/-! ### The length of a transfer -/

lemma handles_afterReturn {stmt : Option ReturnStmt} :
    (ServicePc.afterReturn slot frame bytes stmt).Handles bytes := by
  cases stmt
  · trivial
  · exact rfl

/-- The length of a transfer is the smaller one of the size in the header and of the length of the
buffer. -/
lemma toNat_min_size (header : PopHeader) (s : Socket) :
    (min header.size s.bufsize).toNat = min header.size.toNat s.bufsize.toNat := by
  have hmin : min header.size s.bufsize =
      if header.size ≤ s.bufsize then header.size else s.bufsize := rfl
  rw [hmin]
  split_ifs with hle
  · exact (min_eq_left (UInt32.le_iff_toNat_le.mp hle)).symm
  · exact (min_eq_right (UInt32.le_iff_toNat_le.mp (UInt32.le_of_lt (UInt32.not_le.mp hle)))).symm

/-- A step other than a search of the queue keeps the length of the transfer. -/
lemma PopStep.handles (hstep : PopStep header M a M') (ha : a ≠ .scan)
    (h : M.service.Handles bytes) : M'.service.Handles bytes := by
  cases hstep with
  | scan => exact absurd rfl ha
  | discard => trivial
  | measure hpc =>
    rw [hpc] at h
    exact h.elim
  | copy hpc =>
    rw [hpc] at h
    exact h
  | assign hpc =>
    rw [hpc] at h
    cases h
    exact handles_afterReturn
  | release => trivial
  | wake => trivial
  | clear => trivial
  | _ => exact h

/-! ### The rows of the receivers -/

/-- A row with a buffer is that of a POP socket from which somebody receives, but in the middle of
the statements that zero it. -/
structure ReceiverInv (M : NetState) : Prop where
  mail : MailInv M
  rows : ∀ j, (M.sockets j).bufsize ≠ 0 → (M.sockets j).protocol = protocolPop ∧
    ((M.sockets j).rbuf ≠ 0 ∨ ∃ slot frame bytes,
      M.service = .returning slot frame bytes .zeroBufsize ∧ (M.queue slot).socket = some j)

/-- The length that the service thread has computed fits into the buffer of the receiver. -/
def LengthFits (M : NetState) : Prop :=
  ∀ slot bytes j, M.service.Owes slot bytes → (M.queue slot).socket = some j →
    bytes ≤ (M.sockets j).bufsize

lemma receiverInv_popInit : ReceiverInv popInit where
  mail := mailInv_popInit
  rows _ hbuf := absurd rfl hbuf

namespace ServicePc

lemma Owes.transfers {service : ServicePc} (h : service.Owes slot bytes) :
    ∃ frame, service.Transfers slot frame := by
  cases service with
  | copying => exact ⟨_, h.1, rfl⟩
  | returning => exact ⟨_, h.1.1, rfl⟩
  | _ => exact h.elim

/-- In front of the report no row is in the middle of being zeroed. -/
lemma Owes.ne_zeroBufsize {service : ServicePc} (h : service.Owes slot bytes) {s f : ℕ}
    {b : UInt32} : service ≠ .returning s f b .zeroBufsize := by
  rintro rfl
  rcases h.2 with hstmt | hstmt
  · cases hstmt
  · cases hstmt

end ServicePc

namespace ReceiverInv

lemma not_scanning_zero (h : ReceiverInv M) (hbuf : (M.sockets j).bufsize ≠ 0)
    (hpc : ∀ slot frame bytes, M.service ≠ .returning slot frame bytes .zeroBufsize) :
    (M.sockets j).protocol = protocolPop ∧ (M.sockets j).rbuf ≠ 0 := by
  obtain ⟨hpop, hrbuf | ⟨slot, frame, bytes, hreturn, -⟩⟩ := h.rows j hbuf
  · exact ⟨hpop, hrbuf⟩
  · exact absurd hreturn (hpc slot frame bytes)

/-- The service thread goes on, but not from the statement that zeroes the length of a buffer. -/
lemma setService {service : ServicePc} {pushing : Option Push} {freed : List ℕ}
    (h : ReceiverInv M) (hmail : MailInv { M with service, pushing, freed })
    (hpc : ∀ slot frame bytes, M.service = .returning slot frame bytes .zeroBufsize →
      service = M.service) :
    ReceiverInv { M with service, pushing, freed } where
  mail := hmail
  rows j hbuf := by
    obtain ⟨hpop, hrbuf | ⟨slot, frame, bytes, hreturn, hsocket⟩⟩ := h.rows j hbuf
    · exact ⟨hpop, .inl hrbuf⟩
    · exact ⟨hpop, .inr ⟨slot, frame, bytes, (hpc _ _ _ hreturn).trans hreturn, hsocket⟩⟩

/-- The queue changes, but not the slot that is returned. -/
lemma setQueue {queue : PopQueue} {pushing : Option Push} {accepted : List ℕ}
    (h : ReceiverInv M) (hmail : MailInv { M with queue, pushing, accepted })
    (hqueue : ∀ slot frame bytes stmt, M.service = .returning slot frame bytes stmt →
      (queue slot).socket = (M.queue slot).socket) :
    ReceiverInv { M with queue, pushing, accepted } where
  mail := hmail
  rows j hbuf := by
    obtain ⟨hpop, hrbuf | ⟨slot, frame, bytes, hreturn, hsocket⟩⟩ := h.rows j hbuf
    · exact ⟨hpop, .inl hrbuf⟩
    · exact ⟨hpop, .inr ⟨slot, frame, bytes, hreturn,
        (hqueue slot frame bytes _ hreturn).trans hsocket⟩⟩

lemma setSockets {sockets : Sockets} (h : ReceiverInv M)
    (hrow : ∀ j, (sockets j).bufsize ≠ 0 →
      ((sockets j).protocol = (M.sockets j).protocol ∧ (sockets j).rbuf = (M.sockets j).rbuf ∧
        (sockets j).bufsize = (M.sockets j).bufsize) ∨
      ((sockets j).protocol = protocolPop ∧ (sockets j).rbuf ≠ 0)) :
    ReceiverInv { M with sockets } where
  mail := h.mail.setSockets sockets
  rows j hbuf := by
    rcases hrow j hbuf with ⟨hprotocol, hrbuf, hbufsize⟩ | ⟨hpop, hrbuf⟩
    · obtain ⟨hpop, hreceives⟩ := h.rows j (hbufsize ▸ hbuf)
      dsimp only
      rw [hprotocol, hrbuf]
      exact ⟨hpop, hreceives⟩
    · exact ⟨hpop, .inl hrbuf⟩

lemma assign {stmt : ReturnStmt} (h : ReceiverInv M)
    (hpc : M.service = .returning slot frame bytes stmt) (hsocket : (M.queue slot).socket = some j)
    (hmail : MailInv { M with
      sockets := Function.update M.sockets j (stmt.assign (M.sockets j))
      service := .afterReturn slot frame bytes stmt.next }) :
    ReceiverInv { M with
      sockets := Function.update M.sockets j (stmt.assign (M.sockets j))
      service := .afterReturn slot frame bytes stmt.next } where
  mail := hmail
  rows k hbuf := by
    dsimp only at hbuf ⊢
    by_cases hk : k = j
    · subst hk
      rw [Function.update_self] at hbuf ⊢
      cases stmt with
      | zeroBufsize => exact absurd rfl hbuf
      | zeroRbuf =>
        obtain ⟨hpop, -⟩ := h.rows k hbuf
        exact ⟨hpop, .inr ⟨slot, frame, bytes, rfl, hsocket⟩⟩
      | _ =>
        obtain ⟨hpop, hrbuf⟩ := h.not_scanning_zero hbuf fun _ _ _ heq => by
          rw [hpc] at heq
          cases heq
        exact ⟨hpop, .inl hrbuf⟩
    · rw [Function.update_of_ne hk] at hbuf ⊢
      obtain ⟨hpop, hrbuf | ⟨slot', frame', bytes', hreturn, hsocket'⟩⟩ := h.rows k hbuf
      · exact ⟨hpop, .inl hrbuf⟩
      · rw [hpc] at hreturn
        cases hreturn
        rw [hsocket] at hsocket'
        exact absurd (Option.some.inj hsocket').symm hk

/-- `pop_push_frame` does not store into the slot of a transfer. -/
lemma accept_ne (h : ReceiverInv M) {frame slot : ℕ} {fromaddr : UInt32} {freed : Bool}
    (hpush : M.pushing = some ⟨frame, fromaddr, slot, freed⟩) {s f : ℕ}
    (htransfers : M.service.Transfers s f) : s ≠ slot := by
  rintro rfl
  exact (h.mail.pushing _ hpush).2 f htransfers

lemma step (h : ReceiverInv M) (hstep : PopStep header M a M') : ReceiverInv M' := by
  have hmail := h.mail.step hstep
  cases hstep with
  | @«open» protocol port sem =>
    refine h.setSockets fun j hbuf => ?_
    rcases socketOpen_row j with ⟨hprotocol, -, hrbuf, hbufsize⟩ | ⟨-, hzero, -⟩
    · exact .inl ⟨hprotocol, hrbuf, hbufsize⟩
    · exact absurd hzero hbuf
  | @close s =>
    refine h.setSockets fun j hbuf => ?_
    by_cases hj : j = s
    · subst hj
      rw [socketClose] at hbuf ⊢
      split_ifs at hbuf ⊢
      · rw [Function.update_self] at hbuf
        exact absurd rfl hbuf
      · exact .inl ⟨rfl, rfl, rfl⟩
    · rw [socketClose_of_ne hj]
      exact .inl ⟨rfl, rfl, rfl⟩
  | notReceived => exact h
  | @recvfrom s addr sport buf buflength length sockets hs hbuf hrecv =>
    rw [socketRecvfrom] at hrecv
    split_ifs at hrecv with hpop
    cases hrecv
    refine h.setSockets fun j _ => ?_
    by_cases hj : j = s
    · subst hj
      rw [Function.update_self]
      exact .inr ⟨not_not.mp (not_or.mp hpop).1, hbuf⟩
    · rw [Function.update_of_ne hj]
      exact .inl ⟨rfl, rfl, rfl⟩
  | drop => exact h
  | choose => exact h.setService hmail fun _ _ _ _ => rfl
  | evict => exact h.setService hmail fun _ _ _ _ => rfl
  | keep => exact h.setService hmail fun _ _ _ _ => rfl
  | @accept frame fromaddr slot now hpush =>
    refine h.setQueue hmail fun s f b stmt hreturn => ?_
    have hne : s ≠ slot := h.accept_ne hpush (by rw [hreturn]; exact ⟨rfl, rfl⟩)
    rw [Function.update_of_ne hne]
  | scan hpc =>
    refine ⟨hmail, fun j hbuf => ?_⟩
    obtain ⟨hpop, hrbuf⟩ := h.not_scanning_zero hbuf (by simp [hpc])
    exact ⟨hpop, .inl hrbuf⟩
  | discard hpc | measure hpc | copy hpc | release hpc | wake hpc =>
    refine h.setService hmail fun _ _ _ hreturn => ?_
    rw [hpc] at hreturn
    cases hreturn
  | assign hpc hsocket => exact h.assign hpc hsocket hmail
  | clear hpc =>
    refine ⟨hmail, fun j hbuf => ?_⟩
    obtain ⟨hpop, hrbuf⟩ := h.not_scanning_zero hbuf (by simp [hpc])
    exact ⟨hpop, .inl hrbuf⟩

end ReceiverInv

lemma FrameRun.receiverInv {C : NetState → PopAction → Prop} (h : ReceiverInv M)
    (hrun : FrameRun C M M') : ReceiverInv M' := by
  induction hrun with
  | refl => exact h
  | tail _ hstep ih =>
    obtain ⟨header, a, hstep, -⟩ := hstep
    exact ih.step hstep

/-! ### The length and the buffer -/

namespace LengthFits

/-- The sockets change, but not to a smaller buffer for the receiver, unless it had none. -/
lemma setSockets {sockets : Sockets} (h : LengthFits M)
    (hrow : ∀ slot bytes j, M.service.Owes slot bytes → (M.queue slot).socket = some j →
      (sockets j).bufsize = (M.sockets j).bufsize ∨ (M.sockets j).bufsize = 0) :
    LengthFits { M with sockets } := by
  intro slot bytes j howes hsocket
  have hle := h slot bytes j howes hsocket
  rcases hrow slot bytes j howes hsocket with heq | hzero
  · exact hle.trans_eq heq.symm
  · rw [hzero] at hle
    exact UInt32.le_trans hle UInt32.zero_le

/-- The service thread goes on without a new length. -/
lemma setService {service : ServicePc} {pushing : Option Push} {freed : List ℕ} (h : LengthFits M)
    (howes : ∀ slot bytes, service.Owes slot bytes → M.service.Owes slot bytes) :
    LengthFits { M with service, pushing, freed } :=
  fun slot bytes j hs hsocket => h slot bytes j (howes slot bytes hs) hsocket

lemma assign {stmt : ReturnStmt} (h : LengthFits M)
    (hpc : M.service = .returning slot frame bytes stmt) :
    LengthFits { M with
      sockets := Function.update M.sockets j (stmt.assign (M.sockets j))
      service := .afterReturn slot frame bytes stmt.next } := by
  intro s b k howes hsocket
  cases stmt with
  | sender =>
    have hsame : Function.update M.sockets j (ReturnStmt.sender.assign (M.sockets j)) = M.sockets :=
      Function.update_eq_self j M.sockets
    dsimp only
    rw [hsame]
    refine h s b k ?_ hsocket
    rw [hpc]
    exact ⟨howes.1, .inl rfl⟩
  | zeroSport => exact howes.elim
  | _ =>
    rcases howes.2 with hstmt | hstmt
    · cases hstmt
    · cases hstmt

lemma step (h : LengthFits M) (hinv : ReceiverInv M) (hstep : PopStep header M a M')
    (hcond : KeepsReceiver M a) : LengthFits M' := by
  cases hstep with
  | «open» =>
    refine h.setSockets fun slot bytes j _ _ => ?_
    rcases socketOpen_row j with ⟨-, -, -, hsame⟩ | ⟨hclosed, -⟩
    · exact .inl hsame
    · refine .inr (not_not.mp fun hbuf => ?_)
      rw [(hinv.rows j hbuf).1] at hclosed
      cases hclosed
  | @close s =>
    refine h.setSockets fun slot bytes j howes hsocket => ?_
    have hj : j ≠ s := by
      rintro rfl
      exact hcond slot bytes howes hsocket
    rw [socketClose_of_ne hj]
    exact .inl rfl
  | notReceived => exact h
  | @recvfrom s addr sport buf buflength length sockets hs hbuf hrecv =>
    rw [socketRecvfrom] at hrecv
    split_ifs at hrecv with hpop
    cases hrecv
    refine h.setSockets fun slot bytes j howes _ => ?_
    by_cases hj : j = s
    · subst hj
      refine .inr (not_not.mp fun hbuf => ?_)
      exact (hinv.not_scanning_zero hbuf fun _ _ _ => howes.ne_zeroBufsize).2
        (not_not.mp (not_or.mp hpop).2)
    · rw [Function.update_of_ne hj]
      exact .inl rfl
  | drop => exact h
  | choose => exact h.setService fun _ _ => id
  | evict => exact h.setService fun _ _ => id
  | keep => exact h.setService fun _ _ => id
  | @accept frame fromaddr slot now hpush =>
    intro s b j howes hsocket
    obtain ⟨f, htransfers⟩ := ServicePc.Owes.transfers howes
    dsimp only at hsocket
    rw [Function.update_of_ne (hinv.accept_ne hpush htransfers)] at hsocket
    exact h s b j howes hsocket
  | scan => exact hcond.elim
  | discard => exact h.setService fun _ _ => False.elim
  | @measure slot frame j hpc hsocket =>
    rintro s b k ⟨rfl, rfl⟩ hk
    cases hsocket.symm.trans hk
    exact UInt32.le_iff_toNat_le.mpr ((toNat_min_size ..).trans_le (min_le_right _ _))
  | copy hpc => exact h.setService fun _ _ hs => by rw [hpc]; exact hs.1
  | assign hpc => exact h.assign hpc
  | release => exact h.setService fun _ _ => False.elim
  | wake => exact h.setService fun _ _ => False.elim
  | clear =>
    intro s b j howes
    exact howes.elim

end LengthFits

/-! ### The rest of a transfer -/

/-- What holds from the computation of a length on. -/
lemma FrameRun.transfer (hinv : ReceiverInv M) (hfits : LengthFits M)
    (hhandles : M.service.Handles bytes) (hrun : FrameRun KeepsReceiver M M') :
    LengthFits M' ∧ M'.service.Handles bytes := by
  induction hrun with
  | refl => exact ⟨hfits, hhandles⟩
  | tail hrun hstep ih =>
    obtain ⟨header, a, hstep, hcond⟩ := hstep
    have hscan : a ≠ .scan := by
      rintro rfl
      exact hcond
    exact ⟨ih.1.step (FrameRun.receiverInv hinv hrun) hstep hcond, hstep.handles hscan ih.2⟩

/-- A transfer of a length that fits is cut. -/
lemma cutsTransfer_of_handles (hinv : ReceiverInv M) (hfits : LengthFits M)
    (hhandles : M.service.Handles bytes) (hframe : bytes.toNat ≤ framePayload) :
    CutsTransfer M where
  copied M' header slot frame j buffer b M'' hrun hstep := by
    obtain ⟨hfits', hhandles'⟩ := hrun.transfer hinv hfits hhandles
    cases hstep with
    | copy hpc hsocket =>
      have hbuffer := hfits' slot b j (by rw [hpc]; exact ⟨rfl, rfl⟩) hsocket
      rw [hpc] at hhandles'
      cases hhandles'
      exact ⟨hbuffer, hframe⟩
  reported M' header slot frame j address b b' M'' hrun hpc' hsocket' hstep := by
    obtain ⟨hfits', hhandles'⟩ := hrun.transfer hinv hfits hhandles
    generalize hwrite : some (address, b) = write at hstep
    cases hstep with
    | assign hpc =>
      cases hpc.symm.trans hpc'
      cases hwrite
      have hbuffer := hfits' slot b j (by rw [hpc]; exact ⟨⟨rfl, rfl⟩, .inr rfl⟩) hsocket'
      rw [hpc] at hhandles'
      cases hhandles'
      exact ⟨hbuffer, hframe⟩

/-- A transfer that is cut has a header or a buffer that fits. -/
lemma CutsTransfer.fits (hstep : PopStep header M (.measure slot frame) M')
    (hsocket : (M.queue slot).socket = some j) (h : CutsTransfer M') :
    (header frame).size.toNat ≤ framePayload ∨ (M.sockets j).bufsize.toNat ≤ framePayload := by
  cases hstep with
  | @measure _ _ k _ hk =>
    cases hsocket.symm.trans hk
    have hcopied := (h.copied _ header slot frame j _ _ _ .refl (.copy rfl hsocket)).2
    rw [toNat_min_size] at hcopied
    exact min_le_iff.mp hcopied

/-- In every run, whatever is in the frames: if the receiving socket is not closed in between, the
service thread copies and reports no more bytes than the buffer that it copies to and the frame hold,
if and only if the size in the header or the length of the buffer is at most what a frame holds. -/
theorem cutsTransfer_iff (hrun : FrameRun (fun _ _ => True) popInit M)
    (hstep : PopStep header M (.measure slot frame) M')
    (hsocket : (M.queue slot).socket = some j) :
    CutsTransfer M' ↔
      (header frame).size.toNat ≤ framePayload ∨ (M.sockets j).bufsize.toNat ≤ framePayload := by
  refine ⟨CutsTransfer.fits hstep hsocket, fun hsize => ?_⟩
  have hinv := hrun.receiverInv receiverInv_popInit
  have hinv' := hinv.step hstep
  cases hstep with
  | @measure _ _ k hpc hk =>
    cases hsocket.symm.trans hk
    have hlength := toNat_min_size (header frame) (M.sockets j)
    refine cutsTransfer_of_handles hinv' ?_ rfl (hlength.trans_le (min_le_iff.mpr hsize))
    rintro s b k' ⟨rfl, rfl⟩ hk'
    cases hsocket.symm.trans hk'
    exact UInt32.le_iff_toNat_le.mpr (hlength.trans_le (min_le_right _ _))

/-- A frame has been received while a thread waits for a packet with a buffer of the given length,
and the service thread is about to determine how many bytes it copies. -/
lemma measuring_run {size : UInt32} {buflength : UInt32} (hheader : header = fun _ => ⟨5, 7, size⟩) :
    ∃ M M', FrameRun (fun _ _ => True) popInit M ∧ PopStep header M (.measure 0 0) M' ∧
      (M.queue 0).socket = some 0 ∧ (M.sockets 0).bufsize = buflength := by
  subst hheader
  have hpushed : PopRun (fun _ => ⟨5, 7, size⟩) (fun _ _ => True) popInit (filledState 1) :=
    filledState_run (fun _ _ _ _ => trivial) (fun _ _ => trivial) (fun _ _ _ => trivial) (by decide)
  have hopened : PopRun (fun _ => ⟨5, 7, size⟩) (fun _ _ => True) popInit _ :=
    hpushed.tail ⟨_, @PopStep.open _ _ protocolPop 7 (some 0), trivial⟩
  have hwaiting : PopRun (fun _ => ⟨5, 7, size⟩) (fun _ _ => True) popInit _ :=
    hopened.tail ⟨_, @PopStep.recvfrom _ _ 0 8192 8196 4096 buflength 8200 _ (by decide) (by decide)
      rfl, trivial⟩
  have hscanned : PopRun (fun _ => ⟨5, 7, size⟩) (fun _ _ => True) popInit _ :=
    hwaiting.tail ⟨_, @PopStep.scan _ _ _ (.measuring 0 0) rfl rfl rfl, trivial⟩
  exact ⟨_, _, hscanned.frameRun, @PopStep.measure _ _ 0 0 0 rfl rfl, rfl, rfl⟩

/-- A frame of one byte is cut. -/
theorem cutsTransfer_small : ∃ M M', FrameRun (fun _ _ => True) popInit M ∧
    PopStep headersForSeven M (.measure 0 0) M' ∧ CutsTransfer M' := by
  obtain ⟨M, M', hrun, hstep, hsocket, -⟩ := @measuring_run headersForSeven 1 100 rfl
  exact ⟨M, M', hrun, hstep, (cutsTransfer_iff hrun hstep hsocket).mpr (.inl (by decide))⟩

/-- From a frame whose header says 8000 bytes, 8000 bytes are copied to a buffer of 8192 bytes. -/
theorem not_cutsTransfer_large : ∃ M M', FrameRun (fun _ _ => True) popInit M ∧
    PopStep (fun _ => ⟨5, 7, 8000⟩) M (.measure 0 0) M' ∧ (M.sockets 0).bufsize = 8192 ∧
      ¬ CutsTransfer M' := by
  obtain ⟨M, M', hrun, hstep, hsocket, hbufsize⟩ := @measuring_run _ 8000 8192 rfl
  refine ⟨M, M', hrun, hstep, hbufsize, fun hcuts => ?_⟩
  have hfits := hcuts.fits hstep hsocket
  rw [hbufsize] at hfits
  exact absurd hfits (by decide)

set_option maxRecDepth 2000 in
/-- The receiving socket is closed and opened again when the service thread has computed a length of
100 bytes, and 100 bytes are copied to the buffer of 10 bytes of the next receiver. -/
theorem copies_past_reopened : ∃ M M' : NetState,
    PopRun (fun _ => ⟨5, 7, 100⟩) (fun _ _ => True) popInit M ∧
      PopStep (fun _ => ⟨5, 7, 100⟩) M (.copy 0 0 0 12288 100) M' ∧ (M.sockets 0).bufsize = 10 := by
  have hpushed : PopRun (fun _ => ⟨5, 7, 100⟩) (fun _ _ => True) popInit (filledState 1) :=
    filledState_run (fun _ _ _ _ => trivial) (fun _ _ => trivial) (fun _ _ _ => trivial) (by decide)
  have hopened : PopRun (fun _ => ⟨5, 7, 100⟩) (fun _ _ => True) popInit _ :=
    hpushed.tail ⟨_, @PopStep.open _ _ protocolPop 7 (some 0), trivial⟩
  have hwaiting : PopRun (fun _ => ⟨5, 7, 100⟩) (fun _ _ => True) popInit _ :=
    hopened.tail ⟨_, @PopStep.recvfrom _ _ 0 8192 8196 4096 4096 8200 _ (by decide) (by decide) rfl,
      trivial⟩
  have hscanned : PopRun (fun _ => ⟨5, 7, 100⟩) (fun _ _ => True) popInit _ :=
    hwaiting.tail ⟨_, @PopStep.scan _ _ _ (.measuring 0 0) rfl rfl rfl, trivial⟩
  have hmeasured : PopRun (fun _ => ⟨5, 7, 100⟩) (fun _ _ => True) popInit _ :=
    hscanned.tail ⟨_, @PopStep.measure _ _ 0 0 0 rfl rfl, trivial⟩
  have hclosed : PopRun (fun _ => ⟨5, 7, 100⟩) (fun _ _ => True) popInit _ :=
    hmeasured.tail ⟨_, @PopStep.close _ _ 0 (by decide), trivial⟩
  have hreopened : PopRun (fun _ => ⟨5, 7, 100⟩) (fun _ _ => True) popInit _ :=
    hclosed.tail ⟨_, @PopStep.open _ _ protocolPop 9 (some 1), trivial⟩
  have hagain : PopRun (fun _ => ⟨5, 7, 100⟩) (fun _ _ => True) popInit _ :=
    hreopened.tail ⟨_, @PopStep.recvfrom _ _ 0 8192 8196 12288 10 8200 _ (by decide) (by decide) rfl,
      trivial⟩
  exact ⟨_, _, hagain, @PopStep.copy _ _ 0 0 100 0 rfl rfl, rfl⟩

end Osm.Net
