import Osm.Net.Socket
import Mathlib.Data.UInt
import Mathlib.Logic.Relation
import Mathlib.Order.Basic
import Mathlib.Tactic.Common

/-!
# The POP protocol

A model of the input queue of `net/pop.c`: `pop_push_frame`, called by any number of threads, and
`pop_service_thread`, together with the functions on sockets. What is done with `open_sockets_sem`
or both semaphores taken is one step. `pop_push_frame` goes from its choice of a slot to the free of
the old frame and to the storing of the new one with `pop_queue_sem` taken, and the service thread
performs its actions, which take no semaphore, one statement at a time. `pop_service_thread_sem`
only makes the service thread wait and is left out.

A frame is named by a number, another one each time that its page is allocated; what is in it does
not change before it is freed. The frames accepted and the frames freed are recorded. Behind a second
free of a frame its page may be that of another frame, which has another name here; the results on
deliveries are about runs without one.
-/

namespace Osm.Net

open Osm.Kernel

/-- `CONFIG_POP_QUEUE_SIZE`. -/
def configPopQueueSize : ℕ := 32

/-- `CONFIG_POP_QUEUE_MIN_AGE`. -/
def configPopQueueMinAge : UInt32 := 250

/-- The header of a frame (`pop_header_t`). -/
structure PopHeader where
  sourcePort : UInt16
  destPort   : UInt16
  size       : UInt32

/-- A slot of the queue (`pop_queue_t`); `none` stands for a null pointer and for the socket
`-1`. -/
structure PopSlot where
  frame     : Option ℕ
  socket    : Option ℕ
  timestamp : UInt32
  fromaddr  : UInt32
  busy      : Bool

/-- The table `pop_queue`. -/
abbrev PopQueue := ℕ → PopSlot

/-- The slot as `pop_init` leaves it. -/
def PopSlot.empty : PopSlot := ⟨none, none, 0, 0, false⟩

/-- The slot marked busy, so that it is not chosen as the oldest one. -/
def PopSlot.markBusy (slot : PopSlot) : PopSlot := { slot with busy := true }

namespace PopQueue

/-- The first slot without a frame. -/
def freeSlot (queue : PopQueue) : Option ℕ :=
  (List.range configPopQueueSize).find? fun i => (queue i).frame = none

/-- One round of the search for the oldest slot that is not busy. -/
def olderSlot (queue : PopQueue) (oldest : Option ℕ) (i : ℕ) : Option ℕ :=
  if (queue i).busy then oldest
  else match oldest with
  | none   => some i
  | some k => if (queue i).timestamp < (queue k).timestamp then some i else oldest

/-- The oldest slot that is not busy. -/
def oldestSlot (queue : PopQueue) : Option ℕ :=
  (List.range configPopQueueSize).foldl queue.olderSlot none

/-- The slot that `pop_push_frame` chooses when the clock is `now`: a slot without a frame, or else
the oldest one if it is old enough. -/
def pushSlot (queue : PopQueue) (now : UInt32) : Option ℕ :=
  match queue.freeSlot with
  | some i => some i
  | none   =>
    match queue.oldestSlot with
    | none   => none
    | some i => if now - (queue i).timestamp < configPopQueueMinAge then none else some i

end PopQueue

/-- The statements with which the service thread returns the sender, the length and the port to the
caller of `socket_recvfrom`, saves the address of the buffer and zeroes the row of the socket. -/
inductive ReturnStmt where
  | sender
  | copied
  | sport
  | wake
  | zeroRbuf
  | zeroBufsize
  | zeroSender
  | zeroCopied
  | zeroSport
  deriving DecidableEq

namespace ReturnStmt

/-- The following statement. -/
def next : ReturnStmt → Option ReturnStmt
  | sender      => some copied
  | copied      => some sport
  | sport       => some wake
  | wake        => some zeroRbuf
  | zeroRbuf    => some zeroBufsize
  | zeroBufsize => some zeroSender
  | zeroSender  => some zeroCopied
  | zeroCopied  => some zeroSport
  | zeroSport   => none

/-- What the statement does to the row of the socket. -/
def assign : ReturnStmt → Socket → Socket
  | zeroRbuf,    s => { s with rbuf := 0 }
  | zeroBufsize, s => { s with bufsize := 0 }
  | zeroSender,  s => { s with sender := 0 }
  | zeroCopied,  s => { s with copied := 0 }
  | zeroSport,   s => { s with sport := 0 }
  | _,           s => s

/-- The address that the statement writes to, and the value. -/
def write (header : PopHeader) (fromaddr bytes : UInt32) (s : Socket) :
    ReturnStmt → Option (UInt32 × UInt32)
  | sender => some (s.sender, fromaddr)
  | copied => some (s.copied, bytes)
  | sport  => some (s.sport, header.sourcePort.toUInt32)
  | _      => none

end ReturnStmt

/-- Where the service thread is: in front of the search of the queue, in front of freeing a frame
that it discards, in front of taking the frame out of the slot, or in a transfer: in front of the
computation of the length, of the copy, of one of the statements after it, of freeing the frame,
and of waking the receiver. -/
inductive ServicePc where
  | scanning
  | discarding (slot frame : ℕ)
  | clearing (slot frame : ℕ)
  | measuring (slot frame : ℕ)
  | copying (slot frame : ℕ) (bytes : UInt32)
  | returning (slot frame : ℕ) (bytes : UInt32) (stmt : ReturnStmt)
  | releasing (slot frame : ℕ)
  | waking (slot frame : ℕ)

/-- Behind a statement after the copy. -/
def ServicePc.afterReturn (slot frame : ℕ) (bytes : UInt32) : Option ReturnStmt → ServicePc
  | some stmt => .returning slot frame bytes stmt
  | none      => .releasing slot frame

variable (header : ℕ → PopHeader)

/-- The slot with the socket to which its frame is sent, if it has none yet. -/
def findSocket (sockets : Sockets) (frame : ℕ) (slot : PopSlot) : PopSlot :=
  if slot.socket = none then
    { slot with
      socket := (List.range configMaxOpenSockets).find? fun j =>
        (sockets j).protocol = protocolPop ∧ (sockets j).port = (header frame).destPort }
  else slot

/-- The search of the queue by the service thread, over the given slots. -/
def popScan (sockets : Sockets) : List ℕ → PopQueue → PopQueue × ServicePc
  | [],      queue => (queue, .scanning)
  | i :: is, queue =>
    match (queue i).frame with
    | none       => popScan sockets is queue
    | some frame =>
      let queue := Function.update queue i (findSocket header sockets frame (queue i))
      match (queue i).socket with
      | none   => (queue, .discarding i frame)
      | some j =>
        if (sockets j).protocol ≠ protocolPop then (queue, .discarding i frame)
        else if (sockets j).rbuf ≠ 0 then
          (Function.update queue i (queue i).markBusy, .measuring i frame)
        else popScan sockets is queue

/-- The thread that has taken `pop_queue_sem` in `pop_push_frame`: its frame, the slot that it has
chosen, and whether it has freed the old frame of the slot. -/
structure Push where
  frame    : ℕ
  fromaddr : UInt32
  slot     : ℕ
  freed    : Bool

/-- The sockets, the queue, the service thread, the thread in `pop_push_frame`, the frames that
`pop_push_frame` has accepted and those passed to `network_free_frame`. -/
structure NetState where
  sockets  : Sockets
  queue    : PopQueue
  service  : ServicePc
  pushing  : Option Push
  accepted : List ℕ
  freed    : List ℕ

/-- The state after `socket_init` and `pop_init`. -/
def popInit : NetState := ⟨fun _ => .zero, fun _ => .empty, .scanning, none, [], []⟩

/-- The actions of the threads. -/
inductive PopAction where
  | open (protocol : UInt8) (port : UInt16) (sem : Option Sem)
  | close (socket : ℕ)
  | recvfrom (s : ℕ)
  | choose (frame slot : ℕ)
  | drop (frame : ℕ)
  | evict (slot frame : ℕ)
  | keep (slot : ℕ)
  | accept (slot frame : ℕ)
  | scan
  | free (slot frame : ℕ)
  | clear (slot : ℕ)
  | measure (slot frame : ℕ)
  | copy (slot frame socket : ℕ) (buffer bytes : UInt32)
  | assign (slot frame : ℕ) (write : Option (UInt32 × UInt32))
  | wake (sem : Option Sem)

/-- The steps. -/
inductive PopStep : NetState → PopAction → NetState → Prop where
  | open {M : NetState} {protocol port sem} :
      PopStep M (.open protocol port sem)
        { M with sockets := (socketOpen M.sockets protocol port sem).1 }
  | close {M : NetState} {socket} (hsocket : socket < configMaxOpenSockets) :
      PopStep M (.close socket) { M with sockets := socketClose M.sockets socket }
  | notReceived {M : NetState} {s addr sport buf buflength length}
      (hs : s < configMaxOpenSockets) (hbuf : buf ≠ 0)
      (hrecv : socketRecvfrom M.sockets s addr sport buf buflength length = none) :
      PopStep M (.recvfrom s) M
  | recvfrom {M : NetState} {s addr sport buf buflength length sockets}
      (hs : s < configMaxOpenSockets) (hbuf : buf ≠ 0)
      (hrecv : socketRecvfrom M.sockets s addr sport buf buflength length = some sockets) :
      PopStep M (.recvfrom s) { M with sockets }
  | drop {M : NetState} {frame now} (hlock : M.pushing = none)
      (hslot : M.queue.pushSlot now = none) :
      PopStep M (.drop frame) M
  | choose {M : NetState} {frame fromaddr now slot} (hlock : M.pushing = none)
      (hframe : frame ∉ M.accepted) (hslot : M.queue.pushSlot now = some slot) :
      PopStep M (.choose frame slot) { M with pushing := some ⟨frame, fromaddr, slot, false⟩ }
  | evict {M : NetState} {frame fromaddr slot old}
      (hpush : M.pushing = some ⟨frame, fromaddr, slot, false⟩)
      (hold : (M.queue slot).frame = some old) :
      PopStep M (.evict slot old)
        { M with pushing := some ⟨frame, fromaddr, slot, true⟩, freed := old :: M.freed }
  | keep {M : NetState} {frame fromaddr slot}
      (hpush : M.pushing = some ⟨frame, fromaddr, slot, false⟩)
      (hold : (M.queue slot).frame = none) :
      PopStep M (.keep slot) { M with pushing := some ⟨frame, fromaddr, slot, true⟩ }
  | accept {M : NetState} {frame fromaddr slot now}
      (hpush : M.pushing = some ⟨frame, fromaddr, slot, true⟩) :
      PopStep M (.accept slot frame)
        { M with
          queue := Function.update M.queue slot ⟨some frame, none, now, fromaddr, false⟩
          pushing := none, accepted := frame :: M.accepted }
  | scan {M : NetState} {queue service} (hpc : M.service = .scanning) (hlock : M.pushing = none)
      (hscan : popScan header M.sockets (List.range configPopQueueSize) M.queue =
        (queue, service)) :
      PopStep M .scan { M with queue, service }
  | discard {M : NetState} {slot frame} (hpc : M.service = .discarding slot frame) :
      PopStep M (.free slot frame)
        { M with service := .clearing slot frame, freed := frame :: M.freed }
  | measure {M : NetState} {slot frame j} (hpc : M.service = .measuring slot frame)
      (hsocket : (M.queue slot).socket = some j) :
      PopStep M (.measure slot frame)
        { M with service := .copying slot frame (min (header frame).size (M.sockets j).bufsize) }
  | copy {M : NetState} {slot frame bytes j} (hpc : M.service = .copying slot frame bytes)
      (hsocket : (M.queue slot).socket = some j) :
      PopStep M (.copy slot frame j (M.sockets j).rbuf bytes)
        { M with service := .returning slot frame bytes .sender }
  | assign {M : NetState} {slot frame bytes stmt j}
      (hpc : M.service = .returning slot frame bytes stmt)
      (hsocket : (M.queue slot).socket = some j) :
      PopStep M (.assign slot frame
          (stmt.write (header frame) (M.queue slot).fromaddr bytes (M.sockets j)))
        { M with
          sockets := Function.update M.sockets j (stmt.assign (M.sockets j))
          service := .afterReturn slot frame bytes stmt.next }
  | release {M : NetState} {slot frame} (hpc : M.service = .releasing slot frame) :
      PopStep M (.free slot frame)
        { M with service := .waking slot frame, freed := frame :: M.freed }
  | wake {M : NetState} {slot frame j} (hpc : M.service = .waking slot frame)
      (hsocket : (M.queue slot).socket = some j) :
      PopStep M (.wake (M.sockets j).receiveComplete)
        { M with service := .clearing slot frame }
  | clear {M : NetState} {slot frame} (hpc : M.service = .clearing slot frame) :
      PopStep M (.clear slot)
        { M with
          queue := Function.update M.queue slot { M.queue slot with frame := none }
          service := .scanning }

/-- The runs whose steps meet a condition. -/
def PopRun (C : NetState → PopAction → Prop) : NetState → NetState → Prop :=
  Relation.ReflTransGen fun M M' => ∃ a, PopStep header M a M' ∧ C M a

variable {header} in
lemma PopRun.mono {C C' : NetState → PopAction → Prop} {M M' : NetState}
    (hcond : ∀ M a, C M a → C' M a) (h : PopRun header C M M') : PopRun header C' M M' := by
  induction h with
  | refl => exact .refl
  | @tail M₁ _ _ hstep ih =>
    obtain ⟨a, hstep, hC⟩ := hstep
    exact ih.tail ⟨a, hstep, hcond M₁ a hC⟩

/-! ### The slots that are chosen -/

namespace PopQueue

variable {queue : PopQueue} {slot : ℕ}

lemma freeSlot_eq_some (h : queue.freeSlot = some slot) :
    slot < configPopQueueSize ∧ (queue slot).frame = none :=
  ⟨List.mem_range.mp (List.mem_of_find?_eq_some h), by simpa using List.find?_some h⟩

lemma olderSlot_eq_some {oldest : Option ℕ} {i : ℕ} (h : queue.olderSlot oldest i = some slot) :
    oldest = some slot ∨ slot = i ∧ (queue slot).busy = false := by
  unfold olderSlot at h
  split_ifs at h with hbusy
  · exact .inl h
  · have hi : (queue i).busy = false := by simpa using hbusy
    cases oldest with
    | none =>
      cases h
      exact .inr ⟨rfl, hi⟩
    | some k =>
      dsimp only at h
      split_ifs at h
      · cases h
        exact .inr ⟨rfl, hi⟩
      · exact .inl h

lemma oldestSlot_eq_some (h : queue.oldestSlot = some slot) :
    slot < configPopQueueSize ∧ (queue slot).busy = false := by
  have hfold : ∀ (l : List ℕ) (oldest : Option ℕ), l.foldl queue.olderSlot oldest = some slot →
      oldest = some slot ∨ slot ∈ l ∧ (queue slot).busy = false := by
    intro l
    induction l with
    | nil => exact fun oldest hslot => .inl hslot
    | cons i l ih =>
      intro oldest hslot
      rcases ih _ hslot with hround | ⟨hmem, hbusy⟩
      · rcases olderSlot_eq_some hround with hold | ⟨rfl, hbusy⟩
        · exact .inl hold
        · exact .inr ⟨List.mem_cons_self, hbusy⟩
      · exact .inr ⟨List.mem_cons_of_mem _ hmem, hbusy⟩
  rcases hfold _ none h with hnone | ⟨hmem, hbusy⟩
  · cases hnone
  · exact ⟨List.mem_range.mp hmem, hbusy⟩

/-- `pop_push_frame` chooses a slot that has no frame or is not busy. -/
lemma pushSlot_eq_some {now : UInt32} (h : queue.pushSlot now = some slot) :
    slot < configPopQueueSize ∧ ((queue slot).frame = none ∨ (queue slot).busy = false) := by
  rw [pushSlot] at h
  cases hfree : queue.freeSlot with
  | some i =>
    rw [hfree] at h
    cases h
    exact ⟨(freeSlot_eq_some hfree).1, .inl (freeSlot_eq_some hfree).2⟩
  | none =>
    rw [hfree] at h
    cases hold : queue.oldestSlot with
    | none =>
      rw [hold] at h
      cases h
    | some i =>
      rw [hold] at h
      dsimp only at h
      split_ifs at h
      cases h
      exact ⟨(oldestSlot_eq_some hold).1, .inr (oldestSlot_eq_some hold).2⟩

end PopQueue

/-- What the search of the queue leaves behind: the frames are where they were, a socket that has
been found has the port of the frame, and the service thread has chosen a frame of the queue. A
frame is chosen for a transfer when somebody receives from its socket, and the slot is busy then. -/
structure Scanned (sockets : Sockets) (queue queue' : PopQueue) (service : ServicePc) : Prop where
  frame  : ∀ i, (queue' i).frame = (queue i).frame
  socket : ∀ i, (queue' i).socket = (queue i).socket ∨
    ∃ frame j, (queue i).frame = some frame ∧ (queue' i).socket = some j ∧
      (sockets j).protocol = protocolPop ∧ (sockets j).port = (header frame).destPort
  chosen : service = .scanning ∨
    ∃ slot frame, slot < configPopQueueSize ∧ (queue' slot).frame = some frame ∧
      (service = .discarding slot frame ∨
        service = .measuring slot frame ∧ (queue' slot).busy = true ∧
          ∃ j, (queue' slot).socket = some j ∧ (sockets j).protocol = protocolPop ∧
            (sockets j).rbuf ≠ 0)

variable {header}

/-- Finding the socket of one frame. -/
lemma scanned_findSocket {sockets : Sockets} {queue : PopQueue} {i frame : ℕ}
    (hframe : (queue i).frame = some frame) :
    Scanned header sockets queue
      (Function.update queue i (findSocket header sockets frame (queue i))) .scanning where
  frame k := by
    by_cases hk : k = i
    · subst hk
      rw [Function.update_self, findSocket]
      split_ifs <;> rfl
    · rw [Function.update_of_ne hk]
  socket k := by
    by_cases hk : k = i
    · subst hk
      rw [Function.update_self, findSocket]
      split_ifs with hnone
      · cases hfind : (List.range configMaxOpenSockets).find? fun j =>
            (sockets j).protocol = protocolPop ∧ (sockets j).port = (header frame).destPort with
        | none => exact .inl hnone.symm
        | some j =>
          have hj := List.find?_some hfind
          rw [decide_eq_true_iff] at hj
          exact .inr ⟨frame, j, hframe, rfl, hj⟩
      · exact .inl rfl
    · rw [Function.update_of_ne hk]
      exact .inl rfl
  chosen := .inl rfl

lemma Scanned.trans {sockets : Sockets} {queue queue' queue'' : PopQueue}
    {service service' : ServicePc} (h : Scanned header sockets queue queue' service)
    (h' : Scanned header sockets queue' queue'' service') :
    Scanned header sockets queue queue'' service' where
  frame i := (h'.frame i).trans (h.frame i)
  socket i := by
    rcases h'.socket i with heq | ⟨frame, j, hframe, hj⟩
    · rw [heq]
      exact h.socket i
    · exact .inr ⟨frame, j, (h.frame i) ▸ hframe, hj⟩
  chosen := h'.chosen

lemma popScan_scanned {sockets : Sockets} {l : List ℕ} {queue queue' : PopQueue}
    {service : ServicePc} (hl : ∀ i ∈ l, i < configPopQueueSize)
    (h : popScan header sockets l queue = (queue', service)) :
    Scanned header sockets queue queue' service := by
  induction l generalizing queue with
  | nil =>
    cases h
    exact ⟨fun _ => rfl, fun _ => .inl rfl, .inl rfl⟩
  | cons i l ih =>
    have hrest : ∀ k ∈ l, k < configPopQueueSize := fun k hk => hl k (List.mem_cons_of_mem _ hk)
    rw [popScan] at h
    cases hframe : (queue i).frame with
    | none =>
      rw [hframe] at h
      exact ih hrest h
    | some frame =>
      rw [hframe] at h
      have hfound : Scanned header sockets queue _ _ := scanned_findSocket hframe
      have hi : i < configPopQueueSize := hl i List.mem_cons_self
      have hframe' := (hfound.frame i).trans hframe
      dsimp only at h
      generalize Function.update queue i (findSocket header sockets frame (queue i)) = found at *
      cases hsocket : (found i).socket with
      | none =>
        rw [hsocket] at h
        cases h
        exact ⟨hfound.frame, hfound.socket, .inr ⟨i, frame, hi, hframe', .inl rfl⟩⟩
      | some j =>
        rw [hsocket] at h
        dsimp only at h
        split_ifs at h with hclosed hrbuf
        · cases h
          exact ⟨hfound.frame, hfound.socket, .inr ⟨i, frame, hi, hframe', .inl rfl⟩⟩
        · cases h
          have hbusy : Scanned header sockets found
              (Function.update found i (found i).markBusy) (.measuring i frame) := by
            refine ⟨fun k => ?_, fun k => .inl ?_, .inr ⟨i, frame, hi, ?_, .inr ⟨rfl, ?_, j, ?_⟩⟩⟩
            · by_cases hk : k = i
              · subst hk
                rw [Function.update_self]
                rfl
              · rw [Function.update_of_ne hk]
            · by_cases hk : k = i
              · subst hk
                rw [Function.update_self]
                rfl
              · rw [Function.update_of_ne hk]
            · rw [Function.update_self]
              exact hframe'
            · rw [Function.update_self]
              rfl
            · rw [Function.update_self]
              exact ⟨hsocket, not_not.mp hclosed, hrbuf⟩
          exact hfound.trans hbusy
        · exact hfound.trans (ih hrest h)

/-- Without frames the search of the queue finds nothing. -/
lemma popScan_of_empty {sockets : Sockets} {l : List ℕ} {queue : PopQueue}
    (h : ∀ i ∈ l, (queue i).frame = none) : popScan header sockets l queue = (queue, .scanning) := by
  induction l with
  | nil => rfl
  | cons i l ih =>
    rw [popScan, h i List.mem_cons_self]
    exact ih fun k hk => h k (List.mem_cons_of_mem _ hk)

/-- Nobody receives from the socket of a frame, and the search goes on. -/
lemma popScan_waiting {sockets : Sockets} {i frame j : ℕ} {l : List ℕ} {queue : PopQueue}
    {slot : PopSlot} (hframe : (queue i).frame = some frame)
    (hfind : findSocket header sockets frame (queue i) = slot) (hsocket : slot.socket = some j)
    (hprotocol : (sockets j).protocol = protocolPop) (hrbuf : (sockets j).rbuf = 0) :
    popScan header sockets (i :: l) queue =
      popScan header sockets l (Function.update queue i slot) := by
  rw [popScan, hframe]
  dsimp only
  rw [hfind, Function.update_self, hsocket]
  simp only [hprotocol, hrbuf, ne_eq, not_true_eq_false, if_false]

/-! ### Frames that have been pushed -/

/-- The first slots have frames, all of them pushed at the time `0`. -/
def filledQueue (k : ℕ) : PopQueue := fun i => if i < k then ⟨some i, none, 0, 0, false⟩ else .empty

/-- Some frames have been pushed and nothing else has happened. -/
def filledState (k : ℕ) : NetState :=
  { popInit with queue := filledQueue k, accepted := (List.range k).reverse }

lemma filledQueue_succ (k : ℕ) :
    Function.update (filledQueue k) k ⟨some k, none, 0, 0, false⟩ = filledQueue (k + 1) := by
  funext i
  by_cases hi : i = k
  · subst hi
    rw [Function.update_self, filledQueue, if_pos (Nat.lt_succ_self i)]
  · have hiff : i < k ↔ i < k + 1 := by omega
    rw [Function.update_of_ne hi, filledQueue, filledQueue]
    simp only [hiff]

lemma pushSlot_filledQueue {k : ℕ} (hk : k < configPopQueueSize) (now : UInt32) :
    (filledQueue k).pushSlot now = some k := by
  have hfree : (filledQueue k).freeSlot = some k := by
    refine List.find?_range_eq_some.mpr ⟨?_, List.mem_range.mpr hk, fun i hi => ?_⟩
    · simp [filledQueue, PopSlot.empty]
    · simp [filledQueue, hi]
  rw [PopQueue.pushSlot, hfree]

lemma filledState_run {C : NetState → PopAction → Prop}
    (hchoose : ∀ M frame slot, M.service = .scanning → C M (.choose frame slot))
    (hkeep : ∀ M slot, C M (.keep slot)) (haccept : ∀ M slot frame, C M (.accept slot frame))
    {k : ℕ} (hk : k ≤ configPopQueueSize) : PopRun header C popInit (filledState k) := by
  induction k with
  | zero => exact .refl
  | succ k ih =>
    have hlt : k < configPopQueueSize := hk
    have hframe : k ∉ (filledState k).accepted := by simp [filledState]
    have hchosen : PopRun header C popInit _ := (ih hlt.le).tail
      ⟨_, @PopStep.choose _ _ k 0 0 k rfl hframe (pushSlot_filledQueue hlt 0), hchoose _ _ _ rfl⟩
    have hkept : PopRun header C popInit _ :=
      hchosen.tail ⟨_, @PopStep.keep _ _ k 0 k rfl (by simp [filledState, filledQueue, PopSlot.empty]),
        hkeep _ _⟩
    have haccepted : PopRun header C popInit _ :=
      hkept.tail ⟨_, @PopStep.accept _ _ k 0 k 0 rfl, haccept _ _ _⟩
    convert haccepted using 1
    simp only [filledState, NetState.mk.injEq, true_and, and_true, List.range_succ,
      List.reverse_append, List.reverse_singleton, List.singleton_append]
    exact ⟨(filledQueue_succ k).symm, rfl⟩

/-- The headers of frames for the port 7. -/
def headersForSeven : ℕ → PopHeader := fun _ => ⟨5, 7, 1⟩

end Osm.Net
