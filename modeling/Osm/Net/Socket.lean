import Osm.Kernel.Semaphore

/-!
# Sockets

A model of `net/socket.c`, and of what `socket_recvfrom` does to the table of open sockets. The
functions take and release `open_sockets_sem` around everything that they do to the table, so each
of them is one change of it. The result of `semaphore_create` is an argument.
-/

namespace Osm.Net

open Osm.Kernel

/-- `CONFIG_MAX_OPEN_SOCKETS`. -/
def configMaxOpenSockets : ℕ := 64

/-- `PROTOCOL_POP`. -/
def protocolPop : UInt8 := 1

/-- `PROTOCOL_SOP`. -/
def protocolSop : UInt8 := 2

/-- A row of the table (`socket_descriptor_t`). -/
structure Socket where
  port            : UInt16
  protocol        : UInt8
  receiveComplete : Option Sem
  rbuf            : UInt32
  bufsize         : UInt32
  sender          : UInt32
  copied          : UInt32
  sport           : UInt32

/-- The row as `socket_init` leaves it. -/
def Socket.zero : Socket := ⟨0, 0, none, 0, 0, 0, 0, 0⟩

/-- The table `open_sockets`. -/
abbrev Sockets := ℕ → Socket

/-- An open socket has the port. -/
def Sockets.PortInUse (sockets : Sockets) (port : UInt16) : Prop :=
  ∃ i < configMaxOpenSockets, (sockets i).protocol ≠ 0 ∧ (sockets i).port = port

instance (sockets : Sockets) (port : UInt16) : Decidable (sockets.PortInUse port) :=
  inferInstanceAs (Decidable (∃ i < configMaxOpenSockets,
    (sockets i).protocol ≠ 0 ∧ (sockets i).port = port))

/-- The first row that is not an open socket. -/
def Sockets.freeRow (sockets : Sockets) : Option ℕ :=
  (List.range configMaxOpenSockets).find? fun i => (sockets i).protocol = 0

/-- The port that a socket is bound to: the port itself, which must be unused, or the first unused
one for the port `0`. -/
def Sockets.bindPort (sockets : Sockets) (port : UInt16) : Option UInt16 :=
  if port = 0 then
    ((List.range 65535).map fun i => UInt16.ofNat (i + 1)).find? fun port => ¬ sockets.PortInUse port
  else if sockets.PortInUse port then none
  else some port

/-- `socket_open`, with the result of `semaphore_create`: the table and the row of the socket, if
there is one. -/
def socketOpen (sockets : Sockets) (protocol : UInt8) (port : UInt16) (sem : Option Sem) :
    Sockets × Option ℕ :=
  if protocol ≠ protocolPop ∧ protocol ≠ protocolSop then (sockets, none)
  else match sockets.freeRow with
  | none   => (sockets, none)
  | some s =>
    match sockets.bindPort port with
    | none      => (sockets, none)
    | some port =>
      let row := { sockets s with receiveComplete := sem }
      match sem with
      | none   => (Function.update sockets s row, none)
      | some _ =>
        let row := { row with port, protocol, rbuf := 0, bufsize := 0, sender := 0, copied := 0 }
        (Function.update sockets s row, some s)

/-- `socket_close`. -/
def socketClose (sockets : Sockets) (socket : ℕ) : Sockets :=
  if (sockets socket).receiveComplete ≠ none then
    Function.update sockets socket { sockets socket with
      port := 0, protocol := 0, rbuf := 0, bufsize := 0, sender := 0, copied := 0
      receiveComplete := none }
  else sockets

/-- `socket_recvfrom` up to the place where it waits: the table, or nothing if the socket is not a
POP socket or somebody receives from it. -/
def socketRecvfrom (sockets : Sockets) (s : ℕ) (addr sport buf buflength length : UInt32) :
    Option Sockets :=
  if (sockets s).protocol ≠ protocolPop ∨ (sockets s).rbuf ≠ 0 then none
  else some (Function.update sockets s { sockets s with
    rbuf := buf, bufsize := buflength, sender := addr, copied := length, sport := sport })

/-! ### What the functions do to a row -/

variable {sockets sockets' : Sockets} {s : ℕ}

/-- `socket_open` leaves the table as it is, or stores the semaphore in a row that is not an open
socket, and opens it if there is a semaphore. -/
lemma socketOpen_cases (sockets : Sockets) (protocol : UInt8) (port : UInt16) :
    (∀ sem, socketOpen sockets protocol port sem = (sockets, none)) ∨
      ∃ s port', (sockets s).protocol = 0 ∧ protocol ≠ 0 ∧
        socketOpen sockets protocol port none =
          (Function.update sockets s { sockets s with receiveComplete := none }, none) ∧
        ∀ sem, socketOpen sockets protocol port (some sem) =
          (Function.update sockets s { sockets s with
            receiveComplete := some sem, port := port', protocol, rbuf := 0, bufsize := 0
            sender := 0, copied := 0 }, some s) := by
  by_cases hprotocol : protocol ≠ protocolPop ∧ protocol ≠ protocolSop
  · exact .inl fun sem => if_pos hprotocol
  have hne : protocol ≠ 0 := by
    rintro rfl
    exact hprotocol (by decide)
  simp only [socketOpen, if_neg hprotocol]
  cases hrow : sockets.freeRow with
  | none => exact .inl fun sem => rfl
  | some s =>
    have hfree : (sockets s).protocol = 0 := by simpa using List.find?_some hrow
    cases sockets.bindPort port with
    | none => exact .inl fun sem => rfl
    | some port' => exact .inr ⟨s, port', hfree, hne, rfl, fun sem => rfl⟩

/-- `socket_open` leaves what it sets in a row as it is, or opens the row, which was not an open
socket, without a buffer. -/
lemma socketOpen_row {protocol : UInt8} {port : UInt16} {sem : Option Sem} (j : ℕ) :
    ((socketOpen sockets protocol port sem).1 j).protocol = (sockets j).protocol ∧
        ((socketOpen sockets protocol port sem).1 j).port = (sockets j).port ∧
        ((socketOpen sockets protocol port sem).1 j).rbuf = (sockets j).rbuf ∧
        ((socketOpen sockets protocol port sem).1 j).bufsize = (sockets j).bufsize ∨
      (sockets j).protocol = 0 ∧ ((socketOpen sockets protocol port sem).1 j).bufsize = 0 ∧
        (socketOpen sockets protocol port sem).2 = some j := by
  rcases socketOpen_cases sockets protocol port with hsame | ⟨s, port', hfree, -, hnone, hsome⟩
  · rw [hsame]
    exact .inl ⟨rfl, rfl, rfl, rfl⟩
  by_cases hj : j = s
  · subst hj
    cases sem with
    | none =>
      rw [hnone]
      exact .inl (by simp [Function.update_self])
    | some sem =>
      rw [hsome]
      exact .inr ⟨hfree, by simp [Function.update_self], rfl⟩
  · cases sem with
    | none =>
      rw [hnone]
      exact .inl (by simp [Function.update_of_ne hj])
    | some sem =>
      rw [hsome]
      exact .inl (by simp [Function.update_of_ne hj])

/-- `socket_close` changes its own row only. -/
lemma socketClose_of_ne {j : ℕ} (hj : j ≠ s) : socketClose sockets s j = sockets j := by
  rw [socketClose]
  split_ifs
  · exact Function.update_of_ne hj ..
  · rfl

/-- `socket_close` leaves its row as it is or closed. -/
lemma socketClose_self :
    socketClose sockets s s = sockets s ∨ (socketClose sockets s s).protocol = 0 := by
  rw [socketClose]
  split_ifs
  · exact .inr (by rw [Function.update_self])
  · exact .inl rfl

/-- `socket_recvfrom` changes neither the protocol nor the port. -/
lemma socketRecvfrom_row {addr sport buf buflength length : UInt32}
    (h : socketRecvfrom sockets s addr sport buf buflength length = some sockets') (j : ℕ) :
    (sockets' j).protocol = (sockets j).protocol ∧ (sockets' j).port = (sockets j).port := by
  rw [socketRecvfrom] at h
  split_ifs at h
  cases h
  by_cases hj : j = s
  · subst hj
    simp [Function.update_self]
  · simp [Function.update_of_ne hj]

/-- A call of `socket_open` that gets as far as `semaphore_create` changes one row, which was not an
open socket and is one then if there is a semaphore. -/
lemma socketOpen_receiveComplete {protocol : UInt8} {port : UInt16} {sem₀ : Sem}
    (hopen : (socketOpen sockets protocol port (some sem₀)).2 ≠ none) :
    ∃ s, (sockets s).protocol = 0 ∧ ∀ sem, ∃ row,
      (socketOpen sockets protocol port sem).1 = Function.update sockets s row ∧
        row.receiveComplete = sem ∧ (row.protocol = 0 ↔ sem = none) := by
  rcases socketOpen_cases sockets protocol port with hsame | ⟨s, port', hfree, hne, hnone, hsome⟩
  · rw [hsame] at hopen
    exact absurd rfl hopen
  refine ⟨s, hfree, fun sem => ?_⟩
  cases sem with
  | none =>
    rw [hnone]
    exact ⟨_, rfl, rfl, by simp [hfree]⟩
  | some sem =>
    rw [hsome]
    exact ⟨_, rfl, rfl, by simp [hne]⟩

/-- `socket_recvfrom` goes on with an open socket and leaves its semaphore as it is. -/
lemma socketRecvfrom_receiveComplete {addr sport buf buflength length : UInt32}
    (h : socketRecvfrom sockets s addr sport buf buflength length = some sockets') :
    (sockets s).protocol ≠ 0 ∧ ∀ j, (sockets' j).receiveComplete = (sockets j).receiveComplete := by
  rw [socketRecvfrom] at h
  split_ifs at h with hrow
  cases h
  push Not at hrow
  refine ⟨?_, fun j => ?_⟩
  · rw [hrow.1]
    decide
  · by_cases hj : j = s
    · subst hj
      simp [Function.update_self]
    · simp [Function.update_of_ne hj]

end Osm.Net
