import Osm.Core.Loop
import Osm.Net.Socket
import Mathlib.Data.Finset.Card
import Mathlib.Data.UInt
import Mathlib.Order.Interval.Finset.Nat
import Mathlib.Tactic.Common

/-!
# The ports of the sockets

`socket_open` looks for a free port by counting from the port `1` on. The search ends since there
are fewer sockets than ports, and it finds the smallest port of no open socket. In every sequence of
calls of `socket_open` and `socket_close` the open sockets have distinct ports.
-/

namespace Osm.Net

open Osm.Core Osm.Kernel

variable {sockets : Sockets} {port p q : UInt16} {protocol : UInt8} {sem : Option Sem} {s : ℕ}

/-! ### The search for a free port -/

/-- One round of the search for a free port in `socket_open`. -/
def portRound (sockets : Sockets) (port : UInt16) : UInt16 ⊕ UInt16 :=
  let port := port + 1
  if sockets.PortInUse port then .inl port else .inr port

/-- The search for a free port, for at most `fuel` rounds. -/
def searchPort (sockets : Sockets) (fuel : ℕ) : Option UInt16 := loop (portRound sockets) fuel 0

/-- The port is the smallest one that no open socket has. -/
structure Sockets.FirstFree (sockets : Sockets) (port : UInt16) : Prop where
  nonzero  : port ≠ 0
  unused   : ¬ sockets.PortInUse port
  smallest : ∀ q, q ≠ 0 → ¬ sockets.PortInUse q → port ≤ q

/-- No more ports are in use than there are sockets. -/
lemma le_of_portsInUse {k : ℕ} (hk : k < 2 ^ 16)
    (h : ∀ i, 1 ≤ i → i ≤ k → sockets.PortInUse (UInt16.ofNat i)) : k ≤ configMaxOpenSockets := by
  choose! row hrow using h
  have hcard : (Finset.Icc 1 k).card ≤ (Finset.range configMaxOpenSockets).card := by
    refine Finset.card_le_card_of_injOn row (fun i hi => ?_) (fun i hi j hj hij => ?_)
    · obtain ⟨hlower, hupper⟩ := Finset.mem_Icc.mp hi
      exact Finset.mem_coe.mpr (Finset.mem_range.mpr (hrow i hlower hupper).1)
    · obtain ⟨hlower, hupper⟩ := Finset.mem_Icc.mp (Finset.mem_coe.mp hi)
      obtain ⟨hlower', hupper'⟩ := Finset.mem_Icc.mp (Finset.mem_coe.mp hj)
      have hport : UInt16.ofNat i = UInt16.ofNat j := by
        rw [← (hrow i hlower hupper).2.2, ← (hrow j hlower' hupper').2.2, hij]
      have hnat := congrArg UInt16.toNat hport
      rwa [UInt16.toNat_ofNat_of_lt' (hupper.trans_lt hk),
        UInt16.toNat_ofNat_of_lt' (hupper'.trans_lt hk)] at hnat
  simpa using hcard

/-- The search ends with the smallest free port. -/
theorem searchPort_spec (sockets : Sockets) :
    ∃ port, searchPort sockets (configMaxOpenSockets + 1) = some port ∧
      sockets.FirstFree port := by
  -- the ports up to the current one are in use, so the index counts the sockets that are left
  refine loop_spec (fun j port => port.toNat + j = configMaxOpenSockets ∧
    ∀ i, 1 ≤ i → i ≤ port.toNat → sockets.PortInUse (UInt16.ofNat i)) _ ?_ _
    configMaxOpenSockets 0 ⟨rfl, fun i hlower hupper => absurd (hlower.trans hupper) (by decide)⟩
    (Nat.lt_succ_self _)
  rintro j port ⟨hindex, hused⟩
  have hmax : port.toNat ≤ 64 := by
    rw [show configMaxOpenSockets = 64 from rfl] at hindex
    omega
  have hnext : (port + 1).toNat = port.toNat + 1 := by
    rw [UInt16.toNat_add, show (1 : UInt16).toNat = 1 from rfl]
    omega
  have hnextport : UInt16.ofNat (port.toNat + 1) = port + 1 := by
    rw [← hnext, UInt16.ofNat_toNat]
  rw [portRound]
  split_ifs with hinuse
  · have hused' : ∀ i, 1 ≤ i → i ≤ port.toNat + 1 → sockets.PortInUse (UInt16.ofNat i) := by
      intro i hlower hupper
      rcases Nat.lt_or_eq_of_le hupper with hlt | rfl
      · exact hused i hlower (Nat.lt_succ_iff.mp hlt)
      · rw [hnextport]
        exact hinuse
    have hroom : port.toNat + 1 ≤ configMaxOpenSockets := le_of_portsInUse (by omega) hused'
    refine ⟨j - 1, by omega, ?_, ?_⟩
    · rw [hnext]
      omega
    · rw [hnext]
      exact hused'
  · refine ⟨fun hzero => ?_, hinuse, fun q hq hfree => ?_⟩
    · rw [hzero] at hnext
      cases hnext
    · by_contra hlt
      rw [UInt16.le_iff_toNat_le, hnext] at hlt
      have hpos : q.toNat ≠ 0 := fun h => hq (UInt16.toNat_inj.mp h)
      have := hused q.toNat (by omega) (by omega)
      rw [UInt16.ofNat_toNat] at this
      exact hfree this

lemma Sockets.FirstFree.unique (hp : sockets.FirstFree p) (hq : sockets.FirstFree q) : p = q :=
  UInt16.le_antisymm (hp.smallest q hq.nonzero hq.unused) (hq.smallest p hp.nonzero hp.unused)

/-- The port that `socket_open` binds a socket to for the port `0`. -/
lemma bindPort_zero_eq_some (h : sockets.bindPort 0 = some port) : sockets.FirstFree port := by
  rw [Sockets.bindPort, if_pos rfl, List.find?_map, Option.map_eq_some_iff] at h
  obtain ⟨i, hfind, rfl⟩ := h
  rw [List.find?_range_eq_some] at hfind
  obtain ⟨hfree, hi, hmin⟩ := hfind
  rw [List.mem_range] at hi
  have hnat : (UInt16.ofNat (i + 1)).toNat = i + 1 :=
    UInt16.toNat_ofNat_of_lt' (show i + 1 < 2 ^ 16 by omega)
  refine ⟨fun hzero => ?_, by simpa using hfree, fun q hq hunused => ?_⟩
  · rw [hzero] at hnat
    cases hnat
  · by_contra hlt
    rw [UInt16.le_iff_toNat_le, hnat] at hlt
    have hpos : q.toNat ≠ 0 := fun h => hq (UInt16.toNat_inj.mp h)
    have hused := hmin (q.toNat - 1) (by omega)
    rw [Function.comp_apply, Nat.sub_add_cancel (Nat.one_le_iff_ne_zero.mpr hpos),
      UInt16.ofNat_toNat] at hused
    simp [hunused] at hused

/-- What `socket_open` binds a socket to for the port `0` is what the search finds. -/
lemma searchPort_eq_bindPort (sockets : Sockets) :
    searchPort sockets (configMaxOpenSockets + 1) = sockets.bindPort 0 := by
  obtain ⟨port, hsearch, hfirst⟩ := searchPort_spec sockets
  rw [hsearch]
  cases hbind : sockets.bindPort 0 with
  | some q => rw [hfirst.unique (bindPort_zero_eq_some hbind)]
  | none =>
    rw [Sockets.bindPort, if_pos rfl, List.find?_map, Option.map_eq_none_iff,
      List.find?_eq_none] at hbind
    have hpos : port.toNat ≠ 0 := fun h => hfirst.nonzero (UInt16.toNat_inj.mp h)
    have hlt := port.toNat_lt
    have hused := hbind (port.toNat - 1) (List.mem_range.mpr (by omega))
    rw [Function.comp_apply, Nat.sub_add_cancel (Nat.one_le_iff_ne_zero.mpr hpos),
      UInt16.ofNat_toNat] at hused
    simp [hfirst.unused] at hused

/-! ### One call of `socket_open` -/

/-- The port that a socket is bound to is not `0` and no open socket has it. -/
lemma bindPort_eq_some (h : sockets.bindPort port = some p) :
    p ≠ 0 ∧ ¬ sockets.PortInUse p ∧ (port ≠ 0 → p = port) := by
  by_cases hport : port = 0
  · subst hport
    have hfirst := bindPort_zero_eq_some h
    exact ⟨hfirst.nonzero, hfirst.unused, fun hne => absurd rfl hne⟩
  · rw [Sockets.bindPort, if_neg hport] at h
    split_ifs at h with hinuse
    cases h
    exact ⟨hport, hinuse, fun _ => rfl⟩

lemma freeRow_eq_some (h : sockets.freeRow = some s) :
    s < configMaxOpenSockets ∧ (sockets s).protocol = 0 :=
  ⟨List.mem_range.mp (List.mem_of_find?_eq_some h), by simpa using List.find?_some h⟩

lemma freeRow_eq_none :
    sockets.freeRow = none ↔ ∀ i < configMaxOpenSockets, (sockets i).protocol ≠ 0 := by
  simp [Sockets.freeRow, List.find?_eq_none]

/-- A call that succeeds has found a row and a port, and has changed this row only. -/
lemma socketOpen_eq_some (h : (socketOpen sockets protocol port sem).2 = some s) :
    protocol ≠ 0 ∧ sockets.freeRow = some s ∧ ∃ p row, sockets.bindPort port = some p ∧
      row.port = p ∧ row.protocol = protocol ∧
      (socketOpen sockets protocol port sem).1 = Function.update sockets s row := by
  rw [socketOpen] at h ⊢
  split_ifs at h ⊢ with hprotocol
  have hne : protocol ≠ 0 := by
    rintro rfl
    exact hprotocol ⟨by decide, by decide⟩
  cases hrow : sockets.freeRow with
  | none =>
    rw [hrow] at h
    cases h
  | some s' =>
    rw [hrow] at h
    cases hbind : sockets.bindPort port with
    | none =>
      rw [hbind] at h
      cases h
    | some p =>
      rw [hbind] at h
      cases sem with
      | none => cases h
      | some sem =>
        cases h
        exact ⟨hne, rfl, p, _, rfl, rfl, rfl, rfl⟩

/-- A call fails if the protocol is not supported, or there is no row, no port or no semaphore. -/
lemma socketOpen_eq_none : (socketOpen sockets protocol port sem).2 = none ↔
    (protocol ≠ protocolPop ∧ protocol ≠ protocolSop) ∨ sockets.freeRow = none ∨
      sockets.bindPort port = none ∨ sem = none := by
  rw [socketOpen]
  split_ifs with hprotocol
  · exact iff_of_true rfl (.inl hprotocol)
  · cases sockets.freeRow with
    | none => exact iff_of_true rfl (.inr (.inl rfl))
    | some s =>
      cases sockets.bindPort port with
      | none => exact iff_of_true rfl (.inr (.inr (.inl rfl)))
      | some p =>
        cases sem with
        | none => exact iff_of_true rfl (.inr (.inr (.inr rfl)))
        | some sem => simp [hprotocol]

/-- What a call of `socket_open` does. -/
structure OpensSocket (sockets : Sockets) (protocol : UInt8) (port : UInt16) (sem : Option Sem) :
    Prop where
  search    : ∃ p, searchPort sockets (configMaxOpenSockets + 1) = some p ∧
    sockets.bindPort 0 = some p
  opened    : ∀ s, (socketOpen sockets protocol port sem).2 = some s →
    s < configMaxOpenSockets ∧ (sockets s).protocol = 0 ∧
      ((socketOpen sockets protocol port sem).1 s).protocol = protocol
  automatic : port = 0 → ∀ s, (socketOpen sockets protocol port sem).2 = some s →
    sockets.FirstFree ((socketOpen sockets protocol port sem).1 s).port
  given     : port ≠ 0 → ∀ s, (socketOpen sockets protocol port sem).2 = some s →
    ((socketOpen sockets protocol port sem).1 s).port = port
  fails     : port ≠ 0 → ((socketOpen sockets protocol port sem).2 = none ↔
    (protocol ≠ protocolPop ∧ protocol ≠ protocolSop) ∨
      (∀ i < configMaxOpenSockets, (sockets i).protocol ≠ 0) ∨ sockets.PortInUse port ∨ sem = none)
  unchanged : (socketOpen sockets protocol port sem).2 = none →
    ∀ i, ((socketOpen sockets protocol port sem).1 i).protocol = (sockets i).protocol ∧
      ((socketOpen sockets protocol port sem).1 i).port = (sockets i).port

lemma opensSocket (sockets : Sockets) (protocol : UInt8) (port : UInt16) (sem : Option Sem) :
    OpensSocket sockets protocol port sem where
  search := by
    obtain ⟨p, hsearch, -⟩ := searchPort_spec sockets
    exact ⟨p, hsearch, (searchPort_eq_bindPort sockets).symm.trans hsearch⟩
  opened s h := by
    obtain ⟨-, hrow, p, row, -, -, hprotocol, htable⟩ := socketOpen_eq_some h
    rw [htable, Function.update_self]
    exact ⟨(freeRow_eq_some hrow).1, (freeRow_eq_some hrow).2, hprotocol⟩
  automatic hport s h := by
    obtain ⟨-, -, p, row, hbind, rfl, -, htable⟩ := socketOpen_eq_some h
    subst hport
    rw [htable, Function.update_self]
    exact bindPort_zero_eq_some hbind
  given hport s h := by
    obtain ⟨-, -, p, row, hbind, rfl, -, htable⟩ := socketOpen_eq_some h
    rw [htable, Function.update_self]
    exact (bindPort_eq_some hbind).2.2 hport
  fails hport := by
    have hbind : sockets.bindPort port = none ↔ sockets.PortInUse port := by
      rw [Sockets.bindPort, if_neg hport]
      split_ifs with hinuse <;> simp [hinuse]
    rw [socketOpen_eq_none, freeRow_eq_none, hbind]
  unchanged h i := by
    rcases socketOpen_row i with ⟨hprotocol, hport, -⟩ | ⟨-, -, hopen⟩
    · exact ⟨hprotocol, hport⟩
    · rw [h] at hopen
      cases hopen

/-! ### Sequences of calls -/

/-- The tables after sequences of calls of `socket_open` and `socket_close`. -/
inductive PortRun : Sockets → Prop where
  | init : PortRun fun _ => .zero
  | open {sockets : Sockets} {protocol : UInt8} {port : UInt16} {sem : Option Sem}
      (h : PortRun sockets) : PortRun (socketOpen sockets protocol port sem).1
  | close {sockets : Sockets} {s : ℕ} (h : PortRun sockets) (hs : s < configMaxOpenSockets) :
      PortRun (socketClose sockets s)

/-- The open sockets have distinct ports, none of them `0`. -/
structure PortsDistinct (sockets : Sockets) : Prop where
  nonzero  : ∀ i < configMaxOpenSockets, (sockets i).protocol ≠ 0 → (sockets i).port ≠ 0
  distinct : ∀ i < configMaxOpenSockets, ∀ j < configMaxOpenSockets, (sockets i).protocol ≠ 0 →
    (sockets j).protocol ≠ 0 → (sockets i).port = (sockets j).port → i = j

namespace PortsDistinct

/-- The open sockets are among those that were open, on the same ports. -/
lemma of_rows {sockets' : Sockets} (h : PortsDistinct sockets)
    (hrow : ∀ i, (sockets' i).protocol ≠ 0 →
      (sockets i).protocol ≠ 0 ∧ (sockets' i).port = (sockets i).port) : PortsDistinct sockets' where
  nonzero i hi hopen := by
    rw [(hrow i hopen).2]
    exact h.nonzero i hi (hrow i hopen).1
  distinct i hi j hj hopen hopen' hport := by
    rw [(hrow i hopen).2, (hrow j hopen').2] at hport
    exact h.distinct i hi j hj (hrow i hopen).1 (hrow j hopen').1 hport

/-- One more socket is open, on a port that no open socket has. -/
lemma add (h : PortsDistinct sockets) {row : Socket} (hport : row.port ≠ 0)
    (hunused : ¬ sockets.PortInUse row.port) : PortsDistinct (Function.update sockets s row) where
  nonzero i hi hopen := by
    by_cases his : i = s
    · subst his
      rw [Function.update_self]
      exact hport
    · rw [Function.update_of_ne his] at hopen ⊢
      exact h.nonzero i hi hopen
  distinct i hi j hj hopen hopen' heq := by
    by_cases his : i = s <;> by_cases hjs : j = s
    · exact his.trans hjs.symm
    · subst his
      rw [Function.update_self, Function.update_of_ne hjs] at heq
      rw [Function.update_of_ne hjs] at hopen'
      exact absurd ⟨j, hj, hopen', heq.symm⟩ hunused
    · subst hjs
      rw [Function.update_self, Function.update_of_ne his] at heq
      rw [Function.update_of_ne his] at hopen
      exact absurd ⟨i, hi, hopen, heq⟩ hunused
    · rw [Function.update_of_ne his] at hopen heq
      rw [Function.update_of_ne hjs] at hopen' heq
      exact h.distinct i hi j hj hopen hopen' heq

lemma «open» (h : PortsDistinct sockets) :
    PortsDistinct (socketOpen sockets protocol port sem).1 := by
  cases hresult : (socketOpen sockets protocol port sem).2 with
  | none =>
    refine h.of_rows fun i hopen => ?_
    obtain ⟨hprotocol, hport⟩ := (opensSocket sockets protocol port sem).unchanged hresult i
    rw [hprotocol] at hopen
    exact ⟨hopen, hport⟩
  | some s =>
    obtain ⟨-, -, p, row, hbind, rfl, -, htable⟩ := socketOpen_eq_some hresult
    obtain ⟨hport, hunused, -⟩ := bindPort_eq_some hbind
    rw [htable]
    exact h.add hport hunused

lemma close (h : PortsDistinct sockets) : PortsDistinct (socketClose sockets s) := by
  refine h.of_rows fun i hopen => ?_
  by_cases his : i = s
  · subst his
    have hself : socketClose sockets i i = sockets i ∨ (socketClose sockets i i).protocol = 0 :=
      socketClose_self
    rcases hself with heq | hclosed
    · rw [heq] at hopen ⊢
      exact ⟨hopen, rfl⟩
    · exact absurd hclosed hopen
  · rw [socketClose_of_ne his] at hopen ⊢
    exact ⟨hopen, rfl⟩

end PortsDistinct

/-- In every sequence of calls the open sockets have distinct ports other than `0`, and the next
call of `socket_open` finds the smallest free port or fails for one of its reasons, without a change
of the ports then. -/
theorem portRun_distinct (h : PortRun sockets) : PortsDistinct sockets ∧
    ∀ protocol port sem, OpensSocket sockets protocol port sem := by
  refine ⟨?_, opensSocket sockets⟩
  induction h with
  | init => exact ⟨fun _ _ h => absurd rfl h, fun _ _ _ _ h => absurd rfl h⟩
  | «open» _ ih => exact ih.open
  | close _ _ ih => exact ih.close

/-- Two sockets are opened without a port, and the first one is closed. -/
theorem portRun_distinct_two :
    ∃ sockets, PortRun sockets ∧ PortsDistinct sockets ∧ (sockets 1).port = 2 := by
  have hrun := (PortRun.init.open.open.close (show 0 < configMaxOpenSockets by decide) :
    PortRun (socketClose (socketOpen (socketOpen _ protocolPop 0 (some 0)).1 protocolPop 0
      (some 1)).1 0))
  exact ⟨_, hrun, (portRun_distinct hrun).1, by decide +kernel⟩

end Osm.Net
