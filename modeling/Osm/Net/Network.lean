import Osm.Core.Words
import Osm.Net.Pop

/-!
# Sending packets

A model of the sending half of `net/network.c`, and of `socket_sendto`. A result `none` stands for a
failed assertion, or for a read outside of the table of network interfaces.

`socket_sendto` cuts the payload to the smallest MTU of the interfaces, as long as there is one and
the table is not full: the search for it goes on behind a full table, and without any interface it
returns more than fits into a frame.
-/

namespace Osm.Net

open Osm.Core

/-- `CONFIG_MAX_GNDS`. -/
def configMaxGnds : ℕ := 4

/-- `NETWORK_BROADCAST_ADDRESS`. -/
def networkBroadcastAddress : UInt32 := 0xffffffff

/-- `NETWORK_LOOPBACK_ADDRESS`. -/
def networkLoopbackAddress : UInt32 := 0

/-- `NETWORK_MAX_MTU`. -/
def networkMaxMtu : Int32 := 4096

/-- `NET_OK`. -/
def netOk : Int32 := 0

/-- `NET_ERROR`. -/
def netError : Int32 := -1

/-- `NET_DOESNT_EXIST`. -/
def netDoesntExist : Int32 := -2

/-- `PAGE_SIZE`, which is also the size of `network_frame_t`. -/
def netPageSize : UInt32 := 4096

/-- `sizeof(network_frame_header_t)`. -/
def sizeofFrameHeader : UInt32 := 12

/-- `sizeof(pop_header_t)`. -/
def sizeofPopHeader : UInt32 := 8

/-- An entry of the table of interfaces (`network_interface_info_t`), with a number for the
device. -/
structure NetworkInterfaceInfo where
  address : UInt32
  mtu     : Int32
  gnd     : Option ℕ

/-- The table `network_interfaces`. -/
abbrev NetworkInterfaces := ℕ → NetworkInterfaceInfo

/-- The search of `network_get_mtu` for the smallest MTU, with the number of entries that are left
in the table. -/
def findMinMtu (interfaces : NetworkInterfaces) : ℕ → ℕ → Int32 → Option Int32
  | 0,        _, _   => none
  | left + 1, i, min =>
    if (interfaces i).gnd = none then some min
    else findMinMtu interfaces left (i + 1)
      (if (interfaces i).mtu < min then (interfaces i).mtu else min)

/-- The search of `network_get_mtu` for the interface with an address. -/
def findMtu (interfaces : NetworkInterfaces) (localAddress : UInt32) : ℕ → ℕ → Option Int32
  | 0,        _ => none
  | left + 1, i =>
    if (interfaces i).gnd = none then some 0
    else if (interfaces i).address = localAddress then
      some ((interfaces i).mtu.toUInt32 - sizeofFrameHeader).toInt32
    else findMtu interfaces localAddress left (i + 1)

/-- `network_get_mtu`. -/
def networkGetMtu (interfaces : NetworkInterfaces) (localAddress : UInt32) : Option Int32 :=
  if localAddress = networkBroadcastAddress then
    match findMinMtu interfaces configMaxGnds 0 (networkMaxMtu + 1) with
    | none     => none
    | some min => some (min.toUInt32 - sizeofFrameHeader).toInt32
  else if localAddress = networkLoopbackAddress then
    some (netPageSize - sizeofFrameHeader).toInt32
  else findMtu interfaces localAddress configMaxGnds 0

/-- `network_get_interface`. -/
def networkGetInterface (interfaces : NetworkInterfaces) (localAddress : UInt32) : Option ℕ :=
  (List.range configMaxGnds).find? fun i => (interfaces i).address = localAddress

/-- `network_send`, with the page that `pagepool_get_phys_page` returns, the success of
`network_receive_frame`, and the success of sending through each interface. -/
def networkSend (interfaces : NetworkInterfaces) (physFrame : UInt32) (received : Bool)
    (sent : ℕ → Bool) (source destination : UInt32) (length : Int32) : Option Int32 :=
  if 0 < length ∧ length ≤ (netPageSize - sizeofFrameHeader).toInt32 then
    if physFrame = 0 then some netError
    else if destination = networkLoopbackAddress then
      some (if received then netOk else netError)
    else if source ≠ networkBroadcastAddress then
      match networkGetInterface interfaces source with
      | none   => some netDoesntExist
      | some i => some (if sent i then netOk else netError)
    else
      let used := (List.range configMaxGnds).takeWhile fun i => (interfaces i).gnd ≠ none
      some (if used.all sent then netOk else netError)
  else none

/-- What `socket_sendto` passes to `network_send`: the destination, the protocol, the header in
front of the payload, and the length of both. -/
structure NetworkCall where
  destination : UInt32
  protocolId  : UInt32
  header      : PopHeader
  length      : Int32

/-- The size of the payload that `socket_sendto` sends. -/
def sendtoSize (mtu size : Int32) : Int32 :=
  (min (min size.toUInt32 (mtu.toUInt32 - sizeofPopHeader)) (netPageSize - sizeofPopHeader)).toInt32

/-- `socket_sendto` up to the call of `network_send`, or nothing if it returns before. -/
def sendtoCall (interfaces : NetworkInterfaces) (sockets : Sockets) (s : ℕ) (addr : UInt32)
    (dport : UInt16) (buf : UInt32) (size : Int32) : Option (Option NetworkCall) :=
  if s < configMaxOpenSockets then
    if dport = 0 then some none
    else if 1 ≤ size ∧ buf ≠ 0 then
      match networkGetMtu interfaces networkBroadcastAddress with
      | none     => none
      | some mtu =>
        let size := sendtoSize mtu size
        if (sockets s).protocol ≠ protocolPop then some none
        else some (some
          { destination := addr
            protocolId  := protocolPop.toUInt32
            header      := ⟨(sockets s).port, dport, size.toUInt32⟩
            length      := (size.toUInt32 + sizeofPopHeader).toInt32 })
    else none
  else none

/-- `socket_sendto`, with the results of the calls in `network_send`. -/
def socketSendto (interfaces : NetworkInterfaces) (physFrame : UInt32) (received : Bool)
    (sent : ℕ → Bool) (sockets : Sockets) (s : ℕ) (addr : UInt32) (dport : UInt16) (buf : UInt32)
    (size : Int32) : Option Int32 :=
  match sendtoCall interfaces sockets s addr dport buf size with
  | none             => none
  | some none        => some (-1)
  | some (some call) =>
    match networkSend interfaces physFrame received sent networkBroadcastAddress call.destination
      call.length with
    | none   => none
    | some r => some (if r ≠ netOk then -1 else call.header.size.toInt32)

/-- The first `n` entries of the table are interfaces whose frames have room for a byte and fit into
a page, and the others are empty. -/
structure InterfaceTable (interfaces : NetworkInterfaces) (n : ℕ) : Prop where
  count : n ≤ configMaxGnds
  used  : ∀ i < n, (interfaces i).gnd ≠ none
  mtu   : ∀ i < n, 21 ≤ (interfaces i).mtu ∧ (interfaces i).mtu ≤ 4096
  empty : ∀ i, n ≤ i → i < configMaxGnds → (interfaces i).gnd = none

/-- `socket_sendto` passes a length that `network_send` accepts and that fits the interfaces, and
the searches of `network_get_mtu` stay inside the table. -/
structure SendsFrame (interfaces : NetworkInterfaces) (n : ℕ) (sockets : Sockets) (s : ℕ)
    (addr : UInt32) (dport : UInt16) (buf : UInt32) (size : Int32) : Prop where
  length : ∃ call, sendtoCall interfaces sockets s addr dport buf size = some (some call) ∧
    0 < call.length ∧ call.length ≤ (netPageSize - sizeofFrameHeader).toInt32 ∧
    ∀ i < n, call.length.toInt + 12 ≤ (interfaces i).mtu.toInt
  passes : ∀ physFrame received sent,
    socketSendto interfaces physFrame received sent sockets s addr dport buf size ≠ none
  inside : ∀ localAddress, networkGetMtu interfaces localAddress ≠ none

variable {interfaces : NetworkInterfaces} {n left i : ℕ} {sockets : Sockets} {s : ℕ}
  {addr localAddress buf physFrame : UInt32} {dport : UInt16} {size mtu m least : Int32}

/-! ### The searches of the table -/

/-- In a full table the search for the smallest MTU leaves the table. -/
lemma findMinMtu_of_full (h : InterfaceTable interfaces n) (hleft : i + left = n) :
    findMinMtu interfaces left i least = none := by
  induction left generalizing i least with
  | zero => rfl
  | succ left ih =>
    rw [findMinMtu, if_neg (h.used i (by omega))]
    exact ih (by omega)

/-- Otherwise it finds the smallest MTU. -/
lemma findMinMtu_spec (h : InterfaceTable interfaces n) (hi : i ≤ n) (hroom : n < i + left)
    (hleft : i + left ≤ configMaxGnds) :
    ∃ m, findMinMtu interfaces left i least = some m ∧ m.toInt ≤ least.toInt ∧
      (∀ k, i ≤ k → k < n → m.toInt ≤ (interfaces k).mtu.toInt) ∧
      (m = least ∨ ∃ k < n, m = (interfaces k).mtu) := by
  induction left generalizing i least with
  | zero => omega
  | succ left ih =>
    rw [findMinMtu]
    by_cases hlast : i = n
    · rw [if_pos (h.empty i (by omega) (by omega))]
      exact ⟨least, rfl, le_rfl, fun k hk hkn => by omega, .inl rfl⟩
    · have hlt : i < n := by omega
      rw [if_neg (h.used i hlt)]
      split_ifs with hless
      · obtain ⟨m, hm, hle, hall, hfound⟩ :=
          @ih (i + 1) (interfaces i).mtu hlt (by omega) (by omega)
        rw [Int32.lt_iff_toInt_lt] at hless
        refine ⟨m, hm, by omega, fun k hk hkn => ?_, .inr ?_⟩
        · rcases Nat.lt_or_eq_of_le hk with hlt | rfl
          · exact hall k hlt hkn
          · exact hle
        · rcases hfound with rfl | hfound
          · exact ⟨i, hlt, rfl⟩
          · exact hfound
      · obtain ⟨m, hm, hle, hall, hfound⟩ := @ih (i + 1) least hlt (by omega) (by omega)
        rw [Int32.lt_iff_toInt_lt] at hless
        refine ⟨m, hm, hle, fun k hk hkn => ?_, hfound⟩
        rcases Nat.lt_or_eq_of_le hk with hlt | rfl
        · exact hall k hlt hkn
        · omega

/-- The search for an address stays inside the table. -/
lemma findMtu_ne_none (h : InterfaceTable interfaces n) (hi : i ≤ n) (hroom : n < i + left)
    (hleft : i + left ≤ configMaxGnds) : findMtu interfaces localAddress left i ≠ none := by
  induction left generalizing i with
  | zero => omega
  | succ left ih =>
    rw [findMtu]
    by_cases hlast : i = n
    · rw [if_pos (h.empty i (by omega) (by omega))]
      exact Option.some_ne_none _
    · rw [if_neg (h.used i (by omega))]
      split_ifs
      · exact Option.some_ne_none _
      · exact ih (by omega) (by omega) (by omega)

/-- The MTU for the broadcast address, when the table is not full: one more than a page without
interfaces, or else the smallest of them. -/
lemma networkGetMtu_broadcast (h : InterfaceTable interfaces n) (hn : n < configMaxGnds) :
    ∃ m : Int32, networkGetMtu interfaces networkBroadcastAddress =
        some (m.toUInt32 - sizeofFrameHeader).toInt32 ∧ 21 ≤ m.toInt ∧ m.toInt ≤ 4097 ∧
      (n = 0 → m.toInt = 4097) ∧ (0 < n → m.toInt ≤ 4096) ∧
      ∀ k < n, m.toInt ≤ (interfaces k).mtu.toInt := by
  obtain ⟨m, hm, hle, hall, hfound⟩ :=
    @findMinMtu_spec interfaces n configMaxGnds 0 (networkMaxMtu + 1) h (Nat.zero_le n) (by omega)
      (by omega)
  change m.toInt ≤ 4097 at hle
  refine ⟨m, ?_, ?_, hle, fun hzero => ?_, fun hpos => ?_, fun k => hall k (Nat.zero_le k)⟩
  · rw [networkGetMtu, if_pos rfl, hm]
  · rcases hfound with rfl | ⟨k, hk, rfl⟩
    · decide
    · exact Int32.le_iff_toInt_le.mp (h.mtu k hk).1
  · rcases hfound with rfl | ⟨k, hk, -⟩
    · rfl
    · omega
  · have hmax : (interfaces 0).mtu.toInt ≤ 4096 := Int32.le_iff_toInt_le.mp (h.mtu 0 hpos).2
    have := hall 0 le_rfl hpos
    omega

/-! ### The length of a packet -/

/-- The size of the payload is the least of the size that is asked for and of what fits the MTU. -/
lemma toNat_sendtoSize (hlower : 21 ≤ m.toInt) (hupper : m.toInt ≤ 4097) (hsize : 1 ≤ size.toInt) :
    ((sendtoSize (m.toUInt32 - sizeofFrameHeader).toInt32 size).toUInt32.toNat : ℤ) =
      min size.toInt (m.toInt - 20) := by
  have hm := toNat_toUInt32 (show 0 ≤ m.toInt by omega)
  have hs := toNat_toUInt32 (show 0 ≤ size.toInt by omega)
  have hframe : (m.toUInt32 - sizeofFrameHeader).toNat = m.toUInt32.toNat - 12 := by
    rw [UInt32.toNat_sub_of_le _ _ (UInt32.le_iff_toNat_le.mpr (show 12 ≤ _ by omega))]
    rfl
  have hroom : (m.toUInt32 - sizeofFrameHeader - sizeofPopHeader).toNat =
      m.toUInt32.toNat - 20 := by
    rw [UInt32.toNat_sub_of_le _ _ (UInt32.le_iff_toNat_le.mpr (show 8 ≤ _ by omega)), hframe]
    exact Nat.sub_sub _ 12 8
  have hmin : ∀ a b : UInt32, (min a b).toNat = min a.toNat b.toNat := by
    intro a b
    have hcases : min a b = if a ≤ b then a else b := rfl
    rw [hcases]
    split_ifs with hle <;> rw [UInt32.le_iff_toNat_le] at hle <;> omega
  rw [sendtoSize, UInt32.toUInt32_toInt32, UInt32.toUInt32_toInt32, hmin, hmin, hroom,
    show (netPageSize - sizeofPopHeader).toNat = 4088 from rfl]
  omega

/-- What `socket_sendto` passes to `network_send`, when the table is not full. -/
lemma sendtoCall_spec (h : InterfaceTable interfaces n) (hn : n < configMaxGnds)
    (hs : s < configMaxOpenSockets) (hopen : (sockets s).protocol = protocolPop)
    (hdport : dport ≠ 0) (hbuf : buf ≠ 0) (hsize : 1 ≤ size) :
    ∃ call m, sendtoCall interfaces sockets s addr dport buf size = some (some call) ∧
      call.length.toInt = min size.toInt (m - 20) + 8 ∧ 21 ≤ m ∧
      (n = 0 → m = 4097) ∧ (0 < n → m ≤ 4096) ∧ ∀ k < n, m ≤ (interfaces k).mtu.toInt := by
  obtain ⟨m, hmtu, hlower, hupper, hzero, hpos, hall⟩ := networkGetMtu_broadcast h hn
  have hlength := toNat_sendtoSize hlower hupper (Int32.le_iff_toInt_le.mp hsize)
  obtain ⟨call, hcall, hsum⟩ : ∃ call,
      sendtoCall interfaces sockets s addr dport buf size = some (some call) ∧
        call.length = ((sendtoSize (m.toUInt32 - sizeofFrameHeader).toInt32 size).toUInt32 +
          sizeofPopHeader).toInt32 := by
    rw [sendtoCall, if_pos hs, if_neg hdport, if_pos ⟨hsize, hbuf⟩, hmtu]
    exact ⟨_, if_neg (not_not.mpr hopen), rfl⟩
  refine ⟨call, m.toInt, hcall, ?_, hlower, hzero, hpos, hall⟩
  have hadd : ((sendtoSize (m.toUInt32 - sizeofFrameHeader).toInt32 size).toUInt32 +
      sizeofPopHeader).toNat =
      (sendtoSize (m.toUInt32 - sizeofFrameHeader).toInt32 size).toUInt32.toNat + 8 := by
    rw [UInt32.toNat_add]
    exact Nat.mod_eq_of_lt (show _ + 8 < 2 ^ 32 by omega)
  rw [hsum, toInt_toInt32 (by omega), hadd]
  omega

/-- A length that fits a frame passes the assertion of `network_send`. -/
lemma networkSend_of_length {received : Bool} {sent : ℕ → Bool} {source destination : UInt32}
    {length : Int32} (h : 0 < length ∧ length ≤ (netPageSize - sizeofFrameHeader).toInt32) :
    ∃ r, networkSend interfaces physFrame received sent source destination length = some r := by
  rw [networkSend, if_pos h]
  by_cases hpage : physFrame = 0
  · exact ⟨_, if_pos hpage⟩
  · rw [if_neg hpage]
    by_cases hloopback : destination = networkLoopbackAddress
    · exact ⟨_, if_pos hloopback⟩
    · rw [if_neg hloopback]
      by_cases hsource : source ≠ networkBroadcastAddress
      · rw [if_pos hsource]
        cases networkGetInterface interfaces source with
        | none => exact ⟨_, rfl⟩
        | some i => exact ⟨_, rfl⟩
      · exact ⟨_, if_neg hsource⟩

/-- In a full table `network_get_mtu` reads behind the table. -/
lemma networkGetMtu_of_full (h : InterfaceTable interfaces configMaxGnds) :
    networkGetMtu interfaces networkBroadcastAddress = none := by
  rw [networkGetMtu, if_pos rfl, findMinMtu_of_full h (Nat.zero_add _)]

/-- With at least one interface and an entry left in the table, or with a payload that fits a frame
and no interface at all, `socket_sendto` passes a length that fits, and only then. -/
theorem sendsFrame_iff (h : InterfaceTable interfaces n) (hs : s < configMaxOpenSockets)
    (hopen : (sockets s).protocol = protocolPop) (hdport : dport ≠ 0) (hbuf : buf ≠ 0)
    (hsize : 1 ≤ size) :
    SendsFrame interfaces n sockets s addr dport buf size ↔
      n < configMaxGnds ∧ (n = 0 → size ≤ 4076) := by
  rcases Nat.lt_or_eq_of_le h.count with hn | rfl
  · obtain ⟨call, m, hcall, hlength, hlower, hzero, hpos, hall⟩ :=
      @sendtoCall_spec _ _ _ _ addr _ _ _ h hn hs hopen hdport hbuf hsize
    have hmax : (netPageSize - sizeofFrameHeader).toInt32.toInt = 4084 := by decide
    have hone : 1 ≤ size.toInt := Int32.le_iff_toInt_le.mp hsize
    constructor
    · rintro ⟨⟨call', hcall', -, hfits, -⟩, -, -⟩
      rw [hcall] at hcall'
      cases hcall'
      rw [Int32.le_iff_toInt_le, hmax] at hfits
      refine ⟨hn, fun hnone => Int32.le_iff_toInt_le.mpr (show _ ≤ 4076 from ?_)⟩
      have := hzero hnone
      omega
    · rintro ⟨-, hfits⟩
      have hpositive : 0 < call.length := Int32.lt_iff_toInt_lt.mpr (show 0 < _ by omega)
      have hpage : call.length ≤ (netPageSize - sizeofFrameHeader).toInt32 := by
        rw [Int32.le_iff_toInt_le, hmax]
        rcases Nat.eq_zero_or_pos n with hnone | hsome
        · have hle : size.toInt ≤ 4076 := Int32.le_iff_toInt_le.mp (hfits hnone)
          omega
        · have := hpos hsome
          omega
      refine ⟨⟨call, hcall, hpositive, hpage, fun i hi => ?_⟩, fun physFrame received sent => ?_,
        fun localAddress => ?_⟩
      · have := hall i hi
        omega
      · obtain ⟨r, hr⟩ := networkSend_of_length ⟨hpositive, hpage⟩
        rw [socketSendto, hcall]
        dsimp only
        rw [hr]
        exact Option.some_ne_none _
      · by_cases hbroadcast : localAddress = networkBroadcastAddress
        · obtain ⟨m', hm', -⟩ := networkGetMtu_broadcast h hn
          rw [hbroadcast, hm']
          exact Option.some_ne_none _
        · rw [networkGetMtu, if_neg hbroadcast]
          split_ifs
          · exact Option.some_ne_none _
          · exact findMtu_ne_none h (Nat.zero_le n) (by omega) (by omega)
  · refine iff_of_false (fun hsends => ?_) (fun hcond => absurd hcond.1 (lt_irrefl _))
    exact hsends.inside networkBroadcastAddress (networkGetMtu_of_full h)

/-- A table of interfaces for frames of 1500 bytes. -/
def equalInterfaces (n : ℕ) : NetworkInterfaces := fun i =>
  if i < n then ⟨UInt32.ofNat (i + 1), 1500, some i⟩ else ⟨0, 0, none⟩

lemma interfaceTable_equalInterfaces (hn : n ≤ configMaxGnds) :
    InterfaceTable (equalInterfaces n) n where
  count := hn
  used i hi := by simp [equalInterfaces, hi]
  mtu i hi := by
    rw [equalInterfaces, if_pos hi]
    exact (by decide : (21 : Int32) ≤ 1500 ∧ (1500 : Int32) ≤ 4096)
  empty i hi _ := by simp [equalInterfaces, not_lt.mpr hi]

/-- All sockets are open POP sockets on the port 7. -/
def openedSockets : Sockets := fun _ => { Socket.zero with port := 7, protocol := protocolPop }

/-- A packet for one interface. -/
theorem sendsFrame_one : SendsFrame (equalInterfaces 1) 1 openedSockets 0 5 9 0x80050000 2000 :=
  (sendsFrame_iff (interfaceTable_equalInterfaces (by decide)) (by decide) rfl (by decide)
    (by decide) (by decide)).mpr ⟨by decide, nofun⟩

/-- Without interfaces a large payload does not fit a frame, and in a full table the search for the
smallest MTU does not end inside the table. -/
theorem not_sendsFrame :
    (InterfaceTable (equalInterfaces 0) 0 ∧
      ¬ SendsFrame (equalInterfaces 0) 0 openedSockets 0 5 9 0x80050000 4077) ∧
    InterfaceTable (equalInterfaces 4) 4 ∧
      ¬ SendsFrame (equalInterfaces 4) 4 openedSockets 0 5 9 0x80050000 1 := by
  refine ⟨⟨interfaceTable_equalInterfaces (by decide), fun h => ?_⟩,
    interfaceTable_equalInterfaces (by decide), fun h => ?_⟩
  · exact h.passes 0x90000 true (fun _ => true) (by decide)
  · exact h.inside networkBroadcastAddress (by decide)

end Osm.Net
