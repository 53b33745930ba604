import Osm.Drivers.Tty

/-!
# Characters from the TTY

Interrupts deliver characters, and threads read them. The handler drops a character only when the
count is greater than the size of the buffer. So it takes one character too many: the character
that arrives when the buffer is full overwrites the first one that has not been read. Up to that
point the buffer is a bounded queue.
-/

namespace Osm.Drivers

open Osm.Lib

/-- The device with what has happened: the characters received, those of them that did not arrive
while `TTY_BUF_SIZE` characters were unread, and what the calls of `tty_read` have returned, one
after the other. -/
structure TtyInput where
  tty      : TtyRealDevice
  received : List UInt8
  kept     : List UInt8
  returned : List UInt8

namespace TtyInput

/-- The device after `tty_init`. -/
def initial (readBuf writeBuf : ℤ → UInt8) : TtyInput := ⟨ttyInit readBuf writeBuf, [], [], []⟩

/-- The characters that should be kept of those that arrive: as many as fit next to the unread
ones. -/
def keep (s : TtyInput) (available : List UInt8) : List UInt8 :=
  available.take (ttyBufSize.toNat - (s.kept.length - s.returned.length))

/-- An interrupt delivers characters. -/
def interrupt (s : TtyInput) (available : List UInt8) : TtyInput where
  tty      := ttyInterruptRead s.tty available
  received := s.received ++ available
  kept     := s.kept ++ s.keep available
  returned := s.returned

end TtyInput

/-- An interrupt, with `Ok` holding of the characters that it delivers, or a call of `tty_read`
with a positive length. -/
inductive TtyInputStep (Ok : TtyRealDevice → List UInt8 → Prop) : TtyInput → TtyInput → Prop
  | interrupt {s : TtyInput} {available : List UInt8} (hok : Ok s.tty available) :
      TtyInputStep Ok s (s.interrupt available)
  | read {s : TtyInput} {tty : TtyRealDevice} {len : ℤ} {buf : List UInt8} (hlen : 0 < len)
      (hexec : ttyRead s.tty len = some (tty, buf)) :
      TtyInputStep Ok s { s with tty, returned := s.returned ++ buf }

/-- The states after any sequence of interrupts and calls of `tty_read`. -/
def TtyInputRun (Ok : TtyRealDevice → List UInt8 → Prop) (s : TtyInput) : Prop :=
  ∃ readBuf writeBuf, Relation.ReflTransGen (TtyInputStep Ok) (.initial readBuf writeBuf) s

/-- None of the characters arrives while `TTY_BUF_SIZE` characters are unread. -/
def Fits (tty : TtyRealDevice) (available : List UInt8) : Prop :=
  tty.readCount + available.length ≤ ttyBufSize

/-- The buffer is a bounded queue: the count is in its range, and the characters returned and
those unread are, in this order, those that are to be kept. -/
structure BoundedFifo (s : TtyInput) : Prop where
  count_nonneg : 0 ≤ s.tty.readCount
  count_le     : s.tty.readCount ≤ ttyBufSize
  isPrefix     : s.returned <+: s.kept
  unread       : s.returned ++ s.tty.readRing.contents ttyBufSize = s.kept

/-- The index is in its range as well. -/
structure TtyInputInv (s : TtyInput) : Prop where
  ring   : s.tty.readRing.Ok ttyBufSize
  unread : s.returned ++ s.tty.readRing.contents ttyBufSize = s.kept
  all    : s.kept = s.received

namespace TtyInputInv

variable {s s' : TtyInput} {available : List UInt8}

lemma initial (readBuf writeBuf : ℤ → UInt8) : TtyInputInv (.initial readBuf writeBuf) where
  ring := ⟨le_rfl, (by decide : 0 < ttyBufSize), le_rfl, (by decide : 0 ≤ ttyBufSize)⟩
  unread := RingBuffer.contents_eq_nil rfl
  all := rfl

lemma boundedFifo (h : TtyInputInv s) : BoundedFifo s where
  count_nonneg := h.ring.count_nonneg
  count_le := h.ring.count_le
  isPrefix := ⟨_, h.unread⟩
  unread := h.unread

/-- Characters that fit are all to be kept. -/
lemma keep_eq (h : TtyInputInv s) (hfits : Fits s.tty available) :
    s.keep available = available := by
  have hcount : s.tty.readCount + available.length ≤ ttyBufSize := hfits
  have hnonneg : 0 ≤ s.tty.readCount := h.ring.count_nonneg
  have hlen := congrArg List.length h.unread
  rw [List.length_append, RingBuffer.length_contents] at hlen
  have hring : s.tty.readRing.count = s.tty.readCount := rfl
  rw [hring] at hlen
  exact List.take_of_length_le (by omega)

lemma interrupt (h : TtyInputInv s) (hfits : Fits s.tty available) :
    TtyInputInv (s.interrupt available) := by
  have hring : (s.interrupt available).tty.readRing = s.tty.readRing.pushAll ttyBufSize available :=
    ttyInterruptRead_readRing hfits
  obtain ⟨hok, -, hcontents⟩ := h.ring.pushAll (l := available) hfits
  constructor
  case ring => exact hring ▸ hok
  case unread =>
    rw [hring, hcontents]
    show s.returned ++ _ = s.kept ++ s.keep available
    rw [h.keep_eq hfits, ← h.unread, List.append_assoc]
  case all =>
    show s.kept ++ s.keep available = s.received ++ available
    rw [h.keep_eq hfits, h.all]

lemma read {tty : TtyRealDevice} {len : ℤ} {buf : List UInt8} (h : TtyInputInv s)
    (hexec : ttyRead s.tty len = some (tty, buf)) :
    TtyInputInv { s with tty, returned := s.returned ++ buf } := by
  rw [ttyRead] at hexec
  split_ifs at hexec
  have hloop := Option.some.inj hexec
  obtain ⟨hok, hcontents⟩ := ttyReadLoop_contents (n := len.toNat) h.ring
  rw [hloop] at hok hcontents
  refine ⟨hok, ?_, h.all⟩
  rw [← h.unread, hcontents, List.append_assoc]

lemma step (h : TtyInputInv s) (hstep : TtyInputStep Fits s s') : TtyInputInv s' := by
  cases hstep with
  | interrupt hok => exact h.interrupt hok
  | read _ hexec => exact h.read hexec

end TtyInputInv

lemma TtyInputRun.inv {s : TtyInput} (hrun : TtyInputRun Fits s) : TtyInputInv s := by
  obtain ⟨readBuf, writeBuf, hrun⟩ := hrun
  induction hrun with
  | refl => exact TtyInputInv.initial readBuf writeBuf
  | tail _ hstep ih => exact ih.step hstep

/-- In any run in which no character arrives while `TTY_BUF_SIZE` characters are unread, the input
buffer is a bounded queue that drops nothing. The next interrupt keeps it one exactly if it does not
deliver such a character either. -/
theorem ttyInput_boundedFifo {s : TtyInput} (hrun : TtyInputRun Fits s) :
    BoundedFifo s ∧ s.kept = s.received ∧
      ∀ available, BoundedFifo (s.interrupt available) ↔ Fits s.tty available := by
  have h := hrun.inv
  refine ⟨h.boundedFifo, h.all, fun available => ⟨fun hfifo => ?_, fun hfits => ?_⟩⟩
  · by_contra hfits
    have hle := hfifo.count_le
    have hcount : (s.interrupt available).tty.readCount =
        min (s.tty.readCount + available.length) (ttyBufSize + 1) :=
      ttyInterruptRead_readCount (h.boundedFifo.count_le.trans (by decide))
    rw [Fits, not_le] at hfits
    rw [hcount] at hle
    omega
  · exact (h.interrupt hfits).boundedFifo

/-- Three characters arrive in two interrupts, and two of them are read. -/
theorem ttyInput_boundedFifo_three : ∃ s, TtyInputRun Fits s ∧ s.returned = [1, 2] ∧
    s.received = [1, 2, 3] ∧ s.returned <+: s.kept := by
  obtain ⟨s₀, hs₀⟩ : ∃ s, s = TtyInput.initial (fun _ => 0) fun _ => 0 := ⟨_, rfl⟩
  have h₁ : TtyInputStep Fits s₀ (s₀.interrupt [1]) := .interrupt (by
    rw [hs₀]
    exact (by decide : (0 : ℤ) + 1 ≤ ttyBufSize))
  have h₂ : TtyInputStep Fits (s₀.interrupt [1]) ((s₀.interrupt [1]).interrupt [2, 3]) :=
    .interrupt (by
      rw [hs₀]
      exact (by decide : (1 : ℤ) + 2 ≤ ttyBufSize))
  obtain ⟨tty, hread⟩ : ∃ tty, ttyRead ((s₀.interrupt [1]).interrupt [2, 3]).tty 2 =
      some (tty, [1, 2]) := by
    rw [hs₀]
    exact ⟨_, rfl⟩
  have hrun : TtyInputRun Fits { (s₀.interrupt [1]).interrupt [2, 3] with
      tty, returned := s₀.returned ++ [1, 2] } := by
    refine ⟨fun _ => 0, fun _ => 0, ?_⟩
    rw [← hs₀]
    exact ((Relation.ReflTransGen.single h₁).tail h₂).tail (.read (by decide) hread)
  refine ⟨_, hrun, ?_, ?_, (ttyInput_boundedFifo hrun).1.isPrefix⟩ <;> rw [hs₀] <;> rfl

/-- The character that arrives at a full buffer takes the place of the first one. -/
lemma ttyReceive_full {tty : TtyRealDevice} (h : tty.readRing.Ok ttyBufSize)
    (hfull : tty.readCount = ttyBufSize) (c : UInt8) :
    (ttyReceive tty c).readCount = ttyBufSize + 1 ∧ (ttyReceive tty c).readRing.first = c := by
  have hring := ttyReceive_readRing hfull.le c
  have hcount : (ttyReceive tty c).readCount = tty.readCount + 1 :=
    congrArg RingBuffer.count hring
  exact ⟨by rw [hcount, hfull], by rw [hring]; exact h.first_push hfull c⟩

lemma ttyRead_one {tty : TtyRealDevice} (hpos : 0 < tty.readCount) :
    ∃ tty', ttyRead tty 1 = some (tty', [tty.readRing.first]) := by
  rw [ttyRead, if_neg hpos.ne', show (1 : ℤ).toNat = 1 from rfl, ttyReadLoop, if_pos hpos]
  exact ⟨_, rfl⟩

/-- After the first `TTY_BUF_SIZE` characters comes one more, and one is read: it is the last one
that has arrived. -/
theorem ttyInput_overrun : ∃ s s', TtyInputRun (fun _ _ => True) s ∧
    ttyBufSize < s.tty.readCount ∧ TtyInputStep (fun _ _ => True) s s' ∧
    ¬ s'.returned <+: s'.kept := by
  obtain ⟨l, hl⟩ : ∃ l : List UInt8, l = List.replicate 2048 0x61 := ⟨_, rfl⟩
  obtain ⟨s₀, hs₀⟩ : ∃ s, s = TtyInput.initial (fun _ => 0) fun _ => 0 := ⟨_, rfl⟩
  have hinv₀ : TtyInputInv s₀ := by
    rw [hs₀]
    exact TtyInputInv.initial _ _
  have hlen : l.length = 2048 := by rw [hl, List.length_replicate]
  have hcount₀ : s₀.tty.readCount = 0 := by rw [hs₀]; rfl
  have hfits : s₀.tty.readCount + l.length ≤ ttyBufSize := by
    rw [hcount₀, hlen]
    decide
  have hinv₁ := hinv₀.interrupt hfits
  have hfull : (s₀.interrupt l).tty.readCount = ttyBufSize := by
    have hcount := @ttyInterruptRead_readCount s₀.tty l (by rw [hcount₀]; decide)
    rw [hcount₀, hlen] at hcount
    exact hcount
  obtain ⟨hcount, hfirst⟩ := ttyReceive_full hinv₁.ring hfull 0x62
  obtain ⟨s₂, hs₂⟩ : ∃ s, s = (s₀.interrupt l).interrupt [0x62] := ⟨_, rfl⟩
  have htty : s₂.tty = ttyReceive (s₀.interrupt l).tty 0x62 := by rw [hs₂]; rfl
  have hover : ttyBufSize < s₂.tty.readCount := by
    rw [htty, hcount]
    decide
  obtain ⟨tty, hread⟩ := ttyRead_one (lt_trans (by decide) hover)
  rw [htty, hfirst, ← htty] at hread
  have hrun : TtyInputRun (fun _ _ => True) s₂ := by
    refine ⟨fun _ => 0, fun _ => 0, ?_⟩
    rw [hs₂, ← hs₀]
    exact (Relation.ReflTransGen.single (.interrupt trivial)).tail (.interrupt trivial)
  refine ⟨s₂, _, hrun, hover, .read (by decide) hread, ?_⟩
  rintro ⟨rest, hrest⟩
  have hkept : s₂.kept = l ++ (s₀.interrupt l).keep [0x62] := by
    have hall : (s₀.interrupt l).kept = l := by
      rw [hinv₁.all, TtyInput.interrupt, hs₀]
      rfl
    rw [hs₂, TtyInput.interrupt, hall]
  have hreturned : s₂.returned = [] := by rw [hs₂, TtyInput.interrupt, TtyInput.interrupt, hs₀]; rfl
  have hrest' : s₂.returned ++ [0x62] ++ rest = s₂.kept := hrest
  rw [hkept, hreturned, hl, List.nil_append, List.replicate_succ] at hrest'
  cases hrest'

end Osm.Drivers
