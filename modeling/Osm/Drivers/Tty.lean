import Osm.Lib.RingBuffer
import Mathlib.Logic.Relation

/-!
# The TTY driver

A model of `drivers/tty.c`. The driver has two ring buffers, one for the characters that the
device has received and one for those that are to be written. Each function is what is done
between taking and giving back the spinlock: the two branches of the interrupt handler, a call of
`tty_read` that finds characters, and one round of the loop of `tty_write`.

What the device does is left open. The handler finds any characters received, and the device may
be ready or busy whenever its status is read.
-/

namespace Osm.Drivers

open Osm.Lib

/-- `TTY_BUF_SIZE`. -/
def ttyBufSize : ℤ := 2048

/-- `tty_real_device_t`. -/
structure TtyRealDevice where
  readBuf    : ℤ → UInt8
  readHead   : ℤ
  readCount  : ℤ
  writeBuf   : ℤ → UInt8
  writeHead  : ℤ
  writeCount : ℤ

/-- The assignments of `tty_init` to a new device, in memory with arbitrary contents. -/
def ttyInit (readBuf writeBuf : ℤ → UInt8) : TtyRealDevice where
  readBuf    := readBuf
  readHead   := 0
  readCount  := 0
  writeBuf   := writeBuf
  writeHead  := 0
  writeCount := 0

/-! ### Reading -/

/-- The handler receives a character. -/
def ttyReceive (tty : TtyRealDevice) (data : UInt8) : TtyRealDevice :=
  if tty.readCount > ttyBufSize then tty
  else
    let index := (tty.readHead + tty.readCount) % ttyBufSize
    { tty with
      readBuf   := Function.update tty.readBuf index data
      readCount := tty.readCount + 1 }

/-- The reading branch of `tty_interrupt_handle`, for the characters that are available. -/
def ttyInterruptRead (tty : TtyRealDevice) (available : List UInt8) : TtyRealDevice :=
  available.foldl ttyReceive tty

/-- The loop of `tty_read`, for at most `n` characters. -/
def ttyReadLoop : ℕ → TtyRealDevice → TtyRealDevice × List UInt8
  | 0, tty     => (tty, [])
  | n + 1, tty =>
    if tty.readCount > 0 then
      let (tty', buf) := ttyReadLoop n
        { tty with
          readHead  := (tty.readHead + 1) % ttyBufSize
          readCount := tty.readCount - 1 }
      (tty', tty.readBuf tty.readHead :: buf)
    else (tty, [])

/-- `tty_read`: the characters read, `none` if the thread has to wait for some. -/
def ttyRead (tty : TtyRealDevice) (len : ℤ) : Option (TtyRealDevice × List UInt8) :=
  if tty.readCount = 0 then none else some (ttyReadLoop len.toNat tty)

/-! ### Writing -/

/-- A character is put into the buffer. -/
def ttyPut (tty : TtyRealDevice) (c : UInt8) : TtyRealDevice :=
  let index := (tty.writeHead + tty.writeCount) % ttyBufSize
  { tty with
    writeBuf   := Function.update tty.writeBuf index c
    writeCount := tty.writeCount + 1 }

/-- The head and the count are adjusted after a character has been written to the device. -/
def ttyTake (tty : TtyRealDevice) : TtyRealDevice :=
  { tty with
    writeHead  := (tty.writeHead + 1) % ttyBufSize
    writeCount := tty.writeCount - 1 }

/-- The loop of `tty_write` that fills the buffer, for at most `n` characters of `buf` from `i` on.
The result has the new value of `i`. -/
def ttyFill (buf : ℕ → UInt8) (len : ℤ) : ℕ → TtyRealDevice → ℕ → TtyRealDevice × ℕ
  | 0, tty, i     => (tty, i)
  | n + 1, tty, i =>
    if tty.writeCount < ttyBufSize ∧ i < len then ttyFill buf len n (ttyPut tty (buf i)) (i + 1)
    else (tty, i)

/-- A device that is not busy gets the first character of the buffer. The result has the
characters written to the device. -/
def ttyStart (busy : Bool) (tty : TtyRealDevice) : TtyRealDevice × List UInt8 :=
  if busy then (tty, []) else (ttyTake tty, [tty.writeBuf tty.writeHead])

/-- The writing branch of `tty_interrupt_handle`. The device is found ready `ready` times before
it is busy. The result has the characters written to the device. -/
def ttyInterruptWrite : ℕ → TtyRealDevice → TtyRealDevice × List UInt8
  | 0, tty         => (tty, [])
  | ready + 1, tty =>
    if tty.writeCount > 0 then
      let (tty', written) := ttyInterruptWrite ready (ttyTake tty)
      (tty', tty.writeBuf tty.writeHead :: written)
    else (tty, [])

/-! ### The buffers as rings -/

namespace TtyRealDevice

/-- The characters received and not read yet. -/
def readRing (tty : TtyRealDevice) : RingBuffer UInt8 :=
  ⟨tty.readBuf, tty.readHead, tty.readCount⟩

/-- The characters to be written. -/
def writeRing (tty : TtyRealDevice) : RingBuffer UInt8 :=
  ⟨tty.writeBuf, tty.writeHead, tty.writeCount⟩

end TtyRealDevice

lemma ttyPut_writeRing (tty : TtyRealDevice) (c : UInt8) :
    (ttyPut tty c).writeRing = tty.writeRing.push ttyBufSize c := rfl

lemma ttyTake_writeRing (tty : TtyRealDevice) :
    (ttyTake tty).writeRing = tty.writeRing.pop ttyBufSize := rfl

lemma ttyReceive_readRing {tty : TtyRealDevice} (h : tty.readCount ≤ ttyBufSize) (c : UInt8) :
    (ttyReceive tty c).readRing = tty.readRing.push ttyBufSize c := by
  rw [ttyReceive, if_neg (not_lt.mpr h)]
  rfl

/-- The characters that are available are put into the buffer, as long as they fit. -/
lemma ttyInterruptRead_readRing {tty : TtyRealDevice} {available : List UInt8}
    (h : tty.readCount + available.length ≤ ttyBufSize) :
    (ttyInterruptRead tty available).readRing = tty.readRing.pushAll ttyBufSize available := by
  induction available generalizing tty with
  | nil => rfl
  | cons c available ih =>
    rw [List.length_cons, Nat.cast_add, Nat.cast_one] at h
    have hring := ttyReceive_readRing (show tty.readCount ≤ ttyBufSize by omega) c
    have hcount : (ttyReceive tty c).readCount = tty.readCount + 1 :=
      congrArg RingBuffer.count hring
    rw [ttyInterruptRead, List.foldl_cons, ← ttyInterruptRead, ih (by omega), hring]
    rfl

/-- The count goes one beyond the size of the buffer and no further. -/
lemma ttyInterruptRead_readCount {tty : TtyRealDevice} {available : List UInt8}
    (h : tty.readCount ≤ ttyBufSize + 1) : (ttyInterruptRead tty available).readCount =
      min (tty.readCount + available.length) (ttyBufSize + 1) := by
  induction available generalizing tty with
  | nil =>
    have hnil : (ttyInterruptRead tty []).readCount = tty.readCount := rfl
    rw [hnil, List.length_nil, Nat.cast_zero, add_zero, min_eq_left h]
  | cons c available ih =>
    rw [ttyInterruptRead, List.foldl_cons, ← ttyInterruptRead, List.length_cons, Nat.cast_add,
      Nat.cast_one]
    by_cases hfull : tty.readCount > ttyBufSize
    · have hsame : ttyReceive tty c = tty := if_pos hfull
      rw [hsame, ih h]
      omega
    · have hcount : (ttyReceive tty c).readCount = tty.readCount + 1 :=
        congrArg RingBuffer.count (ttyReceive_readRing (not_lt.mp hfull) c)
      rw [ih (by omega), hcount]
      omega

/-- What was read and what is left are the characters that were there. -/
lemma ttyReadLoop_contents {n : ℕ} {tty : TtyRealDevice} (h : tty.readRing.Ok ttyBufSize) :
    (ttyReadLoop n tty).1.readRing.Ok ttyBufSize ∧ tty.readRing.contents ttyBufSize =
      (ttyReadLoop n tty).2 ++ (ttyReadLoop n tty).1.readRing.contents ttyBufSize := by
  induction n generalizing tty with
  | zero => exact ⟨h, rfl⟩
  | succ n ih =>
    rw [ttyReadLoop]
    split_ifs with hpos
    · have hpos' : 0 < tty.readRing.count := hpos
      obtain ⟨hok, hcontents⟩ := @ih { tty with
        readHead  := (tty.readHead + 1) % ttyBufSize
        readCount := tty.readCount - 1 } (h.pop hpos')
      refine ⟨hok, ?_⟩
      rw [h.contents_pop hpos', List.cons_append, ← hcontents]
      rfl
    · exact ⟨h, rfl⟩

/-- What the handler writes and what is left are the characters that were there. -/
lemma ttyInterruptWrite_contents {ready : ℕ} {tty : TtyRealDevice}
    (h : tty.writeRing.Ok ttyBufSize) :
    (ttyInterruptWrite ready tty).1.writeRing.Ok ttyBufSize ∧ tty.writeRing.contents ttyBufSize =
      (ttyInterruptWrite ready tty).2 ++
        (ttyInterruptWrite ready tty).1.writeRing.contents ttyBufSize := by
  induction ready generalizing tty with
  | zero => exact ⟨h, rfl⟩
  | succ n ih =>
    rw [ttyInterruptWrite]
    split_ifs with hpos
    · have hpos' : 0 < tty.writeRing.count := hpos
      have htake : (ttyTake tty).writeRing.Ok ttyBufSize := by
        rw [ttyTake_writeRing]
        exact h.pop hpos'
      obtain ⟨hok, hcontents⟩ := ih htake
      refine ⟨hok, ?_⟩
      rw [h.contents_pop hpos', List.cons_append, ← hcontents]
      rfl
    · exact ⟨h, rfl⟩

/-- The device gets the first character of a buffer that is not empty. -/
lemma ttyStart_contents {busy : Bool} {tty : TtyRealDevice} (h : tty.writeRing.Ok ttyBufSize)
    (hpos : 0 < tty.writeCount) :
    (ttyStart busy tty).1.writeRing.Ok ttyBufSize ∧ tty.writeRing.contents ttyBufSize =
      (ttyStart busy tty).2 ++ (ttyStart busy tty).1.writeRing.contents ttyBufSize := by
  have hpos' : 0 < tty.writeRing.count := hpos
  rw [ttyStart]
  split_ifs
  · exact ⟨h, rfl⟩
  · exact ⟨h.pop hpos', h.contents_pop hpos'⟩

/-- Filling the buffer adds the next characters at the end, at least one if there is room. -/
lemma ttyFill_contents {buf : ℕ → UInt8} {len : ℤ} {n i : ℕ} {tty : TtyRealDevice}
    (h : tty.writeRing.Ok ttyBufSize) :
    ∃ m, (ttyFill buf len n tty i).2 = i + m ∧ (i ≤ len.toNat → i + m ≤ len.toNat) ∧
      (ttyFill buf len n tty i).1.writeRing.Ok ttyBufSize ∧
      (ttyFill buf len n tty i).1.writeCount = tty.writeCount + m ∧
      (ttyFill buf len n tty i).1.writeRing.contents ttyBufSize =
        tty.writeRing.contents ttyBufSize ++ (List.range' i m).map buf ∧
      (0 < n → tty.writeCount < ttyBufSize → i < len → 0 < m) := by
  induction n generalizing tty i with
  | zero => exact ⟨0, rfl, id, h, (add_zero _).symm, (List.append_nil _).symm, by omega⟩
  | succ n ih =>
    rw [ttyFill]
    split_ifs with hroom
    · have hroom' : tty.writeRing.count < ttyBufSize := hroom.1
      obtain ⟨m, hi, hle, hok, hcount, hcontents, -⟩ :=
        @ih (i + 1) (ttyPut tty (buf i)) (h.push hroom')
      refine ⟨m + 1, by omega, fun _ => by have := hle (by omega); omega, hok, ?_, ?_,
        fun _ _ _ => Nat.succ_pos m⟩
      · rw [hcount, Nat.cast_add, Nat.cast_one]
        show tty.writeCount + 1 + m = _
        omega
      · rw [hcontents, ttyPut_writeRing, h.contents_push hroom', List.append_assoc,
          List.range'_succ, List.map_cons, List.singleton_append]
    · exact ⟨0, rfl, id, h, (add_zero _).symm, (List.append_nil _).symm,
        fun _ hlt hi => absurd ⟨hlt, hi⟩ hroom⟩

end Osm.Drivers
