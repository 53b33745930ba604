import Osm.Drivers.Tty
import Mathlib.Data.List.Basic

/-!
# Characters to the TTY

Threads call `tty_write` and share the output buffer with the interrupt handler. A call waits until
the buffer is empty, fills it, writes the first character itself if the device is ready, and waits
again if there is more to write. The device may be ready or busy whenever its status is read.

A call that waits sleeps until the handler has emptied the buffer; here it may go on at any time,
since it looks at the buffer again when it does. The calls are numbered, and every character that
is put into the buffer is recorded with the number of its call.
-/

namespace Osm.Drivers

open Osm.Lib

/-- A call of `tty_write`. -/
structure WriteCall where
  buf : ℕ → UInt8
  len : ℤ

/-- Where a call is. -/
inductive WritePc
  /-- before it takes the spinlock for the first time -/
  | start
  /-- at the beginning of the loop, with the spinlock -/
  | loop (i : ℕ)
  /-- in `thread_switch`, without the spinlock -/
  | asleep (i : ℕ)
  | returned (i : ℕ)

/-- The value of `i`. -/
def WritePc.index : WritePc → ℕ
  | .start      => 0
  | .loop i     => i
  | .asleep i   => i
  | .returned i => i

/-- The device, the call that holds the spinlock, the calls, and what has happened: the characters
written to the device, and those put into the buffer. -/
structure TtyOutput where
  tty     : TtyRealDevice
  slock   : Option ℕ
  calls   : ℕ → Option (WriteCall × WritePc)
  written : List UInt8
  placed  : List (ℕ × UInt8)

namespace TtyOutput

/-- The device after `tty_init`. -/
def initial (readBuf writeBuf : ℤ → UInt8) : TtyOutput where
  tty     := ttyInit readBuf writeBuf
  slock   := none
  calls   := fun _ => none
  written := []
  placed  := []

/-- A call moves on. -/
def setCall (s : TtyOutput) (k : ℕ) (call : WriteCall) (pc : WritePc) : TtyOutput :=
  { s with calls := Function.update s.calls k (some (call, pc)) }

lemma calls_setCall (s : TtyOutput) (k j : ℕ) (call : WriteCall) (pc : WritePc) :
    (s.setCall k call pc).calls j = if j = k then some (call, pc) else s.calls j :=
  Function.update_apply _ _ _ _

/-- The characters of a call that have been put into the buffer. -/
def placedBy (s : TtyOutput) (k : ℕ) : List UInt8 := (s.placed.filter (·.1 = k)).map Prod.snd

/-- One round of the loop of `tty_write` at the value `i`, when the buffer is empty: it is filled,
and a device that is not busy gets the first character. -/
def round (s : TtyOutput) (k : ℕ) (call : WriteCall) (i : ℕ) (busy : Bool) : TtyOutput :=
  let (tty, j) := ttyFill call.buf call.len (call.len - i).toNat s.tty i
  let (tty, written) := ttyStart busy tty
  { s with
    tty     := tty
    calls   := Function.update s.calls k (some (call, .loop j))
    written := s.written ++ written
    placed  := s.placed ++ (List.range' i (j - i)).map fun x => (k, call.buf x) }

/-- The handler writes characters while the device is ready. -/
def interrupt (s : TtyOutput) (ready : ℕ) : TtyOutput :=
  let (tty, written) := ttyInterruptWrite ready s.tty
  { s with tty, written := s.written ++ written }

end TtyOutput

/-- A call of `tty_write` begins, takes the spinlock, goes through a round of its loop, goes to
sleep or returns; or an interrupt comes while no call holds the spinlock. -/
inductive TtyOutputStep : TtyOutput → TtyOutput → Prop
  | call {s : TtyOutput} {k : ℕ} {call : WriteCall} (hnew : s.calls k = none) :
      TtyOutputStep s (s.setCall k call .start)
  | acquire {s : TtyOutput} {k : ℕ} {call : WriteCall} {pc : WritePc} {i : ℕ}
      (hcall : s.calls k = some (call, pc)) (hpc : pc = .start ∧ i = 0 ∨ pc = .asleep i)
      (hfree : s.slock = none) :
      TtyOutputStep s { s.setCall k call (.loop i) with slock := some k }
  | sleep {s : TtyOutput} {k : ℕ} {call : WriteCall} {i : ℕ}
      (hcall : s.calls k = some (call, .loop i)) (hlock : s.slock = some k) (hi : i < call.len)
      (hfull : s.tty.writeCount > 0) :
      TtyOutputStep s { s.setCall k call (.asleep i) with slock := none }
  | round {s : TtyOutput} {k : ℕ} {call : WriteCall} {i : ℕ} {busy : Bool}
      (hcall : s.calls k = some (call, .loop i)) (hlock : s.slock = some k) (hi : i < call.len)
      (hempty : ¬ s.tty.writeCount > 0) :
      TtyOutputStep s (s.round k call i busy)
  | finish {s : TtyOutput} {k : ℕ} {call : WriteCall} {i : ℕ}
      (hcall : s.calls k = some (call, .loop i)) (hlock : s.slock = some k)
      (hi : ¬ i < call.len) :
      TtyOutputStep s { s.setCall k call (.returned i) with slock := none }
  | interrupt {s : TtyOutput} {ready : ℕ} (hfree : s.slock = none) :
      TtyOutputStep s (s.interrupt ready)

/-- The states after any sequence of steps. -/
def TtyOutputRun (s : TtyOutput) : Prop :=
  ∃ readBuf writeBuf, Relation.ReflTransGen TtyOutputStep (.initial readBuf writeBuf) s

/-! ### The invariant -/

/-- A call has put its characters before the current one into the buffer. -/
structure CallOk (placed : List UInt8) (call : WriteCall) (pc : WritePc) : Prop where
  index_le : pc.index ≤ call.len.toNat
  placed   : placed = (List.range pc.index).map call.buf
  returned : ∀ i, pc = .returned i → call.len.toNat ≤ i

/-- The index and the count are in their ranges, what was put into the buffer has been written or
is still there, and the calls have put their characters into it in their order. -/
structure TtyOutputInv (s : TtyOutput) : Prop where
  ring   : s.tty.writeRing.Ok ttyBufSize
  log    : s.written ++ s.tty.writeRing.contents ttyBufSize = s.placed.map Prod.snd
  unused : ∀ k, s.calls k = none → s.placedBy k = []
  call   : ∀ k call pc, s.calls k = some (call, pc) → CallOk (s.placedBy k) call pc

namespace TtyOutputInv

variable {s s' : TtyOutput} {k : ℕ} {call : WriteCall} {pc : WritePc} {i : ℕ}

lemma initial (readBuf writeBuf : ℤ → UInt8) : TtyOutputInv (.initial readBuf writeBuf) where
  ring := ⟨le_rfl, (by decide : 0 < ttyBufSize), le_rfl, (by decide : 0 ≤ ttyBufSize)⟩
  log := RingBuffer.contents_eq_nil rfl
  unused _ _ := rfl
  call _ _ _ hcall := by cases hcall

/-- Only the place of one call changes. -/
lemma setCall (h : TtyOutputInv s) (hok : CallOk (s.placedBy k) call pc)
    (htty : s'.tty = s.tty) (hcalls : s'.calls = (s.setCall k call pc).calls)
    (hwritten : s'.written = s.written) (hplaced : s'.placed = s.placed) : TtyOutputInv s' := by
  have hby : ∀ j, s'.placedBy j = s.placedBy j := by
    intro j
    rw [TtyOutput.placedBy, hplaced]
    rfl
  constructor
  case ring => exact htty ▸ h.ring
  case log =>
    rw [htty, hwritten, hplaced]
    exact h.log
  case unused =>
    intro j hj
    rw [hcalls, TtyOutput.calls_setCall] at hj
    split_ifs at hj
    rw [hby]
    exact h.unused j hj
  case call =>
    intro j call' pc' hj
    rw [hcalls, TtyOutput.calls_setCall] at hj
    rw [hby]
    split_ifs at hj with hjk
    · cases hj
      rw [hjk]
      exact hok
    · exact h.call j call' pc' hj

/-- The characters put into the buffer by a round are those of its call. -/
lemma placedBy_append (s : TtyOutput) (k j i m : ℕ) (call : WriteCall) :
    ((s.placed ++ (List.range' i m).map fun x => (k, call.buf x)).filter (·.1 = j)).map Prod.snd =
      s.placedBy j ++ if j = k then (List.range' i m).map call.buf else [] := by
  rw [List.filter_append, List.map_append, TtyOutput.placedBy, List.filter_map]
  congr 1
  split_ifs with hjk
  · rw [List.filter_eq_self.mpr fun x _ => by simp [hjk], List.map_map]
    rfl
  · rw [List.filter_eq_nil_iff.mpr fun x _ => by simp [Ne.symm hjk]]
    rfl

lemma round {busy : Bool} (h : TtyOutputInv s) (hcall : s.calls k = some (call, .loop i))
    (hi : i < call.len) (hempty : ¬ s.tty.writeCount > 0) :
    TtyOutputInv (s.round k call i busy) := by
  have hcount : s.tty.writeCount = 0 := by
    have hnonneg : 0 ≤ s.tty.writeCount := h.ring.count_nonneg
    omega
  have hroom : s.tty.writeCount < ttyBufSize := by
    rw [hcount]
    decide
  obtain ⟨m, hm, hle, hok, hcount', hcontents, hpos⟩ :=
    @ttyFill_contents call.buf call.len (call.len - i).toNat i s.tty h.ring
  have hmpos := hpos (by omega) hroom hi
  rw [TtyOutput.round]
  generalize ttyFill call.buf call.len (call.len - i).toNat s.tty i = filled at *
  obtain ⟨tty, j⟩ := filled
  dsimp only at hm hok hcount' hcontents ⊢
  obtain ⟨hok', hstart⟩ := @ttyStart_contents busy tty hok (by omega)
  generalize ttyStart busy tty = started at *
  obtain ⟨tty', written⟩ := started
  dsimp only at hok' hstart ⊢
  have hji : j - i = m := by omega
  rw [hji]
  have hold := h.call k call _ hcall
  constructor
  case ring => exact hok'
  case log =>
    rw [List.append_assoc, ← hstart, hcontents, ← List.append_assoc, h.log, List.map_append,
      List.map_map]
    rfl
  case unused =>
    intro l hl
    dsimp only at hl
    rw [Function.update_apply] at hl
    split_ifs at hl with hlk
    rw [TtyOutput.placedBy, placedBy_append, if_neg hlk, List.append_nil]
    exact h.unused l hl
  case call =>
    intro l call' pc' hl
    dsimp only at hl
    rw [TtyOutput.placedBy, placedBy_append]
    rw [Function.update_apply] at hl
    split_ifs at hl with hlk
    · cases hl
      have hindex : i ≤ call.len.toNat := hold.index_le
      rw [if_pos hlk, hlk, hold.placed]
      refine ⟨?_, ?_, fun _ hpc => by cases hpc⟩
      · show j ≤ _
        omega
      · show (List.range i).map call.buf ++ _ = (List.range j).map call.buf
        rw [← List.map_append, List.range_eq_range', List.range_eq_range', hm]
        have happend := @List.range'_append 0 i m 1
        rw [Nat.one_mul, Nat.zero_add] at happend
        rw [happend]
    · rw [if_neg hlk, List.append_nil]
      exact h.call l call' pc' hl

lemma interrupt (h : TtyOutputInv s) (ready : ℕ) : TtyOutputInv (s.interrupt ready) := by
  obtain ⟨hok, hcontents⟩ := @ttyInterruptWrite_contents ready s.tty h.ring
  refine ⟨hok, ?_, h.unused, h.call⟩
  show s.written ++ (ttyInterruptWrite ready s.tty).2 ++ _ = _
  rw [List.append_assoc]
  exact hcontents ▸ h.log

lemma step (h : TtyOutputInv s) (hstep : TtyOutputStep s s') : TtyOutputInv s' := by
  cases hstep with
  | @call k call hnew =>
    have hplaced : s.placedBy k = [] := h.unused k hnew
    exact h.setCall ⟨Nat.zero_le _, hplaced, fun _ hpc => by cases hpc⟩ rfl rfl rfl rfl
  | acquire hcall hpc hfree =>
    obtain ⟨hle, hplaced, -⟩ := h.call _ _ _ hcall
    refine h.setCall ⟨?_, ?_, fun _ hpc => by cases hpc⟩ rfl rfl rfl rfl
    · rcases hpc with ⟨rfl, rfl⟩ | rfl
      · exact hle
      · exact hle
    · rcases hpc with ⟨rfl, rfl⟩ | rfl
      · exact hplaced
      · exact hplaced
  | @sleep k call i hcall hlock hi hfull =>
    obtain ⟨hle, hplaced, -⟩ := h.call k call _ hcall
    have hok : CallOk (s.placedBy k) call (.asleep i) := ⟨hle, hplaced, fun _ hpc => by cases hpc⟩
    exact h.setCall hok rfl rfl rfl rfl
  | round hcall hlock hi hempty => exact h.round hcall hi hempty
  | @finish k call i hcall hlock hi =>
    obtain ⟨hle, hplaced, -⟩ := h.call k call _ hcall
    have hok : CallOk (s.placedBy k) call (.returned i) := by
      refine ⟨hle, hplaced, fun j hpc => ?_⟩
      cases hpc
      omega
    exact h.setCall hok rfl rfl rfl rfl
  | interrupt hfree => exact h.interrupt _

end TtyOutputInv

lemma TtyOutputRun.inv {s : TtyOutput} (hrun : TtyOutputRun s) : TtyOutputInv s := by
  obtain ⟨readBuf, writeBuf, hrun⟩ := hrun
  induction hrun with
  | refl => exact TtyOutputInv.initial readBuf writeBuf
  | tail _ hstep ih => exact ih.step hstep

/-- In every state reached by any calls of `tty_write` and interrupts, the count and the index of
the output buffer are in their ranges, and the characters written to the device, followed by those
in the buffer, are the characters that were put into the buffer, in the same order. Those of one
call are the first ones of its text, and a call that has returned `len` has put all of them into the
buffer. -/
theorem ttyOutput_order {s : TtyOutput} (hrun : TtyOutputRun s) :
    (0 ≤ s.tty.writeCount ∧ s.tty.writeCount ≤ ttyBufSize) ∧
    (0 ≤ s.tty.writeHead ∧ s.tty.writeHead < ttyBufSize) ∧
    s.written ++ s.tty.writeRing.contents ttyBufSize = s.placed.map Prod.snd ∧
    (∀ k call pc, s.calls k = some (call, pc) →
      s.placedBy k <+: (List.range call.len.toNat).map call.buf) ∧
    (∀ k, s.calls k = none → s.placedBy k = []) ∧
    (∀ k call i, s.calls k = some (call, .returned i) → i = call.len →
      s.placedBy k = (List.range call.len.toNat).map call.buf) := by
  have h := hrun.inv
  refine ⟨⟨h.ring.count_nonneg, h.ring.count_le⟩, ⟨h.ring.head_nonneg, h.ring.head_lt⟩, h.log,
    fun k call pc hcall => ?_, h.unused, fun k call i hcall hi => ?_⟩
  · obtain ⟨hle, hplaced, -⟩ := h.call k call pc hcall
    rw [hplaced]
    refine List.IsPrefix.map _ ?_
    rw [List.range_eq_range', List.range_eq_range', ← Nat.add_sub_cancel' hle]
    have happend := @List.range'_append 0 pc.index (call.len.toNat - pc.index) 1
    exact ⟨_, happend⟩
  · have hindex : i = call.len.toNat := by omega
    rw [(h.call k call _ hcall).placed, ← hindex]
    rfl

/-- A call writes two characters, the first one to the device itself. -/
theorem ttyOutput_order_two : ∃ s, TtyOutputRun s ∧ s.written = [7] ∧
    s.calls 0 = some (⟨fun i => UInt8.ofNat (7 + i), 2⟩, .returned 2) ∧ s.placedBy 0 = [7, 8] := by
  obtain ⟨call, hcall⟩ : ∃ call : WriteCall, call = ⟨fun i => UInt8.ofNat (7 + i), 2⟩ := ⟨_, rfl⟩
  obtain ⟨s₀, hs₀⟩ : ∃ s, s = TtyOutput.initial (fun _ => 0) fun _ => 0 := ⟨_, rfl⟩
  obtain ⟨s₁, hs₁⟩ : ∃ s, s = s₀.setCall 0 call .start := ⟨_, rfl⟩
  obtain ⟨s₂, hs₂⟩ : ∃ s, s = { s₁.setCall 0 call (.loop 0) with slock := some 0 } := ⟨_, rfl⟩
  obtain ⟨s₃, hs₃⟩ : ∃ s, s = s₂.round 0 call 0 false := ⟨_, rfl⟩
  obtain ⟨s₄, hs₄⟩ : ∃ s, s = { s₃.setCall 0 call (.returned 2) with slock := none } := ⟨_, rfl⟩
  have h₁ : TtyOutputStep s₀ s₁ := hs₁ ▸ .call (by rw [hs₀]; rfl)
  have h₂ : TtyOutputStep s₁ s₂ := hs₂ ▸ .acquire (by rw [hs₁]; rfl) (.inl ⟨rfl, rfl⟩)
    (by rw [hs₁, hs₀]; rfl)
  have h₃ : TtyOutputStep s₂ s₃ := hs₃ ▸ .round (by rw [hs₂]; rfl) (by rw [hs₂])
    (by rw [hcall]; decide) (by rw [hs₂, hs₁, hs₀]; exact (by decide : ¬ (0 : ℤ) > 0))
  have hpc₃ : s₃.calls 0 = some (call, .loop 2) := by rw [hs₃, hs₂, hs₁, hs₀, hcall]; rfl
  have h₄ : TtyOutputStep s₃ s₄ := hs₄ ▸ .finish hpc₃ (by rw [hs₃, hs₂]; rfl)
    (by rw [hcall]; decide)
  have hrun : TtyOutputRun s₄ := by
    refine ⟨fun _ => 0, fun _ => 0, ?_⟩
    rw [← hs₀]
    exact (((Relation.ReflTransGen.single h₁).tail h₂).tail h₃).tail h₄
  have hpc₄ : s₄.calls 0 = some (call, .returned 2) := by rw [hs₄]; rfl
  obtain ⟨-, -, -, -, -, hplaced⟩ := ttyOutput_order hrun
  refine ⟨s₄, hrun, ?_, hcall ▸ hpc₄, ?_⟩
  · rw [hs₄, hs₃, hs₂, hs₁, hs₀, hcall]
    rfl
  · rw [hplaced 0 call 2 hpc₄ (by rw [hcall]; rfl), hcall]
    rfl

end Osm.Drivers
