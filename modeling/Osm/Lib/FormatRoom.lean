import Osm.Core.Bytes
import Osm.Lib.FormatEnds
import Osm.Lib.Libc

/-!
# Formatted output in a buffer

The output for a buffer is what fits of the full output, with a zero behind it. Only the signs of
a number can reach over the end: there is one look at the room before the two signs of a negative
number with a flag for a sign.
-/

namespace Osm.Lib

open Osm.Core

/-- What formatting leaves when it keeps to the buffer of the given size: a string that ends in
the buffer, and its length when the full output fits. -/
structure InBuffer (m : Memory) (a size : ℕ) (full : List UInt8) (ret : ℤ) (out : Out) : Prop where
  inside : ∀ x, x < a ∨ a + size ≤ x → out.mem x = m x
  string : (stringAt out.mem a size).length < size
  ret    : ret = if full.length < size then ((stringAt out.mem a size).length : ℤ) else -1

/-- There is room for the signs of all numbers that begin in the buffer. -/
def SignsFit (size : ℤ) (ps : List Piece) : Prop :=
  ∀ p ∈ ps, p.start < size → p.start + p.signs.length ≤ size

instance (size : ℤ) (ps : List Piece) : Decidable (SignsFit size ps) :=
  inferInstanceAs (Decidable (∀ p ∈ ps, _))

/-- The first characters of the output have been stored. -/
structure Printed (m : Memory) (a : ℕ) (text : List UInt8) (s : Printer) : Prop where
  out     : s.out = { buf := a + text.length, mem := m.writeBytes a text }
  written : s.written.toInt = toInt text.length

variable {m : Memory} {a : ℕ} {size : ℤ} {fmt text rest : List UInt8} {args : ℕ → VaArg}
  {bound fuel n : ℕ} {s s' : Printer} {ap : ℕ} {start : ℤ} {p : Piece}

lemma foldl_put (bytes : List UInt8) :
    bytes.foldl (Out.put false) { buf := a + text.length, mem := m.writeBytes a text } =
      { buf := a + (text ++ bytes).length, mem := m.writeBytes a (text ++ bytes) } := by
  induction bytes generalizing text with
  | nil => simp
  | cons c bytes ih =>
    have hput : Out.put false { buf := a + text.length, mem := m.writeBytes a text } c =
        { buf := a + (text ++ [c]).length, mem := m.writeBytes a (text ++ [c]) } := by
      rw [Memory.writeBytes_concat, List.length_append]
      rfl
    rw [List.foldl_cons, hput, ih, List.append_assoc]
    rfl

lemma Printed.output (h : Printed m a text s) :
    Printed m a (text ++ p.shown size) { s.output size false p with fmt } where
  out := by
    change (s.output size false p).out = _
    rw [Printer.output_out, h.out, foldl_put]
  written := by
    change (s.output size false p).written.toInt = _
    rw [Printer.output_written, h.written, toInt_toInt_add, List.length_append, Nat.cast_add]

lemma Printed.written_of_le (h : Printed m a text s) (hsize : size < 2 ^ 31)
    (hle : (text.length : ℤ) ≤ size) : s.written.toInt = text.length := by
  rw [h.written, toInt_of_range (by omega) (by omega)]

lemma shown_isPrefix (hsize : size < 2 ^ 31) (hok : p.Ok start) (hstart : 0 ≤ start)
    (hroom : start < size) : p.shown size <+: p.text := by
  rw [Piece.shown, Piece.text, List.append_assoc, List.append_assoc]
  apply (List.prefix_append_right_inj _).mpr
  by_cases hbody : p.body.length ≤ (size - (p.start + p.signs.length)).toNat
  · rw [List.take_of_length_le hbody]
    exact (List.prefix_append_right_inj _).mpr (List.take_prefix _ _)
  · have hnil : p.digits.take
        (toInt (size - (p.start + p.signs.length + p.body.length))).toNat = [] := by
      have hdigits := length_digits_le hsize hok hstart hroom
      rw [← List.length_eq_zero_iff]
      omega
    rw [hnil, List.append_nil]
    exact (List.take_prefix _ _).trans (List.prefix_append _ _)

lemma loop_of_full (hsize : size < 2 ^ 31) (hfull : size ≤ s.written.toInt)
    (hloop : loop (printRound fuel size args false) n s = some (some s')) : s' = s := by
  rcases loop_printRound_cases hsize hloop with ⟨-, heq⟩ | ⟨hroom, -⟩
  · exact heq
  · omega

/-- The loop stores what fits of the full output. -/
lemma loop_printed (hsize : size < 2 ^ 31) (hs : Printed m a text s)
    (hle : (text.length : ℤ) ≤ size) (hbound : s.fmt.length ≤ bound)
    (hfit : SignsFit size (piecesFrom args bound s.fmt s.ap text.length))
    (hloop : loop (printRound fuel size args false) n s = some (some s')) :
    Printed m a ((text ++ (piecesFrom args bound s.fmt s.ap text.length).flatMap Piece.text).take
      size.toNat) s' := by
  have hwritten := hs.written_of_le hsize hle
  induction bound generalizing s text n with
  | zero =>
    have hfmt : s.fmt = [] := List.length_eq_zero_iff.mp (Nat.le_zero.mp hbound)
    rw [piecesFrom, List.flatMap_nil, List.append_nil, List.take_of_length_le (by omega)]
    rcases loop_printRound_cases hsize hloop with
      ⟨-, rfl⟩ | ⟨-, ⟨-, fmt, rfl⟩ | ⟨p, fmt, n', -, hnext, -⟩⟩
    · exact hs
    · exact ⟨hs.out, hs.written⟩
    · rw [hfmt] at hnext
      cases hnext
  | succ bound ih =>
    rcases loop_printRound_cases hsize hloop with
      ⟨hfull, rfl⟩ | ⟨hroom, ⟨hnext, fmt, rfl⟩ | hnext⟩
    · rw [List.take_left' (by omega)]
      exact hs
    · rw [hwritten] at hnext
      rw [piecesFrom_none hnext, List.flatMap_nil, List.append_nil,
        List.take_of_length_le (by omega)]
      exact ⟨hs.out, hs.written⟩
    · obtain ⟨p, rest, n', -, hnext, hendless, hloop⟩ := hnext
      rw [hwritten] at hnext hroom
      obtain ⟨hok, -, hlt⟩ := nextPiece_ok hnext
      have hstart := hok.start.symm ▸ Int.natCast_nonneg text.length
      rw [piecesFrom_some hnext, hendless] at hfit ⊢
      have hfits := hfit p List.mem_cons_self (hok.start ▸ hroom)
      rw [hok.start] at hfits
      have hshown := length_shown_le_max hsize hok (Int.natCast_nonneg _) hroom
      rw [max_eq_left hfits] at hshown
      have hs₁ := @Printed.output m a size rest text s p hs
      have hlength : ((text ++ p.shown size).length : ℤ) = text.length + (p.shown size).length := by
        rw [List.length_append, Nat.cast_add]
      rw [List.flatMap_cons, ← List.append_assoc]
      rcases shown_cases hsize hstart with htext | hfull
      · rw [htext] at hs₁ hshown hlength
        rw [← hlength] at hshown hfit ⊢
        exact ih hs₁ hshown (Nat.lt_succ_iff.mp (hlt.trans_le hbound))
          (fun q hq => hfit q (List.mem_cons_of_mem p hq)) hloop (hs₁.written_of_le hsize hshown)
      · rw [hok.start] at hfull
        have hfull₁ : size ≤ ({ s.output size false p with fmt := rest } : Printer).written.toInt := by
          rw [hs₁.written_of_le hsize (hlength.trans_le hshown), hlength]
          exact hfull
        have hprefix : text ++ p.shown size <+: text ++ p.text ++
            (piecesFrom args bound rest (s.ap + p.taken)
              (text.length + p.text.length)).flatMap Piece.text :=
          ((List.prefix_append_right_inj text).mpr (shown_isPrefix hsize hok
            (Int.natCast_nonneg _) hroom)).trans (List.prefix_append _ _)
        have hroom₁ : size.toNat = (text ++ p.shown size).length := by omega
        rw [loop_of_full hsize hfull₁ hloop]
        rw [List.prefix_iff_eq_take.mp hprefix, ← hroom₁] at hs₁
        exact hs₁

/-- The loop goes on behind what has been stored. -/
lemma loop_printed_append (hsize : size < 2 ^ 31) (hs : Printed m a text s)
    (hloop : loop (printRound fuel size args false) n s = some (some s')) :
    ∃ rest, Printed m a (text ++ rest) s' := by
  induction n using Nat.strongRecOn generalizing s text with
  | ind n ih =>
    rcases loop_printRound_cases hsize hloop with ⟨-, rfl⟩ | ⟨-, ⟨-, fmt, rfl⟩ | hnext⟩
    · refine ⟨[], ?_⟩
      rw [List.append_nil]
      exact hs
    · refine ⟨[], ?_⟩
      rw [List.append_nil]
      exact ⟨hs.out, hs.written⟩
    · obtain ⟨p, fmt, n', hlt, -, -, hloop⟩ := hnext
      obtain ⟨rest, hrest⟩ := ih n' hlt (@Printed.output m a size fmt text s p hs) hloop
      rw [List.append_assoc] at hrest
      exact ⟨_, hrest⟩

/-- The signs of a number reach over the end. -/
lemma loop_printed_of_not_fits (hsize : size < 2 ^ 31) (hs : Printed m a text s)
    (hle : (text.length : ℤ) ≤ size)
    (hnot : ¬ SignsFit size (piecesFrom args bound s.fmt s.ap text.length))
    (hloop : loop (printRound fuel size args false) n s = some (some s')) :
    ∃ text c rest, c ≠ 0 ∧ (text.length : ℤ) = size ∧ Printed m a (text ++ [c] ++ rest) s' := by
  have hwritten := hs.written_of_le hsize hle
  induction bound generalizing s text n with
  | zero => exact absurd (fun p hp => by cases hp) hnot
  | succ bound ih =>
    rcases loop_printRound_cases hsize hloop with
      ⟨hfull, -⟩ | ⟨hroom, ⟨hnext, -⟩ | hnext⟩
    · refine absurd (fun p hp hroom => ?_) hnot
      have hle := start_le_of_mem hp
      omega
    · rw [hwritten] at hnext
      rw [piecesFrom_none hnext] at hnot
      exact absurd (fun p hp => by cases hp) hnot
    · obtain ⟨p, rest, n', -, hnext, hendless, hloop⟩ := hnext
      rw [hwritten] at hnext hroom
      have hok := (nextPiece_ok hnext).1
      have hstart := hok.start.symm ▸ Int.natCast_nonneg text.length
      have hs₁ := @Printed.output m a size rest text s p hs
      have hlength : ((text ++ p.shown size).length : ℤ) = text.length + (p.shown size).length := by
        rw [List.length_append, Nat.cast_add]
      rw [piecesFrom_some hnext, hendless] at hnot
      by_cases hfits : p.start + p.signs.length ≤ size
      · -- The piece fits, so that the signs of a later one do not.
        have hnot₁ : ¬ SignsFit size (piecesFrom args bound rest (s.ap + p.taken)
            (text.length + p.text.length)) := by
          intro hfit
          refine hnot fun q hq => ?_
          rcases List.mem_cons.mp hq with rfl | hq
          · exact fun _ => hfits
          · exact hfit q hq
        have hshown := length_shown_le_max hsize hok (Int.natCast_nonneg _) hroom
        rw [max_eq_left (hok.start ▸ hfits)] at hshown
        rcases shown_cases hsize hstart with htext | hfull
        · rw [htext] at hs₁ hlength hshown
          rw [← hlength] at hnot₁ hshown
          exact ih hs₁ hshown hnot₁ hloop (hs₁.written_of_le hsize hshown)
        · refine absurd (fun q hq hroom => ?_) hnot₁
          have hle := start_le_of_mem hq
          have hshown := length_shown_le size p
          rw [hok.start] at hfull
          omega
      · rcases hok.signs with hsigns | ⟨c, hc, hsigns⟩
        · rw [hok.start] at hfits
          omega
        · rw [hok.start, hsigns] at hfits
          have hlen : ['-'.toUInt8, c].length = 2 := rfl
          have hshown : ∃ more, p.shown size = ['-'.toUInt8, c] ++ more := by
            rw [Piece.shown, hsigns, List.append_assoc]
            exact ⟨_, rfl⟩
          obtain ⟨more, hshown⟩ := hshown
          obtain ⟨rest', hrest⟩ := loop_printed_append hsize hs₁ hloop
          refine ⟨text ++ ['-'.toUInt8], c, more ++ rest', hc, ?_, ?_⟩
          · rw [List.length_append, List.length_singleton]
            omega
          · rw [hshown] at hrest
            simpa using hrest

/-! ### The end of the output -/

lemma takeWhile_ne_zero_iff : text.takeWhile (· ≠ 0) = text ↔ 0 ∉ text := by
  rw [List.takeWhile_eq_self_iff]
  constructor
  · exact fun h hzero => of_decide_eq_true (h 0 hzero) rfl
  · rintro hzero c hc
    rw [decide_eq_true_eq]
    rintro rfl
    exact hzero hc

/-- A text with a zero behind it is a string up to the first zero. -/
lemma stringAt_writeBytes {k : ℕ} (hlt : text.length < k) :
    stringAt (m.writeBytes a (text ++ [0])) a k = text.takeWhile (· ≠ 0) := by
  induction text generalizing m a k with
  | nil =>
    obtain ⟨k, rfl⟩ := Nat.exists_eq_add_of_lt hlt
    rw [List.nil_append, Memory.writeBytes_singleton, stringAt, Function.update_self]
    rfl
  | cons c text ih =>
    obtain ⟨k, rfl⟩ := Nat.exists_eq_add_of_lt hlt
    have hself : m.writeBytes a ((c :: text) ++ [0]) a = c :=
      Memory.writeBytes_inside (i := 0) (by simp)
    have hrest : m.writeBytes a ((c :: text) ++ [0]) =
        (m.writeBytes a [c]).writeBytes (a + 1) (text ++ [0]) := by
      rw [← List.singleton_append, List.append_assoc, Memory.writeBytes_append]
      rfl
    rw [stringAt, hself]
    by_cases hc : c = 0
    · rw [if_pos hc, List.takeWhile_cons_of_neg (by simpa using hc)]
    · rw [if_neg hc, List.takeWhile_cons_of_pos (by simpa using hc), hrest,
        ih (by rw [List.length_cons]; omega)]

lemma terminate_of_ne (hs : Printed m a text s) (hne : toInt text.length ≠ size) :
    terminate size false s = (toInt text.length,
      ({ buf := a + text.length, mem := m.writeBytes a (text ++ [0]) } : Out)) := by
  rw [terminate, if_neg (by rw [hs.written]; exact hne), hs.out, hs.written,
    Memory.writeBytes_concat]
  rfl

lemma terminate_of_eq {c : UInt8} (hs : Printed m a (text ++ [c]) s)
    (heq : toInt (text ++ [c]).length = size) : terminate size false s = ((-1 : ℤ),
      ({ buf := a + text.length, mem := m.writeBytes a (text ++ [0]) } : Out)) := by
  have hbuf : a + (text ++ [c]).length - 1 = a + text.length := by
    rw [List.length_append, List.length_singleton]
    omega
  rw [terminate, if_pos (by rw [hs.written]; exact heq), hs.out, hbuf,
    ← @Memory.update_writeBytes_concat m a text c 0]
  rfl

section Snprintf

variable {size : ℕ} {ret : ℤ} {out : Out}

lemma snprintf_eq_some (hsize : 1 ≤ size) (h : snprintf fuel m a size fmt args = some (ret, out)) :
    ∃ s, loop (printRound fuel size args false) fuel ⟨{ buf := a, mem := m }, 0, fmt, 0⟩ =
      some (some s) ∧ (ret, out) = terminate size false s :=
  (vxnprintf_of_pos (by omega)).mp h

lemma printed_nil (fmt : List UInt8) : Printed m a [] ⟨{ buf := a, mem := m }, 0, fmt, 0⟩ where
  out := by simp
  written := rfl

/-- When there is room for the signs, the buffer holds what fits of the full output. -/
lemma snprintf_of_fits (hsize : 1 ≤ size) (hint : size < 2 ^ 31)
    (hfit : SignsFit size (pieces fmt args))
    (h : snprintf fuel m a size fmt args = some (ret, out)) :
    out.mem = m.writeBytes a ((fullOutput fmt args).take (size - 1) ++ [0]) ∧
      ret = if (fullOutput fmt args).length < size then ((fullOutput fmt args).length : ℤ)
        else -1 := by
  obtain ⟨s, hloop, hend⟩ := snprintf_eq_some hsize h
  have hprinted := loop_printed (by omega) (printed_nil fmt) (Int.natCast_nonneg size) le_rfl hfit
    hloop
  rw [List.nil_append, Int.toNat_natCast] at hprinted
  change Printed m a ((fullOutput fmt args).take size) s at hprinted
  split_ifs with hlt
  · rw [List.take_of_length_le hlt.le] at hprinted
    have hlength : toInt (fullOutput fmt args).length = (fullOutput fmt args).length :=
      toInt_of_range (by omega) (by omega)
    rw [terminate_of_ne hprinted (by omega), hlength] at hend
    cases hend
    rw [List.take_of_length_le (by omega)]
    exact ⟨rfl, rfl⟩
  · obtain ⟨c, hc⟩ : ∃ c, (fullOutput fmt args).take size =
        (fullOutput fmt args).take (size - 1) ++ [c] := by
      refine ⟨(fullOutput fmt args)[size - 1], ?_⟩
      rw [List.take_append_getElem, Nat.sub_add_cancel hsize]
    have hlength := congrArg List.length hc
    rw [List.length_take] at hlength
    rw [hc] at hprinted
    rw [terminate_of_eq hprinted (by rw [toInt_of_range (by omega) (by omega)]; omega)] at hend
    cases hend
    exact ⟨rfl, rfl⟩

/-- Whether formatting ends does not depend on what is in memory. -/
lemma snprintf_ends {m₀ : Memory} (hsize : 1 ≤ size) (hint : size < 2 ^ 31)
    (hends : ∃ fuel r, snprintf fuel m₀ a size fmt args = some r) (m : Memory) :
    ∃ fuel ret out, snprintf fuel m a size fmt args = some (ret, out) := by
  obtain ⟨fuel, r, hr⟩ := hends
  have hpieces : ∀ p ∈ piecesInRoom size fmt args, p.endless = false := by
    intro p hp
    by_contra hendless
    rw [Bool.not_eq_false] at hendless
    cases hr.symm.trans (vxnprintf_of_endless (by omega) hp hendless fuel)
  obtain ⟨fuel, ⟨ret, out⟩, hr⟩ := vxnprintf_of_pieces (by omega) (by omega) hpieces
  exact ⟨fuel, ret, out, hr⟩

lemma toInt_succ_ne (hint : size < 2 ^ 31) : toInt ((size : ℤ) + 1) ≠ size := by
  by_cases hlt : size + 1 < 2 ^ 31
  · rw [toInt_of_range (by omega) (by omega)]
    omega
  · obtain rfl : size = 2 ^ 31 - 1 := by omega
    decide

/-- What is stored behind the buffer stays there, wherever the output ends. -/
lemma terminate_behind {c : UInt8} {rest : List UInt8} (hint : size < 2 ^ 31)
    (hlength : text.length = size) (hs : Printed m a (text ++ [c] ++ rest) s) :
    (terminate size false s).2.mem (a + size) = c := by
  have hinside : ∀ more, m.writeBytes a (text ++ [c] ++ more) (a + size) = c := by
    intro more
    rw [Memory.writeBytes_inside (by simp; omega)]
    simp [← hlength]
  by_cases heq : toInt (text ++ [c] ++ rest).length = size
  · -- the count has wrapped to the size again, so that the last character is not the sign
    obtain ⟨rest', d, rfl⟩ : ∃ rest' d, rest = rest' ++ [d] := by
      rcases List.eq_nil_or_concat rest with rfl | ⟨rest', d, rfl⟩
      · exact absurd heq (by simpa [hlength] using toInt_succ_ne hint)
      · exact ⟨rest', d, by simp⟩
    rw [← List.append_assoc] at hs heq
    have hbehind := hinside (rest' ++ [0])
    rw [← List.append_assoc] at hbehind
    rw [terminate_of_eq hs heq]
    exact hbehind
  · have hbehind := hinside (rest ++ [0])
    rw [← List.append_assoc] at hbehind
    rw [terminate_of_ne hs heq]
    exact hbehind

/-- A sign for which there is no room is stored behind the buffer. -/
lemma signsFit_of_inside (hsize : 1 ≤ size) (hint : size < 2 ^ 31)
    (hr : snprintf fuel (fun _ => 0) a size fmt args = some (ret, out))
    (hinside : ∀ x, x < a ∨ a + size ≤ x → out.mem x = 0) : SignsFit size (pieces fmt args) := by
  by_contra hnot
  obtain ⟨s, hloop, hend⟩ := snprintf_eq_some hsize hr
  obtain ⟨text, c, rest, hc, hlength, hprinted⟩ := loop_printed_of_not_fits (by omega)
    (printed_nil fmt) (Int.natCast_nonneg size) hnot hloop
  have hbehind := terminate_behind hint (Int.ofNat_inj.mp hlength) hprinted
  rw [← hend] at hbehind
  exact hc (hbehind.symm.trans (hinside (a + size) (.inr le_rfl)))

/-- When there is room for the signs and no zero among the characters, the result is a string. -/
lemma inBuffer_of_fits (hsize : 1 ≤ size) (hint : size < 2 ^ 31)
    (hfit : SignsFit size (pieces fmt args))
    (hzero : (fullOutput fmt args).length < size → 0 ∉ fullOutput fmt args)
    (hr : snprintf fuel m a size fmt args = some (ret, out)) :
    InBuffer m a size (fullOutput fmt args) ret out := by
  obtain ⟨hmem, hret⟩ := snprintf_of_fits hsize hint hfit hr
  have hlength : ((fullOutput fmt args).take (size - 1)).length < size := by
    rw [List.length_take]
    omega
  have hstring : stringAt out.mem a size =
      ((fullOutput fmt args).take (size - 1)).takeWhile (· ≠ 0) := by
    rw [hmem, stringAt_writeBytes hlength]
  constructor
  · intro x hx
    rw [hmem, Memory.writeBytes_of_outside]
    rw [List.length_append, List.length_singleton]
    omega
  · rw [hstring]
    exact (List.takeWhile_prefix _).length_le.trans_lt hlength
  · rw [hret, hstring]
    split_ifs with hlt
    · rw [List.take_of_length_le (by omega), takeWhile_ne_zero_iff.mpr (hzero hlt)]
    · rfl

end Snprintf

/-- Formatting that ends leaves a string in the buffer, with its length, exactly if there is room
for the signs of all numbers, and no zero is output as a character when the output fits. The size is
an `int`. -/
theorem vxnprintf_in_buffer_iff {m₀ : Memory} {a size : ℕ} (hsize : 1 ≤ size)
    (hint : size < 2 ^ 31) {fmt : List UInt8} {args : ℕ → VaArg}
    (hends : ∃ fuel r, snprintf fuel m₀ a size fmt args = some r) :
    (∀ m fuel ret out, snprintf fuel m a size fmt args = some (ret, out) →
      InBuffer m a size (fullOutput fmt args) ret out) ↔
    SignsFit size (pieces fmt args) ∧
      ((fullOutput fmt args).length < size → 0 ∉ fullOutput fmt args) := by
  constructor
  · intro h
    obtain ⟨fuel, ret, out, hr⟩ := snprintf_ends hsize hint hends fun _ => 0
    have hbuffer := h _ _ _ _ hr
    have hfit := signsFit_of_inside hsize hint hr hbuffer.inside
    refine ⟨hfit, fun hlt => ?_⟩
    obtain ⟨hmem, hret⟩ := snprintf_of_fits hsize hint hfit hr
    have hlength := hbuffer.ret
    rw [hret, if_pos hlt, if_pos hlt, hmem, List.take_of_length_le (by omega),
      stringAt_writeBytes hlt, Nat.cast_inj] at hlength
    exact takeWhile_ne_zero_iff.mp ((List.takeWhile_prefix _).eq_of_length hlength.symm)
  · rintro ⟨hfit, hzero⟩ m fuel ret out hr
    exact inBuffer_of_fits hsize hint hfit hzero hr

/-- The number -23 in a buffer of two characters. -/
theorem vxnprintf_in_buffer_two :
    (∃ fuel r, snprintf fuel (fun _ => 0) 16 2 (['%', 'd'].map Char.toUInt8)
      (fun _ => { word := 0xffffffe9 }) = some r) ∧
    ∀ m fuel ret out,
      snprintf fuel m 16 2 (['%', 'd'].map Char.toUInt8) (fun _ => { word := 0xffffffe9 }) =
        some (ret, out) →
      InBuffer m 16 2 (fullOutput (['%', 'd'].map Char.toUInt8) fun _ => { word := 0xffffffe9 })
        ret out := by
  have hends : ∃ fuel r, snprintf fuel (fun _ => 0) 16 2 (['%', 'd'].map Char.toUInt8)
      (fun _ => { word := 0xffffffe9 }) = some r := ⟨3, _, rfl⟩
  exact ⟨hends, (vxnprintf_in_buffer_iff (by decide) (by decide) hends).mpr (by decide +kernel)⟩

/-- The number -23 with the flag for a sign, when there is room for one character. The sign is
stored behind the buffer. -/
theorem sign_behind_buffer : ∃ ret out,
    snprintf 8 (fun _ => 0) 16 3 (['a', 'b', '%', '+', 'd'].map Char.toUInt8)
      (fun _ => { word := 0xffffffe9 }) = some (ret, out) ∧ out.mem 19 = '+'.toUInt8 ∧ ret = 4 ∧
    ¬ InBuffer (fun _ => 0) 16 3 (fullOutput (['a', 'b', '%', '+', 'd'].map Char.toUInt8)
      fun _ => { word := 0xffffffe9 }) ret out := by
  refine ⟨4, _, rfl, rfl, rfl, fun h => ?_⟩
  have hinside := h.inside 19 (.inr le_rfl)
  revert hinside
  decide

end Osm.Lib
