import Osm.Lib.Formatting

/-!
# Formatting ends

Each round of the loop in `vxnprintf` takes something of the format and at most one argument, so
that the loop ends, unless the loop over the modifiers of a conversion does not. `scan_int` does
not take a `9`, and for a `9` among the modifiers this loop does not get any further.
-/

namespace Osm.Lib

open Osm.Core

/-- `vxnprintf` ends; its rounds go through the format from left to right, and each takes at most
one argument. -/
structure FormattingEnds (out : Out) (size : ℤ) (fmt : List UInt8) (args : ℕ → VaArg)
    (tty : Bool) : Prop where
  ends   : ∃ fuel r, vxnprintf fuel out size fmt args tty = some r
  rounds : ∀ fuel s s', printRound fuel size args tty s = .inl s' →
    s'.fmt <:+ s.fmt ∧ s'.fmt ≠ s.fmt ∧ (s'.ap = s.ap ∨ s'.ap = s.ap + 1)

/-- The pieces that begin in the room, at most as many as a bound says. The number of the characters
before a piece is computed in `int`. -/
def roomFrom (size : ℤ) (args : ℕ → VaArg) : ℕ → List UInt8 → ℕ → ℤ → List Piece
  | 0, _, _, _                => []
  | bound + 1, fmt, ap, start =>
    if start < size then
      match nextPiece args ap start fmt with
      | none          => []
      | some (p, fmt) =>
        p :: if p.endless then []
          else roomFrom size args bound fmt (ap + p.taken) (toInt (start + (p.shown size).length))
    else []

/-- The pieces of a format that begin in the room. -/
def piecesInRoom (size : ℤ) (fmt : List UInt8) (args : ℕ → VaArg) : List Piece :=
  roomFrom size args fmt.length fmt 0 0

variable {out : Out} {size : ℤ} {fmt rest : List UInt8} {args : ℕ → VaArg} {tty : Bool} {bound : ℕ}
  {s s' : Printer} {ap : ℕ} {start : ℤ} {p : Piece}

lemma roomFrom_none (hnext : nextPiece args ap start fmt = none) :
    roomFrom size args bound fmt ap start = [] := by
  cases bound with
  | zero => rfl
  | succ bound =>
    rw [roomFrom, hnext]
    exact ite_self []

lemma roomFrom_some (hroom : start < size) (hnext : nextPiece args ap start fmt = some (p, rest)) :
    roomFrom size args (bound + 1) fmt ap start = p :: if p.endless then []
      else roomFrom size args bound rest (ap + p.taken)
        (toInt (start + (p.shown size).length)) := by
  rw [roomFrom, if_pos hroom, hnext]

lemma roomFrom_of_le (hfull : size ≤ start) : roomFrom size args bound fmt ap start = [] := by
  cases bound with
  | zero => rfl
  | succ bound => rw [roomFrom, if_neg (not_lt.mpr hfull)]

lemma printRound_takes (hsize : size < 2 ^ 31) {fuel : ℕ}
    (h : printRound fuel size args tty s = .inl s') :
    s'.fmt <:+ s.fmt ∧ s'.fmt ≠ s.fmt ∧ (s'.ap = s.ap ∨ s'.ap = s.ap + 1) := by
  obtain ⟨-, p, fmt, hnext, -, rfl⟩ := printRound_eq_inl hsize h
  obtain ⟨hok, hsuffix, hlt⟩ := nextPiece_ok hnext
  refine ⟨hsuffix, ?_, ?_⟩
  · rintro heq
    exact absurd (congrArg List.length heq) hlt.ne
  · have htaken := hok.taken
    rw [Printer.output_ap]
    omega

/-- Pieces are in the order of their positions. -/
lemma start_le_of_mem (h : p ∈ piecesFrom args bound fmt ap start) : start ≤ p.start := by
  induction bound generalizing fmt ap start with
  | zero => cases h
  | succ bound ih =>
    cases hnext : nextPiece args ap start fmt with
    | none =>
      rw [piecesFrom_none hnext] at h
      cases h
    | some r =>
      obtain ⟨q, rest⟩ := r
      rw [piecesFrom_some hnext] at h
      rcases List.mem_cons.mp h with rfl | h
      · exact (nextPiece_ok hnext).1.start.ge
      · split_ifs at h with hendless
        · cases h
        · have hle := ih h
          omega

/-- As long as no number with two signs wraps the count, the pieces that begin in the room are those
with fewer characters before them. -/
lemma roomFrom_eq_filter (hsize : size < 2 ^ 31) (hstart : 0 ≤ start)
    (hcount : ∀ p ∈ piecesFrom args bound fmt ap start, p.start < size →
      p.start + p.signs.length < 2 ^ 31) :
    roomFrom size args bound fmt ap start =
      (piecesFrom args bound fmt ap start).filter fun p => p.start < size := by
  induction bound generalizing fmt ap start with
  | zero => rfl
  | succ bound ih =>
    have hbehind : ∀ {fmt' ap' start'}, size ≤ start' →
        (piecesFrom args bound fmt' ap' start').filter (fun p => p.start < size) = [] := by
      intro fmt' ap' start' hfull
      rw [List.filter_eq_nil_iff]
      intro p hp
      have hle := start_le_of_mem hp
      rw [decide_eq_true_eq]
      omega
    cases hnext : nextPiece args ap start fmt with
    | none => rw [roomFrom_none hnext, piecesFrom_none hnext, List.filter_nil]
    | some r =>
      obtain ⟨p, rest⟩ := r
      have hok := (nextPiece_ok hnext).1
      rw [piecesFrom_some hnext] at hcount ⊢
      by_cases hroom : start < size
      · have hsigns := hcount p List.mem_cons_self (hok.start ▸ hroom)
        rw [roomFrom_some hroom hnext,
          List.filter_cons_of_pos (by rw [hok.start]; exact decide_eq_true hroom)]
        congr 1
        split_ifs with hendless
        · rfl
        · have hshown := length_shown_le_max hsize hok hstart hroom
          rw [hok.start] at hsigns
          rw [toInt_of_range (by omega) (by omega)]
          rcases shown_cases hsize (hok.start.symm ▸ hstart) with htext | hfull
          · rw [htext]
            refine ih (by omega) fun q hq => hcount q (List.mem_cons_of_mem p ?_)
            rwa [if_neg hendless]
          · have hle := length_shown_le size p
            rw [hok.start] at hfull
            rw [roomFrom_of_le hfull, hbehind (by omega)]
      · rw [roomFrom_of_le (not_lt.mp hroom),
          List.filter_cons_of_neg (by rw [hok.start, decide_eq_true_eq]; exact hroom)]
        split_ifs with hendless
        · rfl
        · rw [hbehind (by omega)]

/-- The loop ends when no endless piece begins in the room. -/
lemma loop_printRound_of_pieces (hsize : size < 2 ^ 31) {fuel : ℕ} (hbound : s.fmt.length ≤ bound)
    (hfuel : s.fmt.length ≤ fuel)
    (h : ∀ p ∈ roomFrom size args bound s.fmt s.ap s.written.toInt, p.endless = false) :
    ∃ s', loop (printRound fuel size args tty) (bound + 1) s = some (some s') := by
  induction bound generalizing s with
  | zero =>
    have hfmt : s.fmt = [] := List.length_eq_zero_iff.mp (Nat.le_zero.mp hbound)
    by_cases hroom : s.written.toInt < size
    · obtain ⟨fmt, hround⟩ := @printRound_of_none size tty s args fuel hsize hroom hfuel
        (by rw [hfmt]; rfl)
      exact ⟨_, loop_inr hround 0⟩
    · exact ⟨s, loop_inr (printRound_of_le (not_lt.mp hroom) fuel) 0⟩
  | succ bound ih =>
    by_cases hroom : s.written.toInt < size
    · cases hnext : nextPiece args s.ap s.written.toInt s.fmt with
      | none =>
        obtain ⟨fmt, hround⟩ := @printRound_of_none size tty s args fuel hsize hroom hfuel hnext
        exact ⟨_, loop_inr hround (bound + 1)⟩
      | some r =>
        obtain ⟨p, rest⟩ := r
        have hlt := (nextPiece_ok hnext).2.2
        rw [roomFrom_some hroom hnext] at h
        have hendless := h p List.mem_cons_self
        rw [hendless] at h
        rw [loop_inl (printRound_of_nextPiece hsize hroom hfuel hnext hendless)]
        apply ih
        · exact (Nat.lt_succ_iff.mp (hlt.trans_le hbound))
        · exact hlt.le.trans hfuel
        · intro q hq
          refine h q (List.mem_cons_of_mem p ?_)
          change q ∈ roomFrom size args bound rest (s.output size tty p).ap
            (s.output size tty p).written.toInt at hq
          rw [Printer.output_written] at hq
          exact hq
    · exact ⟨s, loop_inr (printRound_of_le (not_lt.mp hroom) fuel) (bound + 1)⟩

/-- The loop does not get behind an endless piece that begins in the room. -/
lemma loop_printRound_of_endless (hsize : size < 2 ^ 31) {fuel n : ℕ}
    (hp : p ∈ roomFrom size args bound s.fmt s.ap s.written.toInt)
    (hendless : p.endless = true) (s' : Printer) :
    loop (printRound fuel size args tty) n s ≠ some (some s') := by
  induction bound generalizing s n with
  | zero => cases hp
  | succ bound ih =>
    intro hloop
    rcases loop_printRound_cases hsize hloop with ⟨hfull, -⟩ | ⟨-, ⟨hnext, -⟩ | hnext⟩
    · rw [roomFrom_of_le hfull] at hp
      cases hp
    · rw [roomFrom_none hnext] at hp
      cases hp
    · obtain ⟨q, rest, n', -, hnext, hend, hloop⟩ := hnext
      by_cases hroom : s.written.toInt < size
      · rw [roomFrom_some hroom hnext, hend] at hp
        rcases List.mem_cons.mp hp with rfl | hp
        · cases hend.symm.trans hendless
        · refine ih ?_ hloop
          change p ∈ roomFrom size args bound rest (s.output size tty q).ap
            (s.output size tty q).written.toInt
          rw [Printer.output_written]
          exact hp
      · rw [roomFrom_of_le (not_lt.mp hroom)] at hp
        cases hp

lemma vxnprintf_of_pos (hsize : 0 < size) {fuel : ℕ} {r : ℤ × Out} :
    vxnprintf fuel out size fmt args tty = some r ↔ ∃ s,
      loop (printRound fuel size args tty) fuel ⟨out, 0, fmt, 0⟩ = some (some s) ∧
        r = terminate size tty s := by
  rw [vxnprintf, if_neg (not_le.mpr hsize)]
  cases loop (printRound fuel size args tty) fuel ⟨out, 0, fmt, 0⟩ with
  | none => simp
  | some result =>
    cases result with
    | none => simp
    | some s => simp [eq_comm]

/-- There is no result with an endless piece that begins in the room. -/
lemma vxnprintf_of_endless (hsize : size < 2 ^ 31) (hp : p ∈ piecesInRoom size fmt args)
    (hendless : p.endless = true) (fuel : ℕ) : vxnprintf fuel out size fmt args tty = none := by
  have hpos : 0 < size := by
    by_contra hpos
    rw [piecesInRoom, roomFrom_of_le (not_lt.mp hpos)] at hp
    cases hp
  rw [Option.eq_none_iff_forall_ne_some]
  intro r hresult
  obtain ⟨s, hloop, -⟩ := (vxnprintf_of_pos hpos).mp hresult
  exact @loop_printRound_of_endless size args tty fmt.length ⟨out, 0, fmt, 0⟩ p hsize fuel fuel
    hp hendless s hloop

lemma vxnprintf_of_pieces (hpos : 0 < size) (hsize : size < 2 ^ 31)
    (h : ∀ p ∈ piecesInRoom size fmt args, p.endless = false) :
    ∃ fuel r, vxnprintf fuel out size fmt args tty = some r := by
  obtain ⟨s, hloop⟩ := @loop_printRound_of_pieces size args tty fmt.length ⟨out, 0, fmt, 0⟩
    hsize (fmt.length + 1) le_rfl (Nat.le_succ _) h
  exact ⟨fmt.length + 1, _, (vxnprintf_of_pos hpos).mpr ⟨s, hloop, rfl⟩⟩

/-- Formatting ends if and only if no conversion that begins before the room is full has a `9`
among its modifiers. Unless two signs wrap the count, these conversions are the ones with fewer
characters than `size` before them in the output. -/
theorem vxnprintf_ends_iff (out : Out) {size : ℤ} (hsize : size < 2 ^ 31) (fmt : List UInt8)
    (args : ℕ → VaArg) (tty : Bool) :
    (FormattingEnds out size fmt args tty ↔
      ∀ p ∈ piecesInRoom size fmt args, p.endless = false) ∧
    ((∀ p ∈ pieces fmt args, p.start < size → p.start + p.signs.length < 2 ^ 31) →
      ∀ p, p ∈ piecesInRoom size fmt args ↔ p ∈ pieces fmt args ∧ p.start < size) := by
  refine ⟨⟨?_, fun h => ⟨?_, fun _ _ _ => printRound_takes hsize⟩⟩, fun hcount p => ?_⟩
  · rintro ⟨⟨fuel, r, hresult⟩, -⟩ p hp
    by_contra hendless
    rw [Bool.not_eq_false] at hendless
    cases hresult.symm.trans (vxnprintf_of_endless hsize hp hendless fuel)
  · by_cases hpos : size ≤ 0
    · exact ⟨0, (0, out), if_pos hpos⟩
    · exact vxnprintf_of_pieces (not_le.mp hpos) hsize h
  · rw [piecesInRoom, roomFrom_eq_filter hsize le_rfl hcount, List.mem_filter, decide_eq_true_eq]
    rfl

/-- `kprintf` returns for the format `%8d`. -/
theorem vxnprintf_ends_iff_eight :
    FormattingEnds { buf := 0, mem := fun _ => 0 } 0x7fffffff
      (['%', '8', 'd'].map Char.toUInt8) (fun _ => { word := 7 }) true := by
  refine (vxnprintf_ends_iff _ (by decide) _ _ _).1.mpr ?_
  decide +kernel

/-- `kprintf` does not return for the format `%9d`. -/
theorem nine_not_ends :
    (∀ fuel, kprintf fuel (fun _ => 0) (['%', '9', 'd'].map Char.toUInt8)
      (fun _ => { word := 7 }) = none) ∧
    ¬ FormattingEnds { buf := 0, mem := fun _ => 0 } 0x7fffffff
      (['%', '9', 'd'].map Char.toUInt8) (fun _ => { word := 7 }) true := by
  have hpieces : piecesInRoom 0x7fffffff (['%', '9', 'd'].map Char.toUInt8)
      (fun _ => { word := 7 }) = [{ start := 0, endless := true }] := rfl
  have hmem : { start := 0, endless := true } ∈
      piecesInRoom 0x7fffffff (['%', '9', 'd'].map Char.toUInt8) (fun _ => { word := 7 }) := by
    rw [hpieces]
    exact List.mem_singleton_self _
  have hnone : ∀ fuel, kprintf fuel (fun _ => 0) (['%', '9', 'd'].map Char.toUInt8)
      (fun _ => { word := 7 }) = none := vxnprintf_of_endless (by decide) hmem rfl
  refine ⟨hnone, ?_⟩
  rintro ⟨⟨fuel, r, hresult⟩, -⟩
  cases hresult.symm.trans (hnone fuel)

end Osm.Lib
