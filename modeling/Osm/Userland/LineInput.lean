import Osm.Lib.Xprintf
import Mathlib.Tactic.IntervalCases

/-!
# Line input

A model of `gets` and `readline` of `tests/lib.c`. The characters of standard input are a stream;
the addresses that are stored to are kept in a list.
-/

namespace Osm.Userland

open Osm.Core Osm.Lib

/-- The memory with the addresses stored to, the number of characters read and the output. -/
structure Console where
  mem    : Memory
  stores : List ℕ := []
  next   : ℕ := 0
  output : List UInt8 := []

namespace Console

/-- `s[i] = c`, for the address of the element. -/
def store (t : Console) (a : ℕ) (c : UInt8) : Console :=
  { t with mem := Function.update t.mem a c, stores := t.stores ++ [a] }

/-- `putc`. -/
def putc (t : Console) (c : UInt8) : Console := { t with output := t.output ++ [c] }

/-- `getc_raw`. -/
def getcRaw (input : ℕ → UInt8) (t : Console) : UInt8 × Console :=
  (input t.next, { t with next := t.next + 1 })

/-- `getc`. -/
def getc (input : ℕ → UInt8) (t : Console) : UInt8 × Console :=
  let (c, t) := t.getcRaw input
  (c, t.putc c)

end Console

/-- The conversion of a count to `ssize_t`. -/
def ssize (count : UInt32) : ℤ := toInt count.toNat

/-- A round of the loop of `gets`, with what follows the loop. -/
def getsRound (input : ℕ → UInt8) (s : ℕ) (size : UInt32) :
    UInt32 × Console → (UInt32 × Console) ⊕ (ℤ × Console)
  | (count, t) =>
    if count + 1 < size then
      let (c, t) := t.getc input
      .inl (count + 1, t.store (s + count.toNat) c)
    else .inr (ssize count, t.store (s + (count + 1).toNat) 0)

/-- `gets`, for the memory before the call. -/
def gets (fuel : ℕ) (input : ℕ → UInt8) (m : Memory) (s : ℕ) (size : UInt32) :
    Option (ℤ × Console) :=
  loop (getsRound input s size) fuel (0, { mem := m })

/-- A newline or a carriage return. -/
def IsLineEnd (c : UInt8) : Prop := c = '\r'.toUInt8 ∨ c = '\n'.toUInt8

instance : DecidablePred IsLineEnd := fun _ => inferInstanceAs (Decidable (_ ∨ _))

/-- A round of the loop of `readline`, with what follows the loop. -/
def readlineRound (input : ℕ → UInt8) (s : ℕ) (size : UInt32) :
    UInt32 × Console → (UInt32 × Console) ⊕ (ℤ × Console)
  | (count, t) =>
    let (c, t) := t.getcRaw input
    if IsLineEnd c then .inr (ssize count, (t.putc '\n'.toUInt8).store (s + count.toNat) 0)
    else if c = 127 then
      if 0 < count then .inl (count - 1, ((t.putc 8).putc ' '.toUInt8).putc 8) else .inl (count, t)
    else if count < size - 1 then .inl (count + 1, (t.store (s + count.toNat) c).putc c)
    else .inl (count, t)

/-- `readline`, for the memory before the call. -/
def readline (fuel : ℕ) (input : ℕ → UInt8) (m : Memory) (s : ℕ) (size : UInt32) :
    Option (ℤ × Console) :=
  loop (readlineRound input s size) fuel (0, { mem := m })

/-! ### What the two functions are for -/

/-- A character is typed into a line with room for some characters. -/
def edit (room : ℕ) (text : List UInt8) (c : UInt8) : List UInt8 :=
  if c = 127 then text.dropLast else if text.length < room then text ++ [c] else text

/-- The line after the first `n` characters of the input. -/
def editedLine (room : ℕ) (input : ℕ → UInt8) (n : ℕ) : List UInt8 :=
  ((List.range n).map input).foldl (edit room) []

/-- The first line of the input ends with the character `n`. -/
def EndsLine (input : ℕ → UInt8) (n : ℕ) : Prop :=
  IsLineEnd (input n) ∧ ∀ i < n, ¬ IsLineEnd (input i)

/-- A call stays inside of its buffer, and there is a NUL behind the characters that it counts. -/
structure InsideBuffer (s size : ℕ) (r : ℤ × Console) : Prop where
  stores     : ∀ a ∈ r.2.stores, s ≤ a ∧ a < s + size
  terminated : ∃ c : ℕ, r.1 = c ∧ c < size ∧ r.2.mem (s + c) = 0

/-- The buffer has the characters of the line, which are those that the call counts. -/
def HasLine (s : ℕ) (text : List UInt8) (r : ℤ × Console) : Prop :=
  r.1 = text.length ∧ ∀ i (h : i < text.length), r.2.mem (s + i) = text[i]

variable {input : ℕ → UInt8} {m : Memory} {s n fuel : ℕ} {size : UInt32} {r : ℤ × Console}

/-! ### `gets` -/

/-- `gets` reads one character less than it has room for, and then stores behind the buffer. -/
lemma gets_spec (hsize : 1 ≤ size.toNat) (hfuel : size.toNat ≤ fuel) :
    ∃ r, gets fuel input m s size = some r ∧ s + size.toNat ∈ r.2.stores := by
  refine loop_spec (fun j (p : UInt32 × Console) => j + p.1.toNat + 1 = size.toNat)
    (fun r : ℤ × Console => s + size.toNat ∈ r.2.stores) ?_ fuel (size.toNat - 1) _
    (by simp; omega) (by omega)
  rintro j ⟨count, t⟩ hcount
  have hnext : (count + 1).toNat = count.toNat + 1 := by
    have hlt := size.toNat_lt
    rw [UInt32.toNat_add, UInt32.toNat_one, Nat.mod_eq_of_lt (by dsimp only at hcount; omega)]
  dsimp only at hcount
  simp only [getsRound, UInt32.lt_iff_toNat_lt, hnext]
  split_ifs with hlt
  · exact ⟨j - 1, by omega, by dsimp only; omega⟩
  · have hend : count.toNat + 1 = size.toNat := by omega
    simp [RoundOk, Console.store, hend]

/-! ### `readline` -/

section

variable {room : ℕ}

lemma editedLine_succ :
    editedLine room input (n + 1) = edit room (editedLine room input n) (input n) := by
  simp [editedLine, List.range_succ]

lemma editedLine_delete (h : input n = 127) :
    editedLine room input (n + 1) = (editedLine room input n).dropLast := by
  rw [editedLine_succ, edit, if_pos h]

lemma editedLine_append (h : input n ≠ 127) (hroom : (editedLine room input n).length < room) :
    editedLine room input (n + 1) = editedLine room input n ++ [input n] := by
  rw [editedLine_succ, edit, if_neg h, if_pos hroom]

lemma editedLine_full (h : input n ≠ 127) (hroom : ¬ (editedLine room input n).length < room) :
    editedLine room input (n + 1) = editedLine room input n := by
  rw [editedLine_succ, edit, if_neg h, if_neg hroom]

end

/-- A line is in the buffer, without a terminator. -/
structure LineIn (s : ℕ) (size : UInt32) (text : List UInt8) (count : UInt32) (t : Console) :
    Prop where
  count      : count.toNat = text.length
  room       : text.length < size.toNat
  characters : ∀ i (h : i < text.length), t.mem (s + i) = text[i]
  stores     : ∀ a ∈ t.stores, s ≤ a ∧ a < s + size.toNat

namespace LineIn

variable {text : List UInt8} {count : UInt32} {t : Console} {c : UInt8}

lemma read (h : LineIn s size text count t) (input : ℕ → UInt8) :
    LineIn s size text count (t.getcRaw input).2 :=
  ⟨h.count, h.room, h.characters, h.stores⟩

/-- The last character is deleted. -/
lemma delete (h : LineIn s size text count t) (hpos : 0 < count) :
    LineIn s size text.dropLast (count - 1) (((t.putc 8).putc ' '.toUInt8).putc 8) where
  count      := by
    have hcount : 1 ≤ count := UInt32.le_iff_toNat_le.mpr (UInt32.lt_iff_toNat_lt.mp hpos)
    rw [UInt32.toNat_sub_of_le _ _ hcount, h.count, List.length_dropLast, UInt32.toNat_one]
  room       := by
    rw [List.length_dropLast]
    exact Nat.lt_of_le_of_lt (Nat.sub_le _ _) h.room
  characters := by
    intro i hi
    rw [List.length_dropLast] at hi
    rw [List.getElem_dropLast]
    exact h.characters i (Nat.lt_of_lt_of_le hi (Nat.sub_le _ _))
  stores     := h.stores

/-- A character is appended. -/
lemma append (h : LineIn s size text count t) (hroom : text.length + 1 < size.toNat) :
    LineIn s size (text ++ [c]) (count + 1) ((t.store (s + count.toNat) c).putc c) where
  count      := by
    have hlt := size.toNat_lt
    rw [UInt32.toNat_add, UInt32.toNat_one, h.count, Nat.mod_eq_of_lt (by omega),
      List.length_append, List.length_singleton]
  room       := by simpa using hroom
  characters := by
    intro i hi
    rw [List.length_append, List.length_singleton] at hi
    simp only [Console.store, Console.putc, h.count]
    rcases Nat.lt_succ_iff_lt_or_eq.mp hi with hlt | rfl
    · rw [Function.update_of_ne (by omega), List.getElem_append_left hlt, h.characters i hlt]
    · rw [Function.update_self, List.getElem_concat_length rfl]
  stores     := by
    have hroom' := h.room
    intro a ha
    rcases List.mem_append.mp ha with ha | ha
    · exact h.stores a ha
    · rw [List.mem_singleton.mp ha, h.count]
      omega

end LineIn

/-- The characters read so far have been edited in the buffer. -/
def Edited (input : ℕ → UInt8) (s : ℕ) (size : UInt32) (p : UInt32 × Console) : Prop :=
  (∀ i < p.2.next, ¬ IsLineEnd (input i)) ∧
    LineIn s size (editedLine (size.toNat - 1) input p.2.next) p.1 p.2

/-- A round of `readline` is an edit of the line. -/
lemma Edited.round {p p' : UInt32 × Console} (h : Edited input s size p)
    (hround : readlineRound input s size p = .inl p') : Edited input s size p' := by
  obtain ⟨count, t⟩ := p
  obtain ⟨hgoes, hline⟩ := h
  have hroom := hline.room
  have hsub : (size - 1).toNat = size.toNat - 1 := by
    rw [UInt32.toNat_sub_of_le _ _ (UInt32.le_iff_toNat_le.mpr (by simp; omega)), UInt32.toNat_one]
  have hcount := hline.count
  simp only [readlineRound] at hround
  split_ifs at hround with hend hdel hpos hlt
  all_goals
    obtain rfl := Sum.inl.inj hround
    refine ⟨Nat.forall_lt_succ_right.mpr ⟨hgoes, hend⟩, ?_⟩
    change LineIn s size (editedLine (size.toNat - 1) input (t.next + 1)) _ _
  · -- there is a character to delete
    rw [editedLine_delete hdel]
    exact (hline.read input).delete hpos
  · -- the line is empty
    have hnil : editedLine (size.toNat - 1) input t.next = [] := by
      rw [← List.length_eq_zero_iff, ← hcount]
      exact Nat.eq_zero_of_not_pos fun h => hpos (UInt32.lt_iff_toNat_lt.mpr h)
    have hread := hline.read input
    rw [editedLine_delete hdel, hnil, List.dropLast_nil]
    rwa [hnil] at hread
  · -- there is room for the character
    rw [UInt32.lt_iff_toNat_lt, hsub, hcount] at hlt
    rw [editedLine_append hdel hlt]
    exact (hline.read input).append (by omega)
  · -- the line is full
    rw [UInt32.lt_iff_toNat_lt, hsub, hcount] at hlt
    rw [editedLine_full hdel hlt]
    exact hline.read input

/-- The line with its terminator is in the buffer, and its length is converted to `ssize_t`. -/
structure LineRead (s size : ℕ) (text : List UInt8) (r : ℤ × Console) : Prop where
  count      : r.1 = toInt text.length
  room       : text.length < size
  characters : ∀ i (h : i < text.length), r.2.mem (s + i) = text[i]
  terminated : r.2.mem (s + text.length) = 0
  stores     : ∀ a ∈ r.2.stores, s ≤ a ∧ a < s + size

/-- The round that finds the end of the line. -/
lemma Edited.leave {p : UInt32 × Console} (h : Edited input s size p)
    (hround : readlineRound input s size p = .inr r) :
    ∃ n, EndsLine input n ∧ LineRead s size.toNat (editedLine (size.toNat - 1) input n) r := by
  obtain ⟨count, t⟩ := p
  obtain ⟨hgoes, hline⟩ := h
  have hcount := hline.count
  simp only [readlineRound] at hround
  split_ifs at hround with hend
  obtain rfl := Sum.inr.inj hround
  refine ⟨t.next, ⟨hend, hgoes⟩, by rw [ssize, hcount], hline.room, fun i hi => ?_, ?_,
    fun a ha => ?_⟩
  · simp only [Console.store, Console.putc, Console.getcRaw, hcount]
    rw [Function.update_of_ne (by omega), hline.characters i hi]
  · simp only [Console.store, hcount, Function.update_self]
  · have hroom := hline.room
    rcases List.mem_append.mp ha with ha | ha
    · exact hline.stores a ha
    · rw [List.mem_singleton.mp ha, hcount]
      omega

/-- What `readline` returns is the edited line. -/
lemma readline_spec (hsize : 1 ≤ size.toNat) (h : readline fuel input m s size = some r) :
    ∃ n, EndsLine input n ∧ LineRead s size.toNat (editedLine (size.toNat - 1) input n) r := by
  refine loop_partial (Edited input s size)
    (fun r => ∃ n, EndsLine input n ∧ LineRead s size.toNat (editedLine (size.toNat - 1) input n) r)
    (fun p p' hp hb => hp.round hb) (fun p r hp hb => hp.leave hb) fuel _ r ?_ h
  exact ⟨fun i hi => (Nat.not_lt_zero i hi).elim, rfl, hsize,
    fun i hi => (Nat.not_lt_zero i hi).elim, fun a ha => (List.not_mem_nil ha).elim⟩

/-- `readline` returns when there is a line in the input. -/
theorem readline_returns (hend : EndsLine input n) :
    ∃ r, readline (n + 1) input m s size = some r := by
  have h := @loop_spec _ _ (readlineRound input s size)
    (fun j (p : UInt32 × Console) => p.2.next + j = n) (fun _ => True) ?_ (n + 1) n
    (0, { mem := m }) (Nat.zero_add n) (Nat.lt_succ_self n)
  · obtain ⟨r, hr, -⟩ := h
    exact ⟨r, hr⟩
  · rintro j ⟨count, t⟩ hnext
    dsimp only at hnext
    simp only [readlineRound]
    split_ifs with hline hdel hpos hlt
    · trivial
    all_goals
      have hj : j ≠ 0 := by
        rintro rfl
        obtain rfl : t.next = n := hnext
        exact hline hend.1
      refine ⟨j - 1, by omega, ?_⟩
      change t.next + 1 + (j - 1) = n
      omega

lemma LineRead.insideBuffer_iff {text : List UInt8} (h : LineRead s size.toNat text r) :
    InsideBuffer s size.toNat r ∧ HasLine s text r ↔ text.length < 2 ^ 31 := by
  rw [← toInt_natCast_eq_iff, ← h.count]
  constructor
  · exact fun hread => hread.2.1
  · exact fun hlen => ⟨⟨h.stores, text.length, hlen, h.room, h.terminated⟩, hlen, h.characters⟩

/-- `gets` always stores behind its buffer. What `readline` returns is right as long as the length
of the line is in the range of `ssize_t`. -/
theorem lineInput (input : ℕ → UInt8) (m : Memory) (s : ℕ) (size : UInt32) (hsize : 1 ≤ size) :
    ((∃ fuel r, gets fuel input m s size = some r) ∧
      ∀ fuel r, gets fuel input m s size = some r → ¬ InsideBuffer s size.toNat r) ∧
    ∀ fuel r, readline fuel input m s size = some r →
      ∃ n, EndsLine input n ∧
        (InsideBuffer s size.toNat r ∧ HasLine s (editedLine (size.toNat - 1) input n) r ↔
          (editedLine (size.toNat - 1) input n).length < 2 ^ 31) := by
  have hpos : 1 ≤ size.toNat := UInt32.le_iff_toNat_le.mp hsize
  obtain ⟨r, hr, hstore⟩ := @gets_spec input m s size.toNat size hpos le_rfl
  refine ⟨⟨⟨_, r, hr⟩, fun fuel r' hr' hin => ?_⟩, fun fuel r hr => ?_⟩
  · obtain rfl := loop_unique hr hr'
    have hlt := (hin.stores _ hstore).2
    omega
  · obtain ⟨n, hn, hline⟩ := readline_spec hpos hr
    exact ⟨n, hn, hline.insideBuffer_iff⟩

/-- `a`, `b`, a delete and `c` are typed, and a carriage return. -/
def typed (i : ℕ) : UInt8 := [97, 98, 127, 99, 13].getD i 10

lemma EndsLine.eq_four (h : EndsLine typed n) : n = 4 := by
  obtain ⟨hend, hbefore⟩ := h
  have hle : n ≤ 4 := by
    by_contra hlt
    exact hbefore 4 (by omega) (by decide)
  interval_cases n
  · exact absurd hend (by decide)
  · exact absurd hend (by decide)
  · exact absurd hend (by decide)
  · exact absurd hend (by decide)
  · rfl

theorem lineInput_typed :
    ((∃ fuel r, gets fuel typed (fun _ => 0) 100 4 = some r) ∧
      ∀ fuel r, gets fuel typed (fun _ => 0) 100 4 = some r → ¬ InsideBuffer 100 4 r) ∧
    ∃ r, readline 5 typed (fun _ => 0) 100 4 = some r ∧ InsideBuffer 100 4 r ∧
      HasLine 100 [97, 99] r := by
  obtain ⟨hgets, hreadline⟩ := lineInput typed (fun _ => 0) 100 4 (by decide)
  obtain ⟨r, hr⟩ : ∃ r, readline 5 typed (fun _ => 0) 100 4 = some r := ⟨_, rfl⟩
  obtain ⟨n, hn, hiff⟩ := hreadline 5 r hr
  obtain rfl := hn.eq_four
  exact ⟨hgets, r, hr, hiff.mpr (by decide)⟩

/-- The terminator of three characters is stored behind a buffer of four bytes. -/
theorem gets_outside :
    ∃ r, gets 5 (fun _ => 97) (fun _ => 0) 100 4 = some r ∧ ¬ InsideBuffer 100 4 r :=
  ⟨_, rfl, fun h => absurd (h.stores 104 (by decide)).2 (by decide)⟩

end Osm.Userland
