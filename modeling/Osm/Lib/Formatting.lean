import Osm.Lib.Xprintf
import Mathlib.Data.List.TakeWhile

/-!
# The pieces of formatted output

Each character of a format and each conversion gives a piece of the output. The first characters
of a piece, the sign of a number or a single character, are output without a look at the room that
is left; what follows them is cut off at the end of the room.
-/

namespace Osm.Lib

open Osm.Core

/-- The characters that are modifiers of a conversion. -/
def IsModifier (c : UInt8) : Prop :=
  c ∈ ['#', '0', ' ', '+', '-', '.'].map Char.toUInt8 ∨ '1'.toUInt8 ≤ c ∧ c ≤ '9'.toUInt8

instance : DecidablePred IsModifier := fun _ => inferInstanceAs (Decidable (_ ∨ _))

/-- There is a `9` among the modifiers at the beginning of a text. -/
def HasNine (fmt : List UInt8) : Prop := '9'.toUInt8 ∈ fmt.takeWhile (IsModifier ·)

instance (fmt : List UInt8) : Decidable (HasNine fmt) := inferInstanceAs (Decidable (_ ∈ _))

/-- A piece of the output: the number of characters before it, the characters that are output in
any case, the characters of a string and the digits of a number, of which as many are output as there
is room for, and the number of the arguments that it takes. An endless piece stands for a conversion
at which the program does not get any further. -/
structure Piece where
  start   : ℤ
  signs   : List UInt8 := []
  body    : List UInt8 := []
  digits  : List UInt8 := []
  taken   : ℕ := 0
  endless : Bool := false

namespace Piece

/-- The complete text of a piece. -/
def text (p : Piece) : List UInt8 := p.signs ++ p.body ++ p.digits

/-- What is output when there is room up to the given position. The room for digits is computed in
`int`. -/
def shown (size : ℤ) (p : Piece) : List UInt8 :=
  p.signs ++ p.body.take (size - (p.start + p.signs.length)).toNat ++
    p.digits.take (toInt (size - (p.start + p.signs.length + p.body.length))).toNat

end Piece

/-- The signs in front of a number. -/
def signChars (mods : Mods) (arg : ℤ) : List UInt8 :=
  (if arg < 0 then ['-'.toUInt8] else []) ++
    if mods.flags.sign then ['+'.toUInt8] else if mods.flags.space then [' '.toUInt8] else []

/-- The piece of a signed number. -/
def signedPiece (start : ℤ) (mods : Mods) (arg : ℤ) : Piece :=
  let value := if arg < 0 then toInt (-arg) else arg
  let digits := uintText mods.flags.smalls (UInt32.ofNat (value % 2 ^ 32).toNat) 10 0 0
  { start, signs := signChars mods arg, digits, taken := 1 }

/-- The piece of an unsigned number. -/
def unsignedPiece (start : ℤ) (base : ℕ) (mods : Mods) (uarg : UInt32) : Piece :=
  let digits := uintText mods.flags.smalls uarg base (mods.zeroPrec mods.width) mods.width
  { start, digits, taken := 1 }

/-- The piece of a hexadecimal number. -/
def hexPiece (start : ℤ) (mods : Mods) (uarg : UInt32) : Piece :=
  if mods.flags.alt then
    let width := toInt (mods.width - 2)
    let digits := uintText mods.flags.smalls uarg 16 (mods.zeroPrec width) width
    { start, signs := ['0'.toUInt8], body := ['x'.toUInt8], digits, taken := 1 }
  else
    let digits := uintText mods.flags.smalls uarg 16 (mods.zeroPrec mods.width) mods.width
    { start, digits, taken := 1 }

/-- The piece of a string: its characters up to the precision, the end of which is computed in
`int`. -/
def stringPiece (start : ℤ) (mods : Mods) (str : List UInt8) : Piece :=
  let str := str.takeWhile (· ≠ 0)
  let body :=
    if mods.prec ≠ -1 then str.take (toInt (start + mods.prec) - start).toNat else str
  { start, body, taken := 1 }

/-- The piece of a conversion. -/
def convertPiece (start : ℤ) (ch : UInt8) (mods : Mods) (arg : VaArg) : Piece :=
  if ch = 'i'.toUInt8 ∨ ch = 'd'.toUInt8 then signedPiece start mods (toInt arg.word.toNat)
  else if ch = 'o'.toUInt8 then unsignedPiece start 8 mods arg.word
  else if ch = 'u'.toUInt8 then unsignedPiece start 10 mods arg.word
  else if ch = 'p'.toUInt8 then
    hexPiece start { mods with flags.alt := true, flags.smalls := true } arg.word
  else if ch = 'x'.toUInt8 then hexPiece start { mods with flags.smalls := true } arg.word
  else if ch = 'X'.toUInt8 then hexPiece start mods arg.word
  else if ch = 'c'.toUInt8 then { start, signs := [arg.word.toUInt8], taken := 1 }
  else if ch = 's'.toUInt8 then stringPiece start mods arg.string
  else { start, signs := [ch] }

/-- The piece of the conversion at the beginning of a format behind its `%`, with the rest of the
format. -/
def conversionPiece (args : ℕ → VaArg) (ap : ℕ) (start : ℤ) (fmt : List UInt8) :
    Option (Piece × List UInt8) :=
  if fmt.headD 0 = 0 then none
  else if HasNine fmt then some ({ start, endless := true }, [])
  else
    match loop modifierRound fmt.length (fmt.headD 0, {}, fmt.tail) with
    | none                 => none
    | some (ch, mods, fmt) =>
      if ch = 0 then none else some (convertPiece start ch mods (args ap), fmt)

/-- The piece at the beginning of a format, with the rest of the format. -/
def nextPiece (args : ℕ → VaArg) (ap : ℕ) (start : ℤ) :
    List UInt8 → Option (Piece × List UInt8)
  | []        => none
  | ch :: fmt =>
    if ch = 0 then none
    else if ch ≠ '%'.toUInt8 then some ({ start, signs := [ch] }, fmt)
    else conversionPiece args ap start fmt

/-- The pieces of a format, at most as many as a bound says. -/
def piecesFrom (args : ℕ → VaArg) : ℕ → List UInt8 → ℕ → ℤ → List Piece
  | 0, _, _, _            => []
  | bound + 1, fmt, ap, start =>
    match nextPiece args ap start fmt with
    | none          => []
    | some (p, fmt) =>
      p :: if p.endless then []
        else piecesFrom args bound fmt (ap + p.taken) (start + p.text.length)

/-- The pieces of a format; each has at least one of its characters. -/
def pieces (fmt : List UInt8) (args : ℕ → VaArg) : List Piece :=
  piecesFrom args fmt.length fmt 0 0

/-- The output when there is room for all of it. -/
def fullOutput (fmt : List UInt8) (args : ℕ → VaArg) : List UInt8 :=
  (pieces fmt args).flatMap Piece.text

/-! ### Output of several characters -/

/-- Output a text, which is counted. -/
def Printer.puts (tty : Bool) (text : List UInt8) (s : Printer) : Printer :=
  text.foldl (Printer.put tty) s

namespace Printer

variable {s : Printer} {tty : Bool} {text : List UInt8} {c : UInt8}

@[simp]
lemma puts_nil : s.puts tty [] = s := rfl

@[simp]
lemma puts_cons : s.puts tty (c :: text) = (s.put tty c).puts tty text := rfl

lemma puts_append {text' : List UInt8} :
    s.puts tty (text ++ text') = (s.puts tty text).puts tty text' :=
  List.foldl_append

/-- What `puts` changes. -/
lemma puts_eq : s.puts tty text = { s with
    out := text.foldl (Out.put tty) s.out, written := s.written + Int32.ofNat text.length } := by
  induction text generalizing s with
  | nil => simp
  | cons c text ih =>
    have hlength : Int32.ofNat (c :: text).length = 1 + Int32.ofNat text.length := by
      rw [List.length_cons, Nat.add_comm, Int32.ofNat_add]
      rfl
    rw [puts_cons, ih, hlength, ← Int32.add_assoc]
    rfl

@[simp]
lemma puts_written :
    (s.puts tty text).written.toInt = toInt (s.written.toInt + text.length) := by
  rw [puts_eq, Int32.toInt_add, Int32.toInt_ofNat']
  exact Int.add_bmod_bmod

@[simp]
lemma puts_fmt : (s.puts tty text).fmt = s.fmt := by
  rw [puts_eq]

@[simp]
lemma puts_ap : (s.puts tty text).ap = s.ap := by
  rw [puts_eq]

@[simp]
lemma puts_out : (s.puts tty text).out = text.foldl (Out.put tty) s.out := by
  rw [puts_eq]

lemma put_written : (s.put tty c).written.toInt = toInt (s.written.toInt + 1) := by
  rw [put, Int32.toInt_add]
  rfl

/-- A character that there is room for is counted without a wrap. -/
lemma put_written_of_lt {size : ℤ} (hsize : size < 2 ^ 31) (hroom : s.written.toInt < size) :
    (s.put tty c).written.toInt = s.written.toInt + 1 := by
  have hlow := s.written.le_toInt
  rw [put_written, toInt_of_range (by omega) (by omega)]

/-- Of a number, as much is output as there is room for. -/
lemma printUint_eq {size : ℤ} {n : UInt32} {base : ℕ} {flags : Flags} {prec width : ℤ} :
    s.printUint size n base flags tty prec width = s.puts tty
      ((uintText flags.smalls n base prec width).take (toInt (size - s.written.toInt)).toNat) := by
  rw [puts_eq, printUint, Lib.printUint]
  split_ifs with hsize
  · rw [Int.toNat_of_nonpos hsize]
    simp
  · simp only [Int32.ofInt_eq_ofNat]

/-- Of a string, the characters before the terminating zero are output until the end is reached. -/
lemma printString_eq {w : ℤ} (hw : w < 2 ^ 31) : s.printString tty w text =
    s.puts tty ((text.takeWhile (· ≠ 0)).take (w - s.written.toInt).toNat) := by
  induction text generalizing s with
  | nil => simp [printString]
  | cons c text ih =>
    rw [printString]
    split_ifs with hroom
    · obtain ⟨hlt, hc⟩ := hroom
      have hsucc : (w - s.written.toInt).toNat = (w - (s.put tty c).written.toInt).toNat + 1 := by
        rw [put_written_of_lt hw hlt]
        omega
      rw [ih, List.takeWhile_cons_of_pos (by simpa using hc), hsucc, List.take_succ_cons, puts_cons]
    · rw [not_and_or, not_lt, not_not] at hroom
      rcases hroom with hroom | rfl
      · rw [Int.toNat_of_nonpos (by omega), List.take_zero, puts_nil]
      · simp

end Printer
/-! ### Output of a piece -/

section Convert

variable {size : ℤ} {tty : Bool} {s : Printer} {mods : Mods} {args : ℕ → VaArg} {ch : UInt8}

/-- The digits of a piece are output last. -/
lemma shown_eq {p : Piece} (hstart : p.start = s.written.toInt) : s.puts tty (p.shown size) =
    (s.puts tty (p.signs ++ p.body.take (size - (p.start + p.signs.length)).toNat)).puts tty
      (p.digits.take (toInt (size - (s.puts tty (p.signs ++ p.body)).written.toInt)).toNat) := by
  rw [Piece.shown, Printer.puts_append, Printer.puts_written, toInt_sub_toInt, hstart,
    List.length_append, Nat.cast_add, Int.add_assoc]

lemma shown_eq_of_nil {p : Piece} (hstart : p.start = s.written.toInt) (hbody : p.body = []) :
    s.puts tty (p.shown size) = (s.puts tty p.signs).puts tty
      (p.digits.take (toInt (size - (s.puts tty p.signs).written.toInt)).toNat) := by
  rw [shown_eq hstart, hbody, List.take_nil, List.append_nil]

lemma shown_of_nil {p : Piece} (hbody : p.body = []) (hdigits : p.digits = []) :
    p.shown size = p.signs := by
  rw [Piece.shown, hbody, hdigits, List.take_nil, List.take_nil, List.append_nil, List.append_nil]

lemma printSigned_eq {arg : ℤ} : printSigned size tty mods arg s =
    s.puts tty ((signedPiece s.written.toInt mods arg).shown size) := by
  rw [shown_eq_of_nil rfl rfl, printSigned, signedPiece, signChars]
  by_cases hneg : arg < 0
  · simp only [hneg, if_true, Printer.printUint_eq]
    split_ifs with hsign hspace <;> rfl
  · simp only [hneg, if_false, Printer.printUint_eq]
    split_ifs with hsign hspace <;> rfl

lemma printUnsigned_eq {base : ℕ} {uarg : UInt32} : printUnsigned size tty mods base uarg s =
    s.puts tty ((unsignedPiece s.written.toInt base mods uarg).shown size) := by
  rw [shown_eq_of_nil rfl rfl]
  exact Printer.printUint_eq

/-- The `x` behind the first digit is output when there is room for it. -/
lemma take_x (hsize : size < 2 ^ 31) (hroom : s.written.toInt < size) :
    ['x'.toUInt8].take (size - (s.written.toInt + 1)).toNat =
      if (s.put tty '0'.toUInt8).written.toInt < size then ['x'.toUInt8] else [] := by
  rw [← @Printer.put_written_of_lt s tty '0'.toUInt8 size hsize hroom]
  split_ifs with hx
  · rw [List.take_of_length_le]
    rw [List.length_singleton]
    omega
  · rw [Int.toNat_of_nonpos (by omega), List.take_zero]

lemma printHex_eq (hsize : size < 2 ^ 31) (hroom : s.written.toInt < size) {uarg : UInt32} :
    printHex size tty mods uarg s =
      s.puts tty ((hexPiece s.written.toInt mods uarg).shown size) := by
  rw [printHex, hexPiece]
  split_ifs with halt
  · have hlow := s.written.le_toInt
    have hput := @Printer.put_written_of_lt s tty '0'.toUInt8 size hsize hroom
    rw [shown_eq rfl]
    simp only [Printer.printUint_eq, List.length_singleton, Nat.cast_one,
      @take_x size tty s hsize hroom]
    split_ifs with hx
    · rfl
    · -- there is no room for the digits either
      have hdigits : (toInt (size - (s.put tty '0'.toUInt8).written.toInt)).toNat = 0 := by
        rw [hput, toInt_of_range (by omega) (by omega)]
        omega
      have hboth : (toInt (size - (s.puts tty (['0'.toUInt8] ++ ['x'.toUInt8])).written.toInt)).toNat
          = 0 := by
        rw [Printer.puts_written, toInt_sub_toInt, List.length_append, List.length_singleton,
          List.length_singleton, toInt_of_range (by omega) (by omega)]
        omega
      rw [hdigits, hboth]
      rfl
  · rw [shown_eq_of_nil rfl rfl]
    exact Printer.printUint_eq

lemma printStr_eq (hsize : size < 2 ^ 31) {str : List UInt8} : printStr size tty mods str s =
    s.puts tty ((stringPiece s.written.toInt mods str).shown size) := by
  have hshown : (stringPiece s.written.toInt mods str).shown size =
      (stringPiece s.written.toInt mods str).body.take (size - s.written.toInt).toNat := by
    simp [Piece.shown, stringPiece]
  have hw := (toInt_range (s.written.toInt + mods.prec)).2
  rw [hshown, stringPiece, printStr, Printer.printString_eq (by split_ifs <;> omega)]
  by_cases hprec : mods.prec = -1
  · simp [hprec]
  · rw [if_pos hprec, List.take_take]
    congr 2
    split_ifs with hw
    · omega
    · omega

/-- Output a piece, as far as there is room. -/
def Printer.output (size : ℤ) (tty : Bool) (s : Printer) (p : Piece) : Printer :=
  { s.puts tty (p.shown size) with ap := s.ap + p.taken }

lemma Printer.output_setFmt {p : Piece} {fmt : List UInt8} :
    ({ s with fmt } : Printer).output size tty p = { s.output size tty p with fmt } := by
  rw [Printer.output, Printer.output, Printer.puts_eq, Printer.puts_eq]

@[simp]
lemma Printer.output_written {p : Piece} : (s.output size tty p).written.toInt =
    toInt (s.written.toInt + (p.shown size).length) := Printer.puts_written

@[simp]
lemma Printer.output_ap {p : Piece} : (s.output size tty p).ap = s.ap + p.taken := rfl

@[simp]
lemma Printer.output_out {p : Piece} :
    (s.output size tty p).out = (p.shown size).foldl (Out.put tty) s.out := Printer.puts_out

lemma output_of_taken {p : Piece} (h : p.taken = 1) :
    ({ s with ap := s.ap + 1 } : Printer).puts tty (p.shown size) = s.output size tty p := by
  rw [Printer.output, Printer.puts_eq, Printer.puts_eq, h]

lemma hexPiece_taken {start : ℤ} {uarg : UInt32} : (hexPiece start mods uarg).taken = 1 := by
  rw [hexPiece]
  split_ifs with halt
  · rfl
  · rfl

lemma convert_eq (hsize : size < 2 ^ 31) (hroom : s.written.toInt < size) :
    convert size args tty ch mods s =
      s.output size tty (convertPiece s.written.toInt ch mods (args s.ap)) := by
  have hnext : ({ s with ap := s.ap + 1 } : Printer).written.toInt < size := hroom
  unfold convert convertPiece
  split_ifs with hd ho hu hp hx hX hc hs
  · exact printSigned_eq.trans (output_of_taken rfl)
  · exact printUnsigned_eq.trans (output_of_taken rfl)
  · exact printUnsigned_eq.trans (output_of_taken rfl)
  · exact (printHex_eq hsize hnext).trans (output_of_taken hexPiece_taken)
  · exact (printHex_eq hsize hnext).trans (output_of_taken hexPiece_taken)
  · exact (printHex_eq hsize hnext).trans (output_of_taken hexPiece_taken)
  · rw [← output_of_taken rfl, shown_of_nil rfl rfl]
    rfl
  · exact (printStr_eq hsize).trans (output_of_taken rfl)
  · rw [Printer.output, shown_of_nil rfl rfl]
    rfl

end Convert

/-! ### Modifiers -/

section Modifiers

variable {ch : UInt8} {mods : Mods} {fmt : List UInt8}

lemma scanInt_snd (value : ℤ) : (scanInt value fmt).2 = fmt.dropWhile (IsScanned ·) := by
  induction fmt generalizing value with
  | nil => rfl
  | cons c s ih =>
    rw [scanInt]
    split_ifs with hc
    · rw [ih, List.dropWhile_cons_of_pos (by simpa using hc)]
    · rw [List.dropWhile_cons_of_neg (by simpa using hc)]

/-- The digits that `scan_int` takes are those of a width, except for the last one. -/
lemma isScanned_iff :
    IsScanned ch ↔ ('1'.toUInt8 ≤ ch ∧ ch ≤ '9'.toUInt8) ∧ ch ≠ '9'.toUInt8 := by
  rw [IsScanned, UInt8.lt_iff_toNat_lt, UInt8.lt_iff_toNat_lt, UInt8.le_iff_toNat_le,
    UInt8.le_iff_toNat_le, Ne, ← UInt8.toNat_inj]
  change 48 < ch.toNat ∧ ch.toNat < 57 ↔ (49 ≤ ch.toNat ∧ ch.toNat ≤ 57) ∧ ¬ ch.toNat = 57
  omega

lemma hasNine_cons (hch : IsModifier ch) (hne : ch ≠ '9'.toUInt8) :
    HasNine (ch :: fmt) ↔ HasNine fmt := by
  rw [HasNine, List.takeWhile_cons_of_pos (by simpa using hch), List.mem_cons]
  exact or_iff_right hne.symm

lemma hasNine_dropWhile : HasNine (fmt.dropWhile (IsScanned ·)) ↔ HasNine fmt := by
  induction fmt with
  | nil => rfl
  | cons c s ih =>
    by_cases hc : IsScanned c
    · obtain ⟨hdigit, hne⟩ := isScanned_iff.mp hc
      rw [List.dropWhile_cons_of_pos (by simpa using hc), ih, hasNine_cons (.inr hdigit) hne]
    · rw [List.dropWhile_cons_of_neg (by simpa using hc)]

lemma HasNine.isModifier (h : HasNine (ch :: fmt)) : IsModifier ch := by
  by_contra hch
  rw [HasNine, List.takeWhile_cons_of_neg (by simpa using hch)] at h
  cases h

lemma modifier_eq_none_iff : modifier ch mods fmt = none ↔ ¬ IsModifier ch := by
  unfold modifier IsModifier
  split_ifs <;> simp_all

/-- The format behind a modifier. -/
lemma modifier_rest {mods' : Mods} {fmt' : List UInt8}
    (h : modifier ch mods fmt = some (mods', fmt')) :
    ch ≠ '9'.toUInt8 ∧ (fmt' = fmt ∨ fmt' = fmt.dropWhile (IsScanned ·)) ∨
      ('1'.toUInt8 ≤ ch ∧ ch ≤ '9'.toUInt8) ∧ fmt' = (ch :: fmt).dropWhile (IsScanned ·) := by
  unfold modifier at h
  split_ifs at h with h1 h2 h3 h4 h5 h6 hdigit
  -- The flags, the precision and the width.
  · exact .inl ⟨by rw [h1]; decide, .inl (Prod.ext_iff.mp (Option.some.inj h)).2.symm⟩
  · exact .inl ⟨by rw [h2]; decide, .inl (Prod.ext_iff.mp (Option.some.inj h)).2.symm⟩
  · exact .inl ⟨by rw [h3]; decide, .inl (Prod.ext_iff.mp (Option.some.inj h)).2.symm⟩
  · exact .inl ⟨by rw [h4]; decide, .inl (Prod.ext_iff.mp (Option.some.inj h)).2.symm⟩
  · exact .inl ⟨by rw [h5]; decide, .inl (Prod.ext_iff.mp (Option.some.inj h)).2.symm⟩
  · refine .inl ⟨by rw [h6]; decide, .inr ?_⟩
    exact (Prod.ext_iff.mp (Option.some.inj h)).2.symm.trans (scanInt_snd 0)
  · refine .inr ⟨hdigit, ?_⟩
    have hrest : (scanInt 0 (ch :: fmt)).2 = fmt' := (Prod.ext_iff.mp (Option.some.inj h)).2
    rw [← hrest, scanInt_snd]

/-- Of a modifier something is taken away unless it is a `9`, and never a `9`. -/
lemma modifier_eq_some {mods' : Mods} {fmt' : List UInt8}
    (h : modifier ch mods fmt = some (mods', fmt')) :
    (HasNine (ch :: fmt) ↔ HasNine fmt') ∧ (ch ≠ '9'.toUInt8 → fmt' <:+ fmt) := by
  have hch : IsModifier ch := by
    by_contra hch
    rw [modifier_eq_none_iff.mpr hch] at h
    cases h
  rcases modifier_rest h with ⟨hne, rfl | rfl⟩ | ⟨hdigit, rfl⟩
  · exact ⟨hasNine_cons hch hne, fun _ => List.suffix_rfl⟩
  · exact ⟨(hasNine_cons hch hne).trans hasNine_dropWhile.symm, fun _ => List.dropWhile_suffix _⟩
  · refine ⟨hasNine_dropWhile.symm, fun hne => ?_⟩
    rw [List.dropWhile_cons_of_pos (by simpa using isScanned_iff.mpr ⟨hdigit, hne⟩)]
    exact List.dropWhile_suffix _

/-- With a `9` among the modifiers, the loop over them does not end. -/
lemma loop_modifierRound_of_hasNine (h : HasNine (ch :: fmt)) (fuel : ℕ) :
    loop modifierRound fuel (ch, mods, fmt) = none := by
  refine loop_none (fun s => HasNine (s.1 :: s.2.2)) ?_ fuel (ch, mods, fmt) h
  rintro ⟨ch, mods, fmt⟩ (h : HasNine (ch :: fmt))
  cases hmod : modifier ch mods fmt with
  | none => exact absurd h.isModifier (modifier_eq_none_iff.mp hmod)
  | some r =>
    obtain ⟨mods', fmt'⟩ := r
    have hnine := (modifier_eq_some hmod).1.mp h
    cases fmt' with
    | nil => cases hnine
    | cons c rest =>
      have hc : c ≠ 0 := by
        rintro rfl
        exact absurd hnine.isModifier (by decide)
      refine ⟨(c, mods', rest), ?_, hnine⟩
      rw [modifierRound, hmod]
      exact if_pos hc

/-- Otherwise it ends after at most as many rounds as there are characters, somewhere behind the
modifiers. -/
lemma loop_modifierRound_of_not {fuel : ℕ} (h : ¬ HasNine (ch :: fmt)) (hfuel : fmt.length < fuel) :
    ∃ ch' mods' fmt', loop modifierRound fuel (ch, mods, fmt) = some (ch', mods', fmt') ∧
      fmt' <:+ fmt := by
  induction fuel generalizing ch mods fmt with
  | zero => omega
  | succ fuel ih =>
    cases hmod : modifier ch mods fmt with
    | none =>
      have hround : modifierRound (ch, mods, fmt) = .inr (ch, mods, fmt) := by
        rw [modifierRound, hmod]
      exact ⟨ch, mods, fmt, loop_inr hround fuel, List.suffix_rfl⟩
    | some r =>
      obtain ⟨mods', fmt'⟩ := r
      have hnine := mt (modifier_eq_some hmod).1.mpr h
      have hne : ch ≠ '9'.toUInt8 := by
        rintro rfl
        rw [HasNine, List.takeWhile_cons_of_pos (by decide)] at h
        exact h List.mem_cons_self
      have hsuffix := (modifier_eq_some hmod).2 hne
      cases fmt' with
      | nil => 
        have hround : modifierRound (ch, mods, fmt) = .inr (0, mods', []) := by
          rw [modifierRound, hmod]
          rfl
        exact ⟨0, mods', [], loop_inr hround fuel, hsuffix⟩
      | cons c rest =>
        have hrest : rest <:+ fmt := (List.suffix_cons c rest).trans hsuffix
        by_cases hc : c = 0
        · have hround : modifierRound (ch, mods, fmt) = .inr (c, mods', rest) := by
            rw [modifierRound, hmod]
            exact if_neg (not_not.mpr hc)
          exact ⟨c, mods', rest, loop_inr hround fuel, hrest⟩
        · have hround : modifierRound (ch, mods, fmt) = .inl (c, mods', rest) := by
            rw [modifierRound, hmod]
            exact if_pos hc
          have hlt := hsuffix.length_le
          rw [List.length_cons] at hlt
          obtain ⟨ch', mods', fmt', hloop, hfmt⟩ := @ih c mods' rest hnine (by omega)
          exact ⟨ch', mods', fmt', (loop_inl hround fuel).trans hloop, hfmt.trans hrest⟩

end Modifiers

/-! ### Rounds -/

section Rounds

variable {size : ℤ} {tty : Bool} {s : Printer} {args : ℕ → VaArg} {ap : ℕ} {start : ℤ}
  {fmt rest : List UInt8} {p : Piece}

/-- What a round does with the next piece; at the end of the format nothing is output. -/
def outputNext (size : ℤ) (tty : Bool) (s : Printer) (next : Option (Piece × List UInt8))
    (result : Printer ⊕ Option Printer) : Prop :=
  match next with
  | none          => ∃ fmt, result = .inr (some { s with fmt })
  | some (p, fmt) =>
    result = if p.endless then .inr none else .inl { s.output size tty p with fmt }

lemma outputNext_setFmt {next : Option (Piece × List UInt8)} {result : Printer ⊕ Option Printer}
    (h : outputNext size tty { s with fmt } next result) : outputNext size tty s next result := by
  cases next with
  | none => exact h
  | some r =>
    rw [outputNext, Printer.output_setFmt] at h
    exact h

lemma printRound_of_le (hfull : size ≤ s.written.toInt) (fuel : ℕ) :
    printRound fuel size args tty s = .inr (some s) := if_neg (not_lt.mpr hfull)

lemma hexPiece_endless {uarg : UInt32} {mods : Mods} :
    (hexPiece start mods uarg).endless = false := by
  rw [hexPiece]
  split_ifs with halt
  · rfl
  · rfl

lemma convertPiece_endless {ch : UInt8} {mods : Mods} {arg : VaArg} :
    (convertPiece start ch mods arg).endless = false := by
  unfold convertPiece
  split_ifs with hd ho hu hp hx hX hc hs
  · rfl
  · rfl
  · rfl
  · exact hexPiece_endless
  · exact hexPiece_endless
  · exact hexPiece_endless
  · rfl
  · rfl
  · rfl

/-- A conversion outputs its piece, if the fuel is enough for the modifiers. -/
lemma conversionRound_eq (hsize : size < 2 ^ 31) (hroom : s.written.toInt < size) (fuel : ℕ) :
    outputNext size tty s (conversionPiece args s.ap s.written.toInt s.fmt)
      (conversionRound fuel size args tty s) ∨
    conversionRound fuel size args tty s = .inr none ∧ fuel < s.fmt.length := by
  rw [conversionRound, conversionPiece]
  by_cases hend : s.fmt.headD 0 = 0
  · rw [if_pos hend, if_pos hend]
    exact .inl ⟨s.fmt, rfl⟩
  rw [if_neg hend, if_neg hend]
  obtain ⟨ch, fmt, hfmt⟩ : ∃ ch fmt, s.fmt = ch :: fmt := by
    cases h : s.fmt with
    | nil => exact absurd (by rw [h]; rfl) hend
    | cons ch fmt => exact ⟨ch, fmt, rfl⟩
  rw [hfmt, List.headD_cons, List.tail_cons]
  by_cases hnine : HasNine (ch :: fmt)
  · left
    rw [if_pos hnine, loop_modifierRound_of_hasNine hnine]
    rfl
  obtain ⟨ch', mods', fmt', hloop, -⟩ :=
    @loop_modifierRound_of_not ch {} fmt (fmt.length + 1) hnine (by omega)
  rw [if_neg hnine, List.length_cons, hloop]
  cases hfuel : loop modifierRound fuel (ch, {}, fmt) with
  | none =>
    refine .inr ⟨rfl, ?_⟩
    by_contra hle
    cases (loop_mono (not_lt.mp hle) hloop).symm.trans hfuel
  | some r =>
    left
    obtain rfl := loop_unique hloop hfuel
    by_cases hch : ch' = 0
    · simp only [hch, if_true]
      exact ⟨s.fmt, rfl⟩
    · simp only [hch, if_false]
      have hconvert := @convert_eq size tty { s with fmt := fmt' } mods' args ch' hsize hroom
      rw [outputNext, hconvert, convertPiece_endless, Printer.output_setFmt]
      rfl

/-- A round outputs the next piece, if the fuel is enough for the modifiers. -/
lemma printRound_eq (hsize : size < 2 ^ 31) (hroom : s.written.toInt < size) (fuel : ℕ) :
    outputNext size tty s (nextPiece args s.ap s.written.toInt s.fmt)
      (printRound fuel size args tty s) ∨
    printRound fuel size args tty s = .inr none ∧ fuel < s.fmt.length := by
  rw [printRound, if_pos hroom]
  cases hfmt : s.fmt with
  | nil => exact .inl ⟨s.fmt, rfl⟩
  | cons ch fmt =>
    rw [nextPiece, List.headD_cons, List.tail_cons]
    by_cases hch : ch = 0
    · rw [if_pos hch, if_pos hch]
      exact .inl ⟨s.fmt, rfl⟩
    rw [if_neg hch, if_neg hch]
    by_cases hpercent : ch = '%'.toUInt8
    · rw [if_neg (not_not.mpr hpercent), if_neg (not_not.mpr hpercent)]
      have hround := @conversionRound_eq size tty { s with fmt } args hsize hroom fuel
      rcases hround with hround | ⟨hround, hlt⟩
      · exact .inl (outputNext_setFmt hround)
      · exact .inr ⟨hround, hlt.trans (Nat.lt_succ_self _)⟩
    · rw [if_pos hpercent, if_pos hpercent]
      left
      rw [outputNext, Printer.output, shown_of_nil rfl rfl]
      rfl

/-- The cases in which a round goes on. -/
lemma printRound_eq_inl (hsize : size < 2 ^ 31) {fuel : ℕ} {s' : Printer}
    (h : printRound fuel size args tty s = .inl s') :
    s.written.toInt < size ∧ ∃ p fmt, nextPiece args s.ap s.written.toInt s.fmt = some (p, fmt) ∧
      p.endless = false ∧ s' = { s.output size tty p with fmt } := by
  have hroom : s.written.toInt < size := by
    by_contra hfull
    cases h.symm.trans (printRound_of_le (not_lt.mp hfull) fuel)
  refine ⟨hroom, ?_⟩
  rcases @printRound_eq size tty s args hsize hroom fuel with hround | ⟨hround, -⟩
  · rw [h] at hround
    cases hnext : nextPiece args s.ap s.written.toInt s.fmt with
    | none =>
      rw [hnext] at hround
      obtain ⟨fmt, hround⟩ := hround
      cases hround
    | some r =>
      obtain ⟨p, fmt⟩ := r
      rw [hnext, outputNext] at hround
      cases hendless : p.endless with
      | true =>
        rw [hendless] at hround
        cases hround
      | false =>
        rw [hendless] at hround
        exact ⟨p, fmt, rfl, hendless, Sum.inl.inj hround⟩
  · cases h.symm.trans hround

/-- With enough fuel, a round goes on behind a piece that is not endless. -/
lemma printRound_of_nextPiece {fuel : ℕ} (hsize : size < 2 ^ 31) (hroom : s.written.toInt < size)
    (hfuel : s.fmt.length ≤ fuel)
    (hnext : nextPiece args s.ap s.written.toInt s.fmt = some (p, rest))
    (hendless : p.endless = false) :
    printRound fuel size args tty s = .inl { s.output size tty p with fmt := rest } := by
  rcases @printRound_eq size tty s args hsize hroom fuel with hround | ⟨-, hlt⟩
  · rw [hnext, outputNext, hendless] at hround
    exact hround
  · omega

/-- At the end of the format, the loop ends. -/
lemma printRound_of_none {fuel : ℕ} (hsize : size < 2 ^ 31) (hroom : s.written.toInt < size)
    (hfuel : s.fmt.length ≤ fuel) (hnext : nextPiece args s.ap s.written.toInt s.fmt = none) :
    ∃ fmt, printRound fuel size args tty s = .inr (some { s with fmt }) := by
  rcases @printRound_eq size tty s args hsize hroom fuel with hround | ⟨-, hlt⟩
  · rw [hnext] at hround
    exact hround
  · omega

/-- How the loop goes on to its end. -/
lemma loop_printRound_cases (hsize : size < 2 ^ 31) {fuel n : ℕ} {s' : Printer}
    (h : loop (printRound fuel size args tty) n s = some (some s')) :
    size ≤ s.written.toInt ∧ s' = s ∨
    s.written.toInt < size ∧ (nextPiece args s.ap s.written.toInt s.fmt = none ∧
        (∃ fmt, s' = { s with fmt }) ∨
      ∃ p fmt n', n' < n ∧ nextPiece args s.ap s.written.toInt s.fmt = some (p, fmt) ∧
        p.endless = false ∧
        loop (printRound fuel size args tty) n' { s.output size tty p with fmt } =
          some (some s')) := by
  cases n with
  | zero => cases h
  | succ n =>
    by_cases hroom : s.written.toInt < size
    · right
      refine ⟨hroom, ?_⟩
      cases hround : printRound fuel size args tty s with
      | inl s₁ =>
        rw [loop_inl hround] at h
        obtain ⟨-, p, fmt, hnext, hendless, rfl⟩ := printRound_eq_inl hsize hround
        exact .inr ⟨p, fmt, n, n.lt_succ_self, hnext, hendless, h⟩
      | inr r =>
        left
        rw [loop_inr hround] at h
        cases h
        rcases @printRound_eq size tty s args hsize hroom fuel with hnext | ⟨hnone, -⟩
        · rw [hround] at hnext
          cases hpiece : nextPiece args s.ap s.written.toInt s.fmt with
          | none =>
            rw [hpiece] at hnext
            obtain ⟨fmt, hfmt⟩ := hnext
            cases hfmt
            exact ⟨rfl, fmt, rfl⟩
          | some r =>
            rw [hpiece, outputNext] at hnext
            split_ifs at hnext
            cases hnext
        · cases hround.symm.trans hnone
    · left
      rw [loop_inr (printRound_of_le (not_lt.mp hroom) fuel)] at h
      cases h
      exact ⟨not_lt.mp hroom, rfl⟩

/-! ### Pieces -/

/-- What all pieces have in common. Only a negative number has two signs, and in front of digits is
at most the `x`. -/
structure Piece.Ok (start : ℤ) (p : Piece) : Prop where
  start  : p.start = start
  taken  : p.taken ≤ 1
  signs  : p.signs.length ≤ 1 ∨ ∃ c ≠ 0, p.signs = ['-'.toUInt8, c]
  digits : p.body.length ≤ 1 ∨ p.digits = []

lemma Piece.Ok.signs_length (h : p.Ok start) : p.signs.length ≤ 2 := by
  rcases h.signs with hle | ⟨c, -, hsigns⟩
  · omega
  · rw [hsigns]
    exact le_rfl

lemma signChars_length (mods : Mods) (arg : ℤ) : (signChars mods arg).length ≤ 1 ∨
    ∃ c ≠ 0, signChars mods arg = ['-'.toUInt8, c] := by
  rw [signChars]
  split_ifs with hneg hsign hspace
  · exact .inr ⟨_, by decide, rfl⟩
  · exact .inr ⟨_, by decide, rfl⟩
  · exact .inl le_rfl
  · exact .inl le_rfl
  · exact .inl le_rfl
  · exact .inl (Nat.zero_le _)

lemma hexPiece_ok {mods : Mods} {uarg : UInt32} : (hexPiece start mods uarg).Ok start := by
  rw [hexPiece]
  split_ifs with halt
  · exact ⟨rfl, le_rfl, .inl le_rfl, .inl le_rfl⟩
  · exact ⟨rfl, le_rfl, .inl (Nat.zero_le _), .inl (Nat.zero_le _)⟩

lemma convertPiece_ok {ch : UInt8} {mods : Mods} {arg : VaArg} :
    (convertPiece start ch mods arg).Ok start := by
  unfold convertPiece
  split_ifs with hd ho hu hp hx hX hc hs
  · exact ⟨rfl, le_rfl, signChars_length _ _, .inl (Nat.zero_le _)⟩
  · exact ⟨rfl, le_rfl, .inl (Nat.zero_le _), .inl (Nat.zero_le _)⟩
  · exact ⟨rfl, le_rfl, .inl (Nat.zero_le _), .inl (Nat.zero_le _)⟩
  · exact hexPiece_ok
  · exact hexPiece_ok
  · exact hexPiece_ok
  · exact ⟨rfl, le_rfl, .inl le_rfl, .inr rfl⟩
  · exact ⟨rfl, le_rfl, .inl (Nat.zero_le _), .inr rfl⟩
  · exact ⟨rfl, Nat.zero_le _, .inl le_rfl, .inr rfl⟩

/-- The rest of the format behind the piece of a conversion. -/
lemma conversionPiece_ok (h : conversionPiece args ap start fmt = some (p, rest)) :
    p.Ok start ∧ rest <:+ fmt := by
  rw [conversionPiece] at h
  split_ifs at h with hend hnine
  · cases h
    exact ⟨⟨rfl, Nat.zero_le _, .inl (Nat.zero_le _), .inr rfl⟩, List.nil_suffix⟩
  · obtain ⟨ch, fmt, rfl⟩ : ∃ ch rest, fmt = ch :: rest := by
      cases fmt with
      | nil => exact absurd rfl hend
      | cons ch fmt => exact ⟨ch, fmt, rfl⟩
    obtain ⟨ch', mods', fmt', hloop, hsuffix⟩ :=
      @loop_modifierRound_of_not ch {} fmt (fmt.length + 1) hnine (by omega)
    rw [List.headD_cons, List.tail_cons, List.length_cons, hloop] at h
    dsimp only at h
    split_ifs at h with hch
    cases h
    exact ⟨convertPiece_ok, hsuffix.trans (List.suffix_cons ch fmt)⟩

lemma nextPiece_ok (h : nextPiece args ap start fmt = some (p, rest)) :
    p.Ok start ∧ rest <:+ fmt ∧ rest.length < fmt.length := by
  cases fmt with
  | nil => cases h
  | cons ch fmt =>
    have hrest : p.Ok start ∧ rest <:+ fmt := by
      rw [nextPiece] at h
      split_ifs at h with hch hpercent
      · cases h
        exact ⟨⟨rfl, Nat.zero_le _, .inl le_rfl, .inr rfl⟩, List.suffix_rfl⟩
      · exact conversionPiece_ok h
    exact ⟨hrest.1, hrest.2.trans (List.suffix_cons ch fmt), Nat.lt_succ_of_le hrest.2.length_le⟩

lemma piecesFrom_none {bound : ℕ} (hnext : nextPiece args ap start fmt = none) :
    piecesFrom args bound fmt ap start = [] := by
  cases bound with
  | zero => rfl
  | succ bound => rw [piecesFrom, hnext]

lemma piecesFrom_some {bound : ℕ} (hnext : nextPiece args ap start fmt = some (p, rest)) :
    piecesFrom args (bound + 1) fmt ap start = p :: if p.endless then []
      else piecesFrom args bound rest (ap + p.taken) (start + p.text.length) := by
  rw [piecesFrom, hnext]

/-- In front of the room's end, what is left out of a piece does not fit. -/
lemma shown_cases (hsize : size < 2 ^ 31) (hstart : 0 ≤ p.start) :
    p.shown size = p.text ∨ size ≤ p.start + (p.shown size).length := by
  rw [Piece.shown, Piece.text, List.length_append, List.length_append, List.length_take,
    List.length_take]
  by_cases hbody : p.body.length ≤ (size - (p.start + p.signs.length)).toNat
  · rw [List.take_of_length_le hbody]
    by_cases hdigits : p.digits.length ≤
        (toInt (size - (p.start + p.signs.length + p.body.length))).toNat
    · exact .inl (by rw [List.take_of_length_le hdigits])
    · right
      by_cases hroom : p.start + p.signs.length + p.body.length ≤ size
      · rw [toInt_of_range (by omega) (by omega)] at hdigits ⊢
        omega
      · omega
  · right
    omega

lemma length_shown_le (size : ℤ) (p : Piece) : (p.shown size).length ≤ p.text.length := by
  simp only [Piece.shown, Piece.text, List.length_append, List.length_take]
  omega

/-- The digits of a piece keep to the room. -/
lemma length_digits_le (hsize : size < 2 ^ 31) (hok : p.Ok start) (hstart : 0 ≤ start)
    (hroom : start < size) :
    (p.digits.take (toInt (size - (p.start + p.signs.length + p.body.length))).toNat).length ≤
      (size - (p.start + p.signs.length + p.body.length)).toNat := by
  have hsigns := hok.signs_length
  rw [hok.start]
  rcases hok.digits with hbody | hnil
  · rw [toInt_of_range (by omega) (by omega)]
    exact List.length_take_le _ _
  · rw [hnil, List.take_nil]
    exact Nat.zero_le _

/-- Only the signs of a piece can reach over the end. -/
lemma length_shown_le_max (hsize : size < 2 ^ 31) (hok : p.Ok start) (hstart : 0 ≤ start)
    (hroom : start < size) :
    start + (p.shown size).length ≤ max size (start + p.signs.length) := by
  have hdigits := length_digits_le hsize hok hstart hroom
  rw [Piece.shown, List.length_append, List.length_append, List.length_take]
  rw [hok.start] at hdigits ⊢
  omega

end Rounds

end Osm.Lib
