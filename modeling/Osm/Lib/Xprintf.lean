import Osm.Core.Loop
import Osm.Core.Memory
import Mathlib.Data.Int.Notation
import Mathlib.Logic.Function.Basic

/-!
# Formatted output

A model of `lib/xprintf.c`, of which `tests/lib.c` has a copy for userland. The format is given by
its bytes before the terminating NUL. An argument is a word, together with the string at this
address when it is a pointer to one; strings do not overlap the buffer. The flag `FLAG_TTY`, which
is the same for all conversions, is an argument of its own. The calculations in `int` wrap; the
number `written` of the characters is at most one more than `size`.
-/

namespace Osm.Lib

open Osm.Core

/-- A value in the range of `int`. -/
def toInt (x : ℤ) : ℤ := x.bmod (2 ^ 32)

lemma toInt_range (x : ℤ) : -2 ^ 31 ≤ toInt x ∧ toInt x < 2 ^ 31 :=
  ⟨Int.le_bmod (by decide), Int.bmod_lt (by decide)⟩

lemma toInt_of_range {x : ℤ} (hlow : -2 ^ 31 ≤ x) (hhigh : x < 2 ^ 31) : toInt x = x :=
  Int.bmod_eq_of_le (by omega) (by omega)

@[simp]
lemma toInt_toInt (x : Int32) : toInt x.toInt = x.toInt := toInt_of_range x.le_toInt x.toInt_lt

@[simp]
lemma toInt_toInt_add (x y : ℤ) : toInt (toInt x + y) = toInt (x + y) := Int.bmod_add_bmod

@[simp]
lemma toInt_sub_toInt (x y : ℤ) : toInt (x - toInt y) = toInt (x - y) := Int.sub_bmod_bmod

/-- A number wraps if it is out of the range of `int`. -/
lemma toInt_natCast_eq_iff {n : ℕ} : toInt n = n ↔ n < 2 ^ 31 := by
  constructor
  · intro h
    have hlt := (toInt_range n).2
    omega
  · intro h
    exact Int.bmod_eq_of_le (by omega) (by omega)

/-- An argument of a variable argument list. -/
structure VaArg where
  word   : UInt32
  string : List UInt8 := []

/-- The flags of a conversion. -/
structure Flags where
  smalls  : Bool := false
  alt     : Bool := false
  zeropad : Bool := false
  left    : Bool := false
  space   : Bool := false
  sign    : Bool := false

/-- The place where the next character goes, with the memory and the output on the TTY. -/
structure Out where
  buf : ℕ
  mem : Memory
  tty : List UInt8 := []

namespace Out

/-- `printc`. -/
def printc (o : Out) (c : UInt8) (tty : Bool) : Out :=
  if tty then
    -- Terminating zeros are not for the TTY.
    if c ≠ 0 then { o with tty := o.tty ++ [c] } else o
  else { o with mem := Function.update o.mem o.buf c }

/-- `printc` with `buf++`. -/
def put (tty : Bool) (o : Out) (c : UInt8) : Out :=
  { o.printc c tty with buf := o.buf + 1 }

end Out

/-- The table `digits`. -/
def digits : List UInt8 :=
  ['0', '1', '2', '3', '4', '5', '6', '7', '8', '9', 'A', 'B', 'C', 'D', 'E', 'F',
    '0', '1', '2', '3', '4', '5', '6', '7', '8', '9', 'a', 'b', 'c', 'd', 'e', 'f'].map Char.toUInt8

/-- The digits of a number in reverse order, in an array with room for some of them. -/
def revDigits (smalls : Bool) (base : ℕ) : ℕ → ℕ → List UInt8
  | 0, _        => []
  | room + 1, n =>
    digits.getD ((if smalls then 16 else 0) + n % base) 0 ::
      if n / base ≠ 0 then revDigits smalls base room (n / base) else []

/-- Pad a reversed number until it has the given length. -/
def pad (c : UInt8) (length : ℤ) (rev : List UInt8) : List UInt8 :=
  rev ++ List.replicate (length - rev.length).toNat c

/-- The number that `print_uint` collects in the array `rev`, in the order of the output. -/
def uintText (smalls : Bool) (n : UInt32) (base : ℕ) (prec width : ℤ) : List UInt8 :=
  (pad ' '.toUInt8 (min width 11)
    (pad '0'.toUInt8 (min prec 11) (revDigits smalls base 11 n.toNat))).reverse

/-- `print_uint`. -/
def printUint (o : Out) (size : ℤ) (n : UInt32) (base : ℕ) (flags : Flags) (tty : Bool)
    (prec width : ℤ) : Out × ℤ :=
  if size ≤ 0 then (o, 0)
  else
    let text := (uintText flags.smalls n base prec width).take size.toNat
    (text.foldl (Out.put tty) o, text.length)

/-- The characters that `scan_int` takes for digits. -/
def IsScanned (c : UInt8) : Prop := '0'.toUInt8 < c ∧ c < '9'.toUInt8

instance : DecidablePred IsScanned := fun _ => inferInstanceAs (Decidable (_ ∧ _))

/-- `scan_int`, with the value so far. -/
def scanInt (value : ℤ) : List UInt8 → ℤ × List UInt8
  | []     => (value, [])
  | c :: s =>
    if IsScanned c then scanInt (toInt (10 * value + (c.toNat - '0'.toUInt8.toNat))) s
    else (value, c :: s)

/-- Flags, width and precision of a conversion. -/
structure Mods where
  flags : Flags := {}
  width : ℤ := -1
  prec  : ℤ := -1

/-- The cases of the first `switch` in `vxnprintf`. For a modifier, what it sets and the format
behind it. -/
def modifier (ch : UInt8) (mods : Mods) (fmt : List UInt8) : Option (Mods × List UInt8) :=
  if ch = '#'.toUInt8 then some ({ mods with flags.alt := true }, fmt)
  else if ch = '0'.toUInt8 then some ({ mods with flags.zeropad := true }, fmt)
  else if ch = ' '.toUInt8 then some ({ mods with flags.space := true }, fmt)
  else if ch = '+'.toUInt8 then some ({ mods with flags.sign := true }, fmt)
  else if ch = '-'.toUInt8 then some ({ mods with flags.left := true }, fmt)
  else if ch = '.'.toUInt8 then
    let (prec, fmt) := scanInt 0 fmt
    some ({ mods with prec }, fmt)
  else if '1'.toUInt8 ≤ ch ∧ ch ≤ '9'.toUInt8 then
    let (width, fmt) := scanInt 0 (ch :: fmt)
    some ({ mods with width }, fmt)
  else none

/-- A round of the loop over the modifiers, with the character last read. -/
def modifierRound : UInt8 × Mods × List UInt8 →
    (UInt8 × Mods × List UInt8) ⊕ (UInt8 × Mods × List UInt8)
  | (ch, mods, fmt) =>
    match modifier ch mods fmt with
    | none             => .inr (ch, mods, fmt)
    | some (mods, fmt) =>
      let ch := fmt.headD 0
      if ch ≠ 0 then .inl (ch, mods, fmt.tail) else .inr (ch, mods, fmt.tail)

/-- The variables of `vxnprintf`; `ap` is the number of the next argument. -/
structure Printer where
  out     : Out
  written : Int32
  fmt     : List UInt8
  ap      : ℕ

namespace Printer

/-- Output a character, which is counted. -/
def put (tty : Bool) (s : Printer) (c : UInt8) : Printer :=
  { s with out := s.out.put tty c, written := s.written + 1 }

/-- Output a number with `print_uint`, the characters of which are counted. -/
def printUint (s : Printer) (size : ℤ) (n : UInt32) (base : ℕ) (flags : Flags) (tty : Bool)
    (prec width : ℤ) : Printer :=
  let (out, w) := Lib.printUint s.out (toInt (size - s.written.toInt)) n base flags tty prec width
  { s with out, written := s.written + Int32.ofInt w }

/-- The loop over the characters of a string. -/
def printString (tty : Bool) (w : ℤ) : List UInt8 → Printer → Printer
  | [], s       => s
  | c :: str, s => if s.written.toInt < w ∧ c ≠ 0 then printString tty w str (s.put tty c) else s

end Printer

/-- `'i'` and `'d'`. -/
def printSigned (size : ℤ) (tty : Bool) (mods : Mods) (arg : ℤ) (s : Printer) : Printer :=
  let (s, arg) := if arg < 0 then (s.put tty '-'.toUInt8, toInt (-arg)) else (s, arg)
  let s :=
    if mods.flags.sign then s.put tty '+'.toUInt8
    else if mods.flags.space then s.put tty ' '.toUInt8
    else s
  s.printUint size (UInt32.ofNat (arg % 2 ^ 32).toNat) 10 mods.flags tty 0 0

/-- The precision of a number that is padded with zeros. -/
def Mods.zeroPrec (mods : Mods) (width : ℤ) : ℤ :=
  if mods.prec < width ∧ mods.flags.zeropad then width else mods.prec

/-- `'o'` and `'u'`. -/
def printUnsigned (size : ℤ) (tty : Bool) (mods : Mods) (base : ℕ) (uarg : UInt32) (s : Printer) :
    Printer :=
  s.printUint size uarg base mods.flags tty (mods.zeroPrec mods.width) mods.width

/-- `'p'`, `'x'` and `'X'`. -/
def printHex (size : ℤ) (tty : Bool) (mods : Mods) (uarg : UInt32) (s : Printer) : Printer :=
  if mods.flags.alt then
    let s := s.put tty '0'.toUInt8
    let s := if s.written.toInt < size then s.put tty 'x'.toUInt8 else s
    let width := toInt (mods.width - 2)
    s.printUint size uarg 16 mods.flags tty (mods.zeroPrec width) width
  else s.printUint size uarg 16 mods.flags tty (mods.zeroPrec mods.width) mods.width

/-- `'s'`. -/
def printStr (size : ℤ) (tty : Bool) (mods : Mods) (str : List UInt8) (s : Printer) : Printer :=
  let w := toInt (s.written.toInt + mods.prec)
  s.printString tty (if mods.prec ≠ -1 ∧ w < size then w else size) str

/-- The second `switch` in `vxnprintf`. -/
def convert (size : ℤ) (args : ℕ → VaArg) (tty : Bool) (ch : UInt8) (mods : Mods) (s : Printer) :
    Printer :=
  let arg := args s.ap
  let next := { s with ap := s.ap + 1 }
  if ch = 'i'.toUInt8 ∨ ch = 'd'.toUInt8 then printSigned size tty mods (toInt arg.word.toNat) next
  else if ch = 'o'.toUInt8 then printUnsigned size tty mods 8 arg.word next
  else if ch = 'u'.toUInt8 then printUnsigned size tty mods 10 arg.word next
  else if ch = 'p'.toUInt8 then
    printHex size tty { mods with flags.alt := true, flags.smalls := true } arg.word next
  else if ch = 'x'.toUInt8 then
    printHex size tty { mods with flags.smalls := true } arg.word next
  else if ch = 'X'.toUInt8 then printHex size tty mods arg.word next
  else if ch = 'c'.toUInt8 then next.put tty arg.word.toUInt8
  else if ch = 's'.toUInt8 then printStr size tty mods arg.string next
  else s.put tty ch

/-- A round of the loop of `vxnprintf` from the `%` on. The loop over the modifiers runs with the
given fuel; the result is `none` when it does not end. -/
def conversionRound (fuel : ℕ) (size : ℤ) (args : ℕ → VaArg) (tty : Bool) (s : Printer) :
    Printer ⊕ Option Printer :=
  let ch := s.fmt.headD 0
  let fmt := s.fmt.tail
  if ch = 0 then .inr (some s)
  else
    match loop modifierRound fuel (ch, {}, fmt) with
    | none                 => .inr none
    | some (ch, mods, fmt) =>
      if ch = 0 then .inr (some s) else .inl (convert size args tty ch mods { s with fmt })

/-- A round of the loop of `vxnprintf`. -/
def printRound (fuel : ℕ) (size : ℤ) (args : ℕ → VaArg) (tty : Bool) (s : Printer) :
    Printer ⊕ Option Printer :=
  if s.written.toInt < size then
    let ch := s.fmt.headD 0
    let fmt := s.fmt.tail
    if ch = 0 then .inr (some s)
    else if ch ≠ '%'.toUInt8 then .inl ({ s with fmt }.put tty ch)
    else conversionRound fuel size args tty { s with fmt }
  else .inr (some s)

/-- The end of `vxnprintf`: the returned value and the output. -/
def terminate (size : ℤ) (tty : Bool) (s : Printer) : ℤ × Out :=
  if s.written.toInt = size then (-1, { s.out with buf := s.out.buf - 1 }.printc 0 tty)
  else (s.written.toInt, s.out.printc 0 tty)

/-- `vxnprintf`; `none` when it does not end within the fuel. -/
def vxnprintf (fuel : ℕ) (out : Out) (size : ℤ) (fmt : List UInt8) (args : ℕ → VaArg)
    (tty : Bool) : Option (ℤ × Out) :=
  if size ≤ 0 then some (0, out)
  else
    match loop (printRound fuel size args tty) fuel ⟨out, 0, fmt, 0⟩ with
    | some (some s) => some (terminate size tty s)
    | _             => none

/-- `snprintf`. -/
def snprintf (fuel : ℕ) (m : Memory) (str : ℕ) (size : ℤ) (fmt : List UInt8)
    (args : ℕ → VaArg) : Option (ℤ × Out) :=
  vxnprintf fuel { buf := str, mem := m } size fmt args false

/-- `kprintf`, without the lock. -/
def kprintf (fuel : ℕ) (m : Memory) (fmt : List UInt8) (args : ℕ → VaArg) : Option (ℤ × Out) :=
  vxnprintf fuel { buf := 0, mem := m } 0x7fffffff fmt args true

end Osm.Lib
