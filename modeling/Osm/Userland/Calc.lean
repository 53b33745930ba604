import Osm.Core.Interpreter
import Osm.Lib.Atoi
import Osm.Userland.Malloc

/-!
# The calculator

A model of `tests/calc.c`, with the functions of `tests/lib.c` that it calls. The stack is a linked
list in the heap of the program; a node has a pointer to the data and one to the next node. A line
is given by the string that `readline` leaves in the buffer, and a call of `printf` by what it is
called with.

Whether the kernel extends the heap is an argument: the answer to the call of `malloc` with the
given number, when the heap would end at the given address. A result `none` stands for a value out
of the range of `int` and for a division by zero, as well as for a loop of the allocator that does
not end.
-/

namespace Osm.Userland

open Osm.Core Osm.Lib

/-! ### Strings -/

/-- `strncmp`. -/
def strncmp : List UInt8 → List UInt8 → ℕ → ℤ
  | _, _, 0           => 0
  | [], [], _         => 0
  | s₁, s₂, n + 1     =>
    if (s₁.headD 0).toInt8 < (s₂.headD 0).toInt8 then -1
    else if (s₁.headD 0).toInt8 > (s₂.headD 0).toInt8 then 1
    else strncmp s₁.tail s₂.tail n

/-- `strcmp`. -/
def strcmp (s₁ s₂ : List UInt8) : ℤ := strncmp s₁ s₂ 0x7fffffff

/-- `atoi` of `tests/lib.c`; its loop is that of the kernel's for a positive number. -/
def atoi (nptr : List UInt8) : Option ℤ := atoiDigits 1 0 nptr

/-- The bytes of a text. -/
def bytes (text : String) : List UInt8 := text.toList.map Char.toUInt8

/-! ### The program -/

namespace Calc

/-- A call of `printf`: the format, and the arguments behind it. -/
structure Print where
  fmt  : List UInt8
  args : List ℤ := []
  deriving DecidableEq

/-- The heap, the variable `stack`, the number of calls of `malloc` and the calls of `printf`. -/
structure State where
  heap    : Heap
  top     : UInt32
  mallocs : ℕ := 0
  prints  : List Print := []

namespace State

/-- `*(uint32_t *)a`. -/
def load (t : State) (a : UInt32) : UInt32 := t.heap.mem.readWord a.toNat

/-- `*(uint32_t *)a = w`. -/
def store (t : State) (a w : UInt32) : State :=
  { t with heap := { t.heap with mem := t.heap.mem.writeWord a.toNat w } }

/-- `printf`. -/
def printf (t : State) (fmt : List UInt8) (args : List ℤ) : State :=
  { t with prints := t.prints ++ [⟨fmt, args⟩] }

/-- `malloc`: the pointer and the new state. -/
def malloc (grant : ℕ → UInt32 → Bool) (t : State) (size : UInt32) : Option (UInt32 × State) := do
  let heapEnd := t.heap.heapEnd + (sizeofSizeT + roundSize size)
  let (heap, ptr) ← Userland.malloc t.heap size (grant t.mallocs heapEnd)
  return (ptr, { t with heap, mallocs := t.mallocs + 1 })

/-- `free`. -/
def free (t : State) (ptr : UInt32) : Option State := do
  return { t with heap := ← Userland.free t.heap ptr }

end State

/-- The bits of an `int`. -/
def intWord (x : ℤ) : UInt32 := UInt32.ofNat (x % 2 ^ 32).toNat

/-- `sizeof(list_t)`. -/
def sizeofList : UInt32 := 8

/-- `sizeof(int)`. -/
def sizeofInt : UInt32 := 4

/-- `stack_empty`. -/
def stackEmpty (t : State) : Bool := t.top = 0

/-- `stack_top`. -/
def stackTop (t : State) : UInt32 := t.load t.top

/-- `stack_pop`. -/
def stackPop (t : State) : Option (UInt32 × State) := do
  let v := t.load t.top
  let newtop := t.load (t.top + 4)
  let t ← t.free t.top
  return (v, { t with top := newtop })

/-- `stack_push`. -/
def stackPush (grant : ℕ → UInt32 → Bool) (t : State) (data : UInt32) : Option (ℤ × State) := do
  let (elem, t) ← t.malloc grant sizeofList
  if elem = 0 then return (1, t)
  else
    let t := t.store elem data
    let t := t.store (elem + 4) t.top
    return (0, { t with top := elem })

/-- `out_of_memory`. -/
def outOfMemory (t : State) : Outcome State :=
  .exited 1 (t.printf (bytes "Out of memory.\n") [])

/-- The end of `perform_binop`. -/
def tooFewElements (t : State) (z : UInt32) : Option (Outcome State) := do
  let t ← t.free z
  return .running (t.printf (bytes "Too few elements on stack.\n") [])

/-- `perform_binop`. -/
def performBinop (grant : ℕ → UInt32 → Bool) (t : State) (op : ℤ → ℤ → Option ℤ) :
    Option (Outcome State) := do
  let (z, t) ← t.malloc grant sizeofInt
  if z = 0 then return outOfMemory t
  else if ¬ stackEmpty t then
    let (x, t) ← stackPop t
    if ¬ stackEmpty t then
      let (y, t) ← stackPop t
      let value ← op (asInt (t.load x)) (asInt (t.load y))
      let t := t.store z (intWord value)
      let t ← t.free x
      let t ← t.free y
      let (code, t) ← stackPush grant t z
      if code = 1 then return outOfMemory t
      else return .running t
    else
      let (code, t) ← stackPush grant t x
      if code = 1 then return outOfMemory t
      else tooFewElements t z
  else tooFewElements t z

/-- `plus`. -/
def plus (x y : ℤ) : Option ℤ := checkInt (x + y)

/-- `sub`. -/
def sub (x y : ℤ) : Option ℤ := checkInt (x - y)

/-- `mult`. -/
def mult (x y : ℤ) : Option ℤ := checkInt (x * y)

/-- `divn`. -/
def divn (x y : ℤ) : Option ℤ := if y = 0 then none else checkInt (x.tdiv y)

/-- `numeric`. -/
def numeric (str : List UInt8) : Bool := str.all (IsDigit ·)

/-- A number is pushed. -/
def pushInt (grant : ℕ → UInt32 → Bool) (t : State) (x : ℤ) : Option (Outcome State) := do
  let (d, t) ← t.malloc grant sizeofInt
  if d = 0 then return outOfMemory t
  else
    let t := t.store d (intWord x)
    let (code, t) ← stackPush grant t d
    if code ≠ 0 then return outOfMemory t
    else return .running t

/-- `BUFFER_SIZE`. -/
def bufferSize : ℕ := 20

/-- A round of the loop of `main`, with the line in the buffer. -/
def mainRound (grant : ℕ → UInt32 → Bool) (t : State) (buffer : List UInt8) :
    Option (Outcome State) :=
  if strcmp buffer (bytes "") = 0 then some (.exited 0 t)
  else if strcmp buffer (bytes "+") = 0 then performBinop grant t plus
  else if strcmp buffer (bytes "-") = 0 then performBinop grant t sub
  else if strcmp buffer (bytes "*") = 0 then performBinop grant t mult
  else if strcmp buffer (bytes "/") = 0 then performBinop grant t divn
  else if strcmp buffer (bytes "p") = 0 then
    if stackEmpty t then some (.running (t.printf (bytes "Stack is empty.\n") []))
    else some (.running (t.printf (bytes "%d\n") [asInt (t.load (stackTop t))]))
  else if numeric buffer then do
    let x ← atoi buffer
    pushInt grant t x
  else some (.running (t.printf (bytes "Bad input.\n") []))

/-- The loop of `main`, for the lines that there are. -/
def mainLoop (grant : ℕ → UInt32 → Bool) : State → List (List UInt8) → Option (Outcome State) :=
  interpret (mainRound grant)

/-- `main` at its start, with an empty heap. -/
def start (mem : Memory) (heapEnd : UInt32) : State where
  heap := { mem, freeList := 0, heapEnd }
  top  := 0

end Calc

end Osm.Userland
