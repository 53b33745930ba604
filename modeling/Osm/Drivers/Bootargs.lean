import Osm.Core.Loop

/-!
# Boot arguments

A model of `drivers/bootargs.c`. The boot argument string is given by its bytes before the
terminating NUL. `bootargsInit` works on a copy of the string with its terminator; an access
outside of this copy, or a store outside of the table of arguments, is a fault.
-/

namespace Osm.Drivers

open Osm.Core

/-- `CONFIG_BOOTARGS_MAX`. -/
def configBootargsMax : ℕ := 32

/-- A pointer to characters: `NULL`, the empty string constant or a place in the copy. -/
inductive CharPtr where
  | null
  | empty
  | valueArea (offset : ℕ)
  deriving DecidableEq

/-- `struct bootargs_t`. -/
structure BootargsT where
  key   : CharPtr
  value : CharPtr
  deriving DecidableEq

/-- The table `bootargs_values`. -/
abbrev BootargsValues := Vector BootargsT configBootargsMax

inductive BootargsFault where
  /-- An access outside of the copy of the string. -/
  | copy
  /-- A store outside of `bootargs_values`. -/
  | table
  deriving DecidableEq

/-- The copy of the string, the table and the variables of `bootargs_init`. -/
structure BootargsScan where
  valueArea : List UInt8
  values    : BootargsValues
  i         : ℕ
  o         : ℕ
  last      : ℕ

namespace BootargsScan

/-- `*(value_area+o)`. -/
def read (t : BootargsScan) : Except BootargsFault UInt8 :=
  match t.valueArea[t.o]? with
  | some c => .ok c
  | none   => .error .copy

/-- `*(value_area+o) = 0`. -/
def cut (t : BootargsScan) : Except BootargsFault BootargsScan :=
  if t.o < t.valueArea.length then .ok { t with valueArea := t.valueArea.set t.o 0 }
  else .error .copy

/-- The new entry `bootargs_values[i]`, for a key that ends at `o`. -/
def setKey (t : BootargsScan) : Except BootargsFault BootargsScan :=
  if h : t.i < configBootargsMax then
    .ok { t with values := t.values.set t.i ⟨.valueArea t.last, .empty⟩ h, last := t.o + 1 }
  else .error .table

/-- `bootargs_values[i].value = value_area+last`. -/
def setValue (t : BootargsScan) : Except BootargsFault BootargsScan :=
  if h : t.i < configBootargsMax then
    .ok { t with values := t.values.set t.i { t.values[t.i] with value := .valueArea t.last } h }
  else .error .table

end BootargsScan

def space : UInt8 := ' '.toUInt8

def equals : UInt8 := '='.toUInt8

/-- The value ends. -/
def endValue (t : BootargsScan) : Except BootargsFault BootargsScan := do
  let t ← t.setValue
  let t ← t.cut
  return { t with o := t.o + 1, last := t.o + 1 }

/-- A round of the loop of `bootargs_init` that searches for the end of a value. -/
def valueRound (l : ℕ) (t : BootargsScan) : BootargsScan ⊕ Except BootargsFault BootargsScan :=
  if t.o ≤ l then
    match t.read with
    | .error e => .inr (.error e)
    | .ok c    => if c = space ∨ c = 0 then .inr (endValue t) else .inl { t with o := t.o + 1 }
  else .inr (.ok t)

/-- What `bootargs_init` does at the end of a key, for the character there. -/
def endKey (l fuel : ℕ) (c : UInt8) (t : BootargsScan) :
    Option (Except BootargsFault BootargsScan) :=
  match t.setKey >>= BootargsScan.cut with
  | .error e => some (.error e)
  | .ok t    =>
    if c = equals then loop (valueRound l) fuel { t with o := t.o + 1 }
    else some (.ok { t with o := t.o + 1 })

/-- A round of the outer loop of `bootargs_init`. -/
def keyRound (l fuel : ℕ) (t : BootargsScan) :
    BootargsScan ⊕ Option (Except BootargsFault BootargsScan) :=
  if t.o ≤ l then
    match t.read with
    | .error e => .inr (some (.error e))
    | .ok c    =>
      if c = space ∨ c = 0 ∨ c = equals then
        match endKey l fuel c t with
        | some (.ok t) => .inl { t with i := t.i + 1 }
        | r            => .inr r
      else .inl { t with o := t.o + 1 }
  else .inr (some (.ok t))

/-- `bootargs_init` on a string, with the table as it was before; each loop may go as many rounds
as there is fuel. -/
def bootargsInit (fuel : ℕ) (s : List UInt8) (values : BootargsValues) :
    Option (Except BootargsFault BootargsScan) :=
  (loop (keyRound s.length fuel) fuel
    { valueArea := s ++ [0]
      values    := values.map fun e => { e with key := .null }
      i         := 0
      o         := 0
      last      := 0 }).join

/-! ### Looking up an argument -/

/-- The characters from a pointer on. -/
def CharPtr.chars (area : List UInt8) : CharPtr → List UInt8
  | .null             => []
  | .empty            => [0]
  | .valueArea offset => area.drop offset

/-- The string at a pointer, `none` for `NULL`. -/
def CharPtr.string (area : List UInt8) : CharPtr → Option (List UInt8)
  | .null => none
  | p     => some ((p.chars area).takeWhile (· ≠ 0))

/-- The comparing loop of `bootargs_get`, for the characters of the two keys. -/
def sameKey : List UInt8 → List UInt8 → Bool
  | c :: stored, k :: key => c = k && (k = 0 || sameKey stored key)
  | _, _                  => false

/-- The outer loop of `bootargs_get`, for the entries that are left. -/
def bootargsGetLoop (area key : List UInt8) : List BootargsT → CharPtr
  | []           => .null
  | e :: entries =>
    if e.key = .null then .null
    else if sameKey (e.key.chars area) (key ++ [0]) then e.value
    else bootargsGetLoop area key entries

/-- `bootargs_get`, for a key without its terminator. -/
def bootargsGet (t : BootargsScan) (key : List UInt8) : CharPtr :=
  bootargsGetLoop t.valueArea key t.values.toList

end Osm.Drivers
