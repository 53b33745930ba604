import Mathlib.Data.BitVec
import Mathlib.Data.Nat.Size
import Osm.Core.Loop

/-!
# The sequential heap

`heap/sequential-heap.c`: a pointer-based binary max-heap. Nodes live in a memory that maps
pointers to `node_t` records; `0` is `NULL`. The element type is a macro of the header (`T`), so
it stays a parameter here. `size_t` has 64 bits and `int` has 32.

`malloc` is outside the program: `heapInsert` receives the pointer it returned, `0` on failure.
The two loops run with a bound on the number of rounds and return `none` beyond it.
-/

namespace Osm.SequentialHeap

open Core

variable {T : Type}

/-- `node_t *`. -/
abbrev Ptr := ℕ

/-- `node_t`. -/
structure Node (T : Type) where
  leftChild : Ptr
  rightChild : Ptr
  value : T

abbrev Mem (T : Type) := Ptr → Node T

/-- `heap_t`. -/
structure Heap (T : Type) where
  nNodes : BitVec 64
  root : Ptr
  less : T → T → Bool

/-- The memory together with one heap in it. -/
structure State (T : Type) where
  mem : Mem T
  heap : Heap T

/-! ### Field access -/

def Mem.setLeft (mem : Mem T) (p c : Ptr) : Mem T :=
  Function.update mem p { mem p with leftChild := c }

def Mem.setRight (mem : Mem T) (p c : Ptr) : Mem T :=
  Function.update mem p { mem p with rightChild := c }

def getChild (mem : Mem T) (current : Ptr) (indicator : BitVec 64) : Ptr :=
  if indicator > 0 then (mem current).rightChild else (mem current).leftChild

def setChild (mem : Mem T) (parent : Ptr) (indicator : BitVec 64) (newChild : Ptr) : Mem T :=
  if indicator > 0 then mem.setRight parent newChild else mem.setLeft parent newChild

/-! ### `merge_on_path` -/

/-- The variables of the loop of `merge_on_path`. -/
structure Merge (T : Type) where
  mem : Mem T
  outsider : Ptr
  edge : Ptr
  mask : BitVec 64

def mergeRound (path : BitVec 64) (s : Merge T) : Merge T ⊕ Merge T :=
  if s.outsider ≠ 0 then
    let mask := s.mask >>> 1
    if path &&& mask > 0 then
      let mem := s.mem.setLeft s.edge (s.mem s.outsider).leftChild
      let mem := mem.setRight s.edge s.outsider
      .inl { mem, outsider := (mem s.outsider).rightChild, edge := s.outsider, mask }
    else
      let mem := s.mem.setRight s.edge (s.mem s.outsider).rightChild
      let mem := mem.setLeft s.edge s.outsider
      .inl { mem, outsider := (mem s.outsider).leftChild, edge := s.outsider, mask }
  else
    .inr s

def mergeOnPath (fuel : ℕ) (mem : Mem T) (outsider edge : Ptr) (path mask : BitVec 64) :
    Option (Mem T × ℤ) := do
  let s ← loop (mergeRound path) fuel { mem, outsider, edge, mask }
  return ((s.mem.setLeft s.edge 0).setRight s.edge 0, 0)

/-! ### `insert_on_path` -/

/-- The variables of the loop of `insert_on_path`. -/
structure Search where
  mask : BitVec 64
  parent : Ptr
  current : Ptr

def searchRound (mem : Mem T) (less : T → T → Bool) (value : T) (path : BitVec 64) (s : Search) :
    Search ⊕ Search :=
  if s.current ≠ 0 ∧ less value (mem s.current).value then
    let mask := s.mask >>> 1
    .inl { mask, parent := s.current, current := getChild mem s.current (path &&& mask) }
  else
    .inr s

/-- `ilogb` is exact on positive arguments. -/
def ilogb (x : BitVec 64) : ℕ := x.toNat.log2

/-- `1 << ilogb(path)`: the shift is done in `int` and the result converted to `size_t`. -/
def topMask (path : BitVec 64) : BitVec 64 := (1#32 <<< ilogb path).signExtend 64

def insertOnPath (fuel : ℕ) (s : State T) (node : Ptr) : Option (State T × ℤ) := do
  let path := s.heap.nNodes
  let found ← loop (searchRound s.mem s.heap.less (s.mem node).value path) fuel
    { mask := topMask path, parent := 0, current := s.heap.root }
  let s :=
    if found.parent = 0 then { s with heap.root := node }
    else { s with mem := setChild s.mem found.parent (path &&& found.mask) node }
  let (mem, ret) ← mergeOnPath fuel s.mem found.current node path found.mask
  return ({ s with mem }, ret)

/-! ### The public functions -/

def heapInit (mem : Mem T) (less : T → T → Bool) : State T :=
  { mem, heap := { nNodes := 0, root := 0, less } }

def ENOMEM : ℤ := 12

/-- `heap_insert`, where `node` is what `malloc` returned. -/
def heapInsert (fuel : ℕ) (s : State T) (node : Ptr) (value : T) : Option (State T × ℤ) :=
  if node = 0 then
    some (s, ENOMEM)
  else
    let mem := Function.update s.mem node { s.mem node with value := value }
    insertOnPath fuel { mem, heap := { s.heap with nNodes := s.heap.nNodes + 1 } } node

/-- A run of insertions, each with the pointer its `malloc` returned. -/
def heapInserts (fuel : ℕ) (s : State T) (calls : List (Ptr × T)) : Option (State T) :=
  calls.foldlM (fun s c => (heapInsert fuel s c.1 c.2).map Prod.fst) s

/-! ### Positions

Position `k` of the tree is reached from the root by reading the bits of `k` below its highest
set bit, `1` for the right child and `0` for the left one.
-/

/-- The bits of `k` below its highest set bit, from the most significant down. -/
def pathBits (k : ℕ) : List Bool := k.bits.reverse.tail

/-- Follow one child pointer; `NULL` has no children. -/
def child (mem : Mem T) (p : Ptr) (bit : Bool) : Ptr :=
  if p = 0 then 0 else if bit then (mem p).rightChild else (mem p).leftChild

def walk (mem : Mem T) (p : Ptr) (bits : List Bool) : Ptr := bits.foldl (child mem) p

/-- The pointer at position `k`, `NULL` when there is no node. -/
def State.nodeAt (s : State T) (k : ℕ) : Ptr := walk s.mem s.heap.root (pathBits k)

def State.valueAt (s : State T) (k : ℕ) : T := (s.mem (s.nodeAt k)).value

lemma pathBits_one : pathBits 1 = [] := by simp [pathBits]

lemma pathBits_bit (k : ℕ) (b : Bool) (hk : 1 ≤ k) :
    pathBits (2 * k + b.toNat) = pathBits k ++ [b] := by
  have hbits : (2 * k + b.toNat).bits = b :: k.bits := by
    cases b
    · exact Nat.bit0_bits k (by omega)
    · exact Nat.bit1_bits k
  have hne : k.bits.reverse ≠ [] := by
    intro h
    have hlen : k.bits.length = 0 := by simpa using h
    rw [Nat.size_eq_bits_len, Nat.size_eq_zero] at hlen
    omega
  rw [pathBits, hbits, List.reverse_cons, List.tail_append_of_ne_nil hne]
  rfl

lemma walk_append (mem : Mem T) (p : Ptr) (xs : List Bool) (b : Bool) :
    walk mem p (xs ++ [b]) = child mem (walk mem p xs) b := by
  simp [walk]

lemma State.nodeAt_one (s : State T) : s.nodeAt 1 = s.heap.root := by
  simp [State.nodeAt, pathBits_one, walk]

lemma State.nodeAt_bit (s : State T) (k : ℕ) (b : Bool) (hk : 1 ≤ k) :
    s.nodeAt (2 * k + b.toNat) = child s.mem (s.nodeAt k) b := by
  rw [State.nodeAt, pathBits_bit k b hk, walk_append, State.nodeAt]

end Osm.SequentialHeap
