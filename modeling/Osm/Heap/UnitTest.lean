import Osm.Heap.TestOracle

/-!
# The unit test of the heap

`heap_clear`, and the program that is compiled with `UNITTEST_BINARY_HEAP`. `live` are the nodes
that have been allocated and not freed; a result `none` stands for an access to another node or
behind the end of the queue of `show`, and for running out of rounds.
-/

namespace Osm.SequentialHeap

open Core

variable {T : Type}

/-! ### `heap_clear` -/

/-- `node_free`, with a bound on the depth of the recursion. Both fields are read before the node
is freed. -/
def nodeFree (mem : Mem T) : ℕ → Ptr → Finset Ptr → Option (Finset Ptr)
  | 0, _, _           => none
  | fuel + 1, node, live =>
    if node = 0 then some live
    else if node ∉ live then none
    else do
      let live ← nodeFree mem fuel (mem node).leftChild live
      let live ← nodeFree mem fuel (mem node).rightChild live
      if node ∈ live then return live.erase node
      else none

/-- `heap_clear`. -/
def heapClear (fuel : ℕ) (s : State T) (live : Finset Ptr) : Option (State T × Finset Ptr) := do
  let live ← nodeFree s.mem fuel s.heap.root live
  return ({ s with heap := { s.heap with root := 0, nNodes := 0 } }, live)

/-! ### `show` -/

/-- A call of `printf`. -/
inductive Shown (T : Type) where
  | nNodes (n : BitVec 64)
  | value (v : T)
  | newline
  deriving DecidableEq

/-- The variables of the loop of `show`; a cell of the queue is `none` before it is written. -/
structure Show (T : Type) where
  queue : ℕ → Option Ptr
  i : ℕ := 0
  j : ℕ := 0
  height : ℕ := 0
  out : List (Shown T)

/-- A node is put into the queue, which has `n` cells. -/
def Show.enqueue (n : ℕ) (s : Show T) (node : Ptr) : Option (Show T) :=
  if node ≠ 0 then
    if s.j + 1 < n then
      some { s with queue := Function.update s.queue (s.j + 1) (some node), j := s.j + 1 }
    else none
  else some s

/-- The last number on a line: the shift is done in `int`. -/
def lineEnd (height : ℕ) : ℕ := ((1#32 <<< (height + 1) - 1#32).signExtend 64).toNat

/-- The body of the loop. -/
def showBody (mem : Mem T) (n : ℕ) (s : Show T) : Option (Show T) := do
  let node ← if s.i < n then s.queue s.i else none
  let s := { s with out := s.out ++ [Shown.value (mem node).value] }
  let s ← s.enqueue n (mem node).leftChild
  let s ← s.enqueue n (mem node).rightChild
  let s := { s with i := s.i + 1 }
  if s.i = n ∨ s.i = lineEnd s.height then
    return { s with out := s.out ++ [.newline], height := s.height + 1 }
  else return s

/-- A round of the loop, with the condition at its end. -/
def showRound (mem : Mem T) (n : ℕ) (s : Show T) : Show T ⊕ Option (List (Shown T)) :=
  match showBody mem n s with
  | none   => .inr none
  | some s => if s.i ≠ n then .inl s else .inr (some s.out)

/-- `show`. -/
def showHeap (fuel : ℕ) (mem : Mem T) (heap : Heap T) : Option (List (Shown T)) :=
  if heap.nNodes = 0 then some [.nNodes heap.nNodes]
  else do
    let queue := Function.update (fun _ => none) 0 (some heap.root)
    let out ← loop (showRound mem heap.nNodes.toNat) fuel
      { queue, out := [.nNodes heap.nNodes] }
    out

/-! ### `main` -/

/-- The heap, the nodes in use, the number of calls of `malloc` and what is on `stdout`. -/
structure Test (T : Type) where
  state : State T
  live : Finset Ptr := ∅
  mallocs : ℕ := 0
  out : List (Shown T) := []

/-- What comes of the program: it returns from `main`, or the assertion fails. -/
inductive Verdict (T : Type) where
  | returned (status : ℤ) (test : Test T)
  | aborted (test : Test T)

/-- `heap_insert`, whose `malloc` returns what the argument says for this call. -/
def Test.insert (fuel : ℕ) (malloc : ℕ → Ptr) (t : Test T) (value : T) : Option (Test T) := do
  let node := malloc t.mallocs
  let (state, _) ← heapInsert fuel t.state node value
  return { t with
    state
    live    := if node = 0 then t.live else {node} ∪ t.live
    mallocs := t.mallocs + 1 }

/-- The loop of `main`, with the number of rounds left and the numbers on `stdin`. -/
def testLoop (fuel : ℕ) (malloc : ℕ → Ptr) : ℕ → List T → Test T → Option (Verdict T)
  | 0, _, t                   => do
    let (state, live) ← heapClear fuel t.state t.live
    return .returned 0 { t with state, live }
  | _ + 1, [], t              => some (.returned 1 t)
  | n + 1, value :: values, t => do
    let t ← t.insert fuel malloc value
    let shown ← showHeap fuel t.state.mem t.state.heap
    let t := { t with out := t.out ++ shown }
    let (valid, _) ← heapIsValid fuel t.state.mem t.state.heap
    if valid then testLoop fuel malloc n values t
    else return .aborted t

/-- `main`, with the first number on `stdin`, if there is one. -/
def unitTest (fuel : ℕ) (malloc : ℕ → Ptr) (mem : Mem T) (less : T → T → Bool) (n : Option ℕ)
    (values : List T) : Option (Verdict T) :=
  match n with
  | none   => some (.returned 1 { state := heapInit mem less })
  | some n => testLoop fuel malloc n values { state := heapInit mem less }

end Osm.SequentialHeap
