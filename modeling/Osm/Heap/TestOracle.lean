import Osm.Core.HeapOrder
import Osm.Heap.Invariant

/-!
# The test oracle of the heap

`heap_is_valid` of `heap/sequential-heap.c` and the two functions that it calls. The verdict is
the one on the order of the heap: a wrong number of nodes is printed, and the heap may be valid
all the same.
-/

namespace Osm.SequentialHeap

open Core

variable {T : Type}

/-- A line on `stderr`. -/
inductive Message (T : Type) where
  | orderLeft (parent left : T)
  | orderRight (parent right : T)
  | sizeWrong (count n : BitVec 64)
  deriving DecidableEq

/-- `cardinality`, with a bound on the depth of the recursion. -/
def cardinality (mem : Mem T) : ℕ → Ptr → Option (BitVec 64)
  | 0, _           => none
  | fuel + 1, node =>
    if node = 0 then some 0
    else do
      let i ← cardinality mem fuel (mem node).leftChild
      let j ← cardinality mem fuel (mem node).rightChild
      return i + j + 1

/-- `subheap_is_valid`, with what it prints. -/
def subheapIsValid (mem : Mem T) (less : T → T → Bool) :
    ℕ → Ptr → Option (Bool × List (Message T))
  | 0, _           => none
  | fuel + 1, node =>
    if node = 0 then some (true, [])
    else
      let value := (mem node).value
      let left := (mem node).leftChild
      let right := (mem node).rightChild
      if left ≠ 0 ∧ less value (mem left).value then
        some (false, [.orderLeft value (mem left).value])
      else if right ≠ 0 ∧ less value (mem right).value then
        some (false, [.orderRight value (mem right).value])
      else do
        let (valid, err) ← subheapIsValid mem less fuel left
        if !valid then return (false, err)
        let (valid, err') ← subheapIsValid mem less fuel right
        return (valid, err ++ err')

/-- `heap_is_valid`. -/
def heapIsValid (fuel : ℕ) (mem : Mem T) (heap : Heap T) : Option (Bool × List (Message T)) := do
  let card ← cardinality mem fuel heap.root
  let err := if card ≠ heap.nNodes then [.sizeWrong card heap.nNodes] else []
  let (valid, err') ← subheapIsValid mem heap.less fuel heap.root
  return (valid, err ++ err')

/-- The tree at a pointer. -/
def IsTree (mem : Mem T) : Ptr → BinaryTree T → Prop
  | p, .nil                   => p = 0
  | p, .node value left right =>
    p ≠ 0 ∧ (mem p).value = value ∧ IsTree mem (mem p).leftChild left ∧
      IsTree mem (mem p).rightChild right

/-- What the verdict is for: the number of the nodes is right, and no node is greater than a node
above it. -/
def HeapValid (heap : Heap T) (t : BinaryTree T) : Prop :=
  heap.nNodes.toNat = t.numNodes ∧ t.HeapOrdered fun a d => ¬ heap.less a d

section

variable {mem : Mem T} {less : T → T → Bool} {p : Ptr} {value : T} {t : BinaryTree T} {fuel : ℕ}

/-- The comparison with a child. -/
lemma child_ordered_iff (h : IsTree mem p t) :
    ¬ (p ≠ 0 ∧ less value (mem p).value) ↔ t.RootBelow (fun a d => ¬ less a d) value := by
  cases t with
  | nil => exact iff_of_true (fun hp => hp.1 h) trivial
  | node label left right =>
    obtain ⟨hp, rfl, -, -⟩ := h
    rw [BinaryTree.RootBelow, not_and]
    exact ⟨fun hless => hless hp, fun hless _ => hless⟩

/-- The nodes are counted. -/
lemma cardinality_spec (h : IsTree mem p t) (hfuel : t.height < fuel) :
    cardinality mem fuel p = some (BitVec.ofNat 64 t.numNodes) := by
  induction t generalizing p fuel with
  | nil =>
    obtain ⟨fuel, rfl⟩ := Nat.exists_eq_add_one_of_ne_zero (Nat.ne_zero_of_lt hfuel)
    obtain rfl : p = 0 := h
    rfl
  | node value left right ihl ihr =>
    obtain ⟨fuel, rfl⟩ := Nat.exists_eq_add_one_of_ne_zero (Nat.ne_zero_of_lt hfuel)
    obtain ⟨hp, -, hl, hr⟩ := h
    rw [BinaryTree.height] at hfuel
    rw [cardinality, if_neg hp, ihl hl (by omega), ihr hr (by omega)]
    simp [BitVec.ofNat_add]

/-- The local checks find out whether the whole tree is in order. -/
lemma subheapIsValid_spec (hless : IsStrictWeakOrder T fun a b => less a b = true)
    (h : IsTree mem p t) :
    ∃ valid err, (∀ fuel > t.height, subheapIsValid mem less fuel p = some (valid, err)) ∧
      (valid = true ↔ t.HeapOrdered fun a d => ¬ less a d) := by
  induction t generalizing p with
  | nil =>
    refine ⟨true, [], fun fuel hfuel => ?_, iff_of_true rfl BinaryTree.heapOrdered_nil⟩
    obtain ⟨fuel, rfl⟩ := Nat.exists_eq_add_one_of_ne_zero (Nat.ne_zero_of_lt hfuel)
    obtain rfl : p = 0 := h
    rfl
  | node value left right ihl ihr =>
    obtain ⟨hp, rfl, hl, hr⟩ := h
    obtain ⟨validl, errl, hrunl, hvalidl⟩ := ihl hl
    obtain ⟨validr, errr, hrunr, hvalidr⟩ := ihr hr
    have hstep : ∀ fuel > (BinaryTree.node (mem p).value left right).height,
        ∃ k, fuel = k + 1 ∧ subheapIsValid mem less k (mem p).leftChild = some (validl, errl) ∧
          subheapIsValid mem less k (mem p).rightChild = some (validr, errr) := by
      intro fuel hfuel
      obtain ⟨k, rfl⟩ := Nat.exists_eq_add_one_of_ne_zero (Nat.ne_zero_of_lt hfuel)
      rw [BinaryTree.height] at hfuel
      exact ⟨k, rfl, hrunl k (by omega), hrunr k (by omega)⟩
    have htrans : ∀ a b c, ¬ less a b → ¬ less b c → ¬ less a c := fun _ _ _ => not_less_trans hless
    rw [BinaryTree.heapOrdered_node_iff htrans, ← child_ordered_iff hl, ← child_ordered_iff hr,
      ← hvalidl, ← hvalidr]
    by_cases hleft : (mem p).leftChild ≠ 0 ∧ less (mem p).value (mem (mem p).leftChild).value
    · refine ⟨false, [.orderLeft (mem p).value (mem (mem p).leftChild).value],
        fun fuel hfuel => ?_, iff_of_false Bool.false_ne_true fun hall => hall.1 hleft⟩
      obtain ⟨k, rfl, -, -⟩ := hstep fuel hfuel
      simp only [subheapIsValid, if_neg hp, if_pos hleft]
    by_cases hright : (mem p).rightChild ≠ 0 ∧ less (mem p).value (mem (mem p).rightChild).value
    · refine ⟨false, [.orderRight (mem p).value (mem (mem p).rightChild).value],
        fun fuel hfuel => ?_, iff_of_false Bool.false_ne_true fun hall => hall.2.1 hright⟩
      obtain ⟨k, rfl, -, -⟩ := hstep fuel hfuel
      simp only [subheapIsValid, if_neg hp, if_neg hleft, if_pos hright]
    cases validl with
    | false =>
      refine ⟨false, errl, fun fuel hfuel => ?_,
        iff_of_false Bool.false_ne_true fun hall => Bool.false_ne_true hall.2.2.1⟩
      obtain ⟨k, rfl, hkl, -⟩ := hstep fuel hfuel
      simp only [subheapIsValid, if_neg hp, if_neg hleft, if_neg hright, hkl]
      rfl
    | true =>
      refine ⟨validr, errl ++ errr, fun fuel hfuel => ?_,
        ⟨fun hv => ⟨hleft, hright, rfl, hv⟩, fun hall => hall.2.2.2⟩⟩
      obtain ⟨k, rfl, hkl, hkr⟩ := hstep fuel hfuel
      simp only [subheapIsValid, if_neg hp, if_neg hleft, if_neg hright, hkl, hkr]
      rfl

/-- The verdict of `heap_is_valid` is the one on the order. -/
lemma heapIsValid_spec {heap : Heap T}
    (hless : IsStrictWeakOrder T fun a b => heap.less a b = true)
    (h : IsTree mem heap.root t) :
    ∃ valid err, (∀ fuel > t.height, heapIsValid fuel mem heap = some (valid, err)) ∧
      (valid = true ↔ t.HeapOrdered fun a d => ¬ heap.less a d) := by
  obtain ⟨valid, err, hrun, hvalid⟩ := subheapIsValid_spec hless h
  refine ⟨valid, (if BitVec.ofNat 64 t.numNodes ≠ heap.nNodes
    then [.sizeWrong (BitVec.ofNat 64 t.numNodes) heap.nNodes] else []) ++ err,
    fun fuel hfuel => ?_, hvalid⟩
  rw [heapIsValid, cardinality_spec h hfuel]
  simp only [Option.bind_eq_bind, Option.bind_some, hrun fuel hfuel]
  rfl

end

/-- The verdict is right exactly if the number of the nodes is right, or the order is not. -/
theorem heapIsValid_exact_iff (mem : Mem T) (heap : Heap T)
    (hless : IsStrictWeakOrder T fun a b => heap.less a b = true) (t : BinaryTree T)
    (h : IsTree mem heap.root t) :
    ∃ valid err, (∀ fuel > t.height, heapIsValid fuel mem heap = some (valid, err)) ∧
      ((valid = true ↔ HeapValid heap t) ↔
        heap.nNodes.toNat = t.numNodes ∨ ¬ t.HeapOrdered fun a d => ¬ heap.less a d) := by
  obtain ⟨valid, err, hrun, hvalid⟩ := heapIsValid_spec hless h
  refine ⟨valid, err, hrun, ?_⟩
  rw [hvalid, HeapValid]
  constructor
  · intro hexact
    by_cases horder : t.HeapOrdered fun a d => ¬ heap.less a d
    · exact .inl (hexact.mp horder).1
    · exact .inr horder
  · rintro (hsize | horder)
    · exact ⟨fun hv => ⟨hsize, hv⟩, fun hv => hv.2⟩
    · exact ⟨fun hv => (horder hv).elim, fun hv => (horder hv.2).elim⟩

/-- Nodes at the addresses 8, 16, 24 and 32. -/
def sampleMem : Mem ℤ := fun p =>
  if p = 8 then ⟨16, 24, 9⟩ else if p = 16 then ⟨32, 0, 5⟩ else if p = 24 then ⟨0, 0, 7⟩
  else ⟨0, 0, 3⟩

/-- The tree that they form. -/
def sampleTree : BinaryTree ℤ :=
  .node 9 (.node 5 (.node 3 .nil .nil) .nil) (.node 7 .nil .nil)

lemma sampleTree_isTree : IsTree sampleMem 8 sampleTree := by
  have hleaf : IsTree sampleMem 32 (.node 3 .nil .nil) := ⟨by decide, rfl, rfl, rfl⟩
  have hleft : IsTree sampleMem 16 (.node 5 (.node 3 .nil .nil) .nil) :=
    ⟨by decide, rfl, hleaf, rfl⟩
  have hright : IsTree sampleMem 24 (.node 7 .nil .nil) := ⟨by decide, rfl, rfl, rfl⟩
  exact ⟨by decide, rfl, hleft, hright⟩

/-- The verdict on four nodes is right when the heap has the number 4. -/
theorem heapIsValid_exact_iff_sample :
    ∃ valid err,
      (∀ fuel > 3, heapIsValid fuel sampleMem ⟨4, 8, less⟩ = some (valid, err)) ∧
      (valid = true ↔ HeapValid ⟨4, 8, less⟩ sampleTree) := by
  obtain ⟨valid, err, hrun, hexact⟩ := heapIsValid_exact_iff sampleMem ⟨4, 8, less⟩
    less_strictWeakOrder sampleTree sampleTree_isTree
  exact ⟨valid, err, hrun, hexact.mpr (.inl rfl)⟩

/-- An empty tree is a valid heap of one node. -/
theorem heapIsValid_sizeWrong :
    IsTree (fun _ => ⟨0, 0, 0⟩) 0 (.nil : BinaryTree ℤ) ∧
      heapIsValid 1 (fun _ => ⟨0, 0, 0⟩) ⟨1, 0, less⟩ = some (true, [.sizeWrong 0 1]) ∧
      ¬ HeapValid ⟨1, 0, less⟩ .nil :=
  ⟨rfl, rfl, fun h => absurd h.1 (by decide)⟩

end Osm.SequentialHeap
