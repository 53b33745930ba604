import Osm.Heap.Invariant

/-!
# The pseudo-code of the heap

A model of the pseudo-code in `latex/heap-insert.tex`. It descends past nodes whose values are equal
to the new one as well, and inserts the new node further down than `heap_insert` does. The tree of
values is the same, since all values between the two places are equal.

A path is the list of its bits from the current one on, the most significant one first, so that the
first bit stands for the root.
-/

namespace Osm.AwesomeHeap

open Osm.Core Osm.SequentialHeap

variable {T : Type}

/-- The heap `H` of the pseudo-code, with the memory that its nodes are in. -/
structure Heap (T : Type) where
  mem  : Mem T
  root : Ptr
  n    : ℕ

/-- The path to the node with a number. -/
def pathTo (n : ℕ) : List Bool := n.bits.reverse

/-- `Advance-One-Bit`. -/
def advanceOneBit (path : List Bool) : List Bool := path.tail

/-- `Next-Is-Left`. -/
def nextIsLeft (path : List Bool) : Bool := path.head? ≠ some true

/-- `Get-Next-Child`. -/
def getNextChild (mem : Mem T) (current : Ptr) (path : List Bool) : Ptr :=
  if nextIsLeft path then (mem current).leftChild else (mem current).rightChild

/-- `Set-Next-Child`. -/
def setNextChild (mem : Mem T) (parent : Ptr) (path : List Bool) (node : Ptr) : Mem T :=
  if nextIsLeft path then mem.setLeft parent node else mem.setRight parent node

/-- The variables of the loop of `Merge-on-Path`. -/
structure Merge (T : Type) where
  mem     : Mem T
  outside : Ptr
  inside  : Ptr
  path    : List Bool

/-- One round of the loop of `Merge-on-Path`. -/
def mergeRound (s : Merge T) : Merge T ⊕ Merge T :=
  if s.outside ≠ 0 then
    let path := advanceOneBit s.path
    if nextIsLeft path then
      let mem := s.mem.setRight s.inside (s.mem s.outside).rightChild
      let mem := mem.setLeft s.inside s.outside
      .inl { mem, outside := (mem s.outside).leftChild, inside := s.outside, path }
    else
      let mem := s.mem.setLeft s.inside (s.mem s.outside).leftChild
      let mem := mem.setRight s.inside s.outside
      .inl { mem, outside := (mem s.outside).rightChild, inside := s.outside, path }
  else
    .inr s

/-- `Merge-on-Path`. -/
def mergeOnPath (fuel : ℕ) (mem : Mem T) (outside inside : Ptr) (path : List Bool) :
    Option (Mem T) := do
  let s ← loop mergeRound fuel { mem, outside, inside, path }
  return (s.mem.setLeft s.inside 0).setRight s.inside 0

/-- The variables of the loop of `Insert-on-Path`. -/
structure Search where
  path    : List Bool
  parent  : Ptr
  current : Ptr

/-- One round of the loop of `Insert-on-Path`. -/
def searchRound [LinearOrder T] (mem : Mem T) (value : T) (s : Search) : Search ⊕ Search :=
  if s.current ≠ 0 ∧ (mem s.current).value ≥ value then
    let path := advanceOneBit s.path
    .inl { path, parent := s.current, current := getNextChild mem s.current path }
  else
    .inr s

/-- `Insert-on-Path`. -/
def insertOnPath [LinearOrder T] (fuel : ℕ) (h : Heap T) (node : Ptr) (path : List Bool) :
    Option (Heap T) := do
  let found ← loop (searchRound h.mem (h.mem node).value) fuel
    { path, parent := 0, current := h.root }
  let h :=
    if found.parent = 0 then { h with root := node }
    else { h with mem := setNextChild h.mem found.parent found.path node }
  let mem ← mergeOnPath fuel h.mem found.current node found.path
  return { h with mem }

/-- `Insert`, where `node` is the new node. -/
def insert [LinearOrder T] (fuel : ℕ) (h : Heap T) (node : Ptr) (value : T) : Option (Heap T) :=
  insertOnPath fuel { h with mem := Function.update h.mem node ⟨0, 0, value⟩, n := h.n + 1 } node
    (pathTo (h.n + 1))

/-- The heap without nodes. -/
def empty (mem : Mem T) : Heap T := ⟨mem, 0, 0⟩

/-- A run of insertions, each with its new node. -/
def inserts [LinearOrder T] (fuel : ℕ) (h : Heap T) (calls : List (Ptr × T)) : Option (Heap T) :=
  calls.foldlM (fun h c => insert fuel h c.1 c.2) h

/-! ### The pseudo-code as a program with masks -/

/-- The comparison that makes `heap_insert` descend past equal values. -/
def lessOrEqual [LinearOrder T] (a b : T) : Bool := a ≤ b

lemma lessOrEqual_iff [LinearOrder T] {a b : T} : lessOrEqual a b = true ↔ a ≤ b :=
  decide_eq_true_iff

/-- The heap as one of the program, which compares in the way of the pseudo-code. -/
def Heap.toState [LinearOrder T] (h : Heap T) : State T :=
  ⟨h.mem, ⟨BitVec.ofNat 64 h.n, h.root, lessOrEqual⟩⟩

/-- The mask of a path on which a number of bits are left. -/
def maskOf : ℕ → BitVec 64
  | 0     => 0
  | k + 1 => BitVec.twoPow 64 k

/-- The low bits of a number, the most significant one first. -/
def lowBits (n k : ℕ) : List Bool := ((List.range k).map n.testBit).reverse

variable {n fuel k : ℕ}

lemma maskOf_shift (hk : k ≤ 64) : maskOf k >>> 1 = maskOf (k - 1) := by
  rcases k with _ | _ | k
  · rfl
  · rfl
  · exact twoPow_shift k (by omega)

lemma lowBits_succ (n k : ℕ) : lowBits n (k + 1) = n.testBit k :: lowBits n k := by
  simp [lowBits, List.range_succ]

lemma length_lowBits (n k : ℕ) : (lowBits n k).length = k := by simp [lowBits]

lemma pathTo_eq_lowBits (n : ℕ) : pathTo n = lowBits n n.size := by
  rw [pathTo, lowBits]
  congr 1
  refine List.ext_getElem (by simp [Nat.size_eq_bits_len]) fun i hi _ => ?_
  rw [List.getElem_map, List.getElem_range, Nat.testBit_eq_inth, List.getI_eq_getElem _ hi]

lemma advanceOneBit_lowBits (n k : ℕ) : advanceOneBit (lowBits n k) = lowBits n (k - 1) := by
  cases k with
  | zero => rfl
  | succ k => rw [lowBits_succ]; rfl

/-- The mask reads the first bit of the path. -/
lemma and_maskOf (path : BitVec 64) (hk : k ≤ 64) :
    path &&& maskOf k > 0 ↔ ¬ nextIsLeft (lowBits path.toNat k) = true := by
  cases k with
  | zero =>
    refine iff_of_false ?_ (not_not.mpr rfl)
    rw [maskOf, show path &&& 0 = 0 from BitVec.and_zero]
    exact BitVec.lt_irrefl 0
  | succ k =>
    rw [maskOf, and_twoPow_pos path k (by omega), lowBits_succ]
    simp [nextIsLeft]

/-- The path consists of low bits of a number of the program. -/
def OnPath (path : BitVec 64) (bits : List Bool) : Prop :=
  bits.length ≤ 64 ∧ bits = lowBits path.toNat bits.length

lemma OnPath.advance {path : BitVec 64} {bits : List Bool} (h : OnPath path bits) :
    OnPath path (advanceOneBit bits) := by
  obtain ⟨hle, heq⟩ := h
  rw [heq, advanceOneBit_lowBits, OnPath, length_lowBits]
  exact ⟨(Nat.sub_le _ 1).trans hle, rfl⟩

/-- Advancing a path is shifting its mask. -/
lemma OnPath.maskOf_advance {path : BitVec 64} {bits : List Bool} (h : OnPath path bits) :
    maskOf bits.length >>> 1 = maskOf (advanceOneBit bits).length := by
  rw [maskOf_shift h.1, advanceOneBit, List.length_tail]

lemma OnPath.and_maskOf {path : BitVec 64} {bits : List Bool} (h : OnPath path bits) :
    path &&& maskOf bits.length > 0 ↔ ¬ nextIsLeft bits = true := by
  have hbits := AwesomeHeap.and_maskOf path h.1
  rwa [← h.2] at hbits

/-! ### The loops -/

/-- The variables of the search as those of the program. -/
def Search.toSearch (s : Search) : SequentialHeap.Search :=
  { mask := maskOf s.path.length, parent := s.parent, current := s.current }

/-- The variables of the merge as those of the program. -/
def Merge.toMerge (s : Merge T) : SequentialHeap.Merge T :=
  { mem := s.mem, outsider := s.outside, edge := s.inside, mask := maskOf s.path.length }

lemma searchRound_map [LinearOrder T] (mem : Mem T) (value : T) {path : BitVec 64} (s : Search)
    (h : OnPath path s.path) :
    SequentialHeap.searchRound mem lessOrEqual value path s.toSearch =
      (searchRound mem value s).map Search.toSearch Search.toSearch := by
  have hiff : s.toSearch.current ≠ 0 ∧ lessOrEqual value (mem s.toSearch.current).value = true ↔
      s.current ≠ 0 ∧ (mem s.current).value ≥ value := by
    rw [lessOrEqual_iff]
    exact Iff.rfl
  rw [SequentialHeap.searchRound, searchRound]
  by_cases hc : s.current ≠ 0 ∧ (mem s.current).value ≥ value
  · have hchild : getChild mem s.current (path &&& maskOf (advanceOneBit s.path).length) =
        getNextChild mem s.current (advanceOneBit s.path) := by
      rw [getChild, getNextChild]
      simp only [h.advance.and_maskOf]
      split_ifs <;> rfl
    rw [if_pos (hiff.mpr hc), if_pos hc]
    simp only [Search.toSearch, h.maskOf_advance, Sum.map_inl, hchild]
  · rw [if_neg (mt hiff.mp hc), if_neg hc]
    rfl

lemma searchRound_onPath [LinearOrder T] {mem : Mem T} {value : T} {path : BitVec 64} {s s' : Search}
    (h : OnPath path s.path) (hs : searchRound mem value s = .inl s') : OnPath path s'.path := by
  rw [searchRound] at hs
  split_ifs at hs
  cases hs
  exact h.advance

lemma mergeRound_map {path : BitVec 64} (s : Merge T) (h : OnPath path s.path) :
    SequentialHeap.mergeRound path s.toMerge = (mergeRound s).map Merge.toMerge Merge.toMerge := by
  rw [SequentialHeap.mergeRound, mergeRound]
  by_cases hc : s.outside ≠ 0
  · have hc' : s.toMerge.outsider ≠ 0 := hc
    have hbit := h.advance.and_maskOf
    rw [if_pos hc', if_pos hc]
    simp only [Merge.toMerge, h.maskOf_advance]
    by_cases hleft : nextIsLeft (advanceOneBit s.path) = true
    · rw [if_neg (mt hbit.mp (not_not.mpr hleft)), if_pos hleft]
      rfl
    · rw [if_pos (hbit.mpr hleft), if_neg hleft]
      rfl
  · have hc' : ¬ s.toMerge.outsider ≠ 0 := hc
    rw [if_neg hc', if_neg hc]
    rfl

lemma mergeRound_onPath {path : BitVec 64} {s s' : Merge T} (h : OnPath path s.path)
    (hs : mergeRound s = .inl s') : OnPath path s'.path := by
  rw [mergeRound] at hs
  dsimp only at hs
  split_ifs at hs <;> cases hs <;> exact h.advance

/-! ### The functions -/

lemma mergeOnPath_map (mem : Mem T) (outside inside : Ptr) {path : BitVec 64} {bits : List Bool}
    (h : OnPath path bits) :
    SequentialHeap.mergeOnPath fuel mem outside inside path (maskOf bits.length) =
      (mergeOnPath fuel mem outside inside bits).map fun mem => (mem, 0) := by
  have hloop := loop_map (fun s : Merge T => OnPath path s.path) Merge.toMerge Merge.toMerge
    mergeRound_map (fun _ _ => mergeRound_onPath) fuel ⟨mem, outside, inside, bits⟩ h
  have hstart : (⟨mem, outside, inside, bits⟩ : Merge T).toMerge =
      ⟨mem, outside, inside, maskOf bits.length⟩ := rfl
  rw [SequentialHeap.mergeOnPath, mergeOnPath, ← hstart, hloop]
  cases loop mergeRound fuel (⟨mem, outside, inside, bits⟩ : Merge T) with
  | none => rfl
  | some s => rfl

/-- Setting the next child on a path is setting the child that its mask says. -/
lemma setChild_eq (mem : Mem T) (parent node : Ptr) {path : BitVec 64} {bits : List Bool}
    (h : OnPath path bits) :
    setChild mem parent (path &&& maskOf bits.length) node = setNextChild mem parent bits node := by
  rw [setChild, setNextChild]
  simp only [h.and_maskOf]
  split_ifs <;> rfl

lemma insertOnPath_map [LinearOrder T] (h : Heap T) (node : Ptr) {bits : List Bool}
    (hpath : OnPath (BitVec.ofNat 64 h.n) bits)
    (htop : topMask (BitVec.ofNat 64 h.n) = maskOf bits.length) :
    SequentialHeap.insertOnPath fuel h.toState node =
      (insertOnPath fuel h node bits).map fun h' => (h'.toState, 0) := by
  set path := BitVec.ofNat 64 h.n with hnum
  have hround : ∀ s : Search, OnPath path s.path → _ :=
    searchRound_map h.mem (h.mem node).value
  have hloop := loop_map (fun s : Search => OnPath path s.path) Search.toSearch Search.toSearch
    hround (fun _ _ => searchRound_onPath) fuel ⟨bits, 0, h.root⟩ hpath
  have hstart : (⟨bits, 0, h.root⟩ : Search).toSearch = ⟨maskOf bits.length, 0, h.root⟩ := rfl
  rw [SequentialHeap.insertOnPath, insertOnPath]
  dsimp only [Heap.toState]
  rw [← hnum, htop, ← hstart, hloop]
  cases hfound : loop (searchRound h.mem (h.mem node).value) fuel ⟨bits, 0, h.root⟩ with
  | none => rfl
  | some found =>
    have hon : OnPath path found.path := by
      refine loop_partial (fun s : Search => OnPath path s.path) (fun s => OnPath path s.path)
        (fun _ _ => searchRound_onPath) (fun s r hs hr => ?_) fuel _ found hpath hfound
      rw [searchRound] at hr
      split_ifs at hr
      cases hr
      exact hs
    simp only [Option.map_some, Option.bind_eq_bind, Option.bind_some]
    by_cases hparent : found.parent = 0
    · have hparent' : found.toSearch.parent = 0 := hparent
      rw [if_pos hparent, if_pos hparent']
      dsimp only [Search.toSearch]
      rw [mergeOnPath_map h.mem found.current node hon]
      cases mergeOnPath fuel h.mem found.current node found.path with
      | none => rfl
      | some mem => rfl
    · have hparent' : ¬ found.toSearch.parent = 0 := hparent
      rw [if_neg hparent, if_neg hparent']
      dsimp only [Search.toSearch]
      rw [setChild_eq h.mem found.parent node hon, mergeOnPath_map _ found.current node hon]
      cases mergeOnPath fuel (setNextChild h.mem found.parent found.path node) found.current node
        found.path with
      | none => rfl
      | some mem => rfl

/-- The path to a node is on the bits of its number. -/
lemma onPath_pathTo (hk : k < 2 ^ 31) : OnPath (BitVec.ofNat 64 k) (pathTo k) := by
  have hsize : k.size ≤ 31 := Nat.size_le.mpr hk
  rw [pathTo_eq_lowBits, OnPath, length_lowBits, BitVec.toNat_ofNat, Nat.mod_eq_of_lt (by omega)]
  exact ⟨by omega, rfl⟩

lemma topMask_pathTo (h0 : k ≠ 0) (hk : k < 2 ^ 31) :
    topMask (BitVec.ofNat 64 k) = maskOf (pathTo k).length := by
  have hnat : (BitVec.ofNat 64 k).toNat = k := Nat.mod_eq_of_lt (by omega)
  have hsize : k.size = k.log2 + 1 := by
    refine le_antisymm (Nat.size_le.mpr Nat.lt_log2_self) ?_
    exact Nat.lt_size.mpr (Nat.log2_self_le h0)
  rw [topMask_eq _ (by rwa [hnat]) (by rwa [hnat]), hnat, pathTo_eq_lowBits, length_lowBits, hsize]
  rfl

lemma insertOnPath_n [LinearOrder T] {h h' : Heap T} {node : Ptr} {path : List Bool}
    (hins : insertOnPath fuel h node path = some h') : h'.n = h.n := by
  simp only [insertOnPath, Option.bind_eq_bind, Option.bind_eq_some_iff, Option.pure_def,
    Option.some.injEq] at hins
  obtain ⟨found, -, mem, -, rfl⟩ := hins
  dsimp only
  split_ifs <;> rfl

/-- `Insert` is the insertion of the program that descends past equal values. -/
lemma insert_map [LinearOrder T] (h : Heap T) {node : Ptr} (value : T) (hnode : node ≠ 0)
    (hn : h.n + 1 < 2 ^ 31) :
    heapInsert fuel { h with mem := Function.update h.mem node ⟨0, 0, value⟩ }.toState node value =
      (insert fuel h node value).map fun h' => (h'.toState, 0) := by
  have hmap := @insertOnPath_map _ fuel _
    { h with mem := Function.update h.mem node ⟨0, 0, value⟩, n := h.n + 1 } node
    _ (onPath_pathTo hn) (topMask_pathTo (Nat.succ_ne_zero h.n) hn)
  rw [insert, ← hmap, heapInsert, if_neg hnode]
  simp only [Heap.toState, Function.update_self, Function.update_idem]
  congr 3
  exact (BitVec.ofNat_add ..).symm

/-! ### Runs -/

/-- The comparison of the program. -/
def lessThan [LinearOrder T] (a b : T) : Bool := a < b

lemma lessThan_iff [LinearOrder T] {a b : T} : lessThan a b = true ↔ a < b := decide_eq_true_iff

lemma lessThan_strictWeakOrder [LinearOrder T] :
    IsStrictWeakOrder T fun a b => lessThan a b = true where
  irrefl a := by rw [lessThan_iff]; exact lt_irrefl a
  trans a b c := by simp only [lessThan_iff]; exact lt_trans
  incomp_trans a b c := by
    simp only [lessThan_iff, not_lt]
    exact fun hab hbc => ⟨hbc.1.trans hab.1, hab.2.trans hbc.2⟩

/-- The tree of values: the value at each position that has a node. -/
def valueTree (mem : Mem T) (root : Ptr) (k : ℕ) : Option T :=
  let node := walk mem root (pathBits k)
  if node = 0 then none else some (mem node).value

lemma valueTree_of_rep {t : State T} {D : ℕ → Prop} {addr : ℕ → Ptr} (hrep : Rep t D addr)
    (hk : 1 ≤ k) :
    valueTree t.mem t.heap.root k =
      if addr k = 0 then none else some (t.mem (addr k)).value := by
  have hnode : walk t.mem t.heap.root (pathBits k) = addr k := hrep.nodeAt_eq k hk
  rw [valueTree, hnode]

/-- What a run of `Insert` maintains. -/
structure InsertsAt [LinearOrder T] (h : Heap T) (calls : List (Ptr × T)) (addr : ℕ → Ptr) :
    Prop where
  rep  : Rep h.toState (fun k => 1 ≤ k ∧ k ≤ calls.length) addr
  n    : h.n = calls.length
  used : ∀ k, addr k ≠ 0 → addr k ∈ calls.map Prod.fst

section Runs

variable [LinearOrder T] {s : State T} {h : Heap T} {calls calls' : List (Ptr × T)}
  {addr addr' : ℕ → Ptr} {node : Ptr} {x : T}

lemma insertsAt_empty (mem : Mem T) : InsertsAt (empty mem) [] fun _ => 0 where
  rep := rep_of_root_null rfl
  n := rfl
  used _ hk := absurd rfl hk

lemma InsertsAt.insert (hat : InsertsAt h calls addr) (hnode : node ≠ 0)
    (hfresh : node ∉ calls.map Prod.fst) (hlen : calls.length + 1 < 2 ^ 31) (hfuel : 32 ≤ fuel) :
    ∃ h' i, insert fuel h node x = some h' ∧ StopsAt h.toState addr x (calls.length + 1) i ∧
      InsertsAt h' (calls ++ [(node, x)]) (newAddr addr node (calls.length + 1) i) ∧
      ∀ q, (h'.mem (newAddr addr node (calls.length + 1) i q)).value =
        shiftDown (calls.length + 1) (anc (calls.length + 1) i) x
          (fun k => (h.mem (addr k)).value) q := by
  set t : State T := { h with mem := Function.update h.mem node ⟨0, 0, x⟩ }.toState with ht
  have hnum : (t.heap.nNodes + 1).toNat = calls.length + 1 := by
    have hadd : t.heap.nNodes + 1 = BitVec.ofNat 64 (h.n + 1) := (BitVec.ofNat_add ..).symm
    rw [hadd, hat.n]
    exact Nat.mod_eq_of_lt (by omega)
  have hfresh' : ∀ k, addr k ≠ node := by
    intro k heq
    exact hfresh (heq ▸ hat.used k (heq ▸ hnode))
  have hold : ∀ k, t.mem (addr k) = h.mem (addr k) := fun k =>
    Function.update_of_ne (hfresh' k) _ _
  have hrep : Rep t (fun k => 1 ≤ k ∧ k ≤ calls.length) addr := hat.rep.congr rfl hold
  have hlead := leads_nNodes (t.heap.nNodes + 1) (by omega) (by omega)
  rw [hnum] at hlead
  have hlog : (calls.length + 1).log2 < 31 := (Nat.log2_lt (by omega)).mpr hlen
  obtain ⟨t', i, hrun, hstop, hrep', -, -, hx, hval⟩ :=
    heapInsert_spec hrep hfresh' hnode (free_succ _) hlead x fuel (by omega)
  rw [insert_map h x hnode (by rw [hat.n]; exact hlen)] at hrun
  obtain ⟨h', hins, heq⟩ := Option.map_eq_some_iff.mp hrun
  obtain rfl : h'.toState = t' := congrArg Prod.fst heq
  have hdom : ∀ k, (1 ≤ k ∧ k ≤ calls.length) ∨ k = calls.length + 1 ↔
      1 ≤ k ∧ k ≤ (calls ++ [(node, x)]).length := by
    intro k
    rw [List.length_append, List.length_singleton]
    omega
  refine ⟨h', i, hins, hstop.congr rfl fun k => (hold k).symm, ⟨?_, ?_, ?_⟩, fun q => ?_⟩
  · simpa only [hdom] using hrep'
  · rw [insertOnPath_n hins, hat.n, List.length_append]
    rfl
  · intro k hk
    rw [List.map_append]
    exact newAddr_mem hat.used hk
  · have hvalue : (h'.mem (newAddr addr node (calls.length + 1) i q)).value = _ :=
      value_newAddr hfresh' hx hval q
    simpa only [hold] using hvalue

/-- The two heaps of a run of each have the same values by position. -/
structure Agree (s : State T) (h : Heap T) (calls calls' : List (Ptr × T))
    (addr addr' : ℕ → Ptr) : Prop where
  run     : RunAt lessThan s calls addr
  inserts : InsertsAt h calls' addr'
  length  : calls.length = calls'.length
  values  : ∀ k ∈ Finset.Icc 1 calls.length,
    (s.mem (addr k)).value = (h.mem (addr' k)).value

/-- The program stops above the place where the pseudo-code stops, or at the same place, and all
values between the two places are equal to the new one. -/
lemma Agree.stops (hat : Agree s h calls calls' addr addr') {i i' : ℕ}
    (hstop : StopsAt s addr x (calls.length + 1) i)
    (hstop' : StopsAt h.toState addr' x (calls.length + 1) i') :
    i' ≤ i ∧ ∀ j, i' < j → j ≤ i → (s.mem (addr (anc (calls.length + 1) j))).value = x := by
  have hpos : ∀ j ≤ (calls.length + 1).log2, 0 < j →
      anc (calls.length + 1) j ∈ Finset.Icc 1 calls.length := by
    intro j hj hj0
    have habove := (free_succ calls.length).above j hj0 ((free_succ calls.length).anc_pos hj)
    exact Finset.mem_Icc.mpr habove
  have hnode : ∀ j ≤ (calls.length + 1).log2, 0 < j → addr (anc (calls.length + 1) j) ≠ 0 :=
    fun j hj hj0 => (hat.run.rep.dom _).mpr (Finset.mem_Icc.mp (hpos j hj hj0))
  have hnode' : ∀ j ≤ (calls.length + 1).log2, 0 < j → addr' (anc (calls.length + 1) j) ≠ 0 := by
    intro j hj hj0
    refine (hat.inserts.rep.dom _).mpr ?_
    rw [← hat.length]
    exact Finset.mem_Icc.mp (hpos j hj hj0)
  have hle : i' ≤ i := by
    by_contra hlt
    rw [not_le] at hlt
    have hi0 : 0 < i' := Nat.zero_lt_of_lt hlt
    have hless := hstop.above i' hlt (hnode i' hstop'.le hi0)
    have hhere := hstop'.here (hnode' i' hstop'.le hi0)
    rw [hat.run.cmp, lessThan_iff, hat.values _ (hpos i' hstop'.le hi0)] at hless
    exact hhere (lessOrEqual_iff.mpr hless.le)
  refine ⟨hle, fun j hlt hji => le_antisymm ?_ ?_⟩
  · -- a label of the path above the one at which the program stops
    have hpath := hat.run.ordered.path (x := x) lessThan_strictWeakOrder
      ((free_succ calls.length).anc_pos hstop.le) (fun hi => ?_) (Nat.zero_lt_of_lt hlt) hji
    · rwa [lessThan_iff, not_lt] at hpath
    · have hhere := hstop.here (hnode i hstop.le ((Nat.zero_lt_of_lt hlt).trans_le hji))
      rwa [hat.run.cmp] at hhere
  · have habove := hstop'.above j hlt
      (hnode' j (hji.trans hstop.le) (Nat.zero_lt_of_lt hlt))
    rw [hat.values _ (hpos j (hji.trans hstop.le) (Nat.zero_lt_of_lt hlt))]
    exact lessOrEqual_iff.mp habove

/-- One insertion into each of the two heaps. -/
lemma Agree.insert (hat : Agree s h calls calls' addr addr') {node' : Ptr}
    (hnode : node ≠ 0) (hnode' : node' ≠ 0) (hfresh : node ∉ calls.map Prod.fst)
    (hfresh' : node' ∉ calls'.map Prod.fst) (hlen : calls.length + 1 < 2 ^ 31)
    (hfuel : 32 ≤ fuel) :
    ∃ s' h' addr₁ addr₁', heapInsert fuel s node x = some (s', 0) ∧
      AwesomeHeap.insert fuel h node' x = some h' ∧
      Agree s' h' (calls ++ [(node, x)]) (calls' ++ [(node', x)]) addr₁ addr₁' := by
  obtain ⟨s', i, hrun, hstop, hrun', hvalue⟩ :=
    hat.run.insert (x := x) lessThan_strictWeakOrder hnode hfresh hlen fuel hfuel
  obtain ⟨h', i', hins, hstop', hins', hvalue'⟩ :=
    hat.inserts.insert (x := x) hnode' hfresh' (hat.length ▸ hlen) hfuel
  rw [← hat.length] at hstop' hvalue' hins'
  obtain ⟨hle, hlabels⟩ := hat.stops hstop hstop'
  have hi : 0 < anc (calls.length + 1) i := (free_succ calls.length).anc_pos hstop.le
  have hi' : 0 < anc (calls.length + 1) i' := (free_succ calls.length).anc_pos hstop'.le
  refine ⟨s', h', _, _, hrun, hins, hrun', hins', ?_, fun k hk => ?_⟩
  · rw [List.length_append, List.length_append, hat.length]
    rfl
  · rw [List.length_append, List.length_singleton] at hk
    rw [hvalue, hvalue', shiftDown_eq_of_labels hle hi hlabels]
    exact shiftDown_congr hi' hk hat.values

lemma Agree.valueTree (hat : Agree s h calls calls' addr addr') :
    valueTree s.mem s.heap.root = valueTree h.mem h.root := by
  have hpos : ∀ k, 1 ≤ k → AwesomeHeap.valueTree s.mem s.heap.root k =
      AwesomeHeap.valueTree h.mem h.root k := by
    intro k hk
    have hpseudo := valueTree_of_rep hat.inserts.rep hk
    rw [valueTree_of_rep hat.run.rep hk, show AwesomeHeap.valueTree h.mem h.root k = _ from hpseudo]
    have hdom := hat.run.rep.dom k
    have hdom' := hat.inserts.rep.dom k
    rw [← hat.length] at hdom'
    by_cases hmem : 1 ≤ k ∧ k ≤ calls.length
    · rw [if_neg (hdom.mpr hmem), if_neg (hdom'.mpr hmem), hat.values k (Finset.mem_Icc.mpr hmem)]
      rfl
    · rw [if_pos (not_not.mp (mt hdom.mp hmem)), if_pos (not_not.mp (mt hdom'.mp hmem))]
  funext k
  cases k with
  | zero => exact hpos 1 le_rfl
  | succ k => exact hpos (k + 1) (Nat.succ_pos k)

/-- A run of fewer than `2 ^ 31` insertions into each of the two heaps. -/
lemma inserts_agree (mem mem' : Mem T) (hfuel : 32 ≤ fuel)
    (hlen : calls.length < 2 ^ 31) (hvalues : calls.map Prod.snd = calls'.map Prod.snd)
    (hnull : ∀ c ∈ calls, c.1 ≠ 0) (hnull' : ∀ c ∈ calls', c.1 ≠ 0)
    (hnodup : (calls.map Prod.fst).Nodup) (hnodup' : (calls'.map Prod.fst).Nodup) :
    ∃ s h addr addr', heapInserts fuel (heapInit mem lessThan) calls = some s ∧
      inserts fuel (empty mem') calls' = some h ∧ Agree s h calls calls' addr addr' := by
  induction calls using List.reverseRecOn generalizing calls' with
  | nil =>
    obtain rfl : calls' = [] := List.map_eq_nil_iff.mp hvalues.symm
    exact ⟨_, _, _, _, rfl, rfl, runAt_init mem lessThan, insertsAt_empty mem', rfl, by simp⟩
  | append_singleton calls c ih =>
    rw [List.map_append, eq_comm, List.map_eq_append_iff] at hvalues
    obtain ⟨calls', last, rfl, hold, hlast⟩ := hvalues
    obtain ⟨c', rfl, hc⟩ := List.map_eq_singleton_iff.mp hlast
    rw [List.length_append, List.length_singleton] at hlen
    rw [List.map_append, List.nodup_append] at hnodup hnodup'
    obtain ⟨s, h, addr, addr', hrun, hins, hat⟩ := ih (Nat.lt_of_succ_lt hlen) hold.symm
      (fun c hc => hnull c (List.mem_append_left _ hc))
      (fun c hc => hnull' c (List.mem_append_left _ hc)) hnodup.1 hnodup'.1
    have hfresh : c.1 ∉ calls.map Prod.fst := fun hc => hnodup.2.2 _ hc _ (by simp) rfl
    have hfresh' : c'.1 ∉ calls'.map Prod.fst := fun hc => hnodup'.2.2 _ hc _ (by simp) rfl
    obtain ⟨s', h', addr₁, addr₁', hrun', hins', hat'⟩ := hat.insert (x := c.2)
      (hnull c (by simp)) (hnull' c' (by simp)) hfresh hfresh' hlen hfuel
    refine ⟨s', h', addr₁, addr₁', ?_, ?_, ?_⟩
    · rw [heapInserts] at hrun ⊢
      rw [List.foldlM_append, hrun]
      simp [hrun']
    · rw [inserts] at hins ⊢
      rw [List.foldlM_append, hins]
      simp [hc, hins']
    · have hpair : c' = (c'.1, c.2) := Prod.ext rfl hc
      rw [hpair]
      exact hat'

end Runs

/-- For every sequence of fewer than `2 ^ 31` values, inserted into fresh nodes, the tree of values
that the program builds is the one that the pseudo-code builds, position by position. -/
theorem heapInserts_valueTree [LinearOrder T] (mem mem' : Mem T) (fuel : ℕ) (hfuel : 32 ≤ fuel)
    (calls calls' : List (Ptr × T)) (hlen : calls.length < 2 ^ 31)
    (hvalues : calls.map Prod.snd = calls'.map Prod.snd)
    (hnull : ∀ c ∈ calls, c.1 ≠ 0) (hnull' : ∀ c ∈ calls', c.1 ≠ 0)
    (hnodup : (calls.map Prod.fst).Nodup) (hnodup' : (calls'.map Prod.fst).Nodup) :
    ∃ s h, heapInserts fuel (heapInit mem lessThan) calls = some s ∧
      inserts fuel (empty mem') calls' = some h ∧
      valueTree s.mem s.heap.root = valueTree h.mem h.root := by
  obtain ⟨s, h, addr, addr', hrun, hins, hat⟩ :=
    inserts_agree mem mem' hfuel hlen hvalues hnull hnull' hnodup hnodup'
  exact ⟨s, h, hrun, hins, hat.valueTree⟩

/-- Two equal values and a smaller one, into different nodes. -/
theorem heapInserts_valueTree_ties :
    ∃ s h, heapInserts 32 (heapInit (fun _ => ⟨0, 0, 0⟩) lessThan)
        [(8, (5 : ℤ)), (16, 2), (24, 5)] = some s ∧
      inserts 32 (empty fun _ => ⟨0, 0, 0⟩) [(3, (5 : ℤ)), (2, 2), (1, 5)] = some h ∧
      valueTree s.mem s.heap.root = valueTree h.mem h.root :=
  heapInserts_valueTree _ _ 32 le_rfl _ _ (by simp) rfl (by simp) (by simp) (by simp) (by simp)

end Osm.AwesomeHeap
