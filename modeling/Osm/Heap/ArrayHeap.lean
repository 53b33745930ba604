import Osm.Heap.Invariant

/-!
# The pointer heap and the array heap

The textbook heap keeps its values in an array, the value of position `k` at index `k - 1`, and
inserts by appending the new value and exchanging it with its parent as long as it is not
smaller. Walking down from the root and walking up from the last leaf stop at the same position,
because the values on the path are sorted; both leave the `shiftDown` of the labels from there.

The `int` shift in `insert_on_path` overflows when the heap reaches `2 ^ 31` nodes: the masks
then lead to the last position of the level below instead of its first.
-/

namespace Osm.SequentialHeap

open Core

variable {T : Type}

/-- Sift the value at index `i` up: exchange it with its parent as long as it is not smaller. -/
def siftUp (less : T → T → Bool) (a : Array T) (i : ℕ) : Array T :=
  if h : 0 < i ∧ i < a.size then
    if less a[i] a[(i - 1) / 2] then a
    else siftUp less (a.swap i ((i - 1) / 2)) ((i - 1) / 2)
  else a
termination_by i

/-- `a` is the level-order array of the tree: its entry at index `k` is the value of the node at
position `k + 1`, and there are no other nodes. -/
structure LevelOrder (s : State T) (a : Array T) : Prop where
  size : a.size = s.heap.nNodes.toNat
  node : ∀ k, s.nodeAt (k + 1) ≠ 0 ↔ k < a.size
  value : ∀ k (h : k < a.size), s.valueAt (k + 1) = a[k]

/-- Inserting `x` into the pointer heap does to its level-order array what appending and sifting
up does. -/
def RefinesSiftUp (fuel : ℕ) (s : State T) (node : Ptr) (x : T) : Prop :=
  ∀ a, LevelOrder s a → ∃ s', heapInsert fuel s node x = some (s', 0) ∧
    LevelOrder s' (siftUp s.heap.less (a.push x) s.heap.nNodes.toNat)

/-! ### Sifting up along the path -/

/-- The array of the labels of the positions `1..n`. -/
def labels (n : ℕ) (f : ℕ → T) : Array T := Array.ofFn fun k : Fin n => f (k + 1)

@[simp] lemma size_labels (n : ℕ) (f : ℕ → T) : (labels n f).size = n := by simp [labels]

@[simp] lemma getElem_labels (n : ℕ) (f : ℕ → T) (k : ℕ) (h : k < (labels n f).size) :
    (labels n f)[k] = f (k + 1) := by simp [labels]

/-- Exchanging the moving label with the one above moves the start of the shift up. -/
lemma labels_swap {n j : ℕ} (hj : 0 < anc n (j + 1)) (x : T) (f : ℕ → T)
    (h : anc n j - 1 < (labels n (shiftDown n (anc n j) x f)).size)
    (h' : anc n (j + 1) - 1 < (labels n (shiftDown n (anc n j) x f)).size) :
    (labels n (shiftDown n (anc n j) x f)).swap (anc n j - 1) (anc n (j + 1) - 1) h h' =
      labels n (shiftDown n (anc n (j + 1)) x f) := by
  have hpos : 0 < anc n j := lt_of_lt_of_le hj (anc_antitone n (Nat.le_succ j))
  have hlt : anc n (j + 1) < anc n j := anc_succ_lt hpos
  have habove : shiftDown n (anc n j) x f (anc n (j + 1)) = f (anc n (j + 1)) :=
    shiftDown_above hlt x f
  apply Array.ext
  · simp
  · intro k hk hk'
    rw [Array.getElem_swap]
    simp only [getElem_labels]
    split_ifs with h1 h2
    · rw [show k + 1 = anc n j by omega, show anc n (j + 1) - 1 + 1 = anc n (j + 1) by omega,
        habove, shiftDown_anc hlt]
    · rw [show k + 1 = anc n (j + 1) by omega, show anc n j - 1 + 1 = anc n j by omega,
        shiftDown_self, shiftDown_self]
    · -- away from the two positions the two shifts agree
      have hne : k + 1 ≠ anc n j := by omega
      have hne' : k + 1 ≠ anc n (j + 1) := by omega
      by_cases hb : BelowOnPath n (anc n j) (k + 1)
      · obtain ⟨l, hl, hkl, -⟩ := hb.half
        rw [hkl, shiftDown_anc (by rw [← hkl]; exact hb.1),
          shiftDown_anc (by rw [← hkl]; exact hlt.trans hb.1)]
      · have hb' : ¬ BelowOnPath n (anc n (j + 1)) (k + 1) := by
          intro hb'
          obtain ⟨l, hl, hkl, -⟩ := hb'.half
          rcases Nat.lt_or_ge l j with hlt' | hge
          · have hposl : 0 < anc n l := lt_of_lt_of_le hpos (anc_antitone n hlt'.le)
            exact hb (hkl ▸ belowOnPath_anc (anc_lt hlt' hposl))
          · exact hne (hkl.trans (congrArg _ (by omega)))
        rw [shiftDown_off hne hb, shiftDown_off hne' hb']

/-- From any path position below the insertion point sifting up ends at the insertion point. -/
lemma siftUp_labels {less : T → T → Bool}
    (hless : IsStrictWeakOrder T fun a b => less a b = true) {n i : ℕ} {f : ℕ → T}
    (h : Ordered less n f) {x : T} (hi : 0 < anc (n + 1) i)
    (habove : ∀ l, i < l → 0 < anc (n + 1) l → less x (f (anc (n + 1) l)))
    (hhere : anc (n + 1) i ≤ n → ¬ less x (f (anc (n + 1) i))) (d j : ℕ) (hd : j + d = i) :
    siftUp less (labels (n + 1) (shiftDown (n + 1) (anc (n + 1) j) x f)) (anc (n + 1) j - 1) =
      labels (n + 1) (shiftDown (n + 1) (anc (n + 1) i) x f) := by
  have hsucc : ∀ l, anc (n + 1) (l + 1) = anc (n + 1) l / 2 := anc_succ (n + 1)
  induction d generalizing j with
  | zero =>
    obtain rfl : j = i := by omega
    rw [siftUp]
    split_ifs with hroot hstop
    · rfl
    · -- the value above the insertion point is greater
      refine absurd ?_ hstop
      have hs := hsucc j
      have hlt : anc (n + 1) (j + 1) < anc (n + 1) j := anc_succ_lt hi
      have hpos : 0 < anc (n + 1) (j + 1) := by omega
      have hup : shiftDown (n + 1) (anc (n + 1) j) x f (anc (n + 1) (j + 1)) =
          f (anc (n + 1) (j + 1)) := shiftDown_above hlt x f
      rw [getElem_labels, getElem_labels, show anc (n + 1) j - 1 + 1 = anc (n + 1) j by omega,
        show (anc (n + 1) j - 1 - 1) / 2 + 1 = anc (n + 1) (j + 1) by omega, shiftDown_self, hup]
      exact habove (j + 1) (Nat.lt_succ_self j) hpos
    · rfl
  | succ d ih =>
    have hs := hsucc j
    have hpos : 0 < anc (n + 1) (j + 1) :=
      lt_of_lt_of_le hi (anc_antitone (n + 1) (show j + 1 ≤ i by omega))
    have hlt : anc (n + 1) (j + 1) < anc (n + 1) j := anc_succ_lt (by omega)
    have hbound := anc_le (n + 1) j
    have hup : shiftDown (n + 1) (anc (n + 1) j) x f (anc (n + 1) (j + 1)) =
        f (anc (n + 1) (j + 1)) := shiftDown_above hlt x f
    have hidx : (anc (n + 1) j - 1 - 1) / 2 = anc (n + 1) (j + 1) - 1 := by omega
    rw [siftUp, dif_pos ⟨by omega, by simp; omega⟩]
    rw [if_neg]
    · simp only [hidx]
      rw [labels_swap hpos]
      exact ih (j + 1) (by omega)
    · rw [getElem_labels, getElem_labels, show anc (n + 1) j - 1 + 1 = anc (n + 1) j by omega,
        show (anc (n + 1) j - 1 - 1) / 2 + 1 = anc (n + 1) (j + 1) by omega, shiftDown_self, hup]
      exact h.path hless hi hhere (Nat.succ_pos j) (by omega)

/-! ### Insertions -/

section Runs

variable {less : T → T → Bool} {s : State T} {calls : List (Ptr × T)} {addr : ℕ → Ptr}

/-- The level-order array of a state of a run. -/
lemma RunAt.levelOrder (h : RunAt less s calls addr) :
    LevelOrder s (labels calls.length fun k => (s.mem (addr k)).value) where
  size := by rw [size_labels, h.nNodes]
  node k := by
    rw [h.rep.nodeAt_eq _ (by omega), h.rep.dom, size_labels]
    omega
  value k hk := by
    rw [getElem_labels, State.valueAt, h.rep.nodeAt_eq _ (by omega)]

lemma LevelOrder.unique {a b : Array T} (ha : LevelOrder s a) (hb : LevelOrder s b) : a = b := by
  refine Array.ext (ha.size.trans hb.size.symm) fun k hk hk' => ?_
  rw [← ha.value k hk, ← hb.value k hk']

/-- Up to `2 ^ 31 - 1` nodes the pointer heap does what the array heap does. -/
lemma RunAt.refinesSiftUp (hless : IsStrictWeakOrder T fun a b => less a b = true)
    (h : RunAt less s calls addr) {node : Ptr} (x : T) (hnode : node ≠ 0)
    (hfresh : node ∉ calls.map Prod.fst) (hlen : calls.length + 1 < 2 ^ 31) (fuel : ℕ)
    (hfuel : 32 ≤ fuel) : RefinesSiftUp fuel s node x := by
  intro a ha
  obtain rfl := ha.unique h.levelOrder
  obtain ⟨s', i, hrun, hstop, hat, hvalues⟩ := h.insert (x := x) hless hnode hfresh hlen fuel hfuel
  have hs : 0 < anc (calls.length + 1) i := (anc_pos_iff (by omega)).mpr hstop.le
  refine ⟨s', hrun, ?_⟩
  have hpush : (labels calls.length fun k => (s.mem (addr k)).value).push x =
      labels (calls.length + 1) (shiftDown (calls.length + 1) (anc (calls.length + 1) 0) x
        fun k => (s.mem (addr k)).value) := by
    refine Array.ext (by simp) fun k hk hk' => ?_
    rw [Array.getElem_push, getElem_labels, anc_zero]
    simp only [getElem_labels, size_labels] at hk' ⊢
    split_ifs with hlt
    · rw [shiftDown_above (by omega)]
    · rw [show k + 1 = calls.length + 1 by omega, shiftDown_self]
  have hlast : s.heap.nNodes.toNat = anc (calls.length + 1) 0 - 1 := by simp [h.nNodes]
  rw [hpush, hlast, h.cmp, siftUp_labels hless h.ordered hs (fun l hl hpos => ?_) (fun hle => ?_) i
    0 (by omega)]
  · have hlevel := hat.levelOrder
    simpa only [hvalues, List.length_append, List.length_singleton] using hlevel
  · rw [← h.cmp]
    exact hstop.above l hl (h.rep.addr_ne ((free_succ _).above l (by omega) hpos))
  · rw [← h.cmp]
    exact hstop.here (h.rep.addr_ne ⟨hs, hle⟩)

/-- The masks of the insertion that makes the `2 ^ 31`-st node: the sign bit of the shifted `int`
fills the upper half of the `size_t`. -/
def overflowMasks (j : ℕ) : BitVec 64 := topMask (BitVec.twoPow 64 31) >>> (31 - j)

/-- They read every bit of the path as set. -/
lemma leads_overflow : Leads (BitVec.twoPow 64 31) (2 ^ 32 - 1) overflowMasks := by
  have hlog : (2 ^ 32 - 1).log2 = 31 := by decide
  refine ⟨by rw [hlog]; rfl, ?_, ?_⟩ <;> rw [hlog]
  · decide
  · decide

/-- The insertion that makes the `2 ^ 31`-st node leaves its position empty. -/
lemma RunAt.not_refinesSiftUp (h : RunAt less s calls addr) {node : Ptr} (x : T)
    (hnode : node ≠ 0) (hfresh : node ∉ calls.map Prod.fst) (hlen : calls.length + 1 = 2 ^ 31)
    (fuel : ℕ) (hfuel : 32 ≤ fuel) : ¬ RefinesSiftUp fuel s node x := by
  intro href
  obtain ⟨s', hrun, hlevel⟩ := href _ h.levelOrder
  have hpath : s.heap.nNodes + 1 = BitVec.twoPow 64 31 := by
    apply BitVec.eq_of_toNat_eq
    rw [BitVec.toNat_add, h.nNodes, BitVec.toNat_twoPow, show BitVec.toNat (1 : BitVec 64) = 1 from rfl]
    omega
  have hfree : Free (fun k => 1 ≤ k ∧ k ≤ calls.length) (2 ^ 32 - 1) := by
    refine ⟨by decide, by omega, fun j hj hpos => ⟨hpos, ?_⟩⟩
    have hj1 := anc_antitone (2 ^ 32 - 1) (show 1 ≤ j from hj)
    have h1 : anc (2 ^ 32 - 1) 1 = 2 ^ 31 - 1 := by decide
    omega
  have hfresh' : ∀ k, addr k ≠ node := by
    intro k heq
    exact hfresh (heq ▸ h.used k (heq ▸ hnode))
  obtain ⟨t, i, hrun', -, hrep, -, hnum, -, -⟩ := heapInsert_spec h.rep hfresh' hnode hfree
    (hpath ▸ leads_overflow) x fuel (lt_of_lt_of_le (by decide) hfuel)
  obtain rfl : t = s' := by simpa [hrun'] using hrun
  have hnode' := (hlevel.node calls.length).mpr (by
    rw [hlevel.size]
    rw [hnum, hpath, BitVec.toNat_twoPow]
    omega)
  rw [hrep.nodeAt_eq _ (by omega), hrep.dom] at hnode'
  omega

end Runs

/-- After a run of fewer than `2 ^ 31` insertions the next one does to the level-order array what
appending and sifting up does, exactly if it does not make the `2 ^ 31`-st node. -/
theorem heapInsert_refinesSiftUp_iff {less : T → T → Bool}
    (hless : IsStrictWeakOrder T fun a b => less a b = true) (mem : Mem T) (fuel : ℕ)
    (hfuel : 32 ≤ fuel) (calls : List (Ptr × T)) (hlen : calls.length < 2 ^ 31)
    (hnull : ∀ c ∈ calls, c.1 ≠ 0) (hnodup : (calls.map Prod.fst).Nodup) (node : Ptr)
    (hnode : node ≠ 0) (hfresh : node ∉ calls.map Prod.fst) (x : T) :
    ∃ s, heapInserts fuel (heapInit mem less) calls = some s ∧
      (RefinesSiftUp fuel s node x ↔ calls.length + 1 < 2 ^ 31) := by
  obtain ⟨s, addr, hrun, hat⟩ := heapInserts_runAt hless mem fuel hfuel calls hlen hnull hnodup
  refine ⟨s, hrun, fun href => ?_, fun hlt => hat.refinesSiftUp hless x hnode hfresh hlt fuel hfuel⟩
  by_contra hge
  exact hat.not_refinesSiftUp x hnode hfresh (by omega) fuel hfuel href

/-- Inserting `3` after `1` and `2`. -/
theorem heapInsert_refinesSiftUp_iff_three :
    ∃ s, heapInserts 32 (heapInit (fun _ => ⟨0, 0, 0⟩) less) [(8, 1), (16, 2)] = some s ∧
      (RefinesSiftUp 32 s 24 3 ↔ [(8, (1 : ℤ)), (16, 2)].length + 1 < 2 ^ 31) :=
  heapInsert_refinesSiftUp_iff less_strictWeakOrder _ 32 le_rfl _ (by simp) (by simp) (by simp) 24
    (by simp) (by simp) 3

/-- A run of `2 ^ 31 - 1` insertions of the same value, after which the next insertion puts a
node into the wrong place. -/
theorem heapInsert_overflow :
    ∃ s, heapInserts 32 (heapInit (fun _ => ⟨0, 0, 0⟩) less)
        ((List.range (2 ^ 31 - 1)).map fun k => (k + 1, 0)) = some s ∧
      ¬ RefinesSiftUp 32 s (2 ^ 31 : ℕ) 0 := by
  have hlen : ((List.range (2 ^ 31 - 1)).map fun k => (k + 1, (0 : ℤ))).length = 2 ^ 31 - 1 := by
    rw [List.length_map, List.length_range]
  have hfst : ((List.range (2 ^ 31 - 1)).map fun k => (k + 1, (0 : ℤ))).map Prod.fst =
      (List.range (2 ^ 31 - 1)).map (· + 1) := by
    rw [List.map_map]
    rfl
  obtain ⟨s, addr, hrun, hat⟩ := heapInserts_runAt less_strictWeakOrder (fun _ => ⟨0, 0, 0⟩) 32
    le_rfl ((List.range (2 ^ 31 - 1)).map fun k => (k + 1, 0)) (by rw [hlen]; omega)
    (by
      intro c hc
      obtain ⟨k, -, rfl⟩ := List.mem_map.mp hc
      exact Nat.succ_ne_zero k)
    (by
      rw [hfst]
      exact List.nodup_range.map fun a b hab => by simpa using hab)
  refine ⟨s, hrun, hat.not_refinesSiftUp 0 (Nat.two_pow_pos 31).ne' ?_ (by rw [hlen]; omega) 32
    le_rfl⟩
  rw [hfst]
  intro hmem
  obtain ⟨k, hk, hk1⟩ := List.mem_map.mp hmem
  rw [List.mem_range] at hk
  have hlast : k + 1 = 2 ^ 31 := hk1
  omega

end Osm.SequentialHeap
