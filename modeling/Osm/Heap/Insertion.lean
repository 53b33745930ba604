import Osm.Core.BinaryPath
import Osm.Heap.Sequential

/-!
# What an insertion does to the tree

`Rep` describes a tree in memory by the function `addr` from positions to pointers. The bits an
insertion reads from its masks lead to some position `m` just outside the tree. The insertion
finds the first position on the path to `m` whose value is not greater than the new one, puts the
new node there and moves the nodes of the rest of the path one position down: the new position
function is `shiftDown` of the old one (`heapInsert_spec`).
-/

namespace Osm.SequentialHeap

open Core

variable {T : Type}

/-- The nodes of the tree of `s` sit exactly at the positions in `D`, node `addr k` at position
`k`. -/
structure Rep (s : State T) (D : ℕ → Prop) (addr : ℕ → Ptr) : Prop where
  root : s.heap.root = addr 1
  dom : ∀ k, addr k ≠ 0 ↔ D k
  pos : ∀ k, D k → 1 ≤ k
  parent : ∀ k, D k → 2 ≤ k → D (k / 2)
  inj : ∀ j k, addr j ≠ 0 → addr j = addr k → j = k
  left : ∀ k, addr k ≠ 0 → (s.mem (addr k)).leftChild = addr (2 * k)
  right : ∀ k, addr k ≠ 0 → (s.mem (addr k)).rightChild = addr (2 * k + 1)

/-- `m` is a free position of the tree whose parent is in the tree. -/
structure Free (D : ℕ → Prop) (m : ℕ) : Prop where
  pos : 0 < m
  free : ¬ D m
  above : ∀ j, 0 < j → 0 < anc m j → D (anc m j)

/-- The masks of an insertion, `masks j` after the path has `j` bits left: with them `path`
reads as the bits of `m`. -/
structure Leads (path : BitVec 64) (m : ℕ) (masks : ℕ → BitVec 64) : Prop where
  top : topMask path = masks m.log2
  shift : ∀ j < m.log2, masks (j + 1) >>> 1 = masks j
  bit : ∀ j < m.log2, path &&& masks j > 0 ↔ m.testBit j = true

section Positions

variable {s : State T} {D : ℕ → Prop} {addr : ℕ → Ptr}

lemma Rep.addr_zero (h : Rep s D addr) : addr 0 = 0 := by
  by_contra h0
  have := h.pos 0 ((h.dom 0).mp h0)
  omega

lemma Rep.addr_ne (h : Rep s D addr) {k : ℕ} (hk : D k) : addr k ≠ 0 := (h.dom k).mpr hk

lemma Rep.child_eq (h : Rep s D addr) {k : ℕ} (b : Bool) (hk : 1 ≤ k) :
    child s.mem (addr k) b = addr (2 * k + b.toNat) := by
  rw [child]
  split_ifs with h0 hb
  · symm
    by_contra hne
    have hhalf := h.parent _ ((h.dom _).mp hne) (by omega)
    have hk2 : (2 * k + b.toNat) / 2 = k := by have := Bool.toNat_lt b; omega
    rw [hk2] at hhalf
    exact h.addr_ne hhalf h0
  · rw [h.right k h0, hb]; rfl
  · rw [h.left k h0, Bool.eq_false_of_not_eq_true hb]; rfl

/-- The memory outside the tree does not matter. -/
lemma Rep.congr {t : State T} (h : Rep s D addr) (hroot : t.heap.root = s.heap.root)
    (hmem : ∀ k, t.mem (addr k) = s.mem (addr k)) : Rep t D addr := by
  refine ⟨hroot.trans h.root, h.dom, h.pos, h.parent, h.inj, fun k hk => ?_, fun k hk => ?_⟩
  · rw [hmem, h.left k hk]
  · rw [hmem, h.right k hk]

/-- The position function is determined by the tree. -/
lemma Rep.nodeAt_eq (h : Rep s D addr) : ∀ k, 1 ≤ k → s.nodeAt k = addr k := by
  intro k
  induction k using Nat.strongRecOn with
  | ind k ih =>
    intro hk
    rcases Nat.lt_or_ge k 2 with hlt | hge
    · obtain rfl : k = 1 := by omega
      rw [s.nodeAt_one, h.root]
    · have hsplit : k = 2 * (k / 2) + (decide (k % 2 = 1)).toNat := by
        rcases Nat.mod_two_eq_zero_or_one k with h0 | h1
        · simp [h0]; omega
        · simp [h1]; omega
      rw [hsplit, s.nodeAt_bit _ _ (by omega), ih (k / 2) (by omega) (by omega),
        h.child_eq _ (by omega)]

/-- A node on the path to a free position is not at its end. -/
lemma Free.pos_of_node (h : Rep s D addr) {m : ℕ} (hm : Free D m) {j : ℕ}
    (hne : addr (anc m j) ≠ 0) : 0 < j := by
  by_contra h0
  obtain rfl : j = 0 := by omega
  rw [anc_zero] at hne
  exact hm.free ((h.dom _).mp hne)

lemma Free.anc_pos {m : ℕ} (hm : Free D m) {j : ℕ} (hj : j ≤ m.log2) : 0 < anc m j :=
  (anc_pos_iff hm.pos).mpr hj

end Positions

/-! ### Masks -/

/-- A mask of one bit goes down the path. -/
lemma twoPow_ushiftRight {l j : ℕ} (hl : l < 64) (hj : j ≤ l) :
    BitVec.twoPow 64 l >>> j = BitVec.twoPow 64 (l - j) := by
  apply BitVec.eq_of_getLsbD_eq
  intro i hi
  rw [BitVec.getLsbD_ushiftRight, BitVec.getLsbD_twoPow, BitVec.getLsbD_twoPow]
  simp only [hl, show l - j < 64 by omega, decide_true, Bool.true_and, decide_eq_decide]
  omega

lemma twoPow_shift (j : ℕ) (hj : j + 1 < 64) :
    BitVec.twoPow 64 (j + 1) >>> 1 = BitVec.twoPow 64 j :=
  twoPow_ushiftRight hj (Nat.le_add_left 1 j)

/-- The test `path & mask` reads one bit of the path. -/
lemma and_twoPow_pos (path : BitVec 64) (j : ℕ) (hj : j < 64) :
    path &&& BitVec.twoPow 64 j > 0 ↔ path.toNat.testBit j = true := by
  rw [BitVec.and_twoPow, ← BitVec.testBit_toNat]
  split_ifs with h
  · have hlt : 2 ^ j < 2 ^ 64 := Nat.pow_lt_pow_right (by omega) hj
    rw [gt_iff_lt, BitVec.lt_def, BitVec.toNat_twoPow, Nat.mod_eq_of_lt hlt]
    exact iff_of_true (Nat.two_pow_pos j) h
  · simp [h]

/-- For fewer than `2 ^ 31` nodes the `int` shift does not reach the sign bit. -/
lemma topMask_eq (path : BitVec 64) (h0 : path.toNat ≠ 0) (h : path.toNat < 2 ^ 31) :
    topMask path = BitVec.twoPow 64 path.toNat.log2 := by
  have hlog : path.toNat.log2 < 31 := (Nat.log2_lt h0).mpr h
  have hp : 2 ^ path.toNat.log2 < 2 ^ 31 := Nat.pow_lt_pow_right (by omega) hlog
  have hone : (1#32 <<< path.toNat.log2).toNat = 2 ^ path.toNat.log2 := by
    rw [BitVec.toNat_shiftLeft, Nat.shiftLeft_eq, BitVec.toNat_ofNat,
      Nat.mod_eq_of_lt (show 1 < 2 ^ 32 by omega), one_mul]
    exact Nat.mod_eq_of_lt (by omega)
  have hmsb : (1#32 <<< path.toNat.log2).msb = false := by
    rw [BitVec.msb_eq_decide, hone]; simpa using hp
  apply BitVec.eq_of_toNat_eq
  rw [topMask, ilogb, BitVec.signExtend_eq_setWidth_of_msb_false hmsb, BitVec.toNat_setWidth, hone,
    BitVec.toNat_twoPow]

/-- Fewer than `2 ^ 31` nodes: the masks lead to the position `n_nodes`. -/
lemma leads_nNodes (path : BitVec 64) (h0 : path.toNat ≠ 0) (h : path.toNat < 2 ^ 31) :
    Leads path path.toNat (BitVec.twoPow 64) := by
  have hlog : path.toNat.log2 < 31 := (Nat.log2_lt h0).mpr h
  exact ⟨topMask_eq path h0 h, fun j hj => twoPow_shift j (by omega),
    fun j hj => and_twoPow_pos path j (by omega)⟩

/-! ### Field updates -/

@[simp] lemma Mem.setLeft_value (mem : Mem T) (p c q : Ptr) :
    (mem.setLeft p c q).value = (mem q).value := by
  by_cases h : q = p <;> simp [Mem.setLeft, h]

@[simp] lemma Mem.setRight_value (mem : Mem T) (p c q : Ptr) :
    (mem.setRight p c q).value = (mem q).value := by
  by_cases h : q = p <;> simp [Mem.setRight, h]

@[simp] lemma Mem.setLeft_self (mem : Mem T) (p c : Ptr) :
    mem.setLeft p c p = { mem p with leftChild := c } := by simp [Mem.setLeft]

@[simp] lemma Mem.setRight_self (mem : Mem T) (p c : Ptr) :
    mem.setRight p c p = { mem p with rightChild := c } := by simp [Mem.setRight]

lemma Mem.setLeft_ne (mem : Mem T) {p q : Ptr} (c : Ptr) (h : q ≠ p) :
    mem.setLeft p c q = mem q := Function.update_of_ne h _ _

lemma Mem.setRight_ne (mem : Mem T) {p q : Ptr} (c : Ptr) (h : q ≠ p) :
    mem.setRight p c q = mem q := Function.update_of_ne h _ _

section Insert

variable {s : State T} {D : ℕ → Prop} {addr : ℕ → Ptr} {x : T} {m : ℕ} {path : BitVec 64}
  {masks : ℕ → BitVec 64}

/-! ### The search for the insertion point -/

/-- The search has come down the path to the position `anc m j`, past greater values. -/
structure SearchAt (s : State T) (addr : ℕ → Ptr) (x : T) (m : ℕ) (masks : ℕ → BitVec 64) (j : ℕ)
    (v : Search) : Prop where
  le : j ≤ m.log2
  mask : v.mask = masks j
  parent : v.parent = addr (anc m (j + 1))
  current : v.current = addr (anc m j)
  passed : ∀ l, j < l → addr (anc m l) ≠ 0 → s.heap.less x (s.mem (addr (anc m l))).value

/-- The insertion point: the values above it on the path are greater than `x`, its own is not. -/
structure StopsAt (s : State T) (addr : ℕ → Ptr) (x : T) (m i : ℕ) : Prop where
  le : i ≤ m.log2
  above : ∀ l, i < l → addr (anc m l) ≠ 0 → s.heap.less x (s.mem (addr (anc m l))).value
  here : addr (anc m i) ≠ 0 → ¬ s.heap.less x (s.mem (addr (anc m i))).value

lemma StopsAt.congr {t : State T} {i : ℕ} (h : StopsAt s addr x m i)
    (hless : t.heap.less = s.heap.less) (hmem : ∀ k, t.mem (addr k) = s.mem (addr k)) :
    StopsAt t addr x m i := by
  refine ⟨h.le, fun l hl hne => ?_, fun hne => ?_⟩
  · rw [hless, hmem]
    exact h.above l hl hne
  · rw [hless, hmem]
    exact h.here hne

lemma getChild_anc (h : Rep s D addr) (hpath : Leads path m masks) {j : ℕ} (hj : j < m.log2)
    (hne : addr (anc m (j + 1)) ≠ 0) :
    getChild s.mem (addr (anc m (j + 1))) (path &&& masks j) = addr (anc m j) := by
  simp only [getChild, hpath.bit j hj]
  rw [anc_eq_bit m j]
  cases m.testBit j
  · simpa using h.left _ hne
  · simpa using h.right _ hne

lemma searchRound_ok (h : Rep s D addr) (hm : Free D m) (hpath : Leads path m masks) (j : ℕ)
    (v : Search) (hat : SearchAt s addr x m masks j v) :
    RoundOk (SearchAt s addr x m masks)
      (fun v => ∃ i, SearchAt s addr x m masks i v ∧ StopsAt s addr x m i) j
      (searchRound s.mem s.heap.less x path v) := by
  rw [searchRound]
  split_ifs with hc
  · obtain ⟨hne, hless⟩ := hc
    rw [hat.current] at hne hless
    obtain ⟨i, rfl⟩ : ∃ i, j = i + 1 := ⟨j - 1, by have := hm.pos_of_node h hne; omega⟩
    have hi : i < m.log2 := hat.le
    have hmask : v.mask >>> 1 = masks i := by rw [hat.mask, hpath.shift i hi]
    refine ⟨i, Nat.lt_succ_self i, hi.le, hmask, hat.current, ?_, ?_⟩
    · dsimp only
      rw [hmask, hat.current, getChild_anc h hpath hi hne]
    · intro l hl hln
      rcases Nat.lt_or_ge (i + 1) l with hlt | hge
      · exact hat.passed l hlt hln
      · obtain rfl : l = i + 1 := by omega
        exact hless
  · refine ⟨j, hat, hat.le, hat.passed, fun hne => ?_⟩
    rw [hat.current] at hc
    exact fun hless => hc ⟨hne, hless⟩

/-! ### The new position function -/

variable {node : Ptr} {i : ℕ}

/-- The position function after the new node went in at position `anc m i`. -/
def newAddr (addr : ℕ → Ptr) (node : Ptr) (m i : ℕ) : ℕ → Ptr := shiftDown m (anc m i) node addr

/-- Below the insertion point the nodes of the path have moved down by one. -/
lemma newAddr_below {j : ℕ} (hj : j < i) (hs : 0 < anc m i) :
    newAddr addr node m i (anc m j) = addr (anc m (j + 1)) :=
  shiftDown_anc (anc_lt hj (lt_of_lt_of_le hs (anc_antitone _ hj.le))) _ _

lemma newAddr_here : newAddr addr node m i (anc m i) = node := shiftDown_self _ _ _ _

lemma newAddr_off {q : ℕ} (hq : ∀ l ≤ i, q ≠ anc m l) : newAddr addr node m i q = addr q :=
  shiftDown_off_path hq _ _

lemma newAddr_dom (h : Rep s D addr) (hnode : node ≠ 0) (hm : Free D m) (hi : i ≤ m.log2)
    (q : ℕ) : newAddr addr node m i q ≠ 0 ↔ D q ∨ q = m := by
  have hs : 0 < anc m i := hm.anc_pos hi
  by_cases hq : ∃ j ≤ i, q = anc m j
  · obtain ⟨j, hj, rfl⟩ := hq
    have hpos : 0 < anc m j := lt_of_lt_of_le hs (anc_antitone _ hj)
    have hmem : D (anc m j) ∨ anc m j = m := by
      rcases Nat.eq_zero_or_pos j with rfl | hj0
      · exact Or.inr (anc_zero m)
      · exact Or.inl (hm.above j hj0 hpos)
    refine iff_of_true ?_ hmem
    rcases Nat.lt_or_ge j i with hlt | hge
    · rw [newAddr_below hlt hs]
      exact h.addr_ne (hm.above _ (by omega) (lt_of_lt_of_le hs (anc_antitone _ hlt)))
    · obtain rfl : j = i := by omega
      rwa [newAddr_here]
  · push Not at hq
    have hqm : q ≠ m := by simpa using hq 0 (by omega)
    rw [newAddr_off hq, h.dom, or_iff_left hqm]

lemma newAddr_inj (h : Rep s D addr) (hfresh : ∀ k, addr k ≠ node) (hs : 0 < anc m i)
    {p q : ℕ} (hp : newAddr addr node m i p ≠ 0)
    (hpq : newAddr addr node m i p = newAddr addr node m i q) : p = q := by
  apply source_injective hs
  unfold newAddr shiftDown at hp hpq
  cases hsp : source m (anc m i) p <;> cases hsq : source m (anc m i) q <;>
    rw [hsp] at hp hpq <;> rw [hsq] at hpq
  · exact absurd hpq.symm (hfresh _)
  · exact absurd hpq (hfresh _)
  · exact congrArg some (h.inj _ _ hp hpq)

/-- The node that belongs at a path position was further up before. -/
lemma newAddr_ne_addr (h : Rep s D addr) (hfresh : ∀ k, addr k ≠ node) (hs : 0 < anc m i)
    {j l : ℕ} (hji : j ≤ i) (hl : l ≤ j) (hne : addr (anc m l) ≠ 0) :
    addr (anc m l) ≠ newAddr addr node m i (anc m j) := by
  intro heq
  rcases Nat.lt_or_ge j i with hlt | hge
  · rw [newAddr_below hlt hs] at heq
    have := anc_injOn (h.pos _ ((h.dom _).mp hne)) (h.inj _ _ hne heq)
    omega
  · obtain rfl : j = i := by omega
    rw [newAddr_here] at heq
    exact hfresh _ heq

/-- Only an insertion at the top replaces the root. -/
lemma newAddr_one (h : Rep s D addr) (hm : Free D m) (hi : i ≤ m.log2) :
    newAddr addr node m i 1 = if addr (anc m (i + 1)) = 0 then node else addr 1 := by
  have hs : 0 < anc m i := hm.anc_pos hi
  have hhalf : anc m (i + 1) = anc m i / 2 := anc_succ _ _
  split_ifs with h0
  · have htop : anc m i = 1 := by
      by_contra hne
      exact h.addr_ne (hm.above (i + 1) (by omega) (by omega)) h0
    rw [← htop, newAddr_here]
  · have hne : anc m i ≠ 1 := by
      intro heq
      rw [hhalf, heq] at h0
      exact h0 h.addr_zero
    apply newAddr_off
    intro l hl heq
    have := anc_antitone m hl
    omega

/-! ### Merging the rest of the path -/

/-- The children of the node at position `q` are those the position function `A` says. -/
def LinkedAt (mem : Mem T) (A : ℕ → Ptr) (q : ℕ) : Prop :=
  (mem (A q)).leftChild = A (2 * q) ∧ (mem (A q)).rightChild = A (2 * q + 1)

/-- The merge has come down to position `anc m j`: `edge` is the node that belongs there and
`outsider` the one that was there; all nodes above and beside the path are in place, those of
the path below still have their old children. -/
structure MergeAt (s : State T) (addr : ℕ → Ptr) (node : Ptr) (m i : ℕ) (masks : ℕ → BitVec 64)
    (j : ℕ) (v : Merge T) : Prop where
  le : j ≤ i
  mask : v.mask = masks j
  edge : v.edge = newAddr addr node m i (anc m j)
  outsider : v.outsider = addr (anc m j)
  linked : ∀ q, newAddr addr node m i q ≠ 0 → (∀ l ≤ j, q ≠ anc m l) →
    LinkedAt v.mem (newAddr addr node m i) q
  kept : ∀ l ≤ j, addr (anc m l) ≠ 0 → v.mem (addr (anc m l)) = s.mem (addr (anc m l))
  value : ∀ p, (v.mem p).value = (s.mem p).value

/-- Writing the children of the node at the current position puts it in place. -/
lemma MergeAt.advance (h : Rep s D addr) (hfresh : ∀ k, addr k ≠ node) (hs : 0 < anc m i)
    {j : ℕ} {v : Merge T} (hv : MergeAt s addr node m i masks (j + 1) v) (mem : Mem T)
    (hedge : LinkedAt mem (newAddr addr node m i) (anc m (j + 1)))
    (hframe : ∀ p, p ≠ v.edge → mem p = v.mem p) (hvalue : ∀ p, (mem p).value = (v.mem p).value) :
    MergeAt s addr node m i masks j
      { mem, outsider := addr (anc m j), edge := v.outsider, mask := masks j } where
  le := by have := hv.le; omega
  mask := rfl
  edge := by
    rw [newAddr_below (by have := hv.le; omega) hs]
    exact hv.outsider
  outsider := rfl
  linked := by
    intro q hq hoff
    by_cases hqj : q = anc m (j + 1)
    · exact hqj ▸ hedge
    · have hne : newAddr addr node m i q ≠ v.edge := fun heq =>
        hqj (newAddr_inj h hfresh hs hq (heq.trans hv.edge))
      have hold := hv.linked q hq fun l hl hql => by
        rcases Nat.lt_or_ge l (j + 1) with hlt | hge
        · exact hoff l (by omega) hql
        · exact hqj (hql.trans (congrArg _ (by omega)))
      simpa only [LinkedAt, hframe _ hne] using hold
  kept := by
    intro l hl hne
    rw [← hv.kept l (by omega) hne]
    apply hframe
    rw [hv.edge]
    exact newAddr_ne_addr h hfresh hs hv.le (by omega) hne
  value p := (hvalue p).trans (hv.value p)

/-- The child next to the path is not on it. -/
lemma sibling_ne_anc {m j q : ℕ} (hj : 0 < anc m (j + 1))
    (hq : q = 2 * anc m (j + 1) + (!m.testBit j).toNat) (l : ℕ) : q ≠ anc m l := by
  intro hql
  have hbit := anc_eq_bit m j
  have hlt : (!m.testBit j).toNat < 2 := Bool.toNat_lt _
  have hhalf : anc m (j + 1) = anc m (l + 1) := by rw [anc_succ m l, ← hql]; omega
  obtain rfl : j = l := by have := anc_injOn hj hhalf; omega
  cases hb : m.testBit j <;> simp [hb] at hq hbit <;> omega

/-- A round of the merge at a node of the old path moves one position down. -/
lemma mergeRound_inl (h : Rep s D addr) (hfresh : ∀ k, addr k ≠ node) (hm : Free D m)
    (hpath : Leads path m masks) (hi : i ≤ m.log2) {j : ℕ} {v : Merge T}
    (hat : MergeAt s addr node m i masks (j + 1) v) (hc : v.outsider ≠ 0) :
    ∃ v', mergeRound path v = .inl v' ∧ MergeAt s addr node m i masks j v' := by
  have hs : 0 < anc m i := hm.anc_pos hi
  have hj : j < m.log2 := lt_of_lt_of_le hat.le hi
  have hpos : 0 < anc m (j + 1) := lt_of_lt_of_le hs (anc_antitone _ hat.le)
  have hmask : v.mask >>> 1 = masks j := by rw [hat.mask, hpath.shift j hj]
  have hc' := hat.outsider ▸ hc
  have hne : v.outsider ≠ v.edge := by
    rw [hat.edge, hat.outsider]
    exact newAddr_ne_addr h hfresh hs hat.le le_rfl hc'
  -- the children the outsider had in the old tree
  have hleft : (v.mem v.outsider).leftChild = addr (2 * anc m (j + 1)) := by
    rw [hat.outsider, hat.kept _ le_rfl hc', h.left _ hc']
  have hright : (v.mem v.outsider).rightChild = addr (2 * anc m (j + 1) + 1) := by
    rw [hat.outsider, hat.kept _ le_rfl hc', h.right _ hc']
  have hdown : newAddr addr node m i (anc m j) = v.outsider := by
    rw [newAddr_below hat.le hs, hat.outsider]
  have hside : ∀ q, q = 2 * anc m (j + 1) + (!m.testBit j).toNat →
      newAddr addr node m i q = addr q :=
    fun q hq => newAddr_off fun l _ => sibling_ne_anc hpos hq l
  have hstep := anc_eq_bit m j
  have hframe : ∀ (a b : Ptr) (p : Ptr), p ≠ v.edge →
      ((v.mem.setLeft v.edge a).setRight v.edge b) p = v.mem p ∧
      ((v.mem.setRight v.edge b).setLeft v.edge a) p = v.mem p := by
    intro a b p hp
    simp [Mem.setLeft_ne, Mem.setRight_ne, hp]
  have hcond := hpath.bit j hj
  rw [← hmask] at hcond
  cases hbit : m.testBit j
  · rw [hbit] at hstep hside hcond
    refine ⟨_, by rw [mergeRound, if_pos hc, if_neg (by rw [hcond]; simp)], ?_⟩
    rw [(hframe _ _ _ hne).2, hmask, hleft]
    convert hat.advance h hfresh hs ((v.mem.setRight v.edge _).setLeft v.edge v.outsider) ?_
      (fun p hp => (hframe _ _ p hp).2) (by simp) using 2
    · simp [hstep]
    · have hside' := hside _ rfl
      simp only [Bool.toNat_true, Bool.not_false, Bool.toNat_false, add_zero] at hstep hside'
      rw [LinkedAt, ← hat.edge, hside', ← hstep, hdown]
      simp [hright, hstep]
  · rw [hbit] at hstep hside hcond
    refine ⟨_, by rw [mergeRound, if_pos hc, if_pos (hcond.mpr rfl)], ?_⟩
    rw [(hframe _ _ _ hne).1, hmask, hright]
    convert hat.advance h hfresh hs ((v.mem.setLeft v.edge _).setRight v.edge v.outsider) ?_
      (fun p hp => (hframe _ _ p hp).1) (by simp) using 2
    · simp [hstep]
    · have hside' := hside _ rfl
      simp only [Bool.toNat_true, Bool.not_true, Bool.toNat_false, add_zero] at hstep hside'
      rw [LinkedAt, ← hat.edge, hside', ← hstep, hdown]
      simp [hleft]

lemma mergeRound_ok (h : Rep s D addr) (hfresh : ∀ k, addr k ≠ node) (hm : Free D m)
    (hpath : Leads path m masks) (hi : i ≤ m.log2) (j : ℕ) (v : Merge T)
    (hat : MergeAt s addr node m i masks j v) :
    RoundOk (MergeAt s addr node m i masks) (MergeAt s addr node m i masks 0) j
      (mergeRound path v) := by
  by_cases hc : v.outsider = 0
  · -- the old tree ends where the new last position is
    have hj0 : j = 0 := by
      by_contra hne
      have hpos := hm.anc_pos (hat.le.trans hi)
      exact h.addr_ne (hm.above j (by omega) hpos) (hat.outsider ▸ hc)
    rw [mergeRound, if_neg (not_not.mpr hc)]
    exact hj0 ▸ hat
  · obtain ⟨l, rfl⟩ : ∃ l, j = l + 1 := by
      have := hm.pos_of_node h (hat.outsider ▸ hc)
      exact ⟨j - 1, by omega⟩
    obtain ⟨v', hround, hat'⟩ := mergeRound_inl h hfresh hm hpath hi hat hc
    rw [hround]
    exact ⟨l, Nat.lt_succ_self l, hat'⟩

/-- Merging the cut-off part of the path completes the new tree. -/
lemma mergeOnPath_spec (h : Rep s D addr) (hfresh : ∀ k, addr k ≠ node) (hnode : node ≠ 0)
    (hm : Free D m) (hpath : Leads path m masks) (hi : i ≤ m.log2) {v : Merge T}
    (hv : MergeAt s addr node m i masks i v) (fuel : ℕ) (hfuel : m.log2 < fuel) :
    ∃ mem, mergeOnPath fuel v.mem v.outsider v.edge path v.mask = some (mem, 0) ∧
      (∀ q, newAddr addr node m i q ≠ 0 → LinkedAt mem (newAddr addr node m i) q) ∧
      ∀ p, (mem p).value = (s.mem p).value := by
  have hs : 0 < anc m i := hm.anc_pos hi
  obtain ⟨w, hloop, hw⟩ := loop_spec _ _ (mergeRound_ok h hfresh hm hpath hi) fuel i v hv (by omega)
  refine ⟨(w.mem.setLeft w.edge 0).setRight w.edge 0, by simp [mergeOnPath, hloop], ?_, ?_⟩
  · intro q hq
    by_cases hlast : q = m
    · -- the node at the end of the path has no children
      have hedge : newAddr addr node m i q = w.edge := by rw [hw.edge, anc_zero, hlast]
      have hzero : ∀ b : Bool, newAddr addr node m i (2 * q + b.toNat) = 0 := by
        intro b
        have hpos := hm.pos
        have hlt := Bool.toNat_lt b
        by_contra hne
        rcases (newAddr_dom h hnode hm hi _).mp hne with hd | hd
        · have := h.parent _ hd (by omega)
          rw [show (2 * q + b.toNat) / 2 = m by omega] at this
          exact hm.free this
        · omega
      have hl := hzero false
      have hr := hzero true
      simp only [Bool.toNat_false, Bool.toNat_true, add_zero] at hl hr
      rw [LinkedAt, hedge, hl, hr]
      simp
    · have hne : newAddr addr node m i q ≠ w.edge := fun heq => by
        rw [hw.edge, anc_zero] at heq
        exact hlast (newAddr_inj h hfresh hs hq heq)
      have hold := hw.linked q hq fun l hl => by
        obtain rfl : l = 0 := by omega
        simpa using hlast
      simpa only [LinkedAt, Mem.setRight_ne _ _ hne, Mem.setLeft_ne _ _ hne] using hold
  · intro p
    simp [hw.value p]

/-! ### The insertion -/

/-- Hanging the new node in the place the search found starts the merge there. -/
lemma mergeAt_start (h : Rep s D addr) (hm : Free D m) (hpath : Leads path m masks)
    (hi : i ≤ m.log2) {mem : Mem T}
    (hmem : mem = if addr (anc m (i + 1)) = 0 then s.mem else
      setChild s.mem (addr (anc m (i + 1))) (path &&& masks i) node) :
    MergeAt s addr node m i masks i
      { mem, outsider := addr (anc m i), edge := node, mask := masks i } := by
  have hs : 0 < anc m i := hm.anc_pos hi
  have hother : ∀ p, p ≠ addr (anc m (i + 1)) → mem p = s.mem p := by
    intro p hp
    rw [hmem]
    rw [setChild]
    split_ifs <;> simp [Mem.setLeft_ne, Mem.setRight_ne, hp]
  refine ⟨le_rfl, rfl, newAddr_here.symm, rfl, ?_, ?_, ?_⟩
  · intro q hq hoff
    have hqa : newAddr addr node m i q = addr q := newAddr_off hoff
    rw [hqa] at hq
    -- a child of `q` is on the path only if it is the insertion point
    have hchild : ∀ b : Bool, 2 * q + b.toNat ≠ anc m i →
        newAddr addr node m i (2 * q + b.toNat) = addr (2 * q + b.toNat) := by
      intro b hb
      apply newAddr_off
      intro l hl heq
      have hhalf : q = anc m (l + 1) := by
        rw [anc_succ, ← heq]
        have := Bool.toNat_lt b
        omega
      rcases Nat.lt_or_ge l i with hlt | hge
      · exact hoff (l + 1) hlt hhalf
      · exact hb (heq.trans (congrArg _ (by omega)))
    have hbit := anc_eq_bit m i
    by_cases hpar : q = anc m (i + 1)
    · have hlt : i < m.log2 := by
        have := (anc_pos_iff hm.pos).mp (hpar ▸ h.pos q ((h.dom q).mp hq))
        omega
      rw [← hpar] at hmem hbit
      rw [if_neg hq, setChild] at hmem
      simp only [hpath.bit i hlt] at hmem
      rw [LinkedAt, hqa, hmem]
      have hself : newAddr addr node m i (anc m i) = node := newAddr_here
      cases hb : m.testBit i
      · rw [hb] at hbit
        have hr := hchild true (by rw [hbit]; simp)
        simp only [Bool.toNat_false, Bool.toNat_true, add_zero] at hbit hr
        rw [← hbit, hself, hbit, hr]
        simp [h.right q hq]
      · rw [hb] at hbit
        have hl := hchild false (by rw [hbit]; simp)
        simp only [Bool.toNat_false, Bool.toNat_true, add_zero] at hbit hl
        rw [← hbit, hself, hl]
        simp [h.left q hq]
    · have hne : addr q ≠ addr (anc m (i + 1)) := fun heq => hpar (h.inj _ _ hq heq)
      have hoffs : ∀ b : Bool, 2 * q + b.toNat ≠ anc m i := by
        intro b hb
        have := Bool.toNat_lt b
        exact hpar (by rw [anc_succ, ← hb]; omega)
      have hl := hchild false (hoffs false)
      have hr := hchild true (hoffs true)
      simp only [Bool.toNat_false, Bool.toNat_true, add_zero] at hl hr
      dsimp only
      rw [LinkedAt, hqa, hother _ hne, hl, hr]
      exact ⟨h.left q hq, h.right q hq⟩
  · intro l hl hne
    apply hother
    intro heq
    have := anc_injOn (h.pos _ ((h.dom _).mp hne)) (h.inj _ _ hne heq)
    omega
  · intro p
    rw [hmem]
    rw [setChild]
    split_ifs <;> simp

lemma insertOnPath_spec (h : Rep s D addr) (hfresh : ∀ k, addr k ≠ node) (hnode : node ≠ 0)
    (hm : Free D m) (hpath : Leads s.heap.nNodes m masks) (fuel : ℕ) (hfuel : m.log2 < fuel) :
    ∃ s' i, insertOnPath fuel s node = some (s', 0) ∧ StopsAt s addr (s.mem node).value m i ∧
      Rep s' (fun k => D k ∨ k = m) (newAddr addr node m i) ∧
      s'.heap.less = s.heap.less ∧ s'.heap.nNodes = s.heap.nNodes ∧
      ∀ p, (s'.mem p).value = (s.mem p).value := by
  have hstart : SearchAt s addr (s.mem node).value m masks m.log2
      { mask := topMask s.heap.nNodes, parent := 0, current := s.heap.root } := by
    have habove : ∀ l, m.log2 < l → anc m l = 0 := by
      intro l hl
      by_contra hne
      have := (anc_pos_iff (j := l) hm.pos).mp (by omega)
      omega
    refine ⟨le_rfl, hpath.top, ?_, ?_, ?_⟩
    · rw [habove _ (Nat.lt_succ_self _), h.addr_zero]
    · rw [anc_log2 hm.pos, h.root]
    · intro l hl hne
      rw [habove l hl, h.addr_zero] at hne
      exact absurd rfl hne
  obtain ⟨v, hloop, i, hat, hstop⟩ :=
    loop_spec _ _ (searchRound_ok h hm hpath) fuel _ _ hstart hfuel
  have hs : 0 < anc m i := hm.anc_pos hat.le
  have hmerge : MergeAt s addr node m i masks i _ := mergeAt_start h hm hpath hat.le rfl
  obtain ⟨mem, hrun, hlinked, hvalue⟩ :=
    mergeOnPath_spec h hfresh hnode hm hpath hat.le hmerge fuel hfuel
  refine ⟨{ mem, heap := { s.heap with root := newAddr addr node m i 1 } }, i, ?_, hstop,
    ⟨rfl, newAddr_dom h hnode hm hat.le, ?_, ?_, fun j k => newAddr_inj h hfresh hs,
      fun k hk => (hlinked k hk).1, fun k hk => (hlinked k hk).2⟩, rfl, rfl, hvalue⟩
  · rw [← hat.current, ← hat.parent, ← hat.mask] at hrun
    simp only [insertOnPath, hloop, newAddr_one h hm hat.le, ← hat.parent, Option.bind_eq_bind,
      Option.bind_some]
    by_cases hparent : v.parent = 0
    · rw [if_pos hparent] at hrun
      simp [hparent, hrun]
    · rw [if_neg hparent] at hrun
      simp [hparent, hrun, ← h.root]
  · rintro k (hk | rfl)
    · exact h.pos k hk
    · exact hm.pos
  · rintro k (hk | rfl) hk2
    · exact Or.inl (h.parent k hk hk2)
    · have := hm.above 1 (by omega)
      rw [anc_succ, anc_zero] at this
      exact Or.inl (this (by omega))

/-- An insertion puts the new node at its insertion point and moves the nodes of the rest of the
path one position down. No other value changes. -/
theorem heapInsert_spec (h : Rep s D addr) (hfresh : ∀ k, addr k ≠ node) (hnode : node ≠ 0)
    (hm : Free D m) (hpath : Leads (s.heap.nNodes + 1) m masks) (x : T) (fuel : ℕ)
    (hfuel : m.log2 < fuel) :
    ∃ s' i, heapInsert fuel s node x = some (s', 0) ∧ StopsAt s addr x m i ∧
      Rep s' (fun k => D k ∨ k = m) (newAddr addr node m i) ∧
      s'.heap.less = s.heap.less ∧ s'.heap.nNodes = s.heap.nNodes + 1 ∧
      (s'.mem node).value = x ∧ ∀ p ≠ node, (s'.mem p).value = (s.mem p).value := by
  set mem := Function.update s.mem node { s.mem node with value := x } with hmem
  have hsame : ∀ k, mem (addr k) = s.mem (addr k) := fun k =>
    Function.update_of_ne (hfresh k) _ _
  have hrep : Rep { mem, heap := { s.heap with nNodes := s.heap.nNodes + 1 } } D addr :=
    h.congr rfl hsame
  have hx : (mem node).value = x := by simp [hmem]
  obtain ⟨s', i, hrun, hstop, hrep', hless, hnum, hvalue⟩ :=
    insertOnPath_spec hrep hfresh hnode hm hpath fuel hfuel
  dsimp only at hstop hvalue
  rw [hx] at hstop
  refine ⟨s', i, by rw [heapInsert, if_neg hnode]; exact hrun,
    hstop.congr rfl fun k => (hsame k).symm, hrep', hless, hnum, (hvalue node).trans hx,
    fun p hp => ?_⟩
  rw [hvalue p, hmem, Function.update_of_ne hp]

end Insert

end Osm.SequentialHeap
