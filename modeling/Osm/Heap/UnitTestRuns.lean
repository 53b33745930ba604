import Osm.Heap.UnitTest

/-!
# What the unit test does

`show` prints the tree level by level and stays in its queue; `heap_clear` frees each node once. So
the unit test runs to its end: no assertion fails, what it prints are heaps of the numbers that it
has read, and in the end no node is in use.
-/

namespace Osm.SequentialHeap

open Core

variable {T : Type}

/-! ### Level by level -/

/-- The positions `2 ^ l`, `2 ^ l + 1`, … of a level that are at most `n`, and the end of the
line. -/
def shownLevel (n : ℕ) (f : ℕ → T) (l : ℕ) : List (Shown T) :=
  (List.range (min (2 ^ l) (n + 1 - 2 ^ l))).map (fun k => .value (f (2 ^ l + k))) ++ [.newline]

/-- What `show` is meant to print for the labels of the positions `1..n`. -/
def shownHeap (n : ℕ) (f : ℕ → T) : List (Shown T) :=
  .nNodes (BitVec.ofNat 64 n) ::
    if n = 0 then [] else (List.range (n.log2 + 1)).flatMap (shownLevel n f)

lemma lineEnd_eq : ∀ h < 31, lineEnd h + 1 = 2 ^ (h + 1) := by decide

section Show

variable {mem : Mem T} {addr : ℕ → Ptr} {n c : ℕ} {s : Show T} {node : Ptr}

/-- The cells of the queue that have been written. -/
def Show.Holds (s : Show T) (addr : ℕ → Ptr) (n c : ℕ) : Prop :=
  s.j + 1 = min c n ∧ ∀ k ≤ s.j, s.queue k = some (addr (k + 1))

/-- The node at the next position is put into the queue, if there is one; there is room for it. -/
lemma Show.enqueue_spec (h : s.Holds addr n c) (hdom : addr (c + 1) ≠ 0 ↔ c + 1 ≤ n) :
    ∃ s', s.enqueue n (addr (c + 1)) = some s' ∧ s'.Holds addr n (c + 1) ∧ s'.i = s.i ∧
      s'.height = s.height ∧ s'.out = s.out := by
  obtain ⟨hj, hqueue⟩ := h
  by_cases hnode : addr (c + 1) = 0
  · have hlt : ¬ c + 1 ≤ n := fun hle => hdom.mpr hle hnode
    refine ⟨s, if_neg (not_not.mpr hnode), ⟨?_, hqueue⟩, rfl, rfl, rfl⟩
    omega
  · have hle := hdom.mp hnode
    have hc : s.j + 1 = c := by omega
    refine ⟨{ s with
      queue := Function.update s.queue (s.j + 1) (some (addr (c + 1))), j := s.j + 1 },
      by rw [enqueue, if_pos hnode, if_pos (by omega)], ⟨?_, fun k hk => ?_⟩, rfl, rfl, rfl⟩
    · dsimp only
      omega
    · dsimp only at hk ⊢
      rcases Nat.lt_or_ge k (s.j + 1) with hlt | hge
      · rw [Function.update_of_ne (by omega), hqueue k (by omega)]
      · obtain rfl : k = s.j + 1 := by omega
        rw [Function.update_self, hc]

/-- At the start of a round: `h` levels and the positions of the next one up to `i` have been
printed, and the children of these positions are in the queue. -/
structure ShowAt (addr : ℕ → Ptr) (n : ℕ) (f : ℕ → T) (i : ℕ) (s : Show T) : Prop where
  index : s.i = i
  lt : i < n
  queue : s.Holds addr n (2 * i + 1)
  level : 2 ^ s.height ≤ i + 1 ∧ i + 1 < 2 ^ (s.height + 1)
  out : s.out = .nNodes (BitVec.ofNat 64 n) :: (List.range s.height).flatMap (shownLevel n f) ++
    (List.range (i + 1 - 2 ^ s.height)).map fun k => .value (f (2 ^ s.height + k))

/-- The labels that have been printed of a level, and one more. -/
lemma shown_succ (f : ℕ → T) {p i : ℕ} (h : p ≤ i + 1) :
    (List.range (i + 1 - p)).map (fun k => Shown.value (f (p + k))) ++ [.value (f (i + 1))] =
      (List.range (i + 2 - p)).map fun k => .value (f (p + k)) := by
  rw [show i + 2 - p = i + 1 - p + 1 by omega, List.range_succ, List.map_append,
    List.map_singleton, show p + (i + 1 - p) = i + 1 by omega]

/-- The labels of a level have been printed, and the end of the line. -/
lemma shownLevel_eq (f : ℕ → T) {h i : ℕ} (hlow : 2 ^ h ≤ i + 1) (hle : i + 1 ≤ n)
    (hend : i + 1 = n ∨ i + 2 = 2 ^ (h + 1)) (hhigh : i + 1 < 2 ^ (h + 1)) :
    (List.range (i + 2 - 2 ^ h)).map (fun k => Shown.value (f (2 ^ h + k))) ++ [.newline] =
      shownLevel n f h := by
  rw [pow_succ] at hend hhigh
  rw [shownLevel, show i + 2 - 2 ^ h = min (2 ^ h) (n + 1 - 2 ^ h) by omega]

/-- The body of the loop, at the node at position `i + 1`. -/
lemma showBody_spec {f : ℕ → T} {i : ℕ} (h : ShowAt addr n f i s)
    (hf : ∀ k, f k = (mem (addr k)).value) (hdom : ∀ k, 1 ≤ k → (addr k ≠ 0 ↔ k ≤ n))
    (hleft : ∀ k, addr k ≠ 0 → (mem (addr k)).leftChild = addr (2 * k))
    (hright : ∀ k, addr k ≠ 0 → (mem (addr k)).rightChild = addr (2 * k + 1)) :
    ∃ s₁, s₁.i = i + 1 ∧ s₁.height = s.height ∧ s₁.Holds addr n (2 * i + 3) ∧
      s₁.out = s.out ++ [.value (f (i + 1))] ∧
      showBody mem n s =
        if i + 1 = n ∨ i + 1 = lineEnd s.height then
          some { s₁ with out := s₁.out ++ [.newline], height := s₁.height + 1 }
        else some s₁ := by
  obtain ⟨rfl, hlt, hqueue, -, -⟩ := h
  have hne : addr (s.i + 1) ≠ 0 := (hdom _ (by omega)).mpr hlt
  have hcell : s.queue s.i = some (addr (s.i + 1)) := hqueue.2 s.i (by have := hqueue.1; omega)
  let s₀ : Show T := { s with out := s.out ++ [Shown.value (mem (addr (s.i + 1))).value] }
  have hqueue₀ : s₀.Holds addr n (2 * s.i + 1) := hqueue
  obtain ⟨s₁, henq₁, hqueue₁, hi₁, hheight₁, hout₁⟩ :=
    Show.enqueue_spec hqueue₀ (hdom _ (by omega))
  obtain ⟨s₂, henq₂, hqueue₂, hi₂, hheight₂, hout₂⟩ :=
    Show.enqueue_spec hqueue₁ (hdom _ (by omega))
  refine ⟨{ s₂ with i := s.i + 1 }, rfl, hheight₂.trans hheight₁, hqueue₂, ?_, ?_⟩
  · dsimp only
    rw [hout₂, hout₁, hf]
  · have hleft₁ : (mem (addr (s.i + 1))).leftChild = addr (2 * s.i + 1 + 1) := hleft _ hne
    have hright₁ : (mem (addr (s.i + 1))).rightChild = addr (2 * s.i + 1 + 1 + 1) := hright _ hne
    have hi : s₂.i + 1 = s.i + 1 := congrArg (· + 1) (hi₂.trans hi₁)
    have hheight : s₂.height = s.height := hheight₂.trans hheight₁
    rw [showBody, if_pos hlt, hcell]
    simp only [Option.bind_eq_bind, Option.bind_some, hleft₁, hright₁]
    rw [henq₁]
    simp only [Option.bind_some]
    rw [henq₂]
    simp only [Option.bind_some, hi, hheight]
    rfl

/-- A round of the loop goes on at the next position, or the last level is complete. -/
lemma showRound_ok {f : ℕ → T} {i : ℕ} (h : ShowAt addr n f i s) (hn : n < 2 ^ 31)
    (hf : ∀ k, f k = (mem (addr k)).value) (hdom : ∀ k, 1 ≤ k → (addr k ≠ 0 ↔ k ≤ n))
    (hleft : ∀ k, addr k ≠ 0 → (mem (addr k)).leftChild = addr (2 * k))
    (hright : ∀ k, addr k ≠ 0 → (mem (addr k)).rightChild = addr (2 * k + 1)) :
    (∃ s', showRound mem n s = .inl s' ∧ ShowAt addr n f (i + 1) s') ∨
      showRound mem n s = .inr (some (shownHeap n f)) ∧ i + 1 = n := by
  obtain ⟨s₁, hi, hheight, hqueue, hout, hbody⟩ := showBody_spec h hf hdom hleft hright
  obtain ⟨-, hlt, -, ⟨hlow, hhigh⟩, hprinted⟩ := h
  rw [hprinted, List.append_assoc, shown_succ f hlow] at hout
  have hsmall : s.height < 31 := by
    by_contra hge
    have hpow := Nat.pow_le_pow_right (n := 2) (by decide) (Nat.le_of_not_lt hge)
    omega
  have hend := lineEnd_eq s.height hsmall
  rw [showRound, hbody]
  by_cases hlast : i + 1 = n
  · -- the last level is complete
    refine .inr ⟨?_, hlast⟩
    have hlog : n.log2 = s.height := by
      rw [Nat.log2_eq_iff (by omega)]
      exact ⟨hlast ▸ hlow, hlast ▸ hhigh⟩
    have hline := shownLevel_eq f hlow (Nat.le_of_eq hlast) (.inl hlast) hhigh
    rw [if_pos (.inl hlast)]
    dsimp only
    rw [hi, if_neg (not_not.mpr hlast), hout, List.append_assoc, hline, shownHeap,
      if_neg (by omega), hlog, List.range_succ, List.flatMap_append, List.flatMap_singleton,
      List.cons_append]
  · refine .inl ?_
    by_cases hlevel : i + 1 = lineEnd s.height
    · -- a level is complete
      have hline := shownLevel_eq f hlow hlt (.inr (by omega)) hhigh
      rw [if_pos (.inr hlevel)]
      dsimp only
      rw [hi, if_pos hlast]
      refine ⟨_, rfl, rfl, by omega, hqueue, ?_, ?_⟩
      · dsimp only
        rw [hheight, pow_succ 2 (s.height + 1)]
        omega
      · dsimp only
        rw [hout, hheight, List.append_assoc, hline, List.range_succ, List.flatMap_append,
          List.flatMap_singleton, show i + 1 + 1 - 2 ^ (s.height + 1) = 0 by omega, List.range_zero,
          List.map_nil, List.append_nil, List.cons_append]
    · rw [if_neg (not_or.mpr ⟨hlast, hlevel⟩)]
      dsimp only
      rw [hi, if_pos hlast]
      refine ⟨_, rfl, hi, by omega, hqueue, ?_, ?_⟩
      · rw [hheight]
        omega
      · rw [hout, hheight]

end Show

/-- The nodes at the positions `1..n` are printed level by level. -/
lemma showHeap_spec {s : State T} {addr : ℕ → Ptr} {n fuel : ℕ}
    (hrep : Rep s (fun k => 1 ≤ k ∧ k ≤ n) addr) (hnum : s.heap.nNodes.toNat = n)
    (hn : n < 2 ^ 31) (hfuel : n ≤ fuel) :
    showHeap fuel s.mem s.heap = some (shownHeap n fun k => (s.mem (addr k)).value) := by
  have hnodes : s.heap.nNodes = BitVec.ofNat 64 n := by
    rw [← hnum, BitVec.ofNat_toNat, BitVec.setWidth_eq]
  have hdom : ∀ k, 1 ≤ k → (addr k ≠ 0 ↔ k ≤ n) := fun k hk => by
    rw [hrep.dom]
    exact and_iff_right hk
  rw [showHeap]
  by_cases hzero : s.heap.nNodes = 0
  · obtain rfl : n = 0 := by rw [← hnum, hzero]; rfl
    rw [if_pos hzero, hnodes]
    rfl
  · have hpos : 0 < n := by
      rcases Nat.eq_zero_or_pos n with rfl | hpos
      · exact absurd (BitVec.eq_of_toNat_eq (hnum.trans rfl)) hzero
      · exact hpos
    have hstart : ShowAt addr n (fun k => (s.mem (addr k)).value) 0
        { queue := Function.update (fun _ => none) 0 (some s.heap.root),
          out := [.nNodes s.heap.nNodes] } := by
      refine ⟨rfl, hpos, ⟨?_, fun k hk => ?_⟩, ⟨le_rfl, Nat.one_lt_two⟩, ?_⟩
      · dsimp only
        omega
      · obtain rfl : k = 0 := Nat.le_zero.mp hk
        dsimp only
        rw [Function.update_self, hrep.root]
      · rw [hnodes]
        rfl
    -- the number of rounds left is the number of positions behind the next one
    have hround : ∀ j t,
        (∃ i, i + j + 1 = n ∧ ShowAt addr n (fun k => (s.mem (addr k)).value) i t) →
        RoundOk
          (fun j t => ∃ i, i + j + 1 = n ∧ ShowAt addr n (fun k => (s.mem (addr k)).value) i t)
          (fun r => r = some (shownHeap n fun k => (s.mem (addr k)).value)) j
          (showRound s.mem n t) := by
      rintro j t ⟨i, hi, hat⟩
      rcases showRound_ok hat hn (fun _ => rfl) hdom hrep.left hrep.right with
        ⟨t', hnext, hat'⟩ | ⟨hlast, -⟩
      · have hlt := hat'.lt
        rw [hnext]
        exact ⟨j - 1, by omega, i + 1, by omega, hat'⟩
      · rw [hlast]
        rfl
    obtain ⟨r, hloop, rfl⟩ :=
      loop_spec _ _ hround fuel (n - 1) _ ⟨0, by omega, hstart⟩ (by omega)
    rw [if_neg hzero, hnum]
    dsimp only
    rw [hloop]
    rfl

/-! ### Freeing -/

/-- `k` is the position `j` or above it. -/
def Below (k j : ℕ) : Prop := ∃ i, anc j i = k

section Below

variable {k j : ℕ}

lemma Below.le (h : Below k j) : k ≤ j := by
  obtain ⟨i, rfl⟩ := h
  exact anc_le j i

lemma below_one (hj : 0 < j) : Below 1 j := ⟨j.log2, anc_log2 hj⟩

/-- What is below a position is below one of its children. -/
lemma below_iff : Below k j ↔ j = k ∨ Below (2 * k) j ∨ Below (2 * k + 1) j := by
  constructor
  · rintro ⟨i, hi⟩
    cases i with
    | zero => exact .inl ((anc_zero j).symm.trans hi)
    | succ i =>
      rw [anc_succ] at hi
      rcases Nat.mod_two_eq_zero_or_one (anc j i) with heven | hodd
      · exact .inr (.inl ⟨i, by omega⟩)
      · exact .inr (.inr ⟨i, by omega⟩)
  · rintro (rfl | ⟨i, hi⟩ | ⟨i, hi⟩)
    · exact ⟨0, anc_zero j⟩
    · exact ⟨i + 1, by rw [anc_succ]; omega⟩
    · exact ⟨i + 1, by rw [anc_succ]; omega⟩

/-- Nothing is below both children of a position. -/
lemma not_below_both (hk : 0 < k) (hleft : Below (2 * k) j) (hright : Below (2 * k + 1) j) :
    False := by
  obtain ⟨i, hi⟩ := hleft
  obtain ⟨i', hi'⟩ := hright
  rcases lt_trichotomy i i' with hlt | rfl | hgt
  · have hle := anc_antitone j (Nat.succ_le_of_lt hlt)
    rw [Nat.succ_eq_add_one, anc_succ] at hle
    omega
  · omega
  · have hle := anc_antitone j (Nat.succ_le_of_lt hgt)
    rw [Nat.succ_eq_add_one, anc_succ] at hle
    omega

end Below

section Tree

variable {s : State T} {addr : ℕ → Ptr} {n fuel : ℕ}

/-- The nodes below a position are freed, each of them once, and no other node. -/
lemma nodeFree_spec (hrep : Rep s (fun k => 1 ≤ k ∧ k ≤ n) addr) {k : ℕ} (hk : 0 < k)
    (hfuel : n < k * 2 ^ fuel) {live : Finset Ptr}
    (hlive : ∀ j, Below k j → j ≤ n → addr j ∈ live) :
    ∃ live', nodeFree s.mem (fuel + 1) (addr k) live = some live' ∧
      ∀ p, p ∈ live' ↔ p ∈ live ∧ ∀ j, Below k j → j ≤ n → p ≠ addr j := by
  induction fuel generalizing k live with
  | zero =>
    have hnull : addr k = 0 := by
      by_contra hne
      have := ((hrep.dom k).mp hne).2
      omega
    refine ⟨live, by rw [nodeFree, if_pos hnull], fun p => ?_⟩
    refine (and_iff_left fun j hj hle => ?_).symm
    have := hj.le
    omega
  | succ fuel ih =>
    by_cases hnull : addr k = 0
    · refine ⟨live, by rw [nodeFree, if_pos hnull], fun p => ?_⟩
      refine (and_iff_left fun j hj hle => ?_).symm
      have hlt : ¬ (1 ≤ k ∧ k ≤ n) := fun h => (hrep.dom k).mpr h hnull
      have := hj.le
      omega
    · have hmem := hlive k (below_iff.mpr (.inl rfl)) ((hrep.dom k).mp hnull).2
      have hpow : k * 2 ^ (fuel + 1) = 2 * k * 2 ^ fuel := by
        rw [pow_succ, Nat.mul_comm (2 ^ fuel), ← Nat.mul_assoc, Nat.mul_comm k]
      have hinj : ∀ {i j}, i ≤ n → 0 < i → addr i = addr j → i = j := fun {i j} hle hpos heq =>
        hrep.inj i j ((hrep.dom i).mpr ⟨hpos, hle⟩) heq
      obtain ⟨live₁, hleft, hlive₁⟩ := ih (k := 2 * k) (by omega) (by omega) fun j hj =>
        hlive j (below_iff.mpr (.inr (.inl hj)))
      have hfuel' : n < (2 * k + 1) * 2 ^ fuel :=
        hfuel.trans_le (hpow ▸ Nat.mul_le_mul_right _ (Nat.le_succ _))
      have hkept : ∀ j, Below (2 * k + 1) j → j ≤ n → addr j ∈ live₁ := by
        intro j hj hle
        refine (hlive₁ _).mpr ⟨hlive j (below_iff.mpr (.inr (.inr hj))) hle, ?_⟩
        intro j' hj' hle' heq
        have hpos := hj.le
        obtain rfl := hinj hle (by omega) heq
        exact not_below_both hk hj' hj
      obtain ⟨live₂, hright, hlive₂⟩ := ih (Nat.succ_pos _) hfuel' hkept
      have hmem₂ : addr k ∈ live₂ := by
        rw [hlive₂, hlive₁]
        refine ⟨⟨hmem, fun j hj hle heq => ?_⟩, fun j hj hle heq => ?_⟩
        · have hbelow := hj.le
          have := hinj ((hrep.dom k).mp hnull).2 hk heq
          omega
        · have hbelow := hj.le
          have := hinj ((hrep.dom k).mp hnull).2 hk heq
          omega
      refine ⟨live₂.erase (addr k), ?_, fun p => ?_⟩
      · rw [nodeFree, if_neg hnull, if_neg (not_not.mpr hmem), hrep.left k hnull, hleft,
          hrep.right k hnull]
        simp only [Option.bind_eq_bind, Option.bind_some]
        rw [hright]
        exact if_pos hmem₂
      · rw [Finset.mem_erase, hlive₂, hlive₁]
        constructor
        · rintro ⟨hne, ⟨hp, hl⟩, hr⟩
          refine ⟨hp, fun j hj hle => ?_⟩
          rcases below_iff.mp hj with rfl | hj | hj
          · exact hne
          · exact hl j hj hle
          · exact hr j hj hle
        · rintro ⟨hp, hall⟩
          exact ⟨hall k (below_iff.mpr (.inl rfl)) ((hrep.dom k).mp hnull).2,
            ⟨hp, fun j hj => hall j (below_iff.mpr (.inr (.inl hj)))⟩,
            fun j hj => hall j (below_iff.mpr (.inr (.inr hj)))⟩

/-- The whole heap is freed, and the heap is empty. -/
lemma heapClear_spec (hrep : Rep s (fun k => 1 ≤ k ∧ k ≤ n) addr) (hfuel : n < 2 ^ fuel)
    {live : Finset Ptr} (hlive : live = (Finset.Icc 1 n).image addr) :
    heapClear (fuel + 1) s live =
      some ({ s with heap := { s.heap with root := 0, nNodes := 0 } }, ∅) := by
  have hmem : ∀ j, Below 1 j → j ≤ n → addr j ∈ live := by
    intro j hj hle
    rw [hlive]
    exact Finset.mem_image_of_mem addr (Finset.mem_Icc.mpr ⟨hj.le, hle⟩)
  have hfuel' : n < 1 * 2 ^ fuel := by omega
  obtain ⟨live', hfree, hlive'⟩ := nodeFree_spec hrep Nat.one_pos hfuel' hmem
  have hnone : live' = ∅ := by
    rw [Finset.eq_empty_iff_forall_notMem]
    intro p hp
    obtain ⟨hin, hout⟩ := (hlive' p).mp hp
    rw [hlive, Finset.mem_image] at hin
    obtain ⟨j, hj, rfl⟩ := hin
    rw [Finset.mem_Icc] at hj
    exact hout j (below_one hj.1) hj.2 rfl
  rw [heapClear, hrep.root, hfree, hnone]
  rfl

/-! ### Checking -/

/-- The tree of the labels of the positions `1..n` from the position `k` on. -/
def treeAt (f : ℕ → T) (n : ℕ) : ℕ → ℕ → BinaryTree T
  | 0, _     => .nil
  | d + 1, k =>
    if k ≤ n then .node (f k) (treeAt f n d (2 * k)) (treeAt f n d (2 * k + 1)) else .nil

lemma height_treeAt (f : ℕ → T) (n d k : ℕ) : (treeAt f n d k).height ≤ d := by
  induction d generalizing k with
  | zero => exact le_rfl
  | succ d ih =>
    rw [treeAt]
    split_ifs
    · rw [BinaryTree.height]
      exact Nat.succ_le_succ (max_le (ih _) (ih _))
    · exact Nat.zero_le _

lemma isTree_treeAt (hrep : Rep s (fun k => 1 ≤ k ∧ k ≤ n) addr) {d k : ℕ} (hk : 0 < k)
    (hd : n < k * 2 ^ d) :
    IsTree s.mem (addr k) (treeAt (fun k => (s.mem (addr k)).value) n d k) := by
  have hnull : ∀ k, n < k → addr k = 0 := by
    intro k hlt
    by_contra hne
    have := ((hrep.dom k).mp hne).2
    omega
  induction d generalizing k with
  | zero => exact hnull k (by omega)
  | succ d ih =>
    have hpow : k * 2 ^ (d + 1) = 2 * k * 2 ^ d := by
      rw [pow_succ, Nat.mul_comm (2 ^ d), ← Nat.mul_assoc, Nat.mul_comm k]
    rw [treeAt]
    split_ifs with hle
    · have hne := (hrep.dom k).mpr ⟨hk, hle⟩
      refine ⟨hne, rfl, ?_, ?_⟩
      · rw [hrep.left k hne]
        exact ih (by omega) (hpow ▸ hd)
      · rw [hrep.right k hne]
        exact ih (by omega) (hd.trans_le (hpow ▸ Nat.mul_le_mul_right _ (Nat.le_succ _)))
    · exact hnull k (Nat.lt_of_not_le hle)

lemma heapOrdered_treeAt {less : T → T → Bool} {f : ℕ → T}
    (hless : IsStrictWeakOrder T fun a b => less a b = true) (h : Ordered less n f) {d k : ℕ}
    (hk : 0 < k) : (treeAt f n d k).HeapOrdered fun a b => ¬ less a b := by
  -- a label is compared with those of the two children
  have hroot : ∀ d j, 2 ≤ j → (treeAt f n d j).RootBelow (fun a b => ¬ less a b) (f (j / 2)) := by
    intro d j hj
    cases d with
    | zero => trivial
    | succ d =>
      rw [treeAt]
      split_ifs with hle
      · exact h j hj hle
      · trivial
  induction d generalizing k with
  | zero => exact BinaryTree.heapOrdered_nil
  | succ d ih =>
    rw [treeAt]
    split_ifs with hle
    · have htrans : ∀ a b c, ¬ less a b → ¬ less b c → ¬ less a c := fun _ _ _ =>
        not_less_trans hless
      rw [BinaryTree.heapOrdered_node_iff htrans]
      have hl := hroot d (2 * k) (by omega)
      have hr := hroot d (2 * k + 1) (by omega)
      rw [show 2 * k / 2 = k by omega] at hl
      rw [show (2 * k + 1) / 2 = k by omega] at hr
      exact ⟨hl, hr, ih (by omega), ih (by omega)⟩
    · exact BinaryTree.heapOrdered_nil

/-- The assertion holds. -/
lemma heapIsValid_of_ordered {less : T → T → Bool}
    (hless : IsStrictWeakOrder T fun a b => less a b = true) (hcmp : s.heap.less = less)
    (hrep : Rep s (fun k => 1 ≤ k ∧ k ≤ n) addr)
    (hord : Ordered less n fun k => (s.mem (addr k)).value) {d : ℕ} (hd : n < 2 ^ d)
    (hfuel : d < fuel) : ∃ err, heapIsValid fuel s.mem s.heap = some (true, err) := by
  have htree := isTree_treeAt hrep Nat.one_pos (by rwa [Nat.one_mul])
  rw [← hrep.root] at htree
  obtain ⟨valid, err, hrun, hvalid⟩ := heapIsValid_spec (by rwa [hcmp]) htree
  rw [hcmp] at hvalid
  rw [hvalid.mpr (heapOrdered_treeAt hless hord Nat.one_pos)] at hrun
  exact ⟨err, hrun fuel ((height_treeAt ..).trans_lt hfuel)⟩

end Tree

/-! ### The program -/

/-- The calls of `heap_insert` for which there was memory, with the nodes. -/
def insertions (malloc : ℕ → Ptr) (values : List T) : List (Ptr × T) :=
  (values.mapIdx fun k value => (malloc k, value)).filter (·.1 ≠ 0)

section Program

variable {malloc : ℕ → Ptr} {less : T → T → Bool} {fuel : ℕ} {t : Test T} {done values : List T}
  {value : T}

lemma insertions_concat (malloc : ℕ → Ptr) (done : List T) (value : T) :
    insertions malloc (done ++ [value]) =
      insertions malloc done ++
        if malloc done.length = 0 then [] else [(malloc done.length, value)] := by
  rw [insertions, List.mapIdx_concat, List.filter_append, insertions, List.filter_singleton]
  split_ifs <;> simp_all

lemma length_insertions_le (malloc : ℕ → Ptr) (done : List T) :
    (insertions malloc done).length ≤ done.length := by
  rw [insertions]
  exact (List.length_filter_le ..).trans_eq List.length_mapIdx

/-- The nodes are those that `malloc` has returned. -/
lemma mem_insertions {p : Ptr} (h : p ∈ (insertions malloc done).map Prod.fst) :
    p ≠ 0 ∧ ∃ k < done.length, malloc k = p := by
  obtain ⟨⟨p, value⟩, hc, rfl⟩ := List.mem_map.mp h
  rw [insertions, List.mem_filter, List.mem_mapIdx] at hc
  obtain ⟨⟨k, hk, heq⟩, hne⟩ := hc
  exact ⟨by simpa using hne, k, hk, congrArg Prod.fst heq⟩

/-- After some numbers: the heap has those for which there was memory, the nodes in use are those
of the heap, and heaps of the first numbers have been printed. -/
structure TestAt (malloc : ℕ → Ptr) (less : T → T → Bool) (done : List T)
    (shown : List (ℕ × (ℕ → T))) (t : Test T) : Prop where
  run : ∃ addr, RunAt less t.state (insertions malloc done) addr
  live : t.live = ((insertions malloc done).map Prod.fst).toFinset
  mallocs : t.mallocs = done.length
  out : t.out = shown.flatMap fun h => shownHeap h.1 h.2

/-- A heap of the numbers: ordered labels of the positions `1..n`. -/
def IsHeapOf (less : T → T → Bool) (heap : ℕ × (ℕ → T)) (stored : List T) : Prop :=
  Ordered less heap.1 heap.2 ∧ (Finset.Icc 1 heap.1).val.map heap.2 = (stored : Multiset T)

/-- A number is inserted if there is memory. -/
lemma TestAt.insert {shown : List (ℕ × (ℕ → T))} (h : TestAt malloc less done shown t)
    (hless : IsStrictWeakOrder T fun a b => less a b = true)
    (hfresh : ∀ i j, malloc i ≠ 0 → malloc i = malloc j → i = j) (hlen : done.length + 1 < 2 ^ 31)
    (hfuel : 32 ≤ fuel) (value : T) :
    ∃ t', t.insert fuel malloc value = some t' ∧ TestAt malloc less (done ++ [value]) shown t' := by
  obtain ⟨⟨addr, hrun⟩, hlive, hmallocs, hout⟩ := h
  have hcalls := insertions_concat malloc done value
  by_cases hnode : malloc done.length = 0
  · rw [if_pos hnode, List.append_nil] at hcalls
    have hexec : t.insert fuel malloc value =
        some { t with mallocs := t.mallocs + 1 } := by
      simp only [Test.insert, hmallocs, hnode, heapInsert, if_true, Option.bind_eq_bind,
        Option.bind_some]
      rfl
    refine ⟨_, hexec, ⟨addr, hcalls ▸ hrun⟩, hcalls ▸ hlive, ?_, hout⟩
    rw [List.length_append, hmallocs, List.length_singleton]
  · rw [if_neg hnode] at hcalls
    have hnew : malloc done.length ∉ (insertions malloc done).map Prod.fst := by
      intro hmem
      obtain ⟨-, k, hk, heq⟩ := mem_insertions hmem
      exact absurd (hfresh _ _ hnode heq.symm) (by omega)
    have hle := length_insertions_le malloc done
    obtain ⟨s', i, hins, -, hrun', -⟩ :=
      hrun.insert (x := value) hless hnode hnew (by omega) fuel hfuel
    have hexec : t.insert fuel malloc value =
        some { t with
          state := s', live := {malloc done.length} ∪ t.live, mallocs := t.mallocs + 1 } := by
      simp only [Test.insert, hmallocs, hins, if_neg hnode, Option.bind_eq_bind, Option.bind_some]
      rfl
    refine ⟨_, hexec, ⟨_, hcalls ▸ hrun'⟩, ?_, ?_, hout⟩
    · dsimp only
      rw [hcalls, hlive, List.map_append, List.toFinset_append, Finset.union_comm]
      rfl
    · rw [List.length_append, hmallocs, List.length_singleton]

/-- The nodes of the heap are those that have been allocated. -/
lemma RunAt.allocated {s : State T} {calls : List (Ptr × T)} {addr : ℕ → Ptr}
    (h : RunAt less s calls addr) :
    (calls.map Prod.fst).toFinset = (Finset.Icc 1 calls.length).image addr := by
  have hne : ∀ k ∈ Finset.Icc 1 calls.length, addr k ≠ 0 := fun k hk =>
    (h.rep.dom k).mpr (Finset.mem_Icc.mp hk)
  symm
  apply Finset.eq_of_subset_of_card_le
  · intro p hp
    obtain ⟨k, hk, rfl⟩ := Finset.mem_image.mp hp
    exact List.mem_toFinset.mpr (h.used k (hne k hk))
  · rw [Finset.card_image_of_injOn fun j hj k hk heq => h.rep.inj j k (hne j hj) heq, Nat.card_Icc,
      Nat.add_sub_cancel]
    exact (List.toFinset_card_le _).trans_eq (List.length_map _)

/-- A round of the loop prints the heap, and the assertion holds. -/
lemma TestAt.round {shown : List (ℕ × (ℕ → T))} (h : TestAt malloc less done shown t)
    (hless : IsStrictWeakOrder T fun a b => less a b = true)
    (hfresh : ∀ i j, malloc i ≠ 0 → malloc i = malloc j → i = j) (hlen : done.length + 1 < 2 ^ 31)
    (hfuel : done.length + 32 ≤ fuel) (n : ℕ) (value : T) (values : List T) :
    ∃ heap t', IsHeapOf less heap ((insertions malloc (done ++ [value])).map Prod.snd) ∧
      TestAt malloc less (done ++ [value]) (shown ++ [heap]) t' ∧
      testLoop fuel malloc (n + 1) (value :: values) t = testLoop fuel malloc n values t' := by
  obtain ⟨t₁, hinsert, ⟨addr, hrun⟩, hlive, hmallocs, hout⟩ :=
    h.insert hless hfresh hlen (show 32 ≤ fuel by omega) value
  have hle := length_insertions_le malloc (done ++ [value])
  rw [List.length_append, List.length_singleton] at hle
  have hshow := showHeap_spec hrun.rep hrun.nNodes (by omega) (show _ ≤ fuel by omega)
  have hsmall : (insertions malloc (done ++ [value])).length < 2 ^ 31 := by omega
  obtain ⟨err, hvalid⟩ :=
    heapIsValid_of_ordered hless hrun.cmp hrun.rep hrun.ordered hsmall (show 31 < fuel by omega)
  refine ⟨((insertions malloc (done ++ [value])).length, fun k => (t₁.state.mem (addr k)).value),
    { t₁ with
      out := t₁.out ++ shownHeap (insertions malloc (done ++ [value])).length
        fun k => (t₁.state.mem (addr k)).value },
    ⟨hrun.ordered, hrun.values⟩, ⟨⟨addr, hrun⟩, hlive, hmallocs, ?_⟩, ?_⟩
  · dsimp only
    rw [hout, List.flatMap_append, List.flatMap_singleton]
  · rw [testLoop, hinsert]
    simp only [Option.bind_eq_bind, Option.bind_some, hshow, hvalid, if_true]

/-- The loop goes on to its end, or to the end of the numbers. -/
lemma testLoop_spec {shown : List (ℕ × (ℕ → T))} (h : TestAt malloc less done shown t)
    (hless : IsStrictWeakOrder T fun a b => less a b = true)
    (hfresh : ∀ i j, malloc i ≠ 0 → malloc i = malloc j → i = j) {n : ℕ}
    (hlen : done.length + n < 2 ^ 31) (hfuel : done.length + n + 32 ≤ fuel) :
    ∃ t' shown', testLoop fuel malloc n values t =
        some (.returned (if n ≤ values.length then 0 else 1) t') ∧
      t'.out = (shown ++ shown').flatMap (fun h => shownHeap h.1 h.2) ∧
      shown'.length = min n values.length ∧
      (∀ i heap, shown'[i]? = some heap →
        IsHeapOf less heap ((insertions malloc (done ++ values.take (i + 1))).map Prod.snd)) ∧
      (n ≤ values.length → t'.live = ∅) := by
  induction n generalizing done shown t values with
  | zero =>
    obtain ⟨⟨addr, hrun⟩, hlive, -, hout⟩ := h
    obtain ⟨fuel, rfl⟩ := Nat.exists_eq_add_of_le' (show 1 ≤ fuel by omega)
    have hle := length_insertions_le malloc done
    have hpow : 2 ^ 31 ≤ 2 ^ fuel := Nat.pow_le_pow_right (by decide) (by omega)
    have hclear := heapClear_spec hrun.rep (show _ < 2 ^ fuel by omega)
      (hlive.trans hrun.allocated)
    refine ⟨{ t with
      state := { t.state with heap := { t.state.heap with root := 0, nNodes := 0 } }, live := ∅ },
      [], ?_, ?_, by simp, by simp, fun _ => rfl⟩
    · rw [testLoop, hclear, if_pos (Nat.zero_le _)]
      rfl
    · rw [List.append_nil]
      exact hout
  | succ n ih =>
    cases values with
    | nil =>
      refine ⟨t, [], ?_, ?_, by simp, by simp, fun hle => absurd hle (Nat.not_succ_le_zero n)⟩
      · rw [testLoop, List.length_nil, if_neg (Nat.not_succ_le_zero n)]
      · rw [List.append_nil]
        exact h.out
    | cons value values =>
      obtain ⟨heap, t₁, hheap, hat, hround⟩ :=
        h.round hless hfresh (by omega) (show _ ≤ fuel by omega) n value values
      have hone : (done ++ [value]).length = done.length + 1 := List.length_append
      obtain ⟨t', shown', hloop, hout, hlength, hshown, hlive⟩ :=
        @ih t₁ (done ++ [value]) values _ hat (by omega) (by omega)
      refine ⟨t', heap :: shown', ?_, ?_, ?_, ?_, fun hle => hlive (Nat.le_of_succ_le_succ hle)⟩
      · rw [hround, hloop]
        simp only [List.length_cons, Nat.succ_le_succ_iff]
      · rw [hout, List.append_assoc, List.singleton_append]
      · rw [List.length_cons, List.length_cons, hlength, Nat.succ_min_succ]
      · intro i heap' hi
        cases i with
        | zero =>
          rw [List.getElem?_cons_zero, Option.some.injEq] at hi
          subst hi
          exact hheap
        | succ i =>
          rw [List.getElem?_cons_succ] at hi
          have hi' := hshown i heap' hi
          rwa [List.append_assoc, List.singleton_append, ← List.take_succ_cons] at hi'

end Program

/-- For all numbers on `stdin`, and whatever calls of `malloc` fail, the unit test returns 0, or 1
if numbers are missing, and its assertion holds in all rounds. Each round prints level by level a
heap of the numbers so far for which there was memory; no access is behind the end of the queue or
to a node that is not in use. When it returns 0, no node is in use. -/
theorem unitTest_passes {malloc : ℕ → Ptr} {less : T → T → Bool}
    (hless : IsStrictWeakOrder T fun a b => less a b = true)
    (hfresh : ∀ i j, malloc i ≠ 0 → malloc i = malloc j → i = j) (mem : Mem T) {n fuel : ℕ}
    (hn : n < 2 ^ 31) (hfuel : n + 32 ≤ fuel) (values : List T) :
    ∃ (t : Test T) (shown : List (ℕ × (ℕ → T))), unitTest fuel malloc mem less (some n) values =
        some (.returned (if n ≤ values.length then 0 else 1) t) ∧
      t.out = shown.flatMap (fun h => shownHeap h.1 h.2) ∧
      shown.length = min n values.length ∧
      (∀ i heap, shown[i]? = some heap →
        IsHeapOf less heap ((insertions malloc (values.take (i + 1))).map Prod.snd)) ∧
      (n ≤ values.length → t.live = ∅) := by
  have hstart : TestAt malloc less [] [] { state := heapInit mem less } :=
    ⟨⟨_, runAt_init mem less⟩, rfl, rfl, rfl⟩
  obtain ⟨t, shown, hloop, hout, hlength, hshown, hlive⟩ :=
    @testLoop_spec _ malloc less fuel _ [] values _ hstart hless hfresh n
      (by rwa [List.length_nil, Nat.zero_add]) (by rwa [List.length_nil, Nat.zero_add])
  exact ⟨t, shown, hloop, hout, hlength, hshown, hlive⟩

/-- The second call of `malloc` fails. -/
def secondFails (k : ℕ) : Ptr := if k = 1 then (0 : ℕ) else 8 * (k + 1 : ℕ)

lemma secondFails_fresh (i j : ℕ) (hi : secondFails i ≠ 0) (heq : secondFails i = secondFails j) :
    i = j := by
  unfold secondFails at hi heq
  by_cases hi₁ : i = 1
  · exact absurd (if_pos hi₁) hi
  · rw [if_neg hi₁] at heq
    by_cases hj₁ : j = 1
    · rw [if_pos hj₁] at heq
      exact absurd heq (Nat.mul_ne_zero (by decide) (Nat.succ_ne_zero i))
    · rw [if_neg hj₁] at heq
      exact Nat.succ_injective (Nat.eq_of_mul_eq_mul_left (by decide) heq)

/-- Three numbers, one of which is not stored. -/
theorem unitTest_passes_three :
    ∃ (t : Test ℤ) (shown : List (ℕ × (ℕ → ℤ))),
      unitTest 35 secondFails (fun _ => ⟨0, 0, 0⟩) less (some 3) [3, 1, 4] =
        some (.returned (if 3 ≤ [3, 1, 4].length then 0 else 1) t) ∧
      t.out = shown.flatMap (fun h => shownHeap h.1 h.2) ∧
      shown.length = min 3 [3, 1, 4].length ∧
      (∀ i heap, shown[i]? = some heap →
        IsHeapOf less heap ((insertions secondFails ([3, 1, 4].take (i + 1))).map Prod.snd)) ∧
      (3 ≤ [3, 1, 4].length → t.live = ∅) :=
  unitTest_passes less_strictWeakOrder secondFails_fresh _ (by decide) le_rfl _

end Osm.SequentialHeap
