import Osm.Heap.Insertion

/-!
# The insertion path

The tests `path & mask` of `insert_on_path` and `merge_on_path`, one after the other, over both
loops of an insertion. They should be the digits of the number of nodes below its highest one.
-/

namespace Osm.SequentialHeap

open Core

variable {T : Type}

/-- The `j`-th test of an insertion. -/
def pathTest (path : BitVec 64) (j : ℕ) : Bool := path &&& (topMask path >>> (j + 1)) > 0

/-- As many tests as there are digits below the highest one. -/
def pathTests (path : BitVec 64) : List Bool := (List.range (ilogb path)).map (pathTest path)

/-- The position in the complete tree to which a path leads from its root. -/
def position (bits : List Bool) : ℕ := bits.foldl (fun k b => 2 * k + b.toNat) 1

/-- The tests are the digits of the number of nodes, and they lead to its position. -/
structure FollowsPath (path : BitVec 64) : Prop where
  tests    : pathTests path = pathBits path.toNat
  position : position (pathTests path) = path.toNat

/-! ### The tests of the two loops -/

/-- The rounds of a loop with the tests that they make: each shifts the mask first. -/
def testedRound {σ : Type} (path : BitVec 64) (mask : σ → BitVec 64) (round : σ → σ ⊕ σ) :
    σ × List Bool → (σ × List Bool) ⊕ (σ × List Bool)
  | (v, tests) =>
    (round v).map (fun v' => (v', tests ++ [decide (path &&& mask v' > 0)])) fun v' => (v', tests)

/-- The tests of `insert_on_path`, with those of `merge_on_path` behind them. -/
def insertTests (fuel : ℕ) (s : State T) (node : Ptr) : Option (List Bool) := do
  let path := s.heap.nNodes
  let (found, tests) ← loop
    (testedRound path Search.mask (searchRound s.mem s.heap.less (s.mem node).value path)) fuel
    ({ mask := topMask path, parent := 0, current := s.heap.root }, [])
  let s :=
    if found.parent = 0 then { s with heap.root := node }
    else { s with mem := setChild s.mem found.parent (path &&& found.mask) node }
  let (_, tests) ← loop (testedRound path Merge.mask (mergeRound path)) fuel
    ({ mem := s.mem, outsider := found.current, edge := node, mask := found.mask }, tests)
  return tests

section

variable {σ : Type} {path : BitVec 64} {mask : σ → BitVec 64} {round : σ → σ ⊕ σ} {fuel : ℕ}
  {v v' : σ} {tests tests' : List Bool}

/-- The state of the loop is the one without the tests. -/
lemma loop_testedRound :
    (loop (testedRound path mask round) fuel (v, tests)).map Prod.fst = loop round fuel v := by
  refine (loop_map (fun _ => True) Prod.fst Prod.fst (fun p _ => ?_) (fun _ _ _ _ => trivial) fuel
    (v, tests) trivial).symm
  rw [testedRound]
  cases h : round p.1 <;> rfl

/-- All of the tests so far are those of the path. -/
def Tested (path : BitVec 64) (mask : σ → BitVec 64) (p : σ × List Bool) : Prop :=
  mask p.1 = topMask path >>> p.2.length ∧ p.2 = (List.range p.2.length).map (pathTest path)

/-- A loop that shifts the mask once in each round goes on with the tests of the path. -/
lemma Tested.loop (hshift : ∀ v v', round v = .inl v' → mask v' = mask v >>> 1)
    (hkeep : ∀ v v', round v = .inr v' → mask v' = mask v) (h : Tested path mask (v, tests))
    (hrun : Core.loop (testedRound path mask round) fuel (v, tests) = some (v', tests')) :
    Tested path mask (v', tests') := by
  refine loop_partial (Tested path mask) (Tested path mask) ?_ ?_ fuel _ _ h hrun
  · rintro ⟨v, tests⟩ p' ⟨hmask, htests⟩ hround
    rw [testedRound] at hround
    cases hv : round v with
    | inr v' => simp [hv] at hround
    | inl v' =>
      rw [hv] at hround
      obtain rfl := Sum.inl.inj hround
      have hmask' : mask v' = topMask path >>> (tests.length + 1) := by
        rw [hshift v v' hv, hmask, BitVec.shiftRight_add]
      refine ⟨by simpa using hmask', ?_⟩
      simp only [List.length_append, List.length_singleton, List.range_succ, List.map_append,
        List.map_singleton, ← htests, hmask', pathTest]
  · rintro ⟨v, tests⟩ p' ⟨hmask, htests⟩ hround
    rw [testedRound] at hround
    cases hv : round v with
    | inl v' => simp [hv] at hround
    | inr v' =>
      rw [hv] at hround
      obtain rfl := Sum.inr.inj hround
      exact ⟨(hkeep v v' hv).trans hmask, htests⟩

end

section

variable {mem : Mem T} {less : T → T → Bool} {value : T} {path : BitVec 64}

/-- A round of the search shifts the mask, and goes to the child that the test says. -/
lemma searchRound_test {v v' : Search} (h : searchRound mem less value path v = .inl v') :
    v'.mask = v.mask >>> 1 ∧
      v'.current = child mem v.current (decide (path &&& v'.mask > 0)) := by
  rw [searchRound] at h
  split_ifs at h with hless
  obtain rfl := Sum.inl.inj h
  exact ⟨rfl, by simp [getChild, child, hless.1]⟩

lemma searchRound_mask {v v' : Search} (h : searchRound mem less value path v = .inr v') :
    v'.mask = v.mask := by
  rw [searchRound] at h
  split_ifs at h
  rw [Sum.inr.inj h]

/-- A round of the merging shifts the mask, and goes to the child that the test says. -/
lemma mergeRound_test {v v' : Merge T} (h : mergeRound path v = .inl v') :
    v'.mask = v.mask >>> 1 ∧
      v'.outsider = child v'.mem v.outsider (decide (path &&& v'.mask > 0)) := by
  simp only [mergeRound] at h
  split_ifs at h with hnull htest
  · obtain rfl := Sum.inl.inj h
    refine ⟨rfl, ?_⟩
    rw [child, if_neg hnull, if_pos (decide_eq_true htest)]
  · obtain rfl := Sum.inl.inj h
    refine ⟨rfl, ?_⟩
    rw [child, if_neg hnull, if_neg (of_decide_eq_true · |> htest)]

lemma mergeRound_mask {v v' : Merge T} (h : mergeRound path v = .inr v') : v'.mask = v.mask := by
  simp only [mergeRound] at h
  split_ifs at h
  rw [Sum.inr.inj h]

/-- There are tests of every insertion that ends. -/
lemma insertTests_isSome (fuel : ℕ) (s : State T) (node : Ptr) :
    (insertTests fuel s node).isSome = (insertOnPath fuel s node).isSome := by
  have hsearch := @loop_testedRound _ s.heap.nNodes Search.mask
    (searchRound s.mem s.heap.less (s.mem node).value s.heap.nNodes) fuel
    { mask := topMask s.heap.nNodes, parent := 0, current := s.heap.root } []
  simp only [insertTests, insertOnPath, mergeOnPath, ← hsearch, Option.bind_eq_bind]
  cases loop (testedRound s.heap.nNodes Search.mask
    (searchRound s.mem s.heap.less (s.mem node).value s.heap.nNodes)) fuel
    ({ mask := topMask s.heap.nNodes, parent := 0, current := s.heap.root }, []) with
  | none => rfl
  | some p =>
    obtain ⟨found, tests⟩ := p
    simp only [Option.map_some, Option.bind_some]
    generalize (if found.parent = 0 then ({ s with heap.root := node } : State T) else _) = t
    rw [← @loop_testedRound _ s.heap.nNodes Merge.mask (mergeRound s.heap.nNodes) fuel _ tests]
    generalize Core.loop (testedRound _ Merge.mask (mergeRound s.heap.nNodes)) fuel _ = r
    cases r <;> rfl

/-- The tests of any insertion are those of the path. -/
theorem insertTests_eq {fuel : ℕ} {s : State T} {node : Ptr} {tests : List Bool}
    (h : insertTests fuel s node = some tests) :
    tests = (List.range tests.length).map (pathTest s.heap.nNodes) := by
  simp only [insertTests, Option.bind_eq_bind, Option.bind_eq_some_iff, Option.pure_def,
    Option.some.injEq, Prod.exists] at h
  obtain ⟨found, searched, hsearch, v, merged, hmerge, rfl⟩ := h
  have hfound := Tested.loop (fun v v' hv => (searchRound_test hv).1)
    (fun v v' hv => searchRound_mask hv) ⟨rfl, rfl⟩ hsearch
  have hmerged := Tested.loop (fun v v' hv => (mergeRound_test hv).1)
    (fun v v' hv => mergeRound_mask hv) ⟨hfound.1, hfound.2⟩ hmerge
  exact hmerged.2

end

/-! ### The digits of the number of nodes -/

/-- A position is reached from its parent. -/
lemma pathBits_half {n : ℕ} (hn : 2 ≤ n) : pathBits n = pathBits (n / 2) ++ [n.testBit 0] := by
  have hsplit : n = 2 * (n / 2) + (n.testBit 0).toNat := by
    rw [Nat.testBit_zero]
    rcases Nat.mod_two_eq_zero_or_one n with h | h <;> simp [h] <;> omega
  conv_lhs => rw [hsplit]
  exact pathBits_bit _ _ (by omega)

/-- The digits below the highest one, from this one on. -/
lemma pathBits_eq {n : ℕ} (hn : 1 ≤ n) :
    pathBits n = (List.range n.log2).map fun j => n.testBit (n.log2 - 1 - j) := by
  induction n using Nat.strongRecOn with
  | ind n ih =>
    rcases Nat.lt_or_ge n 2 with hlt | hge
    · obtain rfl : n = 1 := by omega
      rw [pathBits_one]
      rfl
    · have hlog : n.log2 = (n / 2).log2 + 1 := by rw [Nat.log2_def, if_pos hge]
      rw [pathBits_half hge, ih _ (by omega) (by omega), hlog, List.range_succ, List.map_append,
        List.map_singleton, Nat.add_sub_cancel, Nat.sub_self, List.append_left_inj]
      refine List.map_congr_left fun j hj => ?_
      rw [List.mem_range] at hj
      rw [← Nat.testBit_succ]
      congr 1
      omega

/-- The digits of a number lead to its position. -/
lemma position_pathBits {n : ℕ} (hn : 1 ≤ n) : position (pathBits n) = n := by
  induction n using Nat.strongRecOn with
  | ind n ih =>
    rcases Nat.lt_or_ge n 2 with hlt | hge
    · obtain rfl : n = 1 := by omega
      rw [pathBits_one]
      rfl
    · rw [pathBits_half hge, position, List.foldl_append, ← position, ih _ (by omega) (by omega),
        List.foldl_cons, List.foldl_nil, Nat.testBit_zero]
      rcases Nat.mod_two_eq_zero_or_one n with h | h <;> simp [h] <;> omega

section

variable {path : BitVec 64}

/-- The path is followed if each of the tests reads its digit. -/
lemma followsPath_iff (hpath : 1 ≤ path.toNat) :
    FollowsPath path ↔ ∀ j < path.toNat.log2,
      pathTest path j = path.toNat.testBit (path.toNat.log2 - 1 - j) := by
  have htests : pathTests path = pathBits path.toNat ↔ ∀ j < path.toNat.log2,
      pathTest path j = path.toNat.testBit (path.toNat.log2 - 1 - j) := by
    rw [pathBits_eq hpath, pathTests, ilogb, List.map_inj_left]
    simp only [List.mem_range]
  rw [← htests]
  exact ⟨fun h => h.tests, fun h => ⟨h, by rw [h, position_pathBits hpath]⟩⟩

/-! ### The masks -/

/-- Up to the sign bit of `int` the mask is the highest digit. -/
lemma pathTest_small (hpath : 1 ≤ path.toNat) (h : path.toNat < 2 ^ 31) {j : ℕ}
    (hj : j < path.toNat.log2) :
    pathTest path j = path.toNat.testBit (path.toNat.log2 - 1 - j) := by
  have hlog : path.toNat.log2 < 31 := (Nat.log2_lt (Nat.ne_of_gt hpath)).mpr h
  rw [pathTest, topMask_eq path (Nat.ne_of_gt hpath) h, twoPow_ushiftRight (by omega) hj,
    show path.toNat.log2 - (j + 1) = path.toNat.log2 - 1 - j by omega, Bool.eq_iff_iff,
    decide_eq_true_iff, and_twoPow_pos path _ (by omega)]

/-- The sign bit fills the upper half of the mask, which reads every digit as set. -/
lemma pathTest_sign (hlow : 2 ^ 31 ≤ path.toNat) (h : path.toNat < 2 ^ 32) {j : ℕ} (hj : j < 31) :
    pathTest path j = true := by
  have hlog : path.toNat.log2 = 31 := (Nat.log2_eq_iff (by omega)).mpr ⟨hlow, h⟩
  have hpath : path.getLsbD 31 = true := by
    rw [← BitVec.testBit_toNat, ← hlog]
    exact Nat.testBit_log2 (by omega)
  have hmask : (topMask path >>> (j + 1)).getLsbD 31 = true := by
    rw [topMask, ilogb, hlog, BitVec.getLsbD_ushiftRight, BitVec.getLsbD_signExtend,
      if_neg (by omega), decide_eq_true (by omega)]
    rfl
  have hbit : (path &&& (topMask path >>> (j + 1))).getLsbD 31 = true := by
    rw [BitVec.getLsbD_and, hpath, hmask]
    rfl
  rw [pathTest, decide_eq_true_iff]
  refine (BitVec.pos_iff_ne_zero _).mpr fun hzero => ?_
  rw [hzero, BitVec.getLsbD_zero] at hbit
  exact Bool.false_ne_true hbit

/-- The bit is shifted out of the mask. -/
lemma pathTest_large (h : 2 ^ 32 ≤ path.toNat) (j : ℕ) : pathTest path j = false := by
  have hlog : 32 ≤ path.toNat.log2 := (Nat.le_log2 (by omega)).mpr h
  have hmask : topMask path = 0 := by
    rw [topMask, ilogb, BitVec.shiftLeft_eq_zero hlog]
    rfl
  simp [pathTest, hmask]

/-! ### The sizes for which the path is right -/

/-- All digits are set. -/
lemma testBit_ones_iff {n : ℕ} (hlow : 2 ^ 31 ≤ n) (h : n < 2 ^ 32) :
    (∀ j < 31, n.testBit (31 - 1 - j) = true) ↔ n = 2 ^ 32 - 1 := by
  have hlog : n.log2 = 31 := (Nat.log2_eq_iff (by omega)).mpr ⟨hlow, h⟩
  constructor
  · intro hones
    apply Nat.eq_of_testBit_eq
    intro i
    rw [Nat.testBit_two_pow_sub_one]
    rcases lt_trichotomy i 31 with hi | rfl | hi
    · have hone := hones (31 - 1 - i) (by omega)
      rw [show 31 - 1 - (31 - 1 - i) = i by omega] at hone
      rw [hone, decide_eq_true (by omega)]
    · rw [← hlog, Nat.testBit_log2 (by omega), hlog]
      rfl
    · have hpow : 2 ^ 32 ≤ 2 ^ i := Nat.pow_le_pow_right (by omega) hi
      rw [Nat.testBit_lt_two_pow (by omega), decide_eq_false (by omega)]
  · rintro rfl j hj
    rw [Nat.testBit_two_pow_sub_one, decide_eq_true (by omega)]

/-- No digit below the highest one is set. -/
lemma testBit_zeros_iff {n : ℕ} (hn : n ≠ 0) :
    (∀ j < n.log2, n.testBit (n.log2 - 1 - j) = false) ↔ n = 2 ^ n.log2 := by
  constructor
  · intro hzeros
    apply Nat.eq_of_testBit_eq
    intro i
    rw [Nat.testBit_two_pow]
    rcases lt_trichotomy i n.log2 with hi | rfl | hi
    · have hzero := hzeros (n.log2 - 1 - i) (by omega)
      rw [show n.log2 - 1 - (n.log2 - 1 - i) = i by omega] at hzero
      rw [hzero, decide_eq_false (by omega)]
    · rw [Nat.testBit_log2 hn, decide_eq_true rfl]
    · rw [Nat.testBit_lt_two_pow ((Nat.log2_lt hn).mp hi), decide_eq_false (by omega)]
  · intro hpow j hj
    conv_lhs => rw [hpow]
    rw [Nat.testBit_two_pow, Nat.log2_two_pow, decide_eq_false (by omega)]

end

/-- Every insertion that ends makes tests, which are those of the path. The path is followed exactly
for fewer than `2 ^ 31` nodes, for `2 ^ 32 - 1` nodes, and for the powers of two from `2 ^ 32` on. -/
theorem followsPath_iff_size (path : BitVec 64) (hpath : 1 ≤ path.toNat) :
    (∀ (T : Type) (fuel : ℕ) (s : State T) (node : Ptr), s.heap.nNodes = path →
      (insertTests fuel s node).isSome = (insertOnPath fuel s node).isSome ∧
      ∀ tests : List Bool, insertTests fuel s node = some tests →
        tests = (List.range tests.length).map (pathTest path)) ∧
    (FollowsPath path ↔
      path.toNat < 2 ^ 31 ∨ path.toNat = 2 ^ 32 - 1 ∨ ∃ k ≥ 32, path.toNat = 2 ^ k) := by
  refine ⟨fun T fuel s node hs => ⟨insertTests_isSome fuel s node, ?_⟩, ?_⟩
  · exact fun tests h => hs ▸ insertTests_eq h
  rw [followsPath_iff hpath]
  rcases Nat.lt_or_ge path.toNat (2 ^ 31) with hsmall | hlow
  · exact iff_of_true (fun j hj => pathTest_small hpath hsmall hj) (.inl hsmall)
  rcases Nat.lt_or_ge path.toNat (2 ^ 32) with hsign | hlarge
  · have hlog : path.toNat.log2 = 31 := (Nat.log2_eq_iff (by omega)).mpr ⟨hlow, hsign⟩
    have hones : (∀ j < 31, pathTest path j = path.toNat.testBit (31 - 1 - j)) ↔
        ∀ j < 31, path.toNat.testBit (31 - 1 - j) = true := by
      refine forall₂_congr fun j hj => ?_
      rw [pathTest_sign hlow hsign hj, eq_comm]
    rw [hlog, hones, testBit_ones_iff hlow hsign]
    constructor
    · exact fun h => .inr (.inl h)
    · rintro (h | h | ⟨k, hk, h⟩)
      · omega
      · exact h
      · have hpow : 2 ^ 32 ≤ 2 ^ k := Nat.pow_le_pow_right (by omega) hk
        omega
  · have hzeros : (∀ j < path.toNat.log2, pathTest path j =
          path.toNat.testBit (path.toNat.log2 - 1 - j)) ↔
        ∀ j < path.toNat.log2, path.toNat.testBit (path.toNat.log2 - 1 - j) = false := by
      refine forall₂_congr fun j _ => ?_
      rw [pathTest_large hlarge, eq_comm]
    rw [hzeros, testBit_zeros_iff (by omega)]
    constructor
    · exact fun h => .inr (.inr ⟨_, (Nat.le_log2 (by omega)).mpr hlarge, h⟩)
    · rintro (h | h | ⟨k, hk, h⟩)
      · omega
      · omega
      · rw [h, Nat.log2_two_pow]

theorem followsPath_iff_size_five :
    (∀ (T : Type) (fuel : ℕ) (s : State T) (node : Ptr), s.heap.nNodes = 5 →
      (insertTests fuel s node).isSome = (insertOnPath fuel s node).isSome ∧
      ∀ tests : List Bool, insertTests fuel s node = some tests →
        tests = (List.range tests.length).map (pathTest 5)) ∧
    FollowsPath 5 := by
  obtain ⟨htests, hiff⟩ := followsPath_iff_size 5 (by decide)
  exact ⟨htests, hiff.mpr (.inl (by decide))⟩

/-- The path for `2 ^ 31` nodes goes right instead of left. -/
theorem not_followsPath_sign :
    pathTest (BitVec.ofNat 64 (2 ^ 31)) 0 = true ∧ ¬ FollowsPath (BitVec.ofNat 64 (2 ^ 31)) := by
  have htest : pathTest (BitVec.ofNat 64 (2 ^ 31)) 0 = true := by decide
  refine ⟨htest, fun h => ?_⟩
  have hbit := (followsPath_iff (by decide)).mp h 0 (by decide)
  rw [htest] at hbit
  exact absurd hbit (by decide)

end Osm.SequentialHeap
