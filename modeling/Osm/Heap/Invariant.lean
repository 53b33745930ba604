import Mathlib.Order.Defs.Unbundled
import Osm.Heap.Insertion

/-!
# The heap invariant

After any run of insertions the nodes fill the positions `1..n_nodes` of the complete binary
tree, no node is greater than its parent, and the values are those inserted. The proof carries
the position function of `Rep` along: an insertion turns the values by position into their
`shiftDown`, which keeps the order of a heap when the shift starts at the insertion point.
-/

namespace Osm.SequentialHeap

open Core

variable {T : Type}

section Order

variable {less : T → T → Bool}

/-- Not being smaller is transitive for a strict weak order. -/
lemma not_less_trans (hless : IsStrictWeakOrder T fun a b => less a b = true) {a b c : T}
    (hab : ¬ less a b) (hbc : ¬ less b c) : ¬ less a c := by
  intro hac
  have hba : ¬ less b a := fun h => hbc (hless.trans _ _ _ h hac)
  have hcb : ¬ less c b := fun h => hab (hless.trans _ _ _ hac h)
  exact (hless.incomp_trans a b c ⟨hab, hba⟩ ⟨hbc, hcb⟩).1 hac

lemma not_less_of_less (hless : IsStrictWeakOrder T fun a b => less a b = true) {a b : T}
    (h : less a b) : ¬ less b a := fun h' => hless.irrefl a (hless.trans _ _ _ h h')

/-- No label is greater than the one of its parent, at the positions `1..n`. -/
def Ordered (less : T → T → Bool) (n : ℕ) (f : ℕ → T) : Prop :=
  ∀ k, 2 ≤ k → k ≤ n → ¬ less (f (k / 2)) (f k)

/-- Shifting the path down from the insertion point keeps the order. -/
lemma Ordered.shiftDown (hless : IsStrictWeakOrder T fun a b => less a b = true) {n i : ℕ}
    {f : ℕ → T} (h : Ordered less n f) {x : T} (hi : 0 < anc (n + 1) i)
    (habove : ∀ l, i < l → 0 < anc (n + 1) l → less x (f (anc (n + 1) l)))
    (hhere : anc (n + 1) i ≤ n → ¬ less x (f (anc (n + 1) i))) :
    Ordered less (n + 1) (shiftDown (n + 1) (anc (n + 1) i) x f) := by
  have hpos : ∀ j ≤ i, 0 < anc (n + 1) j := fun j hj => lt_of_lt_of_le hi (anc_antitone _ hj)
  have hself := shiftDown_self (n + 1) (anc (n + 1) i) x f
  have hbelow : ∀ j < i, Core.shiftDown (n + 1) (anc (n + 1) i) x f (anc (n + 1) j) =
      f (anc (n + 1) (j + 1)) :=
    fun j hj => shiftDown_anc (anc_lt hj (hpos j hj.le)) x f
  have hle : ∀ j, 0 < j → anc (n + 1) j ≤ n := by
    intro j hj
    have := anc_lt (n := n + 1) (i := 0) hj (by simp)
    simp only [anc_zero] at this
    omega
  have hoff : ∀ q, (∀ j ≤ i, q ≠ anc (n + 1) j) →
      Core.shiftDown (n + 1) (anc (n + 1) i) x f q = f q :=
    fun q hq => shiftDown_off_path hq x f
  intro k hk2 hkn
  by_cases hk : ∃ j ≤ i, k = anc (n + 1) j
  · obtain ⟨j, hj, rfl⟩ := hk
    rw [← anc_succ]
    have hpar : 0 < anc (n + 1) (j + 1) := by rw [anc_succ]; omega
    rcases Nat.lt_or_ge j i with hlt | hge
    · rw [hbelow j hlt]
      rcases Nat.lt_or_ge (j + 1) i with hlt' | hge'
      · rw [hbelow (j + 1) hlt', anc_succ (n + 1) (j + 1)]
        refine h _ ?_ (hle _ (by omega))
        have := anc_lt (n := n + 1) hlt' (hpos _ hlt'.le)
        omega
      · obtain rfl : i = j + 1 := by omega
        rw [hself]
        exact hhere (hle _ (by omega))
    · obtain rfl : j = i := by omega
      rw [hself, hoff _ fun l hl heq => by have := anc_injOn hpar heq; omega]
      exact not_less_of_less hless (habove _ (Nat.lt_succ_self _) hpar)
  · have hkoff : ∀ j ≤ i, k ≠ anc (n + 1) j := fun j hj heq => hk ⟨j, hj, heq⟩
    have hkn' : k ≤ n := by
      have := hkoff 0 (by omega)
      simp only [anc_zero] at this
      omega
    rw [hoff k hkoff]
    have hold := h k hk2 hkn'
    by_cases hp : ∃ j ≤ i, k / 2 = anc (n + 1) j
    · obtain ⟨j, hj, hjk⟩ := hp
      rw [hjk] at hold ⊢
      rcases Nat.lt_or_ge j i with hlt | hge
      · rw [hbelow j hlt]
        refine not_less_trans hless ?_ hold
        rw [anc_succ]
        refine h _ ?_ (by omega)
        have := anc_lt (n := n + 1) hlt (hpos j hj)
        omega
      · obtain rfl : j = i := by omega
        rw [hself]
        exact not_less_trans hless (hhere (by omega)) hold
    · rw [hoff _ fun j hj heq => hp ⟨j, hj, heq⟩]
      exact hold

/-- The labels of the path are sorted, so that none of those below a label that is not greater
than `x` is greater than `x`. -/
lemma Ordered.path (hless : IsStrictWeakOrder T fun a b => less a b = true) {n i : ℕ} {f : ℕ → T}
    (h : Ordered less n f) {x : T} (hi : 0 < anc (n + 1) i)
    (hhere : anc (n + 1) i ≤ n → ¬ less x (f (anc (n + 1) i))) {j : ℕ} (hj : 0 < j) (hji : j ≤ i) :
    ¬ less x (f (anc (n + 1) j)) := by
  have hle : ∀ l, 0 < l → anc (n + 1) l ≤ n := by
    intro l hl
    have := anc_lt (n := n + 1) (i := 0) hl (by simp)
    rw [anc_zero] at this
    omega
  induction hji using Nat.decreasingInduction with
  | self => exact hhere (hle i hj)
  | of_succ l hl ih =>
    have hpos : 0 < anc (n + 1) (l + 1) := hi.trans_le (anc_antitone (n + 1) hl)
    refine not_less_trans hless (ih (Nat.succ_pos l)) ?_
    rw [anc_succ] at hpos ⊢
    exact h _ (by omega) (hle l hj)

/-- In an ordered heap the root is a maximum. -/
lemma Ordered.root_max (hless : IsStrictWeakOrder T fun a b => less a b = true) {n : ℕ}
    {f : ℕ → T} (h : Ordered less n f) : ∀ k, 1 ≤ k → k ≤ n → ¬ less (f 1) (f k) := by
  intro k
  induction k using Nat.strongRecOn with
  | ind k ih =>
    intro hk1 hkn
    rcases Nat.lt_or_ge k 2 with hlt | hge
    · obtain rfl : k = 1 := by omega
      exact hless.irrefl _
    · exact not_less_trans hless (ih (k / 2) (by omega) (by omega) (by omega)) (h k hge hkn)

end Order

/-! ### Whole runs -/

/-- The representation invariant, in terms of the tree itself: `inserted` lists the values
inserted so far. -/
structure IsHeap (s : State T) (inserted : List T) : Prop where
  /-- There are nodes exactly at the positions `1..n_nodes`. -/
  shape : ∀ k, 1 ≤ k → (s.nodeAt k ≠ 0 ↔ k ≤ s.heap.nNodes.toNat)
  /-- Different positions have different nodes. -/
  distinct : ∀ j k, 1 ≤ j → 1 ≤ k → s.nodeAt j ≠ 0 → s.nodeAt j = s.nodeAt k → j = k
  /-- No node is greater than its parent. -/
  ordered : ∀ k, 2 ≤ k → k ≤ s.heap.nNodes.toNat →
    ¬ s.heap.less (s.valueAt (k / 2)) (s.valueAt k)
  /-- Nothing is lost or invented. -/
  values : (Finset.Icc 1 s.heap.nNodes.toNat).val.map s.valueAt = inserted
  /-- The root is a maximum. -/
  rootMax : ∀ k, 1 ≤ k → k ≤ s.heap.nNodes.toNat → ¬ s.heap.less (s.valueAt 1) (s.valueAt k)

/-- What a run of insertions maintains: the position function of the tree, whose pointers are
those `malloc` returned. -/
structure RunAt (less : T → T → Bool) (s : State T) (calls : List (Ptr × T)) (addr : ℕ → Ptr) :
    Prop where
  rep : Rep s (fun k => 1 ≤ k ∧ k ≤ calls.length) addr
  nNodes : s.heap.nNodes.toNat = calls.length
  cmp : s.heap.less = less
  used : ∀ k, addr k ≠ 0 → addr k ∈ calls.map Prod.fst
  ordered : Ordered less calls.length fun k => (s.mem (addr k)).value
  values : (Finset.Icc 1 calls.length).val.map (fun k => (s.mem (addr k)).value) =
    (calls.map Prod.snd : Multiset T)

lemma free_succ (n : ℕ) : Free (fun k => 1 ≤ k ∧ k ≤ n) (n + 1) := by
  refine ⟨by omega, by omega, fun j hj hpos => ⟨hpos, ?_⟩⟩
  have := anc_lt (n := n + 1) (i := 0) hj (by simp)
  simp only [anc_zero] at this
  omega

section NewAddr

variable {addr : ℕ → Ptr} {node : Ptr} {m i : ℕ} {mem mem' : Mem T} {x : T}

/-- The values by position after an insertion. -/
lemma value_newAddr (hfresh : ∀ k, addr k ≠ node) (hx : (mem' node).value = x)
    (hval : ∀ p ≠ node, (mem' p).value = (mem p).value) (q : ℕ) :
    (mem' (newAddr addr node m i q)).value =
      shiftDown m (anc m i) x (fun k => (mem (addr k)).value) q := by
  have happly := apply_shiftDown (fun p => (mem' p).value) m (anc m i) node addr q
  simp only [hx, Function.comp_def, hval _ (hfresh _)] at happly
  exact happly

/-- The pointers after an insertion are those before it and the new one. -/
lemma newAddr_mem {nodes : List Ptr} (hused : ∀ k, addr k ≠ 0 → addr k ∈ nodes) {k : ℕ}
    (hk : newAddr addr node m i k ≠ 0) : newAddr addr node m i k ∈ nodes ++ [node] := by
  rw [List.mem_append]
  rw [newAddr, shiftDown] at hk ⊢
  cases hsrc : source m (anc m i) k with
  | none => exact Or.inr (by simp)
  | some a => rw [hsrc] at hk; exact Or.inl (hused a hk)

end NewAddr

lemma rep_of_root_null {s : State T} (hroot : s.heap.root = 0) :
    Rep s (fun k => 1 ≤ k ∧ k ≤ 0) fun _ => 0 := by
  refine ⟨hroot, ?_, ?_, ?_, ?_, ?_, ?_⟩ <;> intro k <;> simp <;> omega

lemma runAt_init (mem : Mem T) (less : T → T → Bool) :
    RunAt less (heapInit mem less) [] fun _ => 0 where
  rep := rep_of_root_null rfl
  nNodes := rfl
  cmp := rfl
  used := by simp
  ordered := by intro k hk hk0; simp at hk0; omega
  values := by simp

/-- The state after one more insertion: its position function is the shifted one. -/
lemma RunAt.insert {less : T → T → Bool}
    (hless : IsStrictWeakOrder T fun a b => less a b = true) {s : State T}
    {calls : List (Ptr × T)} {addr : ℕ → Ptr} (h : RunAt less s calls addr) {node : Ptr} {x : T}
    (hnode : node ≠ 0) (hfresh : node ∉ calls.map Prod.fst) (hlen : calls.length + 1 < 2 ^ 31)
    (fuel : ℕ) (hfuel : 32 ≤ fuel) :
    ∃ s' i, heapInsert fuel s node x = some (s', 0) ∧
      StopsAt s addr x (calls.length + 1) i ∧
      RunAt less s' (calls ++ [(node, x)]) (newAddr addr node (calls.length + 1) i) ∧
      ∀ q, (s'.mem (newAddr addr node (calls.length + 1) i q)).value =
        shiftDown (calls.length + 1) (anc (calls.length + 1) i) x
          (fun k => (s.mem (addr k)).value) q := by
  have hpath : (s.heap.nNodes + 1).toNat = calls.length + 1 := by
    rw [BitVec.toNat_add, h.nNodes]
    exact Nat.mod_eq_of_lt (by simp; omega)
  have hfresh' : ∀ k, addr k ≠ node := by
    intro k heq
    exact hfresh (heq ▸ h.used k (heq ▸ hnode))
  have hlead := leads_nNodes (s.heap.nNodes + 1) (by omega) (by omega)
  rw [hpath] at hlead
  have hlog : (calls.length + 1).log2 < 31 := (Nat.log2_lt (by omega)).mpr hlen
  obtain ⟨s', i, hrun, hstop, hrep, hless', hnum, hx, hval⟩ :=
    heapInsert_spec h.rep hfresh' hnode (free_succ _) hlead x fuel (by omega)
  have hs : 0 < anc (calls.length + 1) i := (anc_pos_iff (by omega)).mpr hstop.le
  have hvalues : ∀ q, (s'.mem (newAddr addr node (calls.length + 1) i q)).value =
      shiftDown (calls.length + 1) (anc (calls.length + 1) i) x
        (fun k => (s.mem (addr k)).value) q := value_newAddr hfresh' hx hval
  have hdom : ∀ k, (1 ≤ k ∧ k ≤ calls.length) ∨ k = calls.length + 1 ↔
      1 ≤ k ∧ k ≤ (calls ++ [(node, x)]).length := by
    intro k
    rw [List.length_append, List.length_singleton]
    omega
  refine ⟨s', i, hrun, hstop, ⟨?_, ?_, hless'.trans h.cmp, ?_, ?_, ?_⟩, hvalues⟩
  · simpa only [hdom] using hrep
  · rw [hnum, hpath]; simp
  · intro k hk
    rw [List.map_append]
    exact newAddr_mem h.used hk
  · rw [List.length_append, List.length_singleton]
    simp only [hvalues]
    refine h.ordered.shiftDown hless hs (fun l hl hpos => ?_) (fun hle => ?_)
    · rw [← h.cmp]
      exact hstop.above l hl (h.rep.addr_ne ((free_succ _).above l (by omega) hpos))
    · rw [← h.cmp]
      exact hstop.here (h.rep.addr_ne ⟨hs, hle⟩)
  · rw [List.length_append, List.length_singleton]
    simp only [hvalues]
    rw [map_shiftDown hs, h.values, List.map_append, ← Multiset.coe_add, add_comm]
    rfl

lemma RunAt.isHeap {less : T → T → Bool}
    (hless : IsStrictWeakOrder T fun a b => less a b = true) {s : State T}
    {calls : List (Ptr × T)} {addr : ℕ → Ptr} (h : RunAt less s calls addr) :
    IsHeap s (calls.map Prod.snd) := by
  have hat := h.rep.nodeAt_eq
  have hvalue : ∀ k, 1 ≤ k → s.valueAt k = (s.mem (addr k)).value := by
    intro k hk
    rw [State.valueAt, hat k hk]
  constructor
  · intro k hk
    rw [hat k hk, h.rep.dom, h.nNodes]
    omega
  · intro j k hj hk hne heq
    rw [hat j hj] at hne heq
    exact h.rep.inj j k hne (heq.trans (hat k hk))
  · intro k hk2 hkn
    rw [hvalue k (by omega), hvalue (k / 2) (by omega), h.cmp]
    exact h.ordered k hk2 (h.nNodes ▸ hkn)
  · rw [h.nNodes, ← h.values]
    refine Multiset.map_congr rfl fun k hk => hvalue k ?_
    exact (Finset.mem_Icc.mp hk).1
  · intro k hk hkn
    rw [hvalue k hk, hvalue 1 le_rfl, h.cmp]
    exact h.ordered.root_max hless k hk (h.nNodes ▸ hkn)

/-- A run of fewer than `2 ^ 31` insertions returns and keeps the invariant. -/
lemma heapInserts_runAt {less : T → T → Bool}
    (hless : IsStrictWeakOrder T fun a b => less a b = true) (mem : Mem T) (fuel : ℕ)
    (hfuel : 32 ≤ fuel) (calls : List (Ptr × T)) (hlen : calls.length < 2 ^ 31)
    (hnull : ∀ c ∈ calls, c.1 ≠ 0) (hnodup : (calls.map Prod.fst).Nodup) :
    ∃ s addr, heapInserts fuel (heapInit mem less) calls = some s ∧ RunAt less s calls addr := by
  induction calls using List.reverseRecOn with
  | nil => exact ⟨_, _, rfl, runAt_init mem less⟩
  | append_singleton calls c ih =>
    rw [List.length_append, List.length_singleton] at hlen
    rw [List.map_append, List.nodup_append] at hnodup
    obtain ⟨s, addr, hrun, hat⟩ := ih (by omega) (fun c hc => hnull c (by simp [hc])) hnodup.1
    have hfresh : c.1 ∉ calls.map Prod.fst := fun hc => hnodup.2.2 _ hc _ (by simp) rfl
    obtain ⟨s', i, hins, -, hat', -⟩ :=
      hat.insert hless (hnull c (by simp)) hfresh hlen fuel hfuel
    refine ⟨s', _, ?_, hat'⟩
    rw [heapInserts] at hrun ⊢
    rw [List.foldlM_append, hrun]
    simp [hins]

/-- After every single insertion of a run of fewer than `2 ^ 31` insertions, whatever memory the
run starts in and whatever fresh addresses `malloc` returns, the tree is a heap of the values
inserted so far. -/
theorem heapInserts_isHeap {less : T → T → Bool}
    (hless : IsStrictWeakOrder T fun a b => less a b = true) (mem : Mem T) (fuel : ℕ)
    (hfuel : 32 ≤ fuel) (calls : List (Ptr × T)) (hlen : calls.length < 2 ^ 31)
    (hnull : ∀ c ∈ calls, c.1 ≠ 0) (hnodup : (calls.map Prod.fst).Nodup) (k : ℕ)
    (hk : k ≤ calls.length) :
    ∃ s, heapInserts fuel (heapInit mem less) (calls.take k) = some s ∧
      s.heap.nNodes.toNat = k ∧ IsHeap s ((calls.take k).map Prod.snd) := by
  have hlen' : (calls.take k).length = k := by simp [hk]
  obtain ⟨s, addr, hrun, hat⟩ := heapInserts_runAt hless mem fuel hfuel (calls.take k)
    (by omega) (fun c hc => hnull c (List.mem_of_mem_take hc))
    (by rw [List.map_take]; exact hnodup.sublist (List.take_sublist _ _))
  exact ⟨s, hrun, hat.nNodes.trans hlen', hat.isHeap hless⟩

/-- The comparison of the unit test. -/
def less (a b : ℤ) : Bool := a < b

lemma less_strictWeakOrder : IsStrictWeakOrder ℤ fun a b => less a b = true where
  irrefl a := by simp [less]
  trans a b c := by simp only [less, decide_eq_true_eq]; omega
  incomp_trans a b c := by simp only [less, decide_eq_true_eq]; omega

/-- Three insertions, with a tie, into memory full of zeros. -/
theorem heapInserts_isHeap_three :
    ∃ s, heapInserts 32 (heapInit (fun _ => ⟨0, 0, 0⟩) less)
        ([(8, 2), (16, 5), (24, 5)].take 3) = some s ∧
      s.heap.nNodes.toNat = 3 ∧ IsHeap s (([(8, 2), (16, 5), (24, 5)].take 3).map Prod.snd) :=
  heapInserts_isHeap less_strictWeakOrder _ 32 le_rfl _ (by simp) (by simp) (by simp) 3 (by simp)

end Osm.SequentialHeap
