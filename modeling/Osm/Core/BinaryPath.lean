import Mathlib.Data.Nat.Log
import Mathlib.Data.Nat.Bitwise
import Mathlib.Data.Finset.Option
import Mathlib.Order.Interval.Finset.Nat

/-!
# Paths in the complete binary tree

The nodes of the infinite complete binary tree are the positive numbers: `1` is the root, the
children of `k` are `2 * k` and `2 * k + 1`. The ancestors of a position `n` are the numbers
`n / 2 ^ j`.

`shiftDown n s x f` is the labelling obtained from `f` by writing `x` at the ancestor `s` of `n`
and moving every label on the path from `s` to `n` one position down. It is what inserting at
the end of a binary heap does, whichever way the insertion is carried out.
-/

namespace Osm.Core

/-- The `j`-th ancestor of position `n`, counted from `n` itself. -/
def anc (n j : ℕ) : ℕ := n / 2 ^ j

@[simp] lemma anc_zero (n : ℕ) : anc n 0 = n := by simp [anc]

lemma anc_succ (n j : ℕ) : anc n (j + 1) = anc n j / 2 := by
  rw [anc, anc, pow_succ, Nat.div_div_eq_div_mul]

lemma anc_eq_bit (n j : ℕ) : anc n j = 2 * anc n (j + 1) + (n.testBit j).toNat := by
  have hbit : (n.testBit j).toNat = anc n j % 2 := by
    rw [Nat.toNat_testBit, anc]
  rw [anc_succ, hbit]
  omega

lemma anc_le (n j : ℕ) : anc n j ≤ n := Nat.div_le_self _ _

lemma anc_succ_lt {n j : ℕ} (h : 0 < anc n j) : anc n (j + 1) < anc n j := by
  rw [anc_succ]; omega

lemma anc_antitone (n : ℕ) {i j : ℕ} (h : i ≤ j) : anc n j ≤ anc n i :=
  Nat.div_le_div_left (Nat.pow_le_pow_right (by omega) h) (Nat.two_pow_pos i)

lemma anc_lt {n i j : ℕ} (h : i < j) (hi : 0 < anc n i) : anc n j < anc n i :=
  lt_of_le_of_lt (anc_antitone n h) (anc_succ_lt hi)

lemma anc_pos_iff {n j : ℕ} (hn : 0 < n) : 0 < anc n j ↔ j ≤ n.log2 := by
  rw [anc, Nat.div_pos_iff, Nat.le_log2 (by omega)]
  exact and_iff_right (Nat.two_pow_pos j)

lemma anc_log2 {n : ℕ} (hn : 0 < n) : anc n n.log2 = 1 := by
  have hpos := (anc_pos_iff (j := n.log2) hn).mpr le_rfl
  have hzero : ¬ 0 < anc n (n.log2 + 1) := by rw [anc_pos_iff hn]; omega
  rw [anc_succ] at hzero
  omega

lemma anc_injOn {n i j : ℕ} (hi : 0 < anc n i) (h : anc n i = anc n j) : i = j := by
  rcases lt_trichotomy i j with hij | hij | hij
  · have := anc_lt hij hi; omega
  · exact hij
  · have := anc_lt hij (h ▸ hi); omega

/-! ### Shifting labels down a path -/

section ShiftDown

variable {α β : Type*}

/-- `q` lies on the path from the root to `n`, strictly below `s`. -/
def BelowOnPath (n s q : ℕ) : Prop := s < q ∧ ∃ j ≤ n, q = anc n j

instance (n s q : ℕ) : Decidable (BelowOnPath n s q) :=
  inferInstanceAs (Decidable (s < q ∧ ∃ j ≤ n, q = anc n j))

/-- The position whose label the shift puts at `q`; `none` is the new label. -/
def source (n s q : ℕ) : Option ℕ :=
  if q = s then none else if BelowOnPath n s q then some (q / 2) else some q

/-- Write `x` at `s` and move the labels on the path from `s` to `n` one position down. -/
def shiftDown (n s : ℕ) (x : α) (f : ℕ → α) (q : ℕ) : α := (source n s q).elim x f

lemma belowOnPath_anc {n s j : ℕ} (h : s < anc n j) : BelowOnPath n s (anc n j) := by
  have hn : 0 < n := by have := anc_le n j; omega
  refine ⟨h, j, ?_, rfl⟩
  have hj : j ≤ n.log2 := (anc_pos_iff hn).mp (by omega)
  exact hj.trans (Nat.log2_le_self n)

/-- The sources of the labels below `s` are the path positions from `s` on, without `n`. -/
lemma BelowOnPath.half {n i q : ℕ} (h : BelowOnPath n (anc n i) q) :
    ∃ j < i, q = anc n j ∧ q / 2 = anc n (j + 1) := by
  obtain ⟨hlt, j, -, rfl⟩ := h
  refine ⟨j, ?_, rfl, (anc_succ n j).symm⟩
  by_contra hge
  have := anc_antitone n (show i ≤ j by omega)
  omega

@[simp] lemma shiftDown_self (n s : ℕ) (x : α) (f : ℕ → α) : shiftDown n s x f s = x := by
  simp [shiftDown, source]

lemma shiftDown_anc {n s j : ℕ} (h : s < anc n j) (x : α) (f : ℕ → α) :
    shiftDown n s x f (anc n j) = f (anc n (j + 1)) := by
  rw [shiftDown, source, if_neg (by omega), if_pos (belowOnPath_anc h), Option.elim_some, anc_succ]

lemma shiftDown_off {n s q : ℕ} (hs : q ≠ s) (h : ¬ BelowOnPath n s q) (x : α) (f : ℕ → α) :
    shiftDown n s x f q = f q := by
  rw [shiftDown, source, if_neg hs, if_neg h, Option.elim_some]

/-- Nothing moves above the start of the shift. -/
lemma shiftDown_above {n s q : ℕ} (h : q < s) (x : α) (f : ℕ → α) : shiftDown n s x f q = f q :=
  shiftDown_off h.ne (fun hb => Nat.lt_asymm h hb.1) x f

/-- Off the path, and above the place of the new label, nothing changes. -/
lemma shiftDown_off_path {n i q : ℕ} (hq : ∀ l ≤ i, q ≠ anc n l) (x : α) (f : ℕ → α) :
    shiftDown n (anc n i) x f q = f q := by
  refine shiftDown_off (hq i le_rfl) (fun hbelow => ?_) x f
  obtain ⟨j, hj, rfl, -⟩ := hbelow.half
  exact hq j hj.le rfl

/-- The labels on the path. -/
lemma shiftDown_path {n i l : ℕ} (hi : 0 < anc n i) (hl : 0 < anc n l) (x : α) (f : ℕ → α) :
    shiftDown n (anc n i) x f (anc n l) =
      if l < i then f (anc n (l + 1)) else if l = i then x else f (anc n l) := by
  rcases lt_trichotomy l i with hlt | rfl | hgt
  · rw [if_pos hlt, shiftDown_anc (anc_lt hlt hl)]
  · rw [if_neg (lt_irrefl l), if_pos rfl, shiftDown_self]
  · rw [if_neg hgt.not_gt, if_neg hgt.ne']
    refine shiftDown_off_path (fun j hj heq => ?_) x f
    have := anc_injOn hl heq
    omega

/-- If the labels between two places on the path are the new one, it does not matter at which of
them it is written. -/
lemma shiftDown_eq_of_labels {n i i' : ℕ} {x : α} {f : ℕ → α} (hle : i' ≤ i) (hi : 0 < anc n i)
    (hlabels : ∀ j, i' < j → j ≤ i → f (anc n j) = x) :
    shiftDown n (anc n i) x f = shiftDown n (anc n i') x f := by
  funext q
  by_cases hq : ∃ l ≤ i, q = anc n l
  · obtain ⟨l, hl, rfl⟩ := hq
    have hpos : 0 < anc n l := hi.trans_le (anc_antitone n hl)
    rw [shiftDown_path hi hpos, shiftDown_path (hi.trans_le (anc_antitone n hle)) hpos]
    rcases lt_trichotomy l i' with hlt | rfl | hgt
    · rw [if_pos (hlt.trans_le hle), if_pos hlt]
    · rw [if_neg (lt_irrefl l), if_pos rfl]
      split_ifs with hlt heq
      · exact hlabels (l + 1) (Nat.lt_succ_self l) hlt
      · rfl
      · omega
    · rw [if_neg hgt.not_gt, if_neg hgt.ne', hlabels l hgt hl]
      split_ifs with hlt
      · exact hlabels (l + 1) (hgt.trans (Nat.lt_succ_self l)) hlt
      · rfl
      · omega
  · push Not at hq
    rw [shiftDown_off_path hq, shiftDown_off_path fun l hl => hq l (hl.trans hle)]

lemma apply_shiftDown (g : α → β) (n s : ℕ) (x : α) (f : ℕ → α) (q : ℕ) :
    g (shiftDown n s x f q) = shiftDown n s (g x) (g ∘ f) q := by
  unfold shiftDown
  cases source n s q <;> rfl

lemma source_injective {n i : ℕ} (hs : 0 < anc n i) :
    Function.Injective (source n (anc n i)) := by
  -- a label of the path never comes from a position off the path
  have key : ∀ {a b : ℕ}, BelowOnPath n (anc n i) a → b ≠ anc n i →
      ¬ BelowOnPath n (anc n i) b → a / 2 ≠ b := by
    intro a b ha hb hnb hab
    obtain ⟨j, hj, rfl, hhalf⟩ := ha.half
    rcases Nat.lt_or_ge (j + 1) i with hlt | hge
    · refine hnb (hab ▸ hhalf ▸ belowOnPath_anc (anc_lt hlt ?_))
      exact lt_of_lt_of_le hs (anc_antitone n (by omega))
    · exact hb (hab ▸ hhalf.trans (congrArg _ (by omega)))
  intro p q h
  unfold source at h
  by_cases hp : p = anc n i <;> by_cases hq : q = anc n i
  · rw [hp, hq]
  · rw [if_pos hp, if_neg hq] at h
    split_ifs at h
  · rw [if_neg hp, if_pos hq] at h
    split_ifs at h
  · rw [if_neg hp, if_neg hq] at h
    split_ifs at h with hbp hbq hbq <;> rw [Option.some.injEq] at h
    · obtain ⟨j, hj, rfl, hhj⟩ := hbp.half
      obtain ⟨l, hl, rfl, hhl⟩ := hbq.half
      rw [hhj, hhl] at h
      have hpos : 0 < anc n (j + 1) := lt_of_lt_of_le hs (anc_antitone n (by omega))
      have := anc_injOn hpos h
      rw [show j = l by omega]
    · exact (key hbp hq hbq h).elim
    · exact (key hbq hp hbp h.symm).elim
    · exact h

lemma source_mem {n i q : ℕ} (hs : 0 < anc (n + 1) i) (hq : q ∈ Finset.Icc 1 (n + 1)) :
    source (n + 1) (anc (n + 1) i) q ∈ (Finset.Icc 1 n).insertNone := by
  rw [Finset.mem_insertNone]
  intro a ha
  rw [source] at ha
  rw [Finset.mem_Icc] at hq ⊢
  split_ifs at ha with hqs hbelow
  · cases ha
  · cases ha
    obtain ⟨j, hj, -, hhalf⟩ := hbelow.half
    have := anc_antitone (n + 1) (show j + 1 ≤ i by omega)
    omega
  · cases ha
    have hne : q ≠ n + 1 := by
      rintro rfl
      have := anc_le (n + 1) i
      refine hbelow ?_
      simpa using belowOnPath_anc (n := n + 1) (s := anc (n + 1) i) (j := 0) (by simp; omega)
    omega

/-- The labels after the shift come from the positions before the new one. -/
lemma shiftDown_congr {n i q : ℕ} (hs : 0 < anc (n + 1) i) (hq : q ∈ Finset.Icc 1 (n + 1)) {x : α}
    {f g : ℕ → α} (hfg : ∀ k ∈ Finset.Icc 1 n, f k = g k) :
    shiftDown (n + 1) (anc (n + 1) i) x f q = shiftDown (n + 1) (anc (n + 1) i) x g q := by
  have hmem := source_mem hs hq
  rw [shiftDown, shiftDown]
  cases hsource : source (n + 1) (anc (n + 1) i) q with
  | none => rfl
  | some k =>
    rw [hsource] at hmem
    exact hfg k (Finset.some_mem_insertNone.mp hmem)

/-- The labels after the shift are those before it and the new one. -/
theorem map_shiftDown {n i : ℕ} (hs : 0 < anc (n + 1) i) (x : α) (f : ℕ → α) :
    (Finset.Icc 1 (n + 1)).val.map (shiftDown (n + 1) (anc (n + 1) i) x f) =
      x ::ₘ (Finset.Icc 1 n).val.map f := by
  have himage : (Finset.Icc 1 (n + 1)).map ⟨_, source_injective hs⟩ =
      (Finset.Icc 1 n).insertNone := by
    apply Finset.eq_of_subset_of_card_le
    · intro o ho
      obtain ⟨q, hq, rfl⟩ := Finset.mem_map.mp ho
      exact source_mem hs hq
    · simp
  calc (Finset.Icc 1 (n + 1)).val.map (shiftDown (n + 1) (anc (n + 1) i) x f)
      = ((Finset.Icc 1 (n + 1)).val.map (source (n + 1) (anc (n + 1) i))).map
          (Option.elim · x f) := by rw [Multiset.map_map]; rfl
    _ = (Finset.Icc 1 n).insertNone.val.map (Option.elim · x f) := by rw [← himage]; rfl
    _ = x ::ₘ (Finset.Icc 1 n).val.map f := by
        rw [Finset.insertNone]
        simp [Function.comp_def]

end ShiftDown

end Osm.Core
