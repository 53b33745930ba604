import Osm.Vm.PagePool

/-!
# Growing the heap

A model of `process_memlimit` in `proc/process.c`. The pages of the heap are mapped one at a time,
each to a page taken from the pool. When the pool runs dry, the pages that have been mapped so far
stay mapped and the end of the heap is not moved.

A result `none` stands for a panic or a failed assertion.
-/

namespace Osm.Vm

/-- What a call of `process_memlimit` reads and writes: the `heap_end` of the process, the page
table of its thread, and the pool. -/
structure HeapState where
  heapEnd   : UInt32
  pagetable : Pagetable
  pool      : Pagepool

/-- The number of the page of the user stack: `USERLAND_STACK_TOP` is `0x7fffeffc`, and
`CONFIG_USERLAND_STACK_SIZE` is one page. -/
def stackPage : ℕ := pageOf 0x7fffeffc

/-- The loop of `process_memlimit`, for `n` pages from page `i` on. The result says whether the
pool had enough pages. -/
def mapHeapPages : ℕ → ℕ → Pagetable → Pagepool → Option (Pagetable × Pagepool × Bool)
  | 0, _, pagetable, pool     => some (pagetable, pool, true)
  | n + 1, i, pagetable, pool => do
    let (pool, physPage) ← pagepoolGetPhysPage pool
    if physPage = 0 then return (pagetable, pool, false)
    else
      let pagetable ← vmMap pagetable physPage (pageAddr i) true
      mapHeapPages n (i + 1) pagetable pool

/-- `process_memlimit`; the answer `0` is `NULL`. -/
def processMemlimit (s : HeapState) (heapEnd : UInt32) : Option (HeapState × UInt32) :=
  if heapEnd = 0 then some (s, s.heapEnd)
  else if heapEnd < s.heapEnd then some (s, 0)
  else do
    let (pagetable, pool, enough) ← mapHeapPages (pageOf heapEnd - pageOf s.heapEnd)
      (pageOf s.heapEnd + 1) s.pagetable s.pool
    let s := { s with pagetable, pool }
    if enough then return ({ s with heapEnd }, heapEnd) else return (s, 0)

/-- The states after sequences of calls with the given arguments. -/
inductive MemlimitRun (s : HeapState) : List UInt32 → HeapState → Prop
  | nil : MemlimitRun s [] s
  | call {args : List UInt32} {s₁ s₂ : HeapState} {heapEnd answer : UInt32}
      (h : MemlimitRun s args s₁) (hexec : processMemlimit s₁ heapEnd = some (s₂, answer)) :
      MemlimitRun s (args ++ [heapEnd]) s₂

/-- The pairs of the pages from `lo` up to, not including, `hi`. -/
def pairsOf (lo hi : ℕ) : Finset ℕ := (Finset.Ico lo hi).image (· / 2)

/-! ### Pages that are mapped one after the other -/

lemma pageOf_lt (v : UInt32) : pageOf v < 2 ^ 20 := by
  have hv := v.toNat_lt
  rw [pageOf, pageSize]
  omega

lemma pageOf_pageAddr {page : ℕ} (hpage : page < 2 ^ 20) : pageOf (pageAddr page) = page := by
  rw [pageOf, pageAddr, UInt32.toNat_ofNat', Nat.mod_eq_of_lt (by rw [pageSize]; omega)]
  exact Nat.mul_div_cancel page (by decide)

lemma vpn2_eq_pageOf (v : UInt32) : vpn2 v = pageOf v / 2 := by
  rw [vpn2_eq, pageOf, pageSize]
  omega

lemma pageOf_mono {v v' : UInt32} (h : v ≤ v') : pageOf v ≤ pageOf v' :=
  Nat.div_le_div_right (UInt32.le_iff_toNat_le.mp h)

/-- Between two states the pages from `lo` up to, not including, `hi` have been mapped: writable,
to different frames that were free before and are not any more. Nothing else has changed. -/
structure Grown (lo hi : ℕ) (table table' : Pagetable) (pool pool' : Pagepool) : Prop where
  ok     : PagetableOk table → PagetableOk table'
  pairs  : table'.pairs = table.pairs ∪ pairsOf lo hi
  other  : ∀ v, ¬ (lo ≤ pageOf v ∧ pageOf v < hi) → lookup table' v = lookup table v
  mapped : ∀ v, lo ≤ pageOf v → pageOf v < hi →
    ∃ frame ∈ pool.free, frame ∉ pool'.free ∧ lookup table' v = some (frame, true)
  apart  : ∀ v v', lo ≤ pageOf v → pageOf v < hi → lo ≤ pageOf v' → pageOf v' < hi →
    lookup table' v = lookup table' v' → pageOf v = pageOf v'
  subset : pool'.free ⊆ pool.free
  card   : pool'.free.card + (hi - lo) = pool.free.card

namespace Grown

variable {lo mid hi : ℕ} {table table' table'' : Pagetable} {pool pool' pool'' : Pagepool}

lemma refl (lo : ℕ) (table : Pagetable) (pool : Pagepool) : Grown lo lo table table pool pool where
  ok := id
  pairs := by simp [pairsOf]
  other _ _ := rfl
  mapped _ hlo hhi := absurd hlo hhi.not_ge
  apart _ _ hlo hhi := absurd hlo hhi.not_ge
  subset := Finset.Subset.refl _
  card := by omega

lemma trans (h : Grown lo mid table table' pool pool')
    (h' : Grown mid hi table' table'' pool' pool'') (hlo : lo ≤ mid) (hhi : mid ≤ hi) :
    Grown lo hi table table'' pool pool'' := by
  -- a page mapped first keeps its frame, which is then no longer free
  have hkeep : ∀ v, pageOf v < mid → lookup table'' v = lookup table' v :=
    fun v hv => h'.other v (by omega)
  constructor
  case ok => exact fun hok => h'.ok (h.ok hok)
  case pairs =>
    rw [h'.pairs, h.pairs, Finset.union_assoc, pairsOf, pairsOf, pairsOf, ← Finset.image_union,
      Finset.Ico_union_Ico_eq_Ico hlo hhi]
  case other =>
    intro v hv
    rw [h'.other v (by omega), h.other v (by omega)]
  case mapped =>
    intro v hvlo hvhi
    by_cases hv : pageOf v < mid
    · obtain ⟨frame, hfree, hnot, hlookup⟩ := h.mapped v hvlo hv
      exact ⟨frame, hfree, fun hin => hnot (h'.subset hin), (hkeep v hv).trans hlookup⟩
    · obtain ⟨frame, hfree, hnot, hlookup⟩ := h'.mapped v (by omega) hvhi
      exact ⟨frame, h.subset hfree, hnot, hlookup⟩
  case apart =>
    have hcross : ∀ v v', lo ≤ pageOf v → pageOf v < mid → mid ≤ pageOf v' → pageOf v' < hi →
        lookup table'' v ≠ lookup table'' v' := by
      intro v v' hvlo hvmid hvmid' hvhi' heq
      obtain ⟨frame, -, hnot, hlookup⟩ := h.mapped v hvlo hvmid
      obtain ⟨frame', hfree', -, hlookup'⟩ := h'.mapped v' hvmid' hvhi'
      rw [hkeep v hvmid, hlookup, hlookup'] at heq
      cases heq
      exact hnot hfree'
    intro v v' hvlo hvhi hvlo' hvhi' heq
    rcases Nat.lt_or_ge (pageOf v) mid with hv | hv <;>
      rcases Nat.lt_or_ge (pageOf v') mid with hv' | hv'
    · rw [hkeep v hv, hkeep v' hv'] at heq
      exact h.apart v v' hvlo hv hvlo' hv' heq
    · exact absurd heq (hcross v v' hvlo hv hv' hvhi')
    · exact absurd heq.symm (hcross v' v hvlo' hv' hv hvhi)
    · exact h'.apart v v' hv hvhi hv' hvhi' heq
  case subset => exact h'.subset.trans h.subset
  case card =>
    have hcard := h.card
    have hcard' := h'.card
    omega

/-- One page is taken from the pool and mapped. -/
lemma map {frame : ℕ} (hlo : lo < 2 ^ 20) (hframe : frame < 2 ^ 19) (hfree : frame ∈ pool.free)
    (hmap : vmMap table (pageAddr frame) (pageAddr lo) true = some table') :
    Grown lo (lo + 1) table table' pool (pool.take frame) := by
  have hlookup := vmMap_lookup hmap
  simp only [pageOf_pageAddr hlo, pageAddr_frame hframe] at hlookup
  constructor
  case ok => exact fun hok => vmMap_ok hok hmap
  case pairs =>
    rw [vmMap_pairs hmap, vpn2_eq_pageOf, pageOf_pageAddr hlo, pairsOf, Nat.Ico_succ_singleton,
      Finset.image_singleton, Finset.union_comm, Finset.insert_eq]
  case other =>
    intro v hv
    rw [hlookup, if_neg (by omega)]
  case mapped =>
    intro v hvlo hvhi
    refine ⟨frame, hfree, ?_, ?_⟩
    · rw [Pagepool.take_free]
      exact Finset.notMem_erase _ _
    · rw [hlookup, if_pos (by omega)]
  case apart =>
    intro v v' hvlo hvhi hvlo' hvhi' _
    omega
  case subset =>
    rw [Pagepool.take_free]
    exact Finset.erase_subset _ _
  case card =>
    rw [Pagepool.take_free, Nat.add_sub_cancel_left]
    exact Finset.card_erase_add_one hfree

end Grown

/-! ### The loop -/

section

variable {numPages numResPages : ℕ} {pool : Pagepool} {out : List UInt32}

/-- What `pagepool_get_phys_page` does. -/
lemma PoolInv.pagepoolGetPhysPage_cases (h : PoolInv numPages numResPages pool out)
    (hnum : numPages ≤ 2 ^ 19) (hpos : 1 ≤ numResPages) :
    pool.free = ∅ ∧ pagepoolGetPhysPage pool = some (pool, 0) ∨
      ∃ frame ∈ pool.free, frame < 2 ^ 19 ∧ pageAddr frame ≠ 0 ∧
        pagepoolGetPhysPage pool = some (pool.take frame, pageAddr frame) ∧
        PoolInv numPages numResPages (pool.take frame) (pageAddr frame :: out) := by
  rcases Finset.eq_empty_or_nonempty pool.free with hempty | ⟨page, hpage⟩
  · exact .inl ⟨hempty, h.pagepoolGetPhysPage_of_empty hempty⟩
  · obtain ⟨frame, hfree, hget⟩ := h.pagepoolGetPhysPage_of_mem hpage
    obtain ⟨hlt, hle, -⟩ := (h.mem_free frame).mp hfree
    exact .inr ⟨frame, hfree, by omega, pageAddr_ne_zero (by omega) (by omega), hget,
      h.take hnum hfree⟩

lemma mapHeapPages_of_empty {n i : ℕ} {table : Pagetable}
    (h : PoolInv numPages numResPages pool out) (hempty : pool.free = ∅) (hn : 0 < n) :
    mapHeapPages n i table pool = some (table, pool, false) := by
  cases n with
  | zero => omega
  | succ n => simp [mapHeapPages, h.pagepoolGetPhysPage_of_empty hempty]

/-- The loop maps the first pages, all of them or until no free page is left. -/
lemma mapHeapPages_grown (hnum : numPages ≤ 2 ^ 19) (hpos : 1 ≤ numResPages) {enough : Bool} :
    ∀ {n i : ℕ} {table table' : Pagetable} {pool pool' : Pagepool} {out : List UInt32},
      PoolInv numPages numResPages pool out → i + n ≤ 2 ^ 20 →
      mapHeapPages n i table pool = some (table', pool', enough) →
      (∃ out', PoolInv numPages numResPages pool' out') ∧
        ∃ k ≤ n, Grown i (i + k) table table' pool pool' ∧
          (enough = true ∧ k = n ∨ enough = false ∧ k < n ∧ pool'.free = ∅) := by
  intro n
  induction n with
  | zero =>
    intro i table table' pool pool' out h _ hexec
    cases hexec
    exact ⟨⟨out, h⟩, 0, le_rfl, Grown.refl _ _ _, .inl ⟨rfl, rfl⟩⟩
  | succ n ih =>
    intro i table table' pool pool' out h hin hexec
    rw [mapHeapPages] at hexec
    obtain ⟨hempty, hget⟩ | ⟨frame, hfree, hframe, hne, hget, hinv⟩ :=
      h.pagepoolGetPhysPage_cases hnum hpos
    · simp only [hget, Option.bind_eq_bind, Option.bind_some, if_true] at hexec
      cases hexec
      exact ⟨⟨out, h⟩, 0, Nat.zero_le _, Grown.refl _ _ _, .inr ⟨rfl, Nat.succ_pos n, hempty⟩⟩
    · simp only [hget, Option.bind_eq_bind, Option.bind_some, if_neg hne] at hexec
      obtain ⟨table₁, hmap, hexec⟩ := Option.bind_eq_some_iff.mp hexec
      have hfirst := Grown.map (by omega) hframe hfree hmap
      obtain ⟨hpool', k, hk, hgrown, hend⟩ := ih hinv (by omega) hexec
      refine ⟨hpool', k + 1, by omega, ?_, ?_⟩
      · rw [show i + 1 + k = i + (k + 1) by omega] at hgrown
        exact hfirst.trans hgrown (by omega) (by omega)
      · rcases hend with ⟨henough, rfl⟩ | ⟨henough, hlt, hempty⟩
        · exact .inl ⟨henough, rfl⟩
        · exact .inr ⟨henough, by omega, hempty⟩

/-- The loop panics only if a page is mapped already or there are too few entries. -/
lemma exists_mapHeapPages (hnum : numPages ≤ 2 ^ 19) (hpos : 1 ≤ numResPages) :
    ∀ {n i : ℕ} {table : Pagetable} {pool : Pagepool} {out : List UInt32},
      PoolInv numPages numResPages pool out → i + n ≤ 2 ^ 20 → PagetableOk table →
      (∀ v, i ≤ pageOf v → pageOf v < i + n → lookup table v = none) →
      (table.pairs ∪ pairsOf i (i + n)).card ≤ pagetableEntries →
      ∃ res, mapHeapPages n i table pool = some res := by
  intro n
  induction n with
  | zero => exact fun _ _ _ _ _ => ⟨_, rfl⟩
  | succ n ih =>
    intro i table pool out h hin hok hnone hcard
    rw [mapHeapPages]
    obtain ⟨-, hget⟩ | ⟨frame, hfree, hframe, hne, hget, hinv⟩ :=
      h.pagepoolGetPhysPage_cases hnum hpos
    · simp only [hget, Option.bind_eq_bind, Option.bind_some, if_true]
      exact ⟨_, rfl⟩
    · simp only [hget, Option.bind_eq_bind, Option.bind_some, if_neg hne]
      have hpage := pageOf_pageAddr (show i < 2 ^ 20 by omega)
      have hmem : vpn2 (pageAddr i) ∈ pairsOf i (i + (n + 1)) := by
        rw [vpn2_eq_pageOf, hpage]
        exact Finset.mem_image_of_mem _ (Finset.mem_Ico.mpr ⟨le_rfl, by omega⟩)
      obtain ⟨table₁, hmap⟩ : ∃ table₁,
          vmMap table (pageAddr frame) (pageAddr i) true = some table₁ := by
        rw [← Option.ne_none_iff_exists', ne_eq, vmMap_eq_none_iff hok, not_or, Nat.not_lt]
        refine ⟨by simp [hnone (pageAddr i) hpage.ge (by omega)], ?_⟩
        refine (Finset.card_le_card (Finset.insert_subset ?_ ?_)).trans hcard
        · exact Finset.mem_union_right _ hmem
        · exact Finset.subset_union_left
      have hfirst := Grown.map (by omega) hframe hfree hmap
      simp only [hmap, Option.bind_some]
      refine ih hinv (by omega) (hfirst.ok hok) (fun v hlo hhi => ?_) ?_
      · rw [hfirst.other v (by omega)]
        exact hnone v (by omega) (by omega)
      · rw [hfirst.pairs, Finset.union_assoc, pairsOf, pairsOf, ← Finset.image_union,
          Finset.Ico_union_Ico_eq_Ico (by omega) (by omega), show i + 1 + n = i + (n + 1) by omega]
        exact hcard

end

/-! ### One call -/

/-- The call has left the process, its page table and the free pages as they were. -/
def Undone (s s' : HeapState) : Prop :=
  s'.heapEnd = s.heapEnd ∧ s'.pagetable = s.pagetable ∧ s'.pool.free = s.pool.free

/-- There are enough free pages for the call, or none at all. -/
def EnoughOrNone (s : HeapState) (heapEnd : UInt32) : Prop :=
  pageOf heapEnd ≤ pageOf s.heapEnd + s.pool.free.card ∨ s.pool.free = ∅

section

variable {numPages numResPages : ℕ} {s s' : HeapState} {out : List UInt32}
  {heapEnd answer : UInt32}

/-- What a call does that is not to shrink the heap. -/
lemma processMemlimit_cases (hnum : numPages ≤ 2 ^ 19) (hpos : 1 ≤ numResPages)
    (hpool : PoolInv numPages numResPages s.pool out) (hzero : heapEnd ≠ 0)
    (hle : s.heapEnd ≤ heapEnd) (h : processMemlimit s heapEnd = some (s', answer)) :
    (∃ out', PoolInv numPages numResPages s'.pool out') ∧
      (answer = heapEnd ∧ s'.heapEnd = heapEnd ∧
          Grown (pageOf s.heapEnd + 1) (pageOf heapEnd + 1) s.pagetable s'.pagetable
            s.pool s'.pool ∨
        answer = 0 ∧ s'.heapEnd = s.heapEnd ∧ s'.pool.free = ∅ ∧
          pageOf s.heapEnd + s.pool.free.card < pageOf heapEnd ∧ (s.pool.free = ∅ → s' = s)) := by
  have hpages := pageOf_mono hle
  have hlt := pageOf_lt heapEnd
  rw [processMemlimit, if_neg hzero, if_neg (UInt32.not_lt.mpr hle)] at h
  obtain ⟨⟨table, pool, enough⟩, hloop, h⟩ := Option.bind_eq_some_iff.mp h
  obtain ⟨hpool', k, hk, hgrown, ⟨rfl, rfl⟩ | ⟨rfl, hkn, hempty⟩⟩ :=
    mapHeapPages_grown hnum hpos hpool (by omega) hloop
  · cases h
    rw [show pageOf s.heapEnd + 1 + (pageOf heapEnd - pageOf s.heapEnd) = pageOf heapEnd + 1 by
      omega] at hgrown
    exact ⟨hpool', .inl ⟨rfl, rfl, hgrown⟩⟩
  · cases h
    have hcard := hgrown.card
    rw [hempty, Finset.card_empty] at hcard
    refine ⟨hpool', .inr ⟨rfl, rfl, hempty, by omega, fun hnone => ?_⟩⟩
    rw [mapHeapPages_of_empty hpool hnone (by omega)] at hloop
    cases hloop
    rfl

/-- A call that answers `NULL` is undone exactly if there were enough pages for it or none. -/
lemma undone_iff (hnum : numPages ≤ 2 ^ 19) (hpos : 1 ≤ numResPages)
    (hpool : PoolInv numPages numResPages s.pool out)
    (h : processMemlimit s heapEnd = some (s', answer)) :
    (answer = 0 → Undone s s') ↔ EnoughOrNone s heapEnd := by
  by_cases hshrink : heapEnd = 0 ∨ heapEnd < s.heapEnd
  · have hsame : s' = s := by
      rw [processMemlimit] at h
      split_ifs at h with hzero hlt
      · cases h
        rfl
      · cases h
        rfl
      · exact absurd hshrink (not_or.mpr ⟨hzero, hlt⟩)
    have hpages : pageOf heapEnd ≤ pageOf s.heapEnd := by
      rcases hshrink with rfl | hlt
      · exact Nat.zero_le _
      · exact pageOf_mono (UInt32.le_of_lt hlt)
    subst hsame
    exact iff_of_true (fun _ => ⟨rfl, rfl, rfl⟩) (.inl (by omega))
  · obtain ⟨hzero, hle⟩ := not_or.mp hshrink
    obtain ⟨-, ⟨rfl, -, hgrown⟩ | ⟨rfl, -, hempty, hcard, hsame⟩⟩ :=
      processMemlimit_cases hnum hpos hpool hzero (UInt32.not_lt.mp hle) h
    · have hcard := hgrown.card
      exact iff_of_true (fun hanswer => absurd hanswer hzero) (.inl (by omega))
    · constructor
      · intro hundone
        rw [EnoughOrNone, ← (hundone rfl).2.2]
        exact .inr hempty
      · rintro (henough | hnone) -
        · omega
        · rw [hsame hnone]
          exact ⟨rfl, rfl, rfl⟩

end

/-! ### Failed calls -/

/-- No page above the heap, up to the page `top`, is mapped. -/
def ClearAbove (top : ℕ) (s : HeapState) : Prop :=
  ∀ v, pageOf s.heapEnd < pageOf v → pageOf v ≤ top → lookup s.pagetable v = none

/-- The states after sequences of calls, for ends of the heap up to the page `top`, each of which
finds enough free pages or none. Between the calls others take pages from the pool and give pages
back. -/
inductive SharedRun (numPages numResPages top : ℕ) (s : HeapState) : HeapState → Prop
  | nil : SharedRun numPages numResPages top s s
  | call {s₁ s₂ : HeapState} {heapEnd answer : UInt32}
      (h : SharedRun numPages numResPages top s s₁) (htop : pageOf heapEnd ≤ top)
      (hpages : EnoughOrNone s₁ heapEnd) (hexec : processMemlimit s₁ heapEnd = some (s₂, answer)) :
      SharedRun numPages numResPages top s s₂
  | others {s₁ : HeapState} {pool : Pagepool} {out : List UInt32}
      (h : SharedRun numPages numResPages top s s₁)
      (hpool : PoolInv numPages numResPages pool out) :
      SharedRun numPages numResPages top s { s₁ with pool }

section

variable {numPages numResPages top : ℕ} {s s' : HeapState} {out : List UInt32}
  {heapEnd answer : UInt32}

/-- A call that finds enough pages or none keeps the pages above the heap clear. -/
lemma ClearAbove.call (h : ClearAbove top s) (hnum : numPages ≤ 2 ^ 19) (hpos : 1 ≤ numResPages)
    (hpool : PoolInv numPages numResPages s.pool out) (hok : PagetableOk s.pagetable)
    (hpages : EnoughOrNone s heapEnd) (hexec : processMemlimit s heapEnd = some (s', answer)) :
    ClearAbove top s' ∧ PagetableOk s'.pagetable ∧
      ∃ out', PoolInv numPages numResPages s'.pool out' := by
  by_cases hshrink : heapEnd = 0 ∨ heapEnd < s.heapEnd
  · rw [processMemlimit] at hexec
    split_ifs at hexec with hzero hlt
    · cases hexec
      exact ⟨h, hok, out, hpool⟩
    · cases hexec
      exact ⟨h, hok, out, hpool⟩
    · exact absurd hshrink (not_or.mpr ⟨hzero, hlt⟩)
  · obtain ⟨hzero, hle⟩ := not_or.mp hshrink
    have hle' := UInt32.not_lt.mp hle
    have hpage := pageOf_mono hle'
    obtain ⟨hpool', ⟨-, hend, hgrown⟩ | ⟨-, -, -, hcard, hsame⟩⟩ :=
      processMemlimit_cases hnum hpos hpool hzero hle' hexec
    · refine ⟨fun v hlo hhi => ?_, hgrown.ok hok, hpool'⟩
      rw [hend] at hlo
      rw [hgrown.other v (by omega)]
      exact h v (by omega) hhi
    · rcases hpages with henough | hnone
      · omega
      · rw [hsame hnone]
        exact ⟨h, hok, out, hpool⟩

/-- A call panics for want of entries only, when the pages above the heap are clear. -/
lemma ClearAbove.entries_lt (h : ClearAbove top s) (hnum : numPages ≤ 2 ^ 19)
    (hpos : 1 ≤ numResPages) (hpool : PoolInv numPages numResPages s.pool out)
    (hok : PagetableOk s.pagetable) (htop : pageOf heapEnd ≤ top)
    (hexec : processMemlimit s heapEnd = none) :
    pagetableEntries <
      (s.pagetable.pairs ∪ pairsOf (pageOf s.heapEnd + 1) (pageOf heapEnd + 1)).card := by
  by_contra hcard
  rw [processMemlimit] at hexec
  split_ifs at hexec with hzero hlt
  have hpages := pageOf_mono (UInt32.not_lt.mp hlt)
  have hpage := pageOf_lt heapEnd
  have hrange : pageOf s.heapEnd + 1 + (pageOf heapEnd - pageOf s.heapEnd) =
      pageOf heapEnd + 1 := by omega
  obtain ⟨⟨table, pool, enough⟩, hloop⟩ : ∃ res, mapHeapPages (pageOf heapEnd - pageOf s.heapEnd)
      (pageOf s.heapEnd + 1) s.pagetable s.pool = some res :=
    exists_mapHeapPages hnum hpos hpool (by omega) hok
      (fun v hlo hhi => h v (by omega) (by omega)) (by rw [hrange]; exact Nat.not_lt.mp hcard)
  simp only [hloop, Option.bind_eq_bind, Option.bind_some] at hexec
  split_ifs at hexec

lemma SharedRun.clear (h : SharedRun numPages numResPages top s s') (hnum : numPages ≤ 2 ^ 19)
    (hpos : 1 ≤ numResPages) (hpool : PoolInv numPages numResPages s.pool out)
    (hok : PagetableOk s.pagetable) (hclear : ClearAbove top s) :
    ClearAbove top s' ∧ PagetableOk s'.pagetable ∧
      ∃ out', PoolInv numPages numResPages s'.pool out' := by
  induction h with
  | nil => exact ⟨hclear, hok, out, hpool⟩
  | call _ _ hpages hexec ih =>
    obtain ⟨hclear₁, hok₁, out₁, hpool₁⟩ := ih
    exact hclear₁.call hnum hpos hpool₁ hok₁ hpages hexec
  | others _ hpool' ih => exact ⟨ih.1, ih.2.1, _, hpool'⟩

/-- A call of `process_memlimit` that answers `NULL` is undone exactly if it has found enough free
pages or none. After any sequence of such calls, with a pool that others use as well, a call
panics only because the page table has too few entries, and never because a page above the heap
is mapped already. -/
theorem processMemlimit_undone (hnum : numPages ≤ 2 ^ 19) (hpos : 1 ≤ numResPages)
    (hpool : PoolInv numPages numResPages s.pool out) :
    (∀ heapEnd s' answer, processMemlimit s heapEnd = some (s', answer) →
      ((answer = 0 → Undone s s') ↔ EnoughOrNone s heapEnd)) ∧
    (∀ top s' heapEnd, PagetableOk s.pagetable → ClearAbove top s →
      SharedRun numPages numResPages top s s' → pageOf heapEnd ≤ top →
      processMemlimit s' heapEnd = none →
      pagetableEntries <
        (s'.pagetable.pairs ∪ pairsOf (pageOf s'.heapEnd + 1) (pageOf heapEnd + 1)).card) := by
  constructor
  · intro heapEnd s' answer hexec
    exact undone_iff hnum hpos hpool hexec
  · intro top s' heapEnd hok hclear hrun htop hexec
    obtain ⟨hclear', hok', out', hpool'⟩ := hrun.clear hnum hpos hpool hok hclear
    exact hclear'.entries_lt hnum hpos hpool' hok' htop hexec

end

/-- A process whose heap ends in page `2`, and a pool of five pages, two of them reserved and two
handed out. -/
def HeapState.sample : HeapState where
  heapEnd   := 0x2800
  pagetable := ((vmMap (vmCreatePagetable 1 leftover) (pageAddr 2) 0x2000 true).getD
    (vmCreatePagetable 1 leftover))
  pool      := ((pagepoolInit (fun _ => 0) 5 2).take 2).take 3

lemma HeapState.sample_inv : PoolInv 5 2 sample.pool [pageAddr 3, pageAddr 2] :=
  ((PoolInv.init (by decide)).take (by decide) (by decide)).take (by decide) (by decide)

lemma HeapState.sample_lookup (v : UInt32) : lookup sample.pagetable v =
    if pageOf v = pageOf 0x2000 then some (2, true) else none := by
  obtain ⟨table, hmap⟩ : ∃ table,
      vmMap (vmCreatePagetable 1 leftover) (pageAddr 2) 0x2000 true = some table := ⟨_, rfl⟩
  have htable : sample.pagetable = table := by rw [sample, hmap]; rfl
  rw [htable, vmMap_lookup hmap, pageAddr_frame (by decide)]
  rfl

lemma HeapState.sample_ok : PagetableOk sample.pagetable := by
  obtain ⟨table, hmap⟩ : ∃ table,
      vmMap (vmCreatePagetable 1 leftover) (pageAddr 2) 0x2000 true = some table := ⟨_, rfl⟩
  have htable : sample.pagetable = table := by rw [sample, hmap]; rfl
  rw [htable]
  exact vmMap_ok (vmCreatePagetable_ok 1 leftover) hmap

lemma HeapState.sample_clear (top : ℕ) : ClearAbove top sample := by
  intro v hlo _
  have hpage : pageOf sample.heapEnd = pageOf 0x2000 := by decide
  rw [sample_lookup, if_neg (by omega)]

/-- One page more is mapped, and no later call panics because a page is mapped. -/
theorem processMemlimit_undone_page : ∃ s',
    processMemlimit HeapState.sample 0x3000 = some (s', 0x3000) ∧
    EnoughOrNone HeapState.sample 0x3000 ∧
    ∀ heapEnd, pageOf heapEnd ≤ 10 → processMemlimit s' heapEnd = none →
      pagetableEntries <
        (s'.pagetable.pairs ∪ pairsOf (pageOf s'.heapEnd + 1) (pageOf heapEnd + 1)).card := by
  obtain ⟨s', hexec⟩ : ∃ s', processMemlimit HeapState.sample 0x3000 = some (s', 0x3000) :=
    ⟨_, rfl⟩
  obtain ⟨hundone, hpanic⟩ := processMemlimit_undone (by decide) (by decide) HeapState.sample_inv
  have hpages := (hundone 0x3000 s' 0x3000 hexec).mp fun hzero => absurd hzero (by decide)
  refine ⟨s', hexec, hpages, fun heapEnd htop => ?_⟩
  exact hpanic 10 s' heapEnd HeapState.sample_ok (HeapState.sample_clear 10)
    (.call .nil (by decide) hpages hexec) htop

/-- With one free page left, the process asks for two. The answer is `NULL`, the last free page is
gone, and when another process has given a page back, asking for one page makes the kernel
panic. -/
theorem processMemlimit_not_undone : ∃ s' pool,
    processMemlimit HeapState.sample 0x4000 = some (s', 0) ∧ ¬ Undone HeapState.sample s' ∧
    pagepoolFreePhysPage s'.pool (pageAddr 3) = some pool ∧
    processMemlimit { s' with pool } 0x3000 = none := by
  obtain ⟨s', hexec⟩ : ∃ s', processMemlimit HeapState.sample 0x4000 = some (s', 0) := ⟨_, rfl⟩
  obtain ⟨pool, hfree⟩ : ∃ pool, pagepoolFreePhysPage s'.pool (pageAddr 3) = some pool := by
    cases hexec; exact ⟨_, rfl⟩
  refine ⟨s', pool, hexec, fun hundone => ?_, hfree, ?_⟩
  · have hmapped : lookup s'.pagetable 0x3000 = some (4, true) := by cases hexec; rfl
    have hnone : lookup HeapState.sample.pagetable 0x3000 = none := rfl
    rw [hundone.2.1, hnone] at hmapped
    cases hmapped
  · cases hexec
    cases hfree
    rfl

/-! ### Calls with enough pages and entries -/

/-- The heap ends in a page that is mapped writable, no higher page below the stack is mapped, and
there are free pages and entries for the heap to grow up to the page `last`. -/
structure HeapRoom (numPages numResPages last : ℕ) (s : HeapState) : Prop where
  pool    : ∃ out, PoolInv numPages numResPages s.pool out
  table   : PagetableOk s.pagetable
  mapped  : ∃ frame, frame ∉ s.pool.free ∧ lookup s.pagetable s.heapEnd = some (frame, true)
  above   : ∀ v, pageOf s.heapEnd < pageOf v → pageOf v < stackPage → lookup s.pagetable v = none
  below   : last < stackPage
  pages   : last ≤ pageOf s.heapEnd + s.pool.free.card
  entries : (s.pagetable.pairs ∪ pairsOf (pageOf s.heapEnd + 1) (last + 1)).card ≤ pagetableEntries

/-- The answer to a call, and what it changes. -/
structure Answers (s : HeapState) (heapEnd : UInt32) (s' : HeapState) (answer : UInt32) : Prop where
  zero   : heapEnd = 0 → answer = s.heapEnd ∧ s' = s
  shrink : heapEnd ≠ 0 → heapEnd < s.heapEnd → answer = 0 ∧ s' = s
  grow   : heapEnd ≠ 0 → s.heapEnd ≤ heapEnd → answer = heapEnd ∧ s'.heapEnd = heapEnd

/-- The pages from the end of the heap in the first state to its end in the second one are mapped,
writable and to different frames; up to the stack no other page above the first end is mapped, and
all other pages are mapped as before. -/
structure HeapMapped (s s' : HeapState) : Prop where
  exactly : ∀ v, pageOf s.heapEnd ≤ pageOf v → pageOf v < stackPage →
    ((lookup s'.pagetable v).isSome ↔ pageOf v ≤ pageOf s'.heapEnd)
  writable : ∀ v, pageOf s.heapEnd ≤ pageOf v → pageOf v ≤ pageOf s'.heapEnd →
    ∃ frame, lookup s'.pagetable v = some (frame, true)
  apart : ∀ v v', pageOf s.heapEnd ≤ pageOf v → pageOf v ≤ pageOf s'.heapEnd →
    pageOf s.heapEnd ≤ pageOf v' → pageOf v' ≤ pageOf s'.heapEnd →
    lookup s'.pagetable v = lookup s'.pagetable v' → pageOf v = pageOf v'
  other : ∀ v, pageOf v < pageOf s.heapEnd ∨ stackPage ≤ pageOf v →
    lookup s'.pagetable v = lookup s.pagetable v
  once : PagetableOk s'.pagetable

section

variable {numPages numResPages last : ℕ} {s s' : HeapState} {heapEnd answer : UInt32}

/-- The pages above the end of the heap in the first state, up to its end in the second one, have
been mapped. -/
def GrownTo (last : ℕ) (s s' : HeapState) : Prop :=
  pageOf s.heapEnd ≤ pageOf s'.heapEnd ∧
    (pageOf s'.heapEnd ≤ last ∨ pageOf s'.heapEnd = pageOf s.heapEnd) ∧
    Grown (pageOf s.heapEnd + 1) (pageOf s'.heapEnd + 1) s.pagetable s'.pagetable s.pool s'.pool

lemma GrownTo.refl (last : ℕ) (s : HeapState) : GrownTo last s s :=
  ⟨le_rfl, .inr rfl, Grown.refl _ _ _⟩

lemma GrownTo.trans {s'' : HeapState} (h : GrownTo last s s') (h' : GrownTo last s' s'') :
    GrownTo last s s'' := by
  obtain ⟨hle, hlast, hgrown⟩ := h
  obtain ⟨hle', hlast', hgrown'⟩ := h'
  exact ⟨hle.trans hle', by omega, hgrown.trans hgrown' (by omega) (by omega)⟩

/-- A heap that has grown has room to grow further. -/
lemma HeapRoom.grown (h : HeapRoom numPages numResPages last s) (hgrown : GrownTo last s s')
    (hpool : ∃ out, PoolInv numPages numResPages s'.pool out) :
    HeapRoom numPages numResPages last s' := by
  obtain ⟨hle, hlast, hgrown⟩ := hgrown
  have hcard := hgrown.card
  have hpages := h.pages
  constructor
  case pool => exact hpool
  case table => exact hgrown.ok h.table
  case mapped =>
    rcases Nat.eq_or_lt_of_le hle with heq | hlt
    · obtain ⟨frame, hnot, hlookup⟩ := h.mapped
      refine ⟨frame, fun hfree => hnot (hgrown.subset hfree), ?_⟩
      rw [hgrown.other _ (by omega), lookup_congr heq.symm, hlookup]
    · obtain ⟨frame, -, hnot, hlookup⟩ := hgrown.mapped s'.heapEnd (by omega) (by omega)
      exact ⟨frame, hnot, hlookup⟩
  case above =>
    intro v hlo hhi
    rw [hgrown.other v (by omega)]
    exact h.above v (by omega) hhi
  case below => exact h.below
  case pages => omega
  case entries =>
    refine (Finset.card_le_card ?_).trans h.entries
    rw [hgrown.pairs, Finset.union_assoc, pairsOf, pairsOf, pairsOf, ← Finset.image_union]
    refine Finset.union_subset_union_right (Finset.image_subset_image ?_)
    intro page hpage
    rw [Finset.mem_union, Finset.mem_Ico, Finset.mem_Ico] at hpage
    rw [Finset.mem_Ico]
    omega

/-- With enough room, a call answers as it should, and the heap is as large as its end says. -/
lemma HeapRoom.call (h : HeapRoom numPages numResPages last s) (hnum : numPages ≤ 2 ^ 19)
    (hpos : 1 ≤ numResPages) (hlast : pageOf heapEnd ≤ last) :
    ∃ s' answer, processMemlimit s heapEnd = some (s', answer) ∧ Answers s heapEnd s' answer ∧
      GrownTo last s s' ∧ ∃ out, PoolInv numPages numResPages s'.pool out := by
  by_cases hzero : heapEnd = 0
  · have hexec : processMemlimit s heapEnd = some (s, s.heapEnd) := by
      rw [processMemlimit, if_pos hzero]
    refine ⟨s, s.heapEnd, hexec, ?_, GrownTo.refl last s, h.pool⟩
    exact ⟨fun _ => ⟨rfl, rfl⟩, fun hne => absurd hzero hne, fun hne => absurd hzero hne⟩
  by_cases hlt : heapEnd < s.heapEnd
  · have hexec : processMemlimit s heapEnd = some (s, 0) := by
      rw [processMemlimit, if_neg hzero, if_pos hlt]
    refine ⟨s, 0, hexec, ?_, GrownTo.refl last s, h.pool⟩
    exact ⟨fun hz => absurd hz hzero, fun _ _ => ⟨rfl, rfl⟩,
      fun _ hle => absurd hlt (UInt32.not_lt.mpr hle)⟩
  · have hle := UInt32.not_lt.mp hlt
    have hpage := pageOf_mono hle
    obtain ⟨out, hpool⟩ := h.pool
    -- the pages to map are clear and there are entries for them, so the kernel does not panic
    obtain ⟨⟨s', answer⟩, hexec⟩ : ∃ res, processMemlimit s heapEnd = some res := by
      rw [← Option.ne_none_iff_exists']
      intro hpanic
      have hclear : ClearAbove last s := fun v hlo hhi => h.above v hlo (by have := h.below; omega)
      have hmany := hclear.entries_lt hnum hpos hpool h.table hlast hpanic
      have hfew := (Finset.card_le_card (Finset.union_subset_union_right (s := s.pagetable.pairs)
        (Finset.image_subset_image (f := (· / 2)) (Finset.Ico_subset_Ico_right
          (Nat.succ_le_succ hlast))))).trans h.entries
      exact absurd hmany (Nat.not_lt.mpr hfew)
    have hpages := h.pages
    obtain ⟨hpool', ⟨rfl, hend, hgrown⟩ | ⟨-, -, -, hcard, -⟩⟩ :=
      processMemlimit_cases hnum hpos hpool hzero hle hexec
    · refine ⟨s', answer, hexec, ?_, ⟨by rw [hend]; exact hpage, by rw [hend]; exact .inl hlast,
        by rw [hend]; exact hgrown⟩, hpool'⟩
      exact ⟨fun hz => absurd hz hzero, fun _ hshrink => absurd hshrink hlt, fun _ _ => ⟨rfl, hend⟩⟩
    · omega

/-- The heap has room and has grown to where it ends, after any sequence of calls. -/
lemma MemlimitRun.grownTo {args : List UInt32} (hrun : MemlimitRun s args s')
    (hnum : numPages ≤ 2 ^ 19) (hpos : 1 ≤ numResPages)
    (hroom : HeapRoom numPages numResPages last s) (hargs : ∀ a ∈ args, pageOf a ≤ last) :
    GrownTo last s s' ∧ HeapRoom numPages numResPages last s' := by
  induction hrun with
  | nil => exact ⟨GrownTo.refl last s, hroom⟩
  | @call args s₁ s₂ heapEnd answer _ hexec ih =>
    obtain ⟨hgrown, hroom₁⟩ := ih fun a ha => hargs a (List.mem_append_left _ ha)
    have hlast := hargs heapEnd (List.mem_append_right _ (List.mem_singleton_self heapEnd))
    obtain ⟨s', answer', hexec', -, hgrown', hpool⟩ := hroom₁.call hnum hpos hlast
    rw [hexec] at hexec'
    cases hexec'
    exact ⟨hgrown.trans hgrown', hroom₁.grown hgrown' hpool⟩

/-- A heap that has grown is mapped up to its end and no further. -/
lemma HeapRoom.heapMapped (h : HeapRoom numPages numResPages last s) (hgrown : GrownTo last s s') :
    HeapMapped s s' := by
  obtain ⟨hle, hlast, hgrown⟩ := hgrown
  obtain ⟨frame, hnot, hlookup⟩ := h.mapped
  have hbelow := h.below
  -- the page in which the heap ended at first keeps its frame, which was not free
  have hfirst : ∀ v, pageOf v = pageOf s.heapEnd → lookup s'.pagetable v = some (frame, true) := by
    intro v hv
    rw [hgrown.other v (by omega), lookup_congr hv, hlookup]
  have hwritable : ∀ v, pageOf s.heapEnd ≤ pageOf v → pageOf v ≤ pageOf s'.heapEnd →
      ∃ frame', lookup s'.pagetable v = some (frame', true) ∧
        (pageOf s.heapEnd < pageOf v → frame' ≠ frame) := by
    intro v hlo hhi
    rcases Nat.eq_or_lt_of_le hlo with heq | hlt
    · exact ⟨frame, hfirst v heq.symm, fun hlt => absurd heq hlt.ne⟩
    · obtain ⟨frame', hfree, -, hlookup'⟩ := hgrown.mapped v hlt (by omega)
      refine ⟨frame', hlookup', fun _ heq => hnot ?_⟩
      rw [← heq]
      exact hfree
  constructor
  case exactly =>
    intro v hlo hhi
    constructor
    · intro hsome
      by_contra hgt
      rw [hgrown.other v (by omega), h.above v (by omega) hhi] at hsome
      cases hsome
    · intro hle'
      obtain ⟨frame', hv, -⟩ := hwritable v hlo hle'
      rw [hv]
      rfl
  case writable =>
    intro v hlo hhi
    obtain ⟨frame', hv, -⟩ := hwritable v hlo hhi
    exact ⟨frame', hv⟩
  case apart =>
    have hcross : ∀ v v', pageOf v = pageOf s.heapEnd → pageOf s.heapEnd < pageOf v' →
        pageOf v' ≤ pageOf s'.heapEnd → lookup s'.pagetable v ≠ lookup s'.pagetable v' := by
      intro v v' hv hlo hhi heq
      obtain ⟨frame', hv', hne⟩ := hwritable v' hlo.le hhi
      rw [hfirst v hv, hv'] at heq
      cases heq
      exact hne hlo rfl
    intro v v' hlo hhi hlo' hhi' heq
    rcases Nat.eq_or_lt_of_le hlo with hv | hv <;> rcases Nat.eq_or_lt_of_le hlo' with hv' | hv'
    · exact hv.symm.trans hv'
    · exact absurd heq (hcross v v' hv.symm hv' hhi')
    · exact absurd heq.symm (hcross v' v hv'.symm hv hhi)
    · exact hgrown.apart v v' hv (by omega) hv' (by omega) heq
  case other =>
    intro v hv
    rw [hgrown.other v]
    rcases hlast with hlast | hlast <;> omega
  case once => exact hgrown.ok h.table

/-- While there are pages and entries for the heap to grow up to the page `last`, every sequence of
calls for ends of the heap up to that page is answered as it should: the end of the heap for `0`,
`0` for a smaller end, and the new end otherwise. After it exactly the pages from the first end of
the heap to the current one are mapped, writable and to different frames. -/
theorem memlimit_mapsHeap {args : List UInt32} (hnum : numPages ≤ 2 ^ 19) (hpos : 1 ≤ numResPages)
    (hroom : HeapRoom numPages numResPages last s) (hargs : ∀ a ∈ args, pageOf a ≤ last)
    (hrun : MemlimitRun s args s') :
    HeapMapped s s' ∧
      ∀ heapEnd, pageOf heapEnd ≤ last → ∃ s'' answer,
        processMemlimit s' heapEnd = some (s'', answer) ∧ Answers s' heapEnd s'' answer := by
  obtain ⟨hgrown, hroom'⟩ := hrun.grownTo hnum hpos hroom hargs
  refine ⟨hroom.heapMapped hgrown, fun heapEnd hlast => ?_⟩
  obtain ⟨s'', answer, hexec, hanswers, -⟩ := hroom'.call hnum hpos hlast
  exact ⟨s'', answer, hexec, hanswers⟩

end

/-- A process with room for one page more lets its heap end on it, asks for the end, and tries to
shrink the heap. -/
theorem memlimit_mapsHeap_page : ∃ s',
    MemlimitRun HeapState.sample [0x3123, 0, 0x3000] s' ∧ s'.heapEnd = 0x3123 ∧
    (lookup s'.pagetable 0x3fff).isSome ∧ HeapMapped HeapState.sample s' := by
  have hroom : HeapRoom 5 2 3 HeapState.sample := by
    constructor
    case pool => exact ⟨_, HeapState.sample_inv⟩
    case table => exact HeapState.sample_ok
    case mapped => exact ⟨2, by decide, by rw [HeapState.sample_lookup]; rfl⟩
    case above => exact fun v hlo hhi => HeapState.sample_clear stackPage v hlo hhi.le
    case below => decide
    case pages => decide
    case entries => decide
  obtain ⟨s₁, h₁⟩ : ∃ s, processMemlimit HeapState.sample 0x3123 = some (s, 0x3123) := ⟨_, rfl⟩
  obtain ⟨s₂, h₂⟩ : ∃ s, processMemlimit s₁ 0 = some (s, 0x3123) := by cases h₁; exact ⟨_, rfl⟩
  obtain ⟨s₃, h₃⟩ : ∃ s, processMemlimit s₂ 0x3000 = some (s, 0) := by
    cases h₁; cases h₂; exact ⟨_, rfl⟩
  have hend : s₃.heapEnd = 0x3123 := by cases h₁; cases h₂; cases h₃; rfl
  have hrun : MemlimitRun HeapState.sample [0x3123, 0, 0x3000] s₃ :=
    ((MemlimitRun.nil.call h₁).call h₂).call h₃
  have hargs : ∀ a ∈ [0x3123, 0, 0x3000], pageOf a ≤ 3 := by
    rw [List.forall_mem_cons, List.forall_mem_cons, List.forall_mem_singleton]
    decide
  have hmapped := (memlimit_mapsHeap (by decide) (by decide) hroom hargs hrun).1
  exact ⟨s₃, hrun, hend, (hmapped.exactly 0x3fff (by decide) (by decide)).mpr
    (by rw [hend]; decide), hmapped⟩

end Osm.Vm
