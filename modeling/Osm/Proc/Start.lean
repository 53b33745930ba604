import Osm.Proc.ElfFormat
import Osm.Vm.Memlimit

/-!
# The pages of a new process

A model of how `process_start` in `proc/process.c` maps the stack, the segments and the first page
of the heap. The segments take as many pages as their sizes in memory need, and the heap begins
behind what is in the file. The two agree for a segment that is in the file as a whole.

A result `none` stands for a panic or a failed assertion.
-/

namespace Osm.Proc

open Osm.Core Osm.Fs Osm.Vm

def userlandStackTop : UInt32 := 0x7fffeffc
def configUserlandStackSize : ℕ := 1
def pageSizeMask : UInt32 := 0xfffff000

/-- A page is taken from the pool and mapped. -/
def mapPage (s : Pagetable × Pagepool) (vaddr : UInt32) : Option (Pagetable × Pagepool) := do
  let (pool, physPage) ← pagepoolGetPhysPage s.2
  if physPage ≠ 0 then
    let pagetable ← vmMap s.1 physPage vaddr true
    return (pagetable, pool)
  else none

/-- A page is mapped for every `i` below a bound, from `0` on. -/
def mapPages (vaddr : ℕ → UInt32) : ℕ → Pagetable × Pagepool → Option (Pagetable × Pagepool)
  | 0, s     => some s
  | i + 1, s => do
    let s ← mapPages vaddr i s
    mapPage s (vaddr i)

/-- The address of a page of the stack, from the top on. -/
def stackAddr (i : ℕ) : UInt32 :=
  (userlandStackTop &&& pageSizeMask) - UInt32.ofNat (i * pageSize)

/-- The address of a page of a segment. -/
def ElfSegment.addr (seg : ElfSegment) (i : ℕ) : UInt32 := seg.vaddr + UInt32.ofNat (i * pageSize)

/-- `process_start`, from the stack to the first page of the heap. -/
def processStart (elf : ElfInfo) (pagetable : Pagetable) (pool : Pagepool) : Option HeapState := do
  let s ← mapPages stackAddr configUserlandStackSize (pagetable, pool)
  let s ← mapPages elf.ro.addr (toInt elf.ro.pages).toNat s
  let s ← mapPages elf.rw.addr (toInt elf.rw.pages).toNat s
  let heapEnd := elf.rw.vaddr + elf.rw.size
  let s ← if heapEnd % UInt32.ofNat pageSize = 0 then mapPage s heapEnd else some s
  return { heapEnd, pagetable := s.1, pool := s.2 }

/-- The pages of a segment in memory. -/
def Elf32Phdr.pageRange (hdr : Elf32Phdr) : Finset ℕ :=
  Finset.Ico (pageOf hdr.vaddr) (pageOf hdr.vaddr + pagesFor hdr.memsz.toNat)

/-- The segments, the one that is writable and the other one, begin on page boundaries at or above
`PAGE_SIZE`, are in the file at most as large as in memory, and take different pages, none of them
that of the stack. A missing segment has the header zero. -/
structure SegmentsOk (hdr : Bool → Elf32Phdr) : Prop where
  low     : ∀ w, hdr w = Elf32Phdr.zero ∨ pageSize ≤ (hdr w).vaddr.toNat
  aligned : ∀ w, pageSize ∣ (hdr w).vaddr.toNat
  high    : ∀ w, (hdr w).vaddr.toNat + (hdr w).memsz.toNat ≤ 2 ^ 32
  filesz  : ∀ w, (hdr w).filesz ≤ (hdr w).memsz
  apart   : Disjoint (hdr false).pageRange (hdr true).pageRange
  stack   : ∀ w, stackPage ∉ (hdr w).pageRange

/-- Where the heap begins: behind what is in the file of the writable segment. -/
def heapStart (hdr : Bool → Elf32Phdr) : UInt32 := (hdr true).vaddr + (hdr true).filesz

/-- The pages that are needed: for the stack, the segments and the beginning of the heap. -/
def neededPages (hdr : Bool → Elf32Phdr) : Finset ℕ :=
  insert (pageOf (heapStart hdr)) (insert stackPage ((hdr false).pageRange ∪ (hdr true).pageRange))

/-- There are free pages for a program, and an empty page table has entries for it. -/
structure Fits (hdr : Bool → Elf32Phdr) (pool : Pagepool) : Prop where
  memory    : (neededPages hdr).card ≤ pool.free.card
  pagetable : ((neededPages hdr).image (· / 2)).card ≤ pagetableEntries

/-- An address in a segment that is not in the file. -/
def Elf32Phdr.Uninitialised (hdr : Elf32Phdr) (x : ℕ) : Prop :=
  hdr.vaddr.toNat + hdr.filesz.toNat ≤ x ∧ x < hdr.vaddr.toNat + hdr.memsz.toNat

/-- The states of a process after calls of `process_memlimit`, between which others use the
pool. -/
inductive HeapRun (s : HeapState) : HeapState → Prop
  | nil : HeapRun s s
  | call {s₁ s₂ : HeapState} {heapEnd answer : UInt32} (h : HeapRun s s₁)
      (hexec : Vm.processMemlimit s₁ heapEnd = some (s₂, answer)) : HeapRun s s₂
  | others {s₁ : HeapState} {pool : Pagepool} (h : HeapRun s s₁) : HeapRun s { s₁ with pool }

/-- A page of a heap that has grown: one from the page of its first end to that of its last end, or
one that has been mapped since. -/
def HeapPage (s s' : HeapState) (page : ℕ) : Prop :=
  pageOf s.heapEnd ≤ page ∧ page ≤ pageOf s'.heapEnd ∨
    ∃ v, pageOf v = page ∧ lookup s.pagetable v = none ∧ lookup s'.pagetable v ≠ none

/-- Nothing is mapped twice, the heap begins behind the writable segment, and no page of it is one
of uninitialised data. -/
def HeapBehind (hdr : Bool → Elf32Phdr) (elf : ElfInfo) (pagetable : Pagetable)
    (pool : Pagepool) : Prop :=
  ∃ s, processStart elf pagetable pool = some s ∧
    (hdr true).vaddr.toNat + (hdr true).memsz.toNat ≤ s.heapEnd.toNat ∧
    ∀ s', HeapRun s s' → ∀ w x, (hdr w).Uninitialised x → ¬ HeapPage s s' (x / pageSize)

/-- The writable segment is in the file as a whole and ends before the addresses do; if it ends
with a page, the next page is not used otherwise. -/
structure HeapFree (hdr : Bool → Elf32Phdr) : Prop where
  filesz : (hdr true).filesz = (hdr true).memsz
  high   : (hdr true).vaddr.toNat + (hdr true).filesz.toNat < 2 ^ 32
  next   : pageSize ∣ (heapStart hdr).toNat →
    pageOf (heapStart hdr) ∉ insert stackPage (hdr false).pageRange

/-! ### Mapping pages -/

/-- These pages have been mapped, to pages of the pool. -/
structure Loaded (numPages numResPages frames : ℕ) (pages : Finset ℕ)
    (s : Pagetable × Pagepool) : Prop where
  table  : PagetableOk s.1
  pool   : ∃ out, PoolInv numPages numResPages s.2 out
  mapped : ∀ v, (lookup s.1 v).isSome ↔ pageOf v ∈ pages
  pairs  : s.1.pairs = pages.image (· / 2)
  card   : s.2.free.card + pages.card = frames

section

variable {numPages numResPages frames n : ℕ} {pages : Finset ℕ} {s s' : Pagetable × Pagepool}
  {v : UInt32} {vaddr : ℕ → UInt32}

lemma loaded_empty {pool : Pagepool} {out : List UInt32}
    (hpool : PoolInv numPages numResPages pool out) (asid : ℕ) (garbage : ℕ → TlbEntry) :
    Loaded numPages numResPages pool.free.card ∅ (vmCreatePagetable asid garbage, pool) where
  table    := vmCreatePagetable_ok asid garbage
  pool     := ⟨out, hpool⟩
  mapped v := iff_of_false (by simp [lookup, lookupPair, findPair, vmCreatePagetable])
    (Finset.notMem_empty _)
  pairs    := rfl
  card     := rfl

/-- `mapPage` either fails, or takes a page. -/
lemma Loaded.mapPage_cases (h : Loaded numPages numResPages frames pages s)
    (hnum : numPages ≤ 2 ^ 19) (hpos : 1 ≤ numResPages) :
    mapPage s v = none ∧ (pageOf v ∈ pages ∨ s.2.free = ∅ ∨
        pagetableEntries < ((insert (pageOf v) pages).image (· / 2)).card) ∨
      ∃ s', mapPage s v = some s' ∧ pageOf v ∉ pages ∧
        Loaded numPages numResPages frames (insert (pageOf v) pages) s' := by
  obtain ⟨out, hpool⟩ := h.pool
  rw [mapPage]
  obtain ⟨hempty, hget⟩ | ⟨frame, hfree, hframe, hne, hget, hinv⟩ :=
    hpool.pagepoolGetPhysPage_cases hnum hpos
  · rw [hget]
    exact .inl ⟨rfl, .inr (.inl hempty)⟩
  rw [hget, Option.bind_eq_bind, Option.bind_some]
  dsimp only
  rw [if_pos hne]
  have hpairs : insert (vpn2 v) s.1.pairs = (insert (pageOf v) pages).image (· / 2) := by
    rw [Finset.image_insert, ← h.pairs, vpn2_eq_pageOf]
  cases hmap : vmMap s.1 (pageAddr frame) v true with
  | none =>
    have hreason := (vmMap_eq_none_iff h.table).mp hmap
    rw [h.mapped, hpairs] at hreason
    exact .inl ⟨rfl, hreason.imp_right .inr⟩
  | some table =>
    have hnot : ¬ vmMap s.1 (pageAddr frame) v true = none := by
      rw [hmap]
      exact Option.some_ne_none _
    rw [vmMap_eq_none_iff h.table, h.mapped, not_or] at hnot
    refine .inr ⟨_, rfl, hnot.1, ⟨vmMap_ok h.table hmap, ⟨_, hinv⟩, fun v' => ?_, ?_, ?_⟩⟩
    · rw [vmMap_lookup hmap, Finset.mem_insert]
      split_ifs with hpage
      · exact iff_of_true rfl (.inl hpage)
      · rw [h.mapped, or_iff_right hpage]
    · rw [vmMap_pairs hmap, hpairs]
    · have hcard := h.card
      have hfree' := Finset.card_erase_add_one hfree
      rw [Pagepool.take_free, Finset.card_insert_of_notMem hnot.1]
      omega

/-- A page that is not mapped is mapped if there is room for it. -/
lemma Loaded.mapPage_eq_some (h : Loaded numPages numResPages frames pages s)
    (hnum : numPages ≤ 2 ^ 19) (hpos : 1 ≤ numResPages) (hfresh : pageOf v ∉ pages)
    (hframes : (insert (pageOf v) pages).card ≤ frames)
    (hentries : ((insert (pageOf v) pages).image (· / 2)).card ≤ pagetableEntries) :
    ∃ s', mapPage s v = some s' ∧
      Loaded numPages numResPages frames (insert (pageOf v) pages) s' := by
  rcases h.mapPage_cases hnum hpos (v := v) with ⟨-, hreason⟩ | ⟨s', hsome, -, h'⟩
  · rcases hreason with hmem | hempty | hlt
    · exact absurd hmem hfresh
    · have hcard := h.card
      rw [Finset.card_insert_of_notMem hfresh] at hframes
      rw [hempty, Finset.card_empty] at hcard
      omega
    · exact absurd hlt hentries.not_gt
  · exact ⟨s', hsome, h'⟩

/-- The pages of a loop. -/
def pagesOf (vaddr : ℕ → UInt32) (n : ℕ) : Finset ℕ :=
  (Finset.range n).image fun i => pageOf (vaddr i)

lemma pagesOf_succ : pagesOf vaddr (n + 1) = insert (pageOf (vaddr n)) (pagesOf vaddr n) := by
  rw [pagesOf, Finset.range_add_one, Finset.image_insert, pagesOf]

/-- A loop over pages that are different and not mapped succeeds if there is room for them. -/
lemma Loaded.mapPages_eq_some (h : Loaded numPages numResPages frames pages s)
    (hnum : numPages ≤ 2 ^ 19) (hpos : 1 ≤ numResPages) (vaddr : ℕ → UInt32) (n : ℕ)
    (hfresh : ∀ i < n, pageOf (vaddr i) ∉ pages)
    (hinj : ∀ i < n, ∀ j < i, pageOf (vaddr i) ≠ pageOf (vaddr j))
    (hframes : (pages ∪ pagesOf vaddr n).card ≤ frames)
    (hentries : ((pages ∪ pagesOf vaddr n).image (· / 2)).card ≤ pagetableEntries) :
    ∃ s', mapPages vaddr n s = some s' ∧
      Loaded numPages numResPages frames (pages ∪ pagesOf vaddr n) s' := by
  induction n with
  | zero =>
    refine ⟨s, rfl, ?_⟩
    rw [pagesOf, Finset.range_zero, Finset.image_empty, Finset.union_empty]
    exact h
  | succ n ih =>
    rw [pagesOf_succ, Finset.union_insert] at hframes hentries ⊢
    have hsub : pages ∪ pagesOf vaddr n ⊆ insert (pageOf (vaddr n)) (pages ∪ pagesOf vaddr n) :=
      Finset.subset_insert _ _
    obtain ⟨s₁, hloop, h₁⟩ := ih (fun i hi => hfresh i (hi.trans n.lt_succ_self))
      (fun i hi => hinj i (hi.trans n.lt_succ_self)) ((Finset.card_le_card hsub).trans hframes)
      ((Finset.card_le_card (Finset.image_subset_image hsub)).trans hentries)
    have hnot : pageOf (vaddr n) ∉ pages ∪ pagesOf vaddr n := by
      rw [Finset.mem_union, not_or]
      refine ⟨hfresh n n.lt_succ_self, fun hmem => ?_⟩
      obtain ⟨j, hj, heq⟩ := Finset.mem_image.mp hmem
      exact hinj n n.lt_succ_self j (Finset.mem_range.mp hj) heq.symm
    rw [mapPages, hloop, Option.bind_eq_bind, Option.bind_some]
    exact h₁.mapPage_eq_some hnum hpos hnot hframes hentries

end

/-! ### The segments -/

section Segments

variable {numPages numResPages frames : ℕ} {pages : Finset ℕ} {s : Pagetable × Pagepool}
  {hdr : Bool → Elf32Phdr} {elf : ElfInfo} {pool : Pagepool} {out : List UInt32}

/-- Two segments of which none is missing. -/
lemma SegmentsOk.of_present
    (h : ∀ w, pageSize ≤ (hdr w).vaddr.toNat ∧ pageSize ∣ (hdr w).vaddr.toNat ∧
      (hdr w).vaddr.toNat + (hdr w).memsz.toNat ≤ 2 ^ 32 ∧ (hdr w).filesz ≤ (hdr w).memsz ∧
      stackPage ∉ (hdr w).pageRange)
    (hapart : Disjoint (hdr false).pageRange (hdr true).pageRange) : SegmentsOk hdr where
  low w     := .inr (h w).1
  aligned w := (h w).2.1
  high w    := (h w).2.2.1
  filesz w  := (h w).2.2.2.1
  apart     := hapart
  stack w   := (h w).2.2.2.2

lemma SegmentsOk.memsz_le (h : SegmentsOk hdr) (w : Bool) :
    (hdr w).memsz.toNat ≤ 2 ^ 32 - pageSize := by
  have hhigh := h.high w
  rcases h.low w with hzero | hlow
  · rw [hzero]
    exact Nat.zero_le _
  · omega

/-- The number of rounds of the loop over a segment. -/
lemma SegmentsOk.pages_eq (h : SegmentsOk hdr) (w : Bool) :
    (toInt (segmentInfo (hdr w)).pages).toNat = pagesFor (hdr w).memsz.toNat := by
  have hpages := pages_eq_iff.mpr (h.memsz_le w)
  have hlt : pagesFor (hdr w).memsz.toNat < 2 ^ 31 := by
    have hmemsz := (hdr w).memsz.toNat_lt
    rw [pagesFor, pageSize]
    omega
  rw [toInt_of_small (by omega), Int.toNat_natCast, hpages]

/-- The pages of the loop over a segment. -/
lemma SegmentsOk.pageOf_addr (h : SegmentsOk hdr) (w : Bool) {i : ℕ}
    (hi : i < pagesFor (hdr w).memsz.toNat) :
    pageOf ((segmentInfo (hdr w)).addr i) = pageOf (hdr w).vaddr + i := by
  have hhigh := h.high w
  rw [pagesFor, pageSize] at hi
  have hlt : (hdr w).vaddr.toNat + i * pageSize < 2 ^ 32 := by
    rw [pageSize]
    omega
  change ((hdr w).vaddr + UInt32.ofNat (i * pageSize)).toNat / pageSize = _
  rw [UInt32.toNat_add, UInt32.toNat_ofNat', Nat.add_mod_mod, Nat.mod_eq_of_lt hlt]
  exact Nat.add_mul_div_right _ _ (by decide)

lemma SegmentsOk.pagesOf_eq (h : SegmentsOk hdr) (w : Bool) :
    pagesOf (segmentInfo (hdr w)).addr (pagesFor (hdr w).memsz.toNat) = (hdr w).pageRange := by
  ext page
  rw [pagesOf, Finset.mem_image, Elf32Phdr.pageRange, Finset.mem_Ico]
  constructor
  · rintro ⟨i, hi, rfl⟩
    have hi := Finset.mem_range.mp hi
    rw [h.pageOf_addr w hi]
    omega
  · rintro ⟨hlo, hhi⟩
    have hi : page - pageOf (hdr w).vaddr < pagesFor (hdr w).memsz.toNat := by omega
    refine ⟨page - pageOf (hdr w).vaddr, Finset.mem_range.mpr hi, ?_⟩
    rw [h.pageOf_addr w hi]
    omega

/-- A segment is mapped if its pages are not mapped yet and there is room for them. -/
lemma Loaded.mapSegment (h : Loaded numPages numResPages frames pages s) (hok : SegmentsOk hdr)
    (hnum : numPages ≤ 2 ^ 19) (hpos : 1 ≤ numResPages) (w : Bool)
    (hdisj : Disjoint pages (hdr w).pageRange)
    (hframes : (pages ∪ (hdr w).pageRange).card ≤ frames)
    (hentries : ((pages ∪ (hdr w).pageRange).image (· / 2)).card ≤ pagetableEntries) :
    ∃ s', mapPages (segmentInfo (hdr w)).addr (toInt (segmentInfo (hdr w)).pages).toNat s = some s' ∧
      Loaded numPages numResPages frames (pages ∪ (hdr w).pageRange) s' := by
  rw [hok.pages_eq w]
  rw [← hok.pagesOf_eq w] at hdisj hframes hentries ⊢
  have hfresh : ∀ i < pagesFor (hdr w).memsz.toNat,
      pageOf ((segmentInfo (hdr w)).addr i) ∉ pages := fun i hi hmem =>
    Finset.disjoint_left.mp hdisj hmem (Finset.mem_image_of_mem _ (Finset.mem_range.mpr hi))
  have hinj : ∀ i < pagesFor (hdr w).memsz.toNat, ∀ j < i,
      pageOf ((segmentInfo (hdr w)).addr i) ≠ pageOf ((segmentInfo (hdr w)).addr j) := by
    intro i hi j hj
    rw [hok.pageOf_addr w hi, hok.pageOf_addr w (hj.trans hi)]
    omega
  exact h.mapPages_eq_some hnum hpos _ _ hfresh hinj hframes hentries

/-- The stack and the segments are mapped. What is left is the first page of the heap. -/
lemma processStart_eq (hok : SegmentsOk hdr) (helf : ∀ w, elf.segment w = segmentInfo (hdr w))
    (hpool : PoolInv numPages numResPages pool out) (hnum : numPages ≤ 2 ^ 19)
    (hpos : 1 ≤ numResPages) (hfits : Fits hdr pool) (asid : ℕ) (garbage : ℕ → TlbEntry) :
    ∃ s, Loaded numPages numResPages pool.free.card
        (insert stackPage ((hdr false).pageRange ∪ (hdr true).pageRange)) s ∧
      processStart elf (vmCreatePagetable asid garbage) pool =
        (if heapStart hdr % UInt32.ofNat pageSize = 0 then mapPage s (heapStart hdr)
        else some s).map fun s =>
          { heapEnd := heapStart hdr, pagetable := s.1, pool := s.2 } := by
  -- whatever is mapped is needed
  have hroom : ∀ pages, pages ⊆ neededPages hdr →
      pages.card ≤ pool.free.card ∧ (pages.image (· / 2)).card ≤ pagetableEntries :=
    fun pages hsub => ⟨(Finset.card_le_card hsub).trans hfits.memory,
      (Finset.card_le_card (Finset.image_subset_image hsub)).trans hfits.pagetable⟩
  have hneeded : {stackPage} ∪ ((hdr false).pageRange ∪ (hdr true).pageRange) ⊆
      neededPages hdr := by
    rw [← Finset.insert_eq]
    exact Finset.subset_insert _ _
  have hro : elf.ro = segmentInfo (hdr false) := helf false
  have hrw : elf.rw = segmentInfo (hdr true) := helf true
  have hstack : pagesOf stackAddr configUserlandStackSize = {stackPage} := by decide
  have hone : (∅ ∪ pagesOf stackAddr configUserlandStackSize) ⊆ neededPages hdr := by
    rw [hstack, Finset.empty_union, Finset.singleton_subset_iff]
    exact hneeded (Finset.mem_union_left _ (Finset.mem_singleton_self _))
  have htwo : {stackPage} ∪ (hdr false).pageRange ⊆ neededPages hdr :=
    (Finset.union_subset_union_right Finset.subset_union_left).trans hneeded
  have hthree : {stackPage} ∪ (hdr false).pageRange ∪ (hdr true).pageRange ⊆
      neededPages hdr := by
    rw [Finset.union_assoc]
    exact hneeded
  obtain ⟨s₁, hexec₁, h₁⟩ := (loaded_empty hpool asid garbage).mapPages_eq_some hnum hpos
    stackAddr configUserlandStackSize (fun _ _ => Finset.notMem_empty _)
    (fun i hi j hj => absurd hj (by rw [Nat.lt_one_iff.mp hi]; exact Nat.not_lt_zero j))
    (hroom _ hone).1 (hroom _ hone).2
  rw [hstack, Finset.empty_union] at h₁
  obtain ⟨s₂, hexec₂, h₂⟩ := h₁.mapSegment hok hnum hpos false
    (Finset.disjoint_singleton_left.mpr (hok.stack false)) (hroom _ htwo).1 (hroom _ htwo).2
  obtain ⟨s₃, hexec₃, h₃⟩ := h₂.mapSegment hok hnum hpos true
    (Finset.disjoint_union_left.mpr
      ⟨Finset.disjoint_singleton_left.mpr (hok.stack true), hok.apart⟩)
    (hroom _ hthree).1 (hroom _ hthree).2
  refine ⟨s₃, ?_, ?_⟩
  · rw [Finset.insert_eq, ← Finset.union_assoc]
    exact h₃
  · rw [processStart, hexec₁, Option.bind_eq_bind, Option.bind_some, hro, hexec₂, Option.bind_some,
      hrw, hexec₃, Option.bind_some]
    change (if heapStart hdr % UInt32.ofNat pageSize = 0 then _ else _) = _
    split_ifs with hpage
    · exact Option.map_eq_bind.symm
    · rfl

end Segments

/-! ### The heap -/

section HeapPages

variable {s s' : HeapState} {heapEnd answer : UInt32} {table table' : Pagetable}
  {pool pool' : Pagepool}

/-- The heap has grown over pages that were not mapped before, and what was mapped still is. -/
structure Extends (s s' : HeapState) : Prop where
  end_le : s.heapEnd ≤ s'.heapEnd
  fresh  : ∀ v, pageOf s.heapEnd < pageOf v → pageOf v ≤ pageOf s'.heapEnd →
    lookup s.pagetable v = none
  kept   : ∀ v, lookup s'.pagetable v = none → lookup s.pagetable v = none

lemma Extends.refl (s : HeapState) : Extends s s :=
  ⟨UInt32.le_refl _, fun _ hlt hle => absurd hle hlt.not_ge, fun _ h => h⟩

lemma Extends.trans {s'' : HeapState} (h : Extends s s') (h' : Extends s' s'') : Extends s s'' where
  end_le := UInt32.le_trans h.end_le h'.end_le
  fresh v hlo hhi := by
    rcases Nat.lt_or_ge (pageOf s'.heapEnd) (pageOf v) with hv | hv
    · exact h.kept v (h'.fresh v hv hhi)
    · exact h.fresh v hlo hv
  kept v hv := h.kept v (h'.kept v hv)

/-- What `vm_map` maps was not mapped before. -/
lemma vmMap_unmapped {physaddr vaddr : UInt32} {dirty : Bool} (hok : PagetableOk table)
    (h : vmMap table physaddr vaddr dirty = some table') : lookup table vaddr = none := by
  by_contra hsome
  have hpanic : vmMap table physaddr vaddr dirty = none :=
    (vmMap_eq_none_iff hok).mpr (.inl (Option.isSome_iff_ne_none.mpr hsome))
  cases hpanic.symm.trans h

/-- The loop of `process_memlimit` maps pages that were not mapped before. -/
lemma mapHeapPages_fresh {n i : ℕ} {enough : Bool} (hok : PagetableOk table) (hin : i + n ≤ 2 ^ 20)
    (h : mapHeapPages n i table pool = some (table', pool', enough)) :
    (enough = true → ∀ v, i ≤ pageOf v → pageOf v < i + n → lookup table v = none) ∧
      (∀ v, lookup table' v = none → lookup table v = none) ∧ PagetableOk table' := by
  induction n generalizing i table pool with
  | zero =>
    cases h
    exact ⟨fun _ v hlo hhi => absurd hlo hhi.not_ge, fun _ hv => hv, hok⟩
  | succ n ih =>
    rw [mapHeapPages] at h
    obtain ⟨⟨pool₁, physPage⟩, -, h⟩ := Option.bind_eq_some_iff.mp h
    dsimp only at h
    split_ifs at h with hzero
    · cases h
      exact ⟨fun henough => absurd henough Bool.false_ne_true, fun _ hv => hv, hok⟩
    · obtain ⟨table₁, hmap, h⟩ := Option.bind_eq_some_iff.mp h
      have hpage := pageOf_pageAddr (show i < 2 ^ 20 by omega)
      have hkept : ∀ v, lookup table₁ v = none → lookup table v = none := by
        intro v hv
        rw [vmMap_lookup hmap] at hv
        split_ifs at hv
        exact hv
      obtain ⟨hfresh, hkept', hok'⟩ := ih (vmMap_ok hok hmap) (by omega) h
      refine ⟨fun henough v hlo hhi => ?_, fun v hv => hkept v (hkept' v hv), hok'⟩
      rcases Nat.eq_or_lt_of_le hlo with heq | hlt
      · rw [lookup_congr (heq.symm.trans hpage.symm)]
        exact vmMap_unmapped hok hmap
      · exact hkept v (hfresh henough v hlt (by omega))

lemma processMemlimit_extends (hok : PagetableOk s.pagetable)
    (h : Vm.processMemlimit s heapEnd = some (s', answer)) :
    Extends s s' ∧ PagetableOk s'.pagetable := by
  rw [Vm.processMemlimit] at h
  split_ifs at h with hzero hlt
  · cases h
    exact ⟨.refl s, hok⟩
  · cases h
    exact ⟨.refl s, hok⟩
  · have hle := UInt32.not_lt.mp hlt
    have hpages := pageOf_mono hle
    have hpage := pageOf_lt heapEnd
    obtain ⟨⟨table, pool, enough⟩, hloop, h⟩ := Option.bind_eq_some_iff.mp h
    obtain ⟨hfresh, hkept, hok'⟩ := mapHeapPages_fresh hok (by omega) hloop
    cases enough with
    | true =>
      cases h
      exact ⟨⟨hle, fun v hlo hhi => hfresh rfl v hlo (by dsimp only at hhi; omega), hkept⟩, hok'⟩
    | false =>
      cases h
      exact ⟨⟨UInt32.le_refl _, fun _ hlo hhi => absurd hhi hlo.not_ge, hkept⟩, hok'⟩

lemma HeapRun.extends (h : HeapRun s s') (hok : PagetableOk s.pagetable) :
    Extends s s' ∧ PagetableOk s'.pagetable := by
  induction h with
  | nil => exact ⟨.refl s, hok⟩
  | call _ hexec ih =>
    obtain ⟨hextends, hok'⟩ := processMemlimit_extends ih.2 hexec
    exact ⟨ih.1.trans hextends, hok'⟩
  | others _ ih => exact ⟨⟨ih.1.end_le, ih.1.fresh, ih.1.kept⟩, ih.2⟩

/-- A page that was mapped at first is no page of the heap, except for that in which it begins. -/
lemma HeapRun.not_heapPage (h : HeapRun s s') (hok : PagetableOk s.pagetable) {v : UInt32}
    (hne : pageOf v ≠ pageOf s.heapEnd) (hmapped : (lookup s.pagetable v).isSome) :
    ¬ HeapPage s s' (pageOf v) := by
  have hextends := (h.extends hok).1
  have hsome := Option.isSome_iff_ne_none.mp hmapped
  rintro (⟨hlo, hhi⟩ | ⟨v', hpage, hnone, -⟩)
  · exact hsome (hextends.fresh v (Nat.lt_of_le_of_ne hlo hne.symm) hhi)
  · rw [lookup_congr hpage] at hnone
    exact hsome hnone

end HeapPages

section Behind

variable {numPages numResPages : ℕ} {hdr : Bool → Elf32Phdr} {elf : ElfInfo} {pool : Pagepool}
  {out : List UInt32} {s s' : HeapState}

lemma page_aligned_iff (a : UInt32) : a % UInt32.ofNat pageSize = 0 ↔ pageSize ∣ a.toNat := by
  rw [← UInt32.toNat_inj, UInt32.toNat_mod, Nat.dvd_iff_mod_eq_zero]
  rfl

lemma toNat_heapStart (hdr : Bool → Elf32Phdr) : (heapStart hdr).toNat =
    ((hdr true).vaddr.toNat + (hdr true).filesz.toNat) % 2 ^ 32 := UInt32.toNat_add _ _

/-- The page in which the heap begins is either the last one of the writable segment, or it is the
next one. -/
lemma SegmentsOk.pageOf_heapStart (h : SegmentsOk hdr) (hfree : HeapFree hdr) :
    pageOf (heapStart hdr) ∈ (hdr true).pageRange ∧ ¬ pageSize ∣ (heapStart hdr).toNat ∨
      pageOf (heapStart hdr) = pageOf (hdr true).vaddr + pagesFor (hdr true).memsz.toNat ∧
        pageSize ∣ (heapStart hdr).toNat := by
  have haligned := h.aligned true
  have hstart := toNat_heapStart hdr
  rw [Nat.mod_eq_of_lt hfree.high, hfree.filesz] at hstart
  rw [Elf32Phdr.pageRange, Finset.mem_Ico, pageOf, pageOf, pagesFor, hstart, pageSize] at *
  omega

/-- What is left of the call, when the stack and the segments have been mapped. -/
lemma heapBehind_of_loaded {s₀ : Pagetable × Pagepool} (hok : SegmentsOk hdr)
    (hfree : HeapFree hdr) {frames : ℕ} {pages : Finset ℕ}
    (h : Loaded numPages numResPages frames pages s₀)
    (hpages : (hdr false).pageRange ⊆ pages) (hrun : HeapRun
      { heapEnd := heapStart hdr, pagetable := s₀.1, pool := s₀.2 } s') {w : Bool} {x : ℕ}
    (hx : (hdr w).Uninitialised x) :
    ¬ HeapPage { heapEnd := heapStart hdr, pagetable := s₀.1, pool := s₀.2 } s' (x / pageSize) := by
  cases w with
  | true =>
    -- there is no uninitialised data in the writable segment
    have hlt := hx.1.trans_lt hx.2
    rw [hfree.filesz] at hlt
    exact absurd hlt (Nat.lt_irrefl _)
  | false =>
    have hhigh := hok.high false
    have hlo := hx.1
    have hhi := hx.2
    have hpage : pageOf (UInt32.ofNat x) = x / pageSize := by
      rw [pageOf, UInt32.toNat_ofNat', Nat.mod_eq_of_lt (by omega)]
    have hmem : pageOf (UInt32.ofNat x) ∈ (hdr false).pageRange := by
      have haligned := hok.aligned false
      rw [hpage, Elf32Phdr.pageRange, Finset.mem_Ico, pageOf, pagesFor, pageSize] at *
      omega
    rw [← hpage]
    refine hrun.not_heapPage h.table (fun heq => ?_) ((h.mapped _).mpr (hpages hmem))
    rw [heq] at hmem
    rcases hok.pageOf_heapStart hfree with ⟨hrw, -⟩ | ⟨-, hdvd⟩
    · exact Finset.disjoint_left.mp hok.apart hmem hrw
    · exact hfree.next hdvd (Finset.mem_insert_of_mem hmem)

lemma heapBehind_iff (hok : SegmentsOk hdr) (helf : ∀ w, elf.segment w = segmentInfo (hdr w))
    (hpool : PoolInv numPages numResPages pool out) (hnum : numPages ≤ 2 ^ 19)
    (hpos : 1 ≤ numResPages) (hfits : Fits hdr pool) (asid : ℕ) (garbage : ℕ → TlbEntry) :
    HeapBehind hdr elf (vmCreatePagetable asid garbage) pool ↔ HeapFree hdr := by
  obtain ⟨s₀, hloaded, heq⟩ := processStart_eq hok helf hpool hnum hpos hfits asid garbage
  have hfilesz := UInt32.le_iff_toNat_le.mp (hok.filesz true)
  have hstart := toNat_heapStart hdr
  rw [HeapBehind, heq]
  constructor
  · rintro ⟨s, hexec, hend, -⟩
    obtain ⟨s₁, hlast, rfl⟩ := Option.map_eq_some_iff.mp hexec
    have hend : (hdr true).vaddr.toNat + (hdr true).memsz.toNat ≤ (heapStart hdr).toNat := hend
    refine ⟨UInt32.toNat_inj.mp (by omega), by omega, fun hdvd hmem => ?_⟩
    rw [if_pos ((page_aligned_iff _).mpr hdvd)] at hlast
    rcases hloaded.mapPage_cases hnum hpos (v := heapStart hdr) with ⟨hnone, -⟩ | ⟨-, -, hnot, -⟩
    · cases hnone.symm.trans hlast
    · refine hnot ?_
      rcases Finset.mem_insert.mp hmem with hstack | hro
      · exact Finset.mem_insert.mpr (.inl hstack)
      · exact Finset.mem_insert_of_mem (Finset.mem_union_left _ hro)
  · intro hfree
    have hsub : (hdr false).pageRange ⊆
        insert stackPage ((hdr false).pageRange ∪ (hdr true).pageRange) :=
      Finset.subset_union_left.trans (Finset.subset_insert _ _)
    have hle : (hdr true).vaddr.toNat + (hdr true).memsz.toNat ≤ (heapStart hdr).toNat := by
      rw [hstart, Nat.mod_eq_of_lt hfree.high, hfree.filesz]
    rcases hok.pageOf_heapStart hfree with ⟨-, hdvd⟩ | ⟨hpage, hdvd⟩
    · rw [if_neg (mt (page_aligned_iff _).mp hdvd)]
      exact ⟨_, rfl, hle, fun s' hrun w x hx =>
        heapBehind_of_loaded hok hfree hloaded hsub hrun hx⟩
    · -- the page behind the segment is not mapped yet
      have hfresh : pageOf (heapStart hdr) ∉
          insert stackPage ((hdr false).pageRange ∪ (hdr true).pageRange) := by
        have hnext := hfree.next hdvd
        rw [Finset.mem_insert, not_or] at hnext
        rw [Finset.mem_insert, Finset.mem_union, not_or, not_or]
        refine ⟨hnext.1, hnext.2, fun hrw => ?_⟩
        rw [hpage] at hrw
        exact absurd (Finset.mem_Ico.mp hrw).2 (Nat.lt_irrefl _)
      obtain ⟨s₁, hlast, hloaded₁⟩ := hloaded.mapPage_eq_some hnum hpos hfresh hfits.memory
        hfits.pagetable
      rw [if_pos ((page_aligned_iff _).mpr hdvd), hlast]
      exact ⟨_, rfl, hle, fun s' hrun w x hx => heapBehind_of_loaded hok hfree hloaded₁
        (hsub.trans (Finset.subset_insert _ _)) hrun hx⟩

end Behind

/-! ### Executables -/

section Executables

variable {file : ByteFile} {elf : ElfInfo}

/-- A file that is accepted has its program headers below `2 ^ 31`. -/
lemma phoff_lt_of_accepted (h : elfParseHeader file = some (some elf)) :
    file.ehdr.phoff.toNat < 2 ^ 31 := by
  by_contra hge
  rw [elfParseHeader] at h
  dsimp only at h
  rw [seekFile_toInt, if_neg hge] at h
  split_ifs at h with hread haccepts
  · cases h
  · rw [Option.bind_eq_bind, Option.bind_none] at h
    cases h
  · cases h

lemma segment_of_accepted (h : elfParseHeader file = some (some elf)) (w : Bool) :
    elf.segment w = segmentInfo (file.loadHdr phdrSize w) := by
  rcases elfParseHeader_spec fun _ => phoff_lt_of_accepted h with
    ⟨hnone, -⟩ | ⟨elf', segs, hparse, hwf, hparsed⟩
  · cases hnone.symm.trans h
  · cases hparse.symm.trans h
    exact hparsed.segment_eq hwf w

end Executables

/-- For an executable whose segments can be mapped, the heap is behind the program exactly if the
writable segment is in the file as a whole. -/
theorem processStart_heap_behind_iff {file : ByteFile} {elf : ElfInfo}
    (hparse : elfParseHeader file = some (some elf)) (hok : SegmentsOk (file.loadHdr phdrSize))
    {numPages numResPages : ℕ} {pool : Pagepool} {out : List UInt32}
    (hpool : PoolInv numPages numResPages pool out) (hnum : numPages ≤ 2 ^ 19)
    (hpos : 1 ≤ numResPages) (hfits : Fits (file.loadHdr phdrSize) pool) (asid : ℕ)
    (garbage : ℕ → TlbEntry) :
    HeapBehind (file.loadHdr phdrSize) elf (vmCreatePagetable asid garbage) pool ↔
      HeapFree (file.loadHdr phdrSize) :=
  heapBehind_iff hok (segment_of_accepted hparse) hpool hnum hpos hfits asid garbage

/-- Sixteen pages of memory, two of them reserved. -/
def freshPool : Pagepool := pagepoolInit (fun _ => 0) 16 2

lemma freshPool_inv : PoolInv 16 2 freshPool [] := PoolInv.init (by decide)

/-- Both segments take one page and are in the file; the heap begins in a page of its own. -/
theorem processStart_heap_behind_usual : ∃ elf, elfParseHeader usualFile = some (some elf) ∧
    HeapBehind (usualFile.loadHdr phdrSize) elf (vmCreatePagetable 1 leftover) freshPool := by
  have hparse : elfParseHeader usualFile = some (some
      { entryPoint := 4096, ro := ⟨0, 4096, 1, 4096⟩, rw := ⟨0, 4096, 1, 8192⟩ }) := by
    decide +kernel
  have hok : SegmentsOk (usualFile.loadHdr phdrSize) :=
    .of_present (by decide +kernel) (by decide +kernel)
  have hfits : Fits (usualFile.loadHdr phdrSize) freshPool := by
    constructor <;> decide +kernel
  have hfree : HeapFree (usualFile.loadHdr phdrSize) := by
    constructor <;> decide +kernel
  exact ⟨_, hparse, (processStart_heap_behind_iff hparse hok freshPool_inv (by decide) (by decide)
    hfits 1 leftover).mpr hfree⟩

/-- An executable with four bytes of data and four bytes of uninitialised data. -/
def bssFile : ByteFile :=
  .ofBytes ((executableBytes 32 []).take 84 ++
    [0, 0, 0, 1, 0, 0, 0, 0, 0, 0, 32, 0, 0, 0, 32, 0,
      0, 0, 0, 4, 0, 0, 0, 8, 0, 0, 0, 6, 0, 0, 16, 0]) (by decide +kernel)

/-- The heap begins before the uninitialised data. -/
theorem bss_not_behind : ∃ file elf pool out, elfParseHeader file = some (some elf) ∧
    SegmentsOk (file.loadHdr phdrSize) ∧ PoolInv 16 2 pool out ∧
    Fits (file.loadHdr phdrSize) pool ∧
    ¬ HeapBehind (file.loadHdr phdrSize) elf (vmCreatePagetable 1 leftover) pool := by
  have hparse : elfParseHeader bssFile = some (some
      { entryPoint := 4096, ro := ⟨0, 4096, 1, 4096⟩, rw := ⟨0, 4, 1, 8192⟩ }) := by
    decide +kernel
  have hok : SegmentsOk (bssFile.loadHdr phdrSize) :=
    .of_present (by decide +kernel) (by decide +kernel)
  have hfits : Fits (bssFile.loadHdr phdrSize) freshPool := by
    constructor <;> decide +kernel
  refine ⟨bssFile, _, freshPool, [], hparse, hok, freshPool_inv, hfits, fun hbehind => ?_⟩
  obtain ⟨s, hexec, hend, -⟩ := hbehind
  obtain ⟨s₀, -, heq⟩ := processStart_eq hok (segment_of_accepted hparse) freshPool_inv
    (by decide) (by decide) hfits 1 leftover
  rw [heq] at hexec
  obtain ⟨s₁, -, rfl⟩ := Option.map_eq_some_iff.mp hexec
  revert hend
  change ¬ _ ≤ (heapStart (bssFile.loadHdr phdrSize)).toNat
  decide +kernel

end Osm.Proc
