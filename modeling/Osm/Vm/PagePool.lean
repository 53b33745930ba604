import Osm.Lib.Bitmap
import Osm.Vm.PageTable
import Mathlib.Order.Interval.Finset.Nat

/-!
# The pool of physical pages

A model of `vm/pagepool.c`. The pool keeps a bit for every physical page, which is set when the
page is in use, and counts the free pages in a separate variable. The functions run with
interrupts disabled and hold a spinlock, so calls do not overlap.

A result `none` stands for a failed assertion.
-/

namespace Osm.Vm

open Osm.Core Osm.Lib

/-- The variables of the module. -/
structure Pagepool where
  freePages    : Memory
  numPages     : ℕ
  numFreePages : ℤ
  staticEnd    : ℕ

/-- The loop of `pagepool_init` over the reserved pages. -/
def reservePages (bitmap : Memory) (numResPages : ℕ) : Memory :=
  (List.range numResPages).foldl (fun bitmap i => bitmapSet bitmap i true) bitmap

/-- `pagepool_init`, for what `kmalloc_get_numpages` and `kmalloc_get_reserved_pages` return. The
memory of the bitmap has arbitrary contents. -/
def pagepoolInit (garbage : Memory) (numPages numResPages : ℕ) : Pagepool where
  freePages    := reservePages (bitmapInit garbage numPages) numResPages
  numPages     := numPages
  numFreePages := numPages - numResPages
  staticEnd    := numResPages

/-- `pagepool_get_phys_page`. -/
def pagepoolGetPhysPage (pool : Pagepool) : Option (Pagepool × UInt32) :=
  if pool.numFreePages > 0 then
    match bitmapFindnset pool.freePages pool.numPages with
    | some (freePages, i) =>
      let pool := { pool with freePages, numFreePages := pool.numFreePages - 1 }
      if pool.numFreePages ≥ 0 then some (pool, UInt32.ofNat (i * pageSize)) else none
    | none                => none
  else some (pool, 0)

/-- `pagepool_free_phys_page`. -/
def pagepoolFreePhysPage (pool : Pagepool) (physAddr : UInt32) : Option Pagepool :=
  let i := physAddr.toNat / pageSize
  if i ≥ pool.staticEnd then
    if bitmapGet pool.freePages i = 1 then
      some { pool with
        freePages    := bitmapSet pool.freePages i false
        numFreePages := pool.numFreePages + 1 }
    else none
  else none

/-- The address of a physical page. -/
def pageAddr (page : ℕ) : UInt32 := UInt32.ofNat (page * pageSize)

/-- The free pages: those whose bit is zero. -/
def Pagepool.free (pool : Pagepool) : Finset ℕ :=
  {page ∈ Finset.range pool.numPages | bitmapGet pool.freePages page = 0}

/-- The states of the pool together with the pages that are handed out, when only pages that are
handed out are freed. -/
inductive PoolRun (garbage : Memory) (numPages numResPages : ℕ) :
    Pagepool → List UInt32 → Prop where
  | init : PoolRun garbage numPages numResPages (pagepoolInit garbage numPages numResPages) []
  | get {pool out pool' addr} (h : PoolRun garbage numPages numResPages pool out)
      (hget : pagepoolGetPhysPage pool = some (pool', addr)) :
      PoolRun garbage numPages numResPages pool' (if addr = 0 then out else addr :: out)
  | free {pool out pool' addr} (h : PoolRun garbage numPages numResPages pool out)
      (hmem : addr ∈ out) (hfree : pagepoolFreePhysPage pool addr = some pool') :
      PoolRun garbage numPages numResPages pool' (out.erase addr)

/-! ### The invariant -/

/-- A page is in use when it is reserved or handed out, and the free pages are counted. -/
structure PoolInv (numPages numResPages : ℕ) (pool : Pagepool) (out : List UInt32) : Prop where
  num_pages  : pool.numPages = numPages
  static_end : pool.staticEnd = numResPages
  mem_free   : ∀ page, page ∈ pool.free ↔
    page < numPages ∧ numResPages ≤ page ∧ pageAddr page ∉ out
  out_pages  : ∀ addr ∈ out, ∃ page, numResPages ≤ page ∧ page < numPages ∧ addr = pageAddr page
  out_nodup  : out.Nodup
  num_free   : pool.numFreePages = pool.free.card


variable {garbage : Memory} {numPages numResPages page : ℕ} {pool pool' : Pagepool}
  {out : List UInt32} {addr : UInt32}

lemma pageAddr_toNat (hpage : page < 2 ^ 19) : (pageAddr page).toNat = page * pageSize := by
  rw [pageAddr, UInt32.toNat_ofNat']
  exact Nat.mod_eq_of_lt (by rw [pageSize]; omega)

lemma pageAddr_page (hpage : page < 2 ^ 19) : (pageAddr page).toNat / pageSize = page := by
  rw [pageAddr_toNat hpage]
  exact Nat.mul_div_cancel page (by decide)

lemma pageAddr_frame {page : ℕ} (hpage : page < 2 ^ 19) : (pageAddr page >>> 12).toNat = page := by
  rw [UInt32.toNat_shiftRight, pageAddr_toNat hpage, show (12 : UInt32).toNat % 32 = 12 from rfl,
    Nat.shiftRight_eq_div_pow]
  exact Nat.mul_div_cancel page (by decide)

lemma pageAddr_inj {page' : ℕ} (hpage : page < 2 ^ 19) (hpage' : page' < 2 ^ 19)
    (h : pageAddr page = pageAddr page') : page = page' := by
  rw [← pageAddr_page hpage, h, pageAddr_page hpage']

lemma pageAddr_ne_zero (hpage : page < 2 ^ 19) (hpos : 0 < page) : pageAddr page ≠ 0 := by
  intro h
  have hzero : page = 0 := pageAddr_inj hpage (by decide) (by rw [h]; rfl)
  omega

lemma Pagepool.mem_free : page ∈ pool.free ↔
    page < pool.numPages ∧ bitmapGet pool.freePages page = 0 := by
  rw [free, Finset.mem_filter, Finset.mem_range]

lemma bitmapGet_reservePages (bitmap : Memory) (n : ℕ) :
    bitmapGet (reservePages bitmap n) page = if page < n then 1 else bitmapGet bitmap page := by
  induction n with
  | zero => rfl
  | succ n ih =>
    rw [reservePages, List.range_succ, List.foldl_append, List.foldl_cons, List.foldl_nil,
      ← reservePages, bitmapGet_bitmapSet, ih]
    by_cases hpage : page = n
    · simp [hpage]
    · have hlt : page < n + 1 ↔ page < n := by omega
      simp [hpage, hlt]

namespace PoolInv

lemma bitmapGet_eq_zero (h : PoolInv numPages numResPages pool out) (hpage : page < numPages) :
    bitmapGet pool.freePages page = 0 ↔ numResPages ≤ page ∧ pageAddr page ∉ out := by
  have hmem := h.mem_free page
  rw [Pagepool.mem_free, h.num_pages, and_congr_right_iff] at hmem
  exact hmem hpage

lemma init (hres : numResPages ≤ numPages) :
    PoolInv numPages numResPages (pagepoolInit garbage numPages numResPages) [] := by
  have hfree : (pagepoolInit garbage numPages numResPages).free =
      Finset.Ico numResPages numPages := by
    ext page
    rw [Pagepool.mem_free, Finset.mem_Ico, and_comm]
    apply and_congr_left
    intro hpage
    change page < numPages at hpage
    rw [pagepoolInit, bitmapGet_reservePages, bitmapGet_bitmapInit garbage hpage]
    split_ifs with hlt
    · simp [hlt]
    · simp [Nat.le_of_not_lt hlt]
  constructor
  · rfl
  · rfl
  · intro page
    rw [hfree, Finset.mem_Ico, and_comm]
    simp
  · intro addr hmem
    cases hmem
  · exact List.nodup_nil
  · rw [hfree, Nat.card_Ico, Nat.cast_sub hres]
    rfl

end PoolInv

/-! ### The calls -/

/-- The pool with a page taken from it. -/
def Pagepool.take (pool : Pagepool) (page : ℕ) : Pagepool :=
  { pool with
    freePages    := bitmapSet pool.freePages page true
    numFreePages := pool.numFreePages - 1 }

/-- The pool with a page given back. -/
def Pagepool.give (pool : Pagepool) (page : ℕ) : Pagepool :=
  { pool with
    freePages    := bitmapSet pool.freePages page false
    numFreePages := pool.numFreePages + 1 }

lemma Pagepool.take_free (pool : Pagepool) (page : ℕ) :
    (pool.take page).free = pool.free.erase page := by
  ext p
  rw [Finset.mem_erase, mem_free, mem_free, take, bitmapGet_bitmapSet]
  by_cases hp : p = page <;> simp [hp]

lemma Pagepool.give_free (hpage : page < pool.numPages) :
    (pool.give page).free = insert page pool.free := by
  ext p
  rw [Finset.mem_insert, mem_free, mem_free, give, bitmapGet_bitmapSet]
  by_cases hp : p = page
  · simp [hp, hpage]
  · simp [hp]

namespace PoolInv

/-- `pagepool_get_phys_page` finds a free page when there is one. -/
lemma pagepoolGetPhysPage_of_mem (h : PoolInv numPages numResPages pool out)
    (hpage : page ∈ pool.free) : ∃ p ∈ pool.free,
      pagepoolGetPhysPage pool = some (pool.take p, pageAddr p) := by
  have hcard : 0 < pool.free.card := Finset.card_pos.mpr ⟨page, hpage⟩
  have hnum : pool.numFreePages > 0 := by
    rw [h.num_free]
    exact_mod_cast hcard
  obtain ⟨hlt, hzero⟩ := Pagepool.mem_free.mp hpage
  obtain ⟨bitmap, p, hfind⟩ := bitmapFindnset_of_zero hlt hzero
  obtain ⟨hp, hpzero, rfl⟩ := bitmapFindnset_spec hfind
  refine ⟨p, Pagepool.mem_free.mpr ⟨hp, hpzero⟩, ?_⟩
  rw [pagepoolGetPhysPage, if_pos hnum, hfind]
  exact if_pos (show pool.numFreePages - 1 ≥ 0 by omega)

lemma pagepoolGetPhysPage_of_empty (h : PoolInv numPages numResPages pool out)
    (hfree : pool.free = ∅) : pagepoolGetPhysPage pool = some (pool, 0) := by
  have hnum : ¬ pool.numFreePages > 0 := by
    rw [h.num_free, hfree]
    simp
  rw [pagepoolGetPhysPage, if_neg hnum]

lemma take (h : PoolInv numPages numResPages pool out) (hnum : numPages ≤ 2 ^ 19)
    (hpage : page ∈ pool.free) :
    PoolInv numPages numResPages (pool.take page) (pageAddr page :: out) := by
  obtain ⟨hlt, hle, hout⟩ := (h.mem_free _).mp hpage
  constructor
  · exact h.num_pages
  · exact h.static_end
  · intro p
    rw [Pagepool.take_free, Finset.mem_erase, h.mem_free, List.mem_cons, not_or]
    constructor
    · rintro ⟨hne, hlt', hle', hout'⟩
      exact ⟨hlt', hle', fun heq => hne (pageAddr_inj (by omega) (by omega) heq), hout'⟩
    · rintro ⟨hlt', hle', hne, hout'⟩
      exact ⟨fun heq => hne (by rw [heq]), hlt', hle', hout'⟩
  · intro addr hmem
    rcases List.mem_cons.mp hmem with rfl | hmem
    · exact ⟨page, hle, hlt, rfl⟩
    · exact h.out_pages addr hmem
  · exact List.nodup_cons.mpr ⟨hout, h.out_nodup⟩
  · have hcard : 0 < pool.free.card := Finset.card_pos.mpr ⟨page, hpage⟩
    rw [Pagepool.take_free, Finset.card_erase_of_mem hpage, Nat.cast_sub hcard, ← h.num_free]
    rfl

lemma give (h : PoolInv numPages numResPages pool out) (hnum : numPages ≤ 2 ^ 19)
    (hlt : page < numPages) (hle : numResPages ≤ page) (hmem : pageAddr page ∈ out) :
    PoolInv numPages numResPages (pool.give page) (out.erase (pageAddr page)) := by
  have hfree : (pool.give page).free = insert page pool.free :=
    Pagepool.give_free (by rw [h.num_pages]; exact hlt)
  have hnot : page ∉ pool.free := fun hin => ((h.mem_free _).mp hin).2.2 hmem
  constructor
  · exact h.num_pages
  · exact h.static_end
  · intro p
    rw [hfree, Finset.mem_insert, h.mem_free, h.out_nodup.mem_erase_iff, not_and_or, not_not]
    constructor
    · rintro (rfl | ⟨hlt', hle', hout'⟩)
      · exact ⟨hlt, hle, .inl rfl⟩
      · exact ⟨hlt', hle', .inr hout'⟩
    · rintro ⟨hlt', hle', heq | hout'⟩
      · exact .inl (pageAddr_inj (by omega) (by omega) heq)
      · exact .inr ⟨hlt', hle', hout'⟩
  · intro addr hin
    exact h.out_pages addr (List.mem_of_mem_erase hin)
  · exact h.out_nodup.erase _
  · rw [hfree, Finset.card_insert_of_notMem hnot, Nat.cast_succ, ← h.num_free]
    rfl

/-- Freeing a page that is handed out fails no assertion. -/
lemma pagepoolFreePhysPage_eq (h : PoolInv numPages numResPages pool out)
    (hnum : numPages ≤ 2 ^ 19) (hlt : page < numPages) (hle : numResPages ≤ page)
    (hmem : pageAddr page ∈ out) :
    pagepoolFreePhysPage pool (pageAddr page) = some (pool.give page) := by
  have hbit : bitmapGet pool.freePages page = 1 := by
    by_contra hbit
    exact ((h.bitmapGet_eq_zero hlt).mp (bitmapGet_eq_zero_iff.mpr hbit)).2 hmem
  have hend : page ≥ pool.staticEnd := by
    rw [h.static_end]
    exact hle
  rw [pagepoolFreePhysPage, pageAddr_page (by omega), if_pos hend, if_pos hbit]
  rfl

end PoolInv

lemma PoolRun.inv (hnum : numPages ≤ 2 ^ 19) (hpos : 1 ≤ numResPages) (hres : numResPages ≤ numPages)
    (h : PoolRun garbage numPages numResPages pool out) :
    PoolInv numPages numResPages pool out := by
  induction h with
  | init => exact PoolInv.init hres
  | @get pool out pool' addr _ hget ih =>
    rcases Finset.eq_empty_or_nonempty pool.free with hfree | ⟨page, hpage⟩
    · rw [ih.pagepoolGetPhysPage_of_empty hfree] at hget
      cases hget
      exact ih
    · obtain ⟨p, hp, heq⟩ := ih.pagepoolGetPhysPage_of_mem hpage
      obtain ⟨hlt, hle, -⟩ := (ih.mem_free _).mp hp
      rw [heq] at hget
      cases hget
      rw [if_neg (pageAddr_ne_zero (by omega) (by omega))]
      exact ih.take hnum hp
  | @free pool out pool' addr _ hmem hfree ih =>
    obtain ⟨page, hle, hlt, rfl⟩ := ih.out_pages addr hmem
    rw [ih.pagepoolFreePhysPage_eq hnum hlt hle hmem] at hfree
    cases hfree
    exact ih.give hnum hlt hle hmem

/-- While there are free pages, one can be taken. -/
lemma PoolRun.get_of_card (h : PoolRun garbage numPages numResPages pool out)
    (hnum : numPages ≤ 2 ^ 19) (hpos : 1 ≤ numResPages) (hres : numResPages ≤ numPages)
    (hcard : 0 < pool.free.card) : ∃ page ∈ pool.free,
      PoolRun garbage numPages numResPages (pool.take page) (pageAddr page :: out) := by
  have hinv := h.inv hnum hpos hres
  obtain ⟨page, hpage⟩ := Finset.card_pos.mp hcard
  obtain ⟨p, hp, hget⟩ := hinv.pagepoolGetPhysPage_of_mem hpage
  obtain ⟨hlt, hle, -⟩ := (hinv.mem_free p).mp hp
  have hrun := h.get hget
  rw [if_neg (pageAddr_ne_zero (by omega) (by omega))] at hrun
  exact ⟨p, hp, hrun⟩

/-- The pool over all sequences of calls that free only pages that are handed out. The counter
agrees with the bitmap, `pagepool_get_phys_page` returns 0 when no page is free and otherwise a
page that is not handed out, reserved pages stay in use, no page is handed out twice, and no
assertion fails. -/
theorem pagepool_invariant (hnum : numPages ≤ 2 ^ 19) (hpos : 1 ≤ numResPages)
    (hres : numResPages ≤ numPages) (h : PoolRun garbage numPages numResPages pool out) :
    pool.numFreePages =
      ({page ∈ Finset.range numPages | bitmapGet pool.freePages page = 0} : Finset ℕ).card ∧
    (∃ pool' addr, pagepoolGetPhysPage pool = some (pool', addr) ∧
      (addr = 0 ↔ ∀ page < numPages, bitmapGet pool.freePages page = 1) ∧
      (addr = 0 ↔ ∀ page < numPages, numResPages ≤ page → pageAddr page ∈ out) ∧
      (addr ≠ 0 → ∃ page, numResPages ≤ page ∧ page < numPages ∧
        addr.toNat = page * pageSize ∧ addr ∉ out)) ∧
    (∀ page < numResPages, bitmapGet pool.freePages page = 1) ∧
    out.Nodup ∧
    (∀ addr ∈ out, ∃ pool', pagepoolFreePhysPage pool addr = some pool') := by
  have hinv := h.inv hnum hpos hres
  have hfree : pool.free =
      ({page ∈ Finset.range numPages | bitmapGet pool.freePages page = 0} : Finset ℕ) := by
    rw [Pagepool.free, hinv.num_pages]
  refine ⟨?_, ?_, ?_, hinv.out_nodup, ?_⟩
  · rw [hinv.num_free, hfree]
  · have hset : pool.free = ∅ ↔ ∀ page < numPages, bitmapGet pool.freePages page = 1 := by
      rw [hfree, Finset.filter_eq_empty_iff]
      simp only [Finset.mem_range, bitmapGet_eq_zero_iff, not_not]
    have hout : pool.free = ∅ ↔ ∀ page < numPages, numResPages ≤ page → pageAddr page ∈ out := by
      simp only [Finset.eq_empty_iff_forall_notMem, hinv.mem_free, not_and, not_not]
    rcases Finset.eq_empty_or_nonempty pool.free with hempty | hne
    · refine ⟨pool, 0, hinv.pagepoolGetPhysPage_of_empty hempty, ?_, ?_, ?_⟩
      · simpa using hset.mp hempty
      · simpa using hout.mp hempty
      · exact fun hzero => absurd rfl hzero
    · obtain ⟨page, hpage⟩ := hne
      obtain ⟨p, hp, heq⟩ := hinv.pagepoolGetPhysPage_of_mem hpage
      obtain ⟨hlt, hle, hnot⟩ := (hinv.mem_free _).mp hp
      have hne : pool.free ≠ ∅ := Finset.ne_empty_of_mem hpage
      have haddr : pageAddr p ≠ 0 := pageAddr_ne_zero (by omega) (by omega)
      refine ⟨pool.take p, pageAddr p, heq, ?_, ?_, ?_⟩
      · exact iff_of_false haddr (fun hall => hne (hset.mpr hall))
      · exact iff_of_false haddr (fun hall => hne (hout.mpr hall))
      · intro _
        exact ⟨p, hle, hlt, pageAddr_toNat (by omega), hnot⟩
  · intro page hpage
    by_contra hbit
    have hzero := bitmapGet_eq_zero_iff.mpr hbit
    have hle := ((hinv.bitmapGet_eq_zero (by omega)).mp hzero).1
    omega
  · intro addr hmem
    obtain ⟨page, hle, hlt, rfl⟩ := hinv.out_pages addr hmem
    exact ⟨_, hinv.pagepoolFreePhysPage_eq hnum hlt hle hmem⟩

/-- Of 33 pages, the first 32 of which are reserved, the last one can be taken. -/
theorem pagepool_invariant_lastPage : ∃ pool addr,
    PoolRun (fun _ => 0xab) 33 32 pool [addr] ∧ addr.toNat = 32 * pageSize ∧ [addr].Nodup ∧
    ∃ pool', pagepoolFreePhysPage pool addr = some pool' := by
  have hinit : PoolRun (fun _ => 0xab) 33 32 _ _ := .init
  obtain ⟨-, ⟨pool', addr, hget, hzero, -, hpage⟩, -⟩ :=
    pagepool_invariant (by decide) (by decide) (by decide) hinit
  have hlast : bitmapGet (pagepoolInit (fun _ => 0xab) 33 32).freePages 32 = 0 := by
    rw [pagepoolInit, bitmapGet_reservePages, bitmapGet_bitmapInit _ (by decide)]
    rfl
  have hne : addr ≠ 0 := by
    intro h
    rw [hzero.mp h 32 (by decide)] at hlast
    cases hlast
  obtain ⟨page, hle, hlt, haddr, -⟩ := hpage hne
  have hpage : page = 32 := by omega
  have hrun := PoolRun.get hinit hget
  rw [if_neg hne] at hrun
  obtain ⟨-, -, -, hnodup, hfree⟩ :=
    pagepool_invariant (by decide) (by decide) (by decide) hrun
  exact ⟨pool', addr, hrun, by rw [haddr, hpage], hnodup, hfree addr (List.mem_singleton_self _)⟩

end Osm.Vm
