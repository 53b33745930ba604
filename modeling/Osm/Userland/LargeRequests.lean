import Osm.Userland.HeapRuns

/-!
# Requests of any size

The arithmetic of `malloc` wraps for sizes near the limits of `size_t`: the rounded size, the size
with the header, the difference that says whether a block can be split, and the new end of the heap.
The requests for which the block that is returned is a block of the heap nevertheless are described
by `RequestOk`; a program whose requests are like that has a heap as in `Osm.Userland.HeapRuns`.
-/

namespace Osm.Userland

open Osm.Core

/-- The blocks that the free list visits. -/
inductive OnFreeList (h : Heap) : UInt32 → Prop
  | head (hne : h.freeList ≠ 0) : OnFreeList h h.freeList
  | next {block : UInt32} (hblock : OnFreeList h block) (hne : h.next block ≠ 0) :
      OnFreeList h (h.next block)

/-- Two blocks, as long as their headers say, do not overlap. -/
def Apart (h : Heap) (b c : UInt32) : Prop :=
  b.toNat + (h.size b).toNat ≤ c.toNat ∨ c.toNat + (h.size c).toNat ≤ b.toNat

/-- The block of a pointer lies in the heap, has room for `n` bytes and overlaps neither the other
blocks in use nor the free ones. -/
structure SoundBlock (base : ℕ) (h : Heap) (live : List (UInt32 × UInt32)) (ptr : UInt32) (n : ℕ) :
    Prop where
  base_le : base ≤ (ptr - sizeofSizeT).toNat
  le_end  : (ptr - sizeofSizeT).toNat + (h.size (ptr - sizeofSizeT)).toNat ≤ h.heapEnd.toNat
  room    : n + 4 ≤ (h.size (ptr - sizeofSizeT)).toNat
  live    : ∀ e ∈ live, Apart h (ptr - sizeofSizeT) (e.1 - sizeofSizeT)
  free    : ∀ b, OnFreeList h b → Apart h (ptr - sizeofSizeT) b

/-- What `malloc` returns is `NULL` or a block that is as it should be. -/
def MallocSound (base : ℕ) (P : Program) (size : UInt32) (grant : Bool) : Prop :=
  ∀ h' ptr, malloc P.heap size grant = some (h', ptr) → ptr ≠ 0 →
    SoundBlock base h' P.live ptr size.toNat

/-- The kernel does not lower the end of the heap. -/
def KernelAnswer (h : Heap) (size : UInt32) (grant : Bool) : Prop :=
  grant = true → h.heapEnd ≤ h.heapEnd + (sizeofSizeT + roundSize size)

/-- Nothing that matters wraps: with the header, the rounded size is at most `2 ^ 31`; or it has 32
bits, no free block is so small that it seems to be big enough, and the new end of the heap does
not look like `NULL`; or there is no free block, and the kernel refuses to extend the heap. -/
def RequestOk (h : Heap) (size : UInt32) (grant : Bool) : Prop :=
  roundUp size.toNat + 4 ≤ 2 ^ 31 ∨
  roundUp size.toNat + 4 < 2 ^ 32 ∧ h.heapEnd.toNat + (roundUp size.toNat + 4) ≠ 2 ^ 32 ∧
    (∀ b, OnFreeList h b → roundUp size.toNat + 4 ≤ (h.size b).toNat + 2 ^ 31) ∨
  2 ^ 32 ≤ roundUp size.toNat + 4 ∧ h.freeList = 0 ∧ grant = false

/-- What a program does whose requests are like that. -/
inductive LargeStep : Program → Program → Prop
  | malloc {P : Program} {size : UInt32} {grant : Bool} {h' : Heap} {ptr : UInt32}
      (hok : RequestOk P.heap size grant) (hkernel : KernelAnswer P.heap size grant)
      (hexec : malloc P.heap size grant = some (h', ptr)) (hbound : h'.heapEnd.toNat < 2 ^ 31) :
      LargeStep P { heap := h', live := if ptr = 0 then P.live else (ptr, size) :: P.live }
  | other {P P' : Program} (hstep : Step P P') : LargeStep P P'

/-- The states of such a program that starts with an empty heap. -/
def LargeReachable (mem : Memory) (heapEnd : UInt32) (P : Program) : Prop :=
  Relation.ReflTransGen LargeStep (Program.initial mem heapEnd) P

/-! ### The free list -/

section FreeList

variable {h : Heap} {base : ℕ} {l : List Block} {b : UInt32} {F : List ℕ}

lemma onFreeList_of_linked {a : UInt32} (hlinks : Linked (nextAddr h.mem) (· = 0) a.toNat F)
    (ha : a ≠ 0 → OnFreeList h a) (hb : b.toNat ∈ F) : OnFreeList h b := by
  induction F generalizing a with
  | nil => cases hb
  | cons x F ih =>
    obtain ⟨hx, hne, htail⟩ := hlinks
    have ha0 : a ≠ 0 := by
      rintro rfl
      exact hne hx.symm
    rcases List.mem_cons.mp hb with hb | hb
    · obtain rfl : b = a := UInt32.toNat_inj.mp (hb.trans hx.symm)
      exact ha ha0
    · refine ih (a := h.next a) ?_ (fun hnext => .next (ha ha0) hnext) hb
      rw [Heap.next, hx]
      exact htail

lemma not_onFreeList (hempty : h.freeList = 0) : ¬ OnFreeList h b := by
  intro hb
  induction hb with
  | head hne => exact hne hempty
  | next _ _ ih => exact ih

lemma Laid.onFreeList_iff (hlaid : Laid h base l) : OnFreeList h b ↔ b.toNat ∈ freeAddrs l := by
  constructor
  · intro hb
    induction hb with
    | head hne => exact hlaid.links.mem fun hzero => hne (UInt32.toNat_inj.mp hzero)
    | @next block _ hne ih =>
      obtain ⟨F₁, F₂, hF⟩ := List.append_of_mem ih
      have hlinks := hlaid.links
      rw [hF] at hlinks
      have hmem : nextAddr h.mem block.toNat ∈ F₂ :=
        hlinks.suffix.2.2.mem fun hzero => hne (UInt32.toNat_inj.mp hzero)
      rw [hF]
      exact List.mem_append_right _ (List.mem_cons_of_mem _ hmem)
  · exact onFreeList_of_linked hlaid.links .head

end FreeList

/-! ### Blocks that are as they should be -/

/-- A heap, of whatever length, in which a block for `n` bytes has been added at `ptr`. -/
def Placed (h' : Heap) (base : ℕ) (l : List Block) (ptr : UInt32) (n : ℕ) : Prop :=
  ∃ l', Laid h' base l' ∧ (payloads l').Perm ((ptr.toNat, n) :: payloads l)

section Placed

variable {h h' : Heap} {base n : ℕ} {l l' : List Block} {b c : Block} {ptr block size : UInt32}
  {P : Program}

lemma Allocates.placed (h : Allocates h base l n h' ptr) : Placed h' base l ptr n := by
  obtain ⟨l', hrep, -, hperm, -⟩ := h
  exact ⟨l', hrep.laid, hperm⟩

lemma mem_payloads {x : ℕ × ℕ} : x ∈ payloads l ↔ ∃ b ∈ l, b.used = some x.2 ∧ x.1 = b.addr + 4 := by
  simp only [payloads, List.mem_filterMap, Option.map_eq_some_iff]
  constructor
  · rintro ⟨b, hb, n, hn, rfl⟩
    exact ⟨b, hb, hn, rfl⟩
  · rintro ⟨b, hb, hn, hx⟩
    exact ⟨b, hb, x.2, hn, by rw [← hx]⟩

lemma toNat_ptr_sub (hptr : ptr.toNat = b.addr + 4) : (ptr - sizeofSizeT).toNat = b.addr := by
  have hfour : sizeofSizeT.toNat = 4 := rfl
  rw [toNat_sub_of_le (by omega)]
  omega

/-- Different blocks do not overlap. -/
lemma Laid.apart (hlaid : Laid h base l) {x y : UInt32} (hb : b ∈ l) (hx : x.toNat = b.addr)
    (hc : c ∈ l) (hy : y.toNat = c.addr) (hne : b ≠ c) : Apart h x y := by
  rw [Apart, Heap.size, Heap.size, hx, hy, hlaid.header b hb, hlaid.header c hc]
  exact (hlaid.tiled.disjoint hb hc).resolve_left hne

/-- The block of a pointer that has been placed. -/
lemma Placed.exists_block (hplaced : Placed h' base l ptr n) :
    ∃ l' b, Laid h' base l' ∧ (payloads l').Perm ((ptr.toNat, n) :: payloads l) ∧ b ∈ l' ∧
      b.used = some n ∧ ptr.toNat = b.addr + 4 ∧ base ≤ b.addr ∧ n + 4 ≤ b.size ∧
      b.addr + b.size ≤ h'.heapEnd.toNat := by
  obtain ⟨l', hlaid, hperm⟩ := hplaced
  obtain ⟨b, hb, hused, hptr⟩ := mem_payloads.mp (hperm.mem_iff.mpr List.mem_cons_self)
  obtain ⟨hok, hbase, hend⟩ := hlaid.tiled.mem hb
  exact ⟨l', b, hlaid, hperm, hb, hused, hptr, hbase, hok.used n hused, hend⟩

lemma Placed.sound (hplaced : Placed h' base l ptr n) (h : HeapInv base P l) :
    SoundBlock base h' P.live ptr n := by
  obtain ⟨l', b, hlaid, hperm, hb, hused, hptr, hbase, hroom, hend⟩ := hplaced.exists_block
  have haddr := toNat_ptr_sub hptr
  have hsize : (h'.size (ptr - sizeofSizeT)).toNat = b.size := by
    rw [Heap.size, haddr, hlaid.header b hb]
  refine ⟨haddr ▸ hbase, by omega, by omega, ?_, ?_⟩
  · intro e he
    have hpay : (e.1.toNat, e.2.toNat) ∈ payloads l :=
      h.live.mem_iff.mpr (List.mem_map.mpr ⟨e, he, rfl⟩)
    obtain ⟨c, hc, -, hc'⟩ := mem_payloads.mp (hperm.mem_iff.mpr (List.mem_cons_of_mem _ hpay))
    refine hlaid.apart hb haddr hc (toNat_ptr_sub hc') ?_
    rintro rfl
    -- the pointer would be in use twice
    have hnodup := (hperm.map Prod.fst).nodup_iff.mp hlaid.tiled.payloads_nodup
    rw [List.map_cons, List.nodup_cons] at hnodup
    exact hnodup.1 (List.mem_map.mpr ⟨_, hpay, hc'.trans hptr.symm⟩)
  · intro block hblock
    obtain ⟨c, hc, hfree, hc'⟩ := mem_freeAddrs.mp (hlaid.onFreeList_iff.mp hblock)
    refine hlaid.apart hb haddr hc hc'.symm ?_
    rintro rfl
    rw [hused] at hfree
    cases hfree

end Placed

/-! ### The results of `malloc` -/

section Results

variable {h : Heap} {base n : ℕ} {l : List Block} {size x : UInt32} {grant : Bool} {P : Program}

lemma toNat_full (size : UInt32) :
    (roundSize size + sizeofSizeT).toNat = (roundUp size.toNat + 4) % 2 ^ 32 := by
  have hfour : sizeofSizeT.toNat = 4 := rfl
  rw [UInt32.toNat_add, toNat_roundSize, hfour, Nat.mod_add_mod]

lemma mallocGrow_eq (h : Heap) (hend : h.heapEnd ≠ 0) (size : UInt32) (grant : Bool) :
    mallocGrow h size grant =
      if h.heapEnd + (sizeofSizeT + size) = 0 then
        (h.setSize h.heapEnd (sizeofSizeT + size), h.heapEnd + sizeofSizeT)
      else if grant then
        ({ h with heapEnd := h.heapEnd + (sizeofSizeT + size) }.setSize h.heapEnd
          (sizeofSizeT + size), h.heapEnd + sizeofSizeT)
      else (h, 0) := by
  have hnull : (syscallMemlimit h 0 grant).2 = h.heapEnd := by rw [syscallMemlimit, if_pos rfl]
  rw [mallocGrow, hnull, syscallMemlimit]
  split_ifs with hzero hgrant
  · exact if_neg hend
  · exact if_neg hzero
  · rfl

/-- A free block is taken, or the heap is to be extended. -/
lemma Rep.malloc_cases (hrep : Rep h base l) (hsize : size ≠ 0) (grant : Bool) :
    (∃ h' ptr, malloc h size grant = some (h', ptr) ∧
      Scanned h l (roundSize size) (some (h', ptr))) ∨
    malloc h size grant = some (mallocGrow h (roundSize size) grant) ∧
      Scanned h l (roundSize size) none := by
  obtain ⟨found, hloop, hscan⟩ := hrep.mallocScan (roundSize size)
  rw [malloc, if_neg hsize]
  dsimp only
  rw [hloop]
  cases found with
  | some r => exact .inl ⟨r.1, r.2, rfl, hscan⟩
  | none => exact .inr ⟨rfl, hscan⟩

/-- Which blocks are taken for a size with the highest bit set. -/
lemma takes_iff_of_large (hx : x.toNat < 2 ^ 31) (hx' : 12 ≤ x.toNat)
    (hlarge : 2 ^ 31 < size.toNat + 4) (hlt : size.toNat + 8 ≤ 2 ^ 32) :
    Takes x size ↔ x.toNat + 2 ^ 31 < size.toNat + 4 := by
  have h₁ : sizeofSizeT.toNat = 4 := rfl
  have h₂ : (minAllocSize + sizeofSizeT).toNat = 12 := rfl
  have hfull : (size + sizeofSizeT).toNat = size.toNat + 4 := by
    rw [UInt32.toNat_add, h₁]
    omega
  have hfit : ¬ x ≥ size + sizeofSizeT := by
    intro hle
    have hle := UInt32.le_iff_toNat_le.mp hle
    omega
  rw [Takes, or_iff_left hfit, Splits, asInt_eq, asInt_eq, UInt32.toNat_sub, UInt32.toNat_sub, h₁,
    h₂]
  split_ifs <;> omega

/-- A rounded size that has wrapped is taken from any block. -/
lemma takes_of_wrapped (hx : 12 ≤ x.toNat) (hwrap : (size + sizeofSizeT).toNat ≤ 4) :
    Takes x size :=
  .inr (UInt32.le_iff_toNat_le.mpr (by omega))

/-- The heap is extended by a block unless the end of the heap wraps. -/
lemma Rep.mallocGrow_placed (hrep : Rep h base l)
    (hfull : roundUp size.toNat + 4 < 2 ^ 32)
    (hend : h.heapEnd.toNat + (roundUp size.toNat + 4) ≠ 2 ^ 32)
    (hkernel : KernelAnswer h size grant) :
    mallocGrow h (roundSize size) grant = (h, 0) ∨
      (mallocGrow h (roundSize size) grant).2 ≠ 0 ∧
      Placed (mallocGrow h (roundSize size) grant).1 base l (mallocGrow h (roundSize size) grant).2
        size.toNat := by
  have hbound := hrep.bound
  have hpos : 0 < h.heapEnd.toNat := hrep.pos.trans_le hrep.tiled.le
  have hsize : (sizeofSizeT + roundSize size).toNat = roundUp size.toNat + 4 := by
    rw [UInt32.add_comm, toNat_full, Nat.mod_eq_of_lt hfull]
  have hne : h.heapEnd + (sizeofSizeT + roundSize size) ≠ 0 := by
    intro hzero
    have hval := congrArg UInt32.toNat hzero
    rw [UInt32.toNat_add, hsize, UInt32.toNat_zero] at hval
    omega
  rw [mallocGrow_eq h (ne_zero_of_toNat_pos hpos), if_neg hne]
  cases grant with
  | false => exact .inl rfl
  | true =>
    have hle := UInt32.le_iff_toNat_le.mp (hkernel rfl)
    rw [UInt32.toNat_add, hsize] at hle
    have hnew : (h.heapEnd + (sizeofSizeT + roundSize size)).toNat =
        h.heapEnd.toNat + (roundUp size.toNat + 4) := by
      rw [UInt32.toNat_add, hsize]
      omega
    have hptr : (h.heapEnd + sizeofSizeT).toNat = h.heapEnd.toNat + 4 := toNat_add_sizeofSizeT hbound
    have hround : size.toNat ≤ roundUp size.toNat ∧ 8 ≤ roundUp size.toNat ∧
        4 ∣ roundUp size.toNat := by
      rw [roundUp]
      omega
    rw [if_pos rfl]
    have hptr0 : h.heapEnd + sizeofSizeT ≠ 0 := ne_zero_of_toNat_pos (by omega)
    refine .inr ⟨hptr0, _, hrep.grow_laid (n := size.toNat)
      (Nat.dvd_add hround.2.2 (dvd_refl 4)) (by omega) (by omega) hsize hnew, ?_⟩
    rw [payloads_append, payloads_cons_used rfl]
    dsimp only
    rw [hptr]
    exact List.perm_append_singleton _ _

/-- The block that is taken is on the free list. -/
lemma Rep.scanned_takes (hrep : Rep h base l) {r : Heap × UInt32}
    (hscan : Scanned h l size (some r)) :
    ∃ block, OnFreeList h block ∧ Takes (h.size block) size := by
  obtain ⟨l₁, b, l₂, prev, block, rfl, hb, hblock, -, htaken⟩ := hscan
  have hmem : block.toNat ∈ freeAddrs (l₁ ++ b :: l₂) :=
    mem_freeAddrs.mpr ⟨b, by simp, hb, hblock.symm⟩
  refine ⟨block, hrep.laid.onFreeList_iff.mpr hmem, ?_⟩
  rcases htaken with ⟨hsplit, -⟩ | ⟨-, hfit, -⟩
  · exact .inl hsplit
  · exact .inr hfit

/-- The sizes of the free blocks. -/
lemma Rep.size_bounds (hrep : Rep h base l) {block : UInt32} (hblock : OnFreeList h block) :
    12 ≤ (h.size block).toNat ∧ block.toNat + (h.size block).toNat < 2 ^ 31 := by
  obtain ⟨b, hb, -, haddr⟩ := mem_freeAddrs.mp (hrep.laid.onFreeList_iff.mp hblock)
  obtain ⟨hok, -, hend⟩ := hrep.tiled.mem hb
  have hbound := hrep.bound
  rw [hrep.size_eq hb haddr.symm, ← haddr]
  exact ⟨hok.le_size, by omega⟩

/-- A rounded size that has wrapped. -/
lemma toNat_full_of_wrapped (hwrap : 2 ^ 32 ≤ roundUp size.toNat + 4) :
    (roundSize size + sizeofSizeT).toNat ≤ 4 := by
  have hlt := size.toNat_lt
  rw [toNat_full]
  rw [roundUp] at hwrap ⊢
  omega

/-- The end of the heap does not wrap then. -/
lemma Rep.newEnd_of_wrapped (hrep : Rep h base l) (hwrap : 2 ^ 32 ≤ roundUp size.toNat + 4) :
    h.heapEnd + (sizeofSizeT + roundSize size) ≠ 0 := by
  have hfull := toNat_full_of_wrapped hwrap
  have hbound := hrep.bound
  have hpos : 0 < h.heapEnd.toNat := hrep.pos.trans_le hrep.tiled.le
  rw [UInt32.add_comm sizeofSizeT]
  refine ne_zero_of_toNat_pos ?_
  rw [UInt32.toNat_add, Nat.mod_eq_of_lt (by omega)]
  omega

/-- A request that is as it should be makes `malloc` return `NULL` or add a block. -/
lemma Rep.malloc_placed (hrep : Rep h base l) (hadj : NoAdjacentFree l)
    (hok : RequestOk h size grant) (hkernel : KernelAnswer h size grant) :
    ∃ r, malloc h size grant = some r ∧
      (r = (h, 0) ∨ r.2 ≠ 0 ∧ Placed r.1 base l r.2 size.toNat) := by
  by_cases hsize : size = 0
  · exact ⟨(h, 0), by rw [malloc, if_pos hsize], .inl rfl⟩
  have hbound := hrep.bound
  have hround : size.toNat ≤ roundUp size.toNat ∧ 4 ∣ roundUp size.toNat := by
    rw [roundUp]
    omega
  rcases hrep.malloc_cases hsize grant with ⟨h', ptr, hexec, hscan⟩ | ⟨hexec, -⟩
  · by_cases hroom : size.toNat + 4 ≤ 2 ^ 31
    · obtain ⟨hn, hmin, hdvd, hmax⟩ := roundSize_bounds hroom
      have halloc := hrep.scanned_allocates hadj hmin hmax hdvd hn hscan
      exact ⟨(h', ptr), hexec, .inr ⟨halloc.ptr_ne_zero, halloc.placed⟩⟩
    · -- no free block is taken for a request of this size
      obtain ⟨block, hblock, htakes⟩ := hrep.scanned_takes hscan
      obtain ⟨hmin, hmax⟩ := hrep.size_bounds hblock
      rcases hok with hsmall | ⟨hfull, -, hfree⟩ | ⟨-, hempty, -⟩
      · omega
      · have hr : (roundSize size).toNat = roundUp size.toNat := by
          rw [toNat_roundSize, Nat.mod_eq_of_lt (by omega)]
        have htakes := (takes_iff_of_large (by omega) hmin (by omega) (by omega)).mp htakes
        exact absurd (hfree block hblock) (by omega)
      · exact absurd hblock (not_onFreeList hempty)
  · refine ⟨_, hexec, ?_⟩
    rcases hok with hsmall | ⟨hfull, hend, -⟩ | ⟨hwrap, -, rfl⟩
    · exact hrep.mallocGrow_placed (by omega) (by omega) hkernel
    · exact hrep.mallocGrow_placed hfull hend hkernel
    · have hpos : 0 < h.heapEnd.toNat := hrep.pos.trans_le hrep.tiled.le
      rw [mallocGrow_eq h (ne_zero_of_toNat_pos hpos), if_neg (hrep.newEnd_of_wrapped hwrap)]
      exact .inl rfl

lemma SoundBlock.le_heapEnd {live : List (UInt32 × UInt32)} {ptr : UInt32}
    (hsound : SoundBlock base h live ptr n) : n + 4 ≤ h.heapEnd.toNat :=
  hsound.room.trans ((Nat.le_add_left _ _).trans hsound.le_end)

/-- The block that is split off for a large size is not at `NULL`. -/
lemma splitOff_ne_zero {block : UInt32} (hmin : 12 ≤ x.toNat)
    (hmax : block.toNat + x.toNat < 2 ^ 31) (hlarge : 2 ^ 31 < roundUp size.toNat + 4) :
    block + (x - (roundSize size + sizeofSizeT)) + sizeofSizeT ≠ 0 := by
  intro hzero
  have hround : 2 ^ 31 ≤ roundUp size.toNat ∧ roundUp size.toNat ≤ 2 ^ 32 := by
    have hlt := size.toNat_lt
    rw [roundUp] at hlarge ⊢
    omega
  have hfour : sizeofSizeT.toNat = 4 := rfl
  have hfull := toNat_full size
  have hval := congrArg UInt32.toNat hzero
  rw [UInt32.toNat_add, UInt32.toNat_add, UInt32.toNat_sub, hfour, UInt32.toNat_zero] at hval
  omega

/-- A block that is taken is not at `NULL`, and the end of the heap stays where it is. -/
lemma Rep.scanned_large (hrep : Rep h base l) {h' : Heap} {ptr : UInt32}
    (hlarge : 2 ^ 31 < roundUp size.toNat + 4)
    (hscan : Scanned h l (roundSize size) (some (h', ptr))) : ptr ≠ 0 ∧ h'.heapEnd = h.heapEnd := by
  obtain ⟨l₁, b, l₂, prev, block, rfl, hb, hblock, -, htaken⟩ := hscan
  have hmem : block.toNat ∈ freeAddrs (l₁ ++ b :: l₂) :=
    mem_freeAddrs.mpr ⟨b, by simp, hb, hblock.symm⟩
  obtain ⟨hmin, hmax⟩ := hrep.size_bounds (hrep.laid.onFreeList_iff.mpr hmem)
  rcases htaken with ⟨-, rfl, rfl⟩ | ⟨-, -, rfl, rfl⟩
  · refine ⟨splitOff_ne_zero hmin hmax hlarge, ?_⟩
    rw [Heap.setSize_heapEnd, Heap.setSize_heapEnd]
  · refine ⟨ne_zero_of_toNat_pos ?_, h.setLink_heapEnd _ _⟩
    rw [toNat_add_sizeofSizeT (by omega)]
    exact Nat.succ_pos _

/-- If no free block is taken and the end of the heap does not wrap, the request is as it should
be unless the kernel grants it. -/
lemma Rep.requestOk_of_not_takes (hrep : Rep h base l)
    (hlarge : 2 ^ 31 < roundUp size.toNat + 4) (hscan : Scanned h l (roundSize size) none)
    (hend : h.heapEnd + (sizeofSizeT + roundSize size) ≠ 0)
    (hgrant : 2 ^ 32 ≤ roundUp size.toNat + 4 → grant = false) : RequestOk h size grant := by
  have hnot : ∀ block, OnFreeList h block → ¬ Takes (h.size block) (roundSize size) :=
    fun block hblock => hscan block (hrep.laid.onFreeList_iff.mp hblock)
  by_cases hwrap : 2 ^ 32 ≤ roundUp size.toNat + 4
  · refine .inr (.inr ⟨hwrap, ?_, hgrant hwrap⟩)
    by_contra hne
    have hhead : OnFreeList h h.freeList := .head hne
    exact hnot _ hhead (takes_of_wrapped (hrep.size_bounds hhead).1 (toNat_full_of_wrapped hwrap))
  · have hr : (roundSize size).toNat = roundUp size.toNat := by
      rw [toNat_roundSize, Nat.mod_eq_of_lt (by omega)]
    refine .inr (.inl ⟨not_le.mp hwrap, fun hzero => hend (UInt32.toNat_inj.mp ?_), ?_⟩)
    · rw [UInt32.add_comm sizeofSizeT, UInt32.toNat_add, toNat_full,
        Nat.mod_eq_of_lt (not_le.mp hwrap), hzero]
      rfl
    · intro block hblock
      obtain ⟨hmin, hmax⟩ := hrep.size_bounds hblock
      have hdvd : 4 ∣ roundUp size.toNat := Nat.dvd_mul_left 4 _
      have hnot := mt (takes_iff_of_large (by omega) hmin (by omega) (by omega)).mpr
        (hnot block hblock)
      omega

/-- A request is as it should be if what `malloc` returns fits below the end of the heap. -/
lemma HeapInv.requestOk (hinv : HeapInv base P l)
    (hfits : ∀ h' ptr, Userland.malloc P.heap size grant = some (h', ptr) → ptr ≠ 0 →
      size.toNat + 4 ≤ h'.heapEnd.toNat) : RequestOk P.heap size grant := by
  have hrep := hinv.rep
  have hbound := hrep.bound
  have hpos : 0 < P.heap.heapEnd.toNat := hrep.pos.trans_le hrep.tiled.le
  by_cases hlarge : 2 ^ 31 < roundUp size.toNat + 4
  swap
  · exact .inl (not_lt.mp hlarge)
  have hn : 2 ^ 31 < size.toNat + 4 := by
    rw [roundUp] at hlarge
    omega
  have hsize : size ≠ 0 := by
    rintro rfl
    exact absurd hn (by decide)
  have hptr : P.heap.heapEnd + sizeofSizeT ≠ 0 :=
    ne_zero_of_toNat_pos (by rw [toNat_add_sizeofSizeT hbound]; omega)
  rcases hrep.malloc_cases hsize grant with ⟨h', ptr, hexec, hscan⟩ | ⟨hexec, hscan⟩
  · obtain ⟨hne, hend⟩ := hrep.scanned_large hlarge hscan
    have hle := hfits h' ptr hexec hne
    rw [hend] at hle
    omega
  · rw [mallocGrow_eq _ (ne_zero_of_toNat_pos hpos)] at hexec
    split_ifs at hexec with hzero hgrant
    · -- the heap is not extended at all
      have hle := hfits _ _ hexec hptr
      rw [Heap.setSize_heapEnd] at hle
      omega
    · refine hrep.requestOk_of_not_takes hlarge hscan hzero fun hwrap => ?_
      have hle := hfits _ _ hexec hptr
      have hfull := toNat_full_of_wrapped hwrap
      rw [Heap.setSize_heapEnd, UInt32.add_comm sizeofSizeT, UInt32.toNat_add, Nat.mod_eq_of_lt (by omega)] at hle
      rw [roundUp] at hwrap
      omega
    · exact hrep.requestOk_of_not_takes hlarge hscan hzero fun _ => eq_false_of_ne_true hgrant

end Results

/-! ### Runs -/

section Runs

variable {base : ℕ} {l : List Block} {P P' : Program} {size : UInt32} {grant : Bool}

lemma HeapInv.mallocSound_iff (h : HeapInv base P l) (hkernel : KernelAnswer P.heap size grant) :
    MallocSound base P size grant ↔ RequestOk P.heap size grant := by
  refine ⟨fun hsound => h.requestOk fun h' ptr hexec hne => (hsound h' ptr hexec hne).le_heapEnd,
    fun hok h' ptr hexec hne => ?_⟩
  obtain ⟨r, hres, hcases⟩ := h.rep.malloc_placed h.apart hok hkernel
  cases hexec.symm.trans hres
  rcases hcases with hnull | ⟨-, hplaced⟩
  · exact absurd (congrArg Prod.snd hnull) hne
  · exact hplaced.sound h

lemma HeapInv.largeStep (h : HeapInv base P l) (hstep : LargeStep P P') :
    ∃ l', HeapInv base P' l' := by
  cases hstep with
  | @malloc size grant h' ptr hok hkernel hexec hbound =>
    by_cases hroom : size.toNat + 4 ≤ 2 ^ 31
    · exact h.malloc hroom hexec hbound
    · -- so large a block does not fit
      obtain ⟨r, hres, hcases⟩ := h.rep.malloc_placed h.apart hok hkernel
      cases hexec.symm.trans hres
      rcases hcases with hnull | ⟨hne, hplaced⟩
      · cases hnull
        exact ⟨l, h⟩
      · have hle := (hplaced.sound h).le_heapEnd
        dsimp only at hle
        omega
  | other hstep => exact h.step hstep

lemma LargeReachable.heapInv {mem : Memory} {heapEnd : UInt32} (hpos : heapEnd ≠ 0)
    (hdvd : 4 ∣ heapEnd.toNat) (hlt : heapEnd.toNat < 2 ^ 31) (h : LargeReachable mem heapEnd P) :
    ∃ l, HeapInv heapEnd.toNat P l := by
  induction h with
  | refl => exact Reachable.heapInv hpos hdvd hlt .refl
  | tail _ hstep ih =>
    obtain ⟨l, hl⟩ := ih
    exact hl.largeStep hstep

end Runs

theorem malloc_sound_iff {mem : Memory} {heapEnd : UInt32} (hpos : heapEnd ≠ 0)
    (hdvd : 4 ∣ heapEnd.toNat) (hlt : heapEnd.toNat < 2 ^ 31) {P : Program}
    (h : LargeReachable mem heapEnd P) {size : UInt32} {grant : Bool}
    (hkernel : KernelAnswer P.heap size grant) :
    MallocSound heapEnd.toNat P size grant ↔ RequestOk P.heap size grant := by
  obtain ⟨l, hl⟩ := h.heapInv hpos hdvd hlt
  exact hl.mallocSound_iff hkernel

theorem malloc_sound_half : MallocSound (UInt32.toNat 0x1000)
    (Program.initial (fun _ => 0) 0x1000) 0x80000000 true := by
  have hkernel : KernelAnswer (Program.initial (fun _ => 0) 0x1000).heap 0x80000000 true := by
    unfold KernelAnswer
    decide
  refine (malloc_sound_iff (by decide) (by decide) (by decide) .refl hkernel).mpr ?_
  refine .inr (.inl ⟨by decide, by decide, fun b hb => ?_⟩)
  exact absurd hb (not_onFreeList rfl)

lemma wrappedSize_run : (malloc (Program.initial (fun _ => 0) 0x1000).heap 0xfffffffd true).any
    (fun r => r.2 = 0x1004 ∧ (r.1.size 0x1000).toNat = 4) = true := by
  decide +kernel

/-- The rounded size is `0`, and the payload is empty. -/
theorem wrapped_size_not_sound : ∃ P size grant, LargeReachable (fun _ => 0) 0x1000 P ∧
    size ≠ 0 ∧ KernelAnswer P.heap size grant ∧
    ¬ MallocSound (UInt32.toNat 0x1000) P size grant := by
  refine ⟨Program.initial (fun _ => 0) 0x1000, 0xfffffffd, true, .refl, by decide, ?_, ?_⟩
  · unfold KernelAnswer
    decide
  · intro hsound
    obtain ⟨⟨h', ptr⟩, hexec, hval⟩ := (Option.any_eq_true _ _).mp wrappedSize_run
    obtain ⟨rfl, hsize⟩ := of_decide_eq_true hval
    have hroom : 0xfffffffd + 4 ≤ (h'.size 0x1000).toNat := (hsound h' _ hexec (by decide)).room
    rw [hsize] at hroom
    exact absurd hroom (by decide)

end Osm.Userland
