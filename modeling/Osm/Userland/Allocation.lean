import Osm.Core.Words
import Osm.Userland.Blocks

/-!
# What `malloc` and `free` do to the blocks

`malloc` adds one block in use to the list of blocks and `free` takes one out, `Rep` and
`NoAdjacentFree` being kept. Both find their place by following the free list, which ends since it
is as long as the list of free blocks. No byte of any other block in use is changed.
-/

namespace Osm.Userland

open Osm.Core

/-! ### Sizes -/

/-- The size of a payload without overflow. -/
def roundUp (n : ℕ) : ℕ := (max 8 n + 3) / 4 * 4

lemma toNat_roundSize (size : UInt32) :
    (roundSize size).toNat = roundUp size.toNat % 2 ^ 32 := by
  obtain ⟨s, hs⟩ : ∃ s, s = max minAllocSize size := ⟨_, rfl⟩
  have hmin : minAllocSize.toNat = 8 := rfl
  have hmax : s.toNat = max 8 size.toNat := by
    have hcases : s = if minAllocSize ≤ size then size else minAllocSize := hs
    rw [hcases]
    split_ifs with hle
    · exact (max_eq_right (UInt32.le_iff_toNat_le.mp hle)).symm
    · have := mt UInt32.le_iff_toNat_le.mpr hle
      omega
  have hlt := s.toNat_lt
  have hmod : (s % 4).toNat = s.toNat % 4 := UInt32.toNat_mod s 4
  have hmask : (~~~3 : UInt32).toNat = 2 ^ 32 - 2 ^ 2 := rfl
  unfold roundSize
  rw [← hs, roundUp, ← hmax]
  dsimp only
  split_ifs with hrest
  · have hne : s.toNat % 4 ≠ 0 := by
      intro hzero
      exact hrest (UInt32.toNat_inj.mp (hmod.trans hzero))
    have hfour : (4 : UInt32).toNat = 4 := rfl
    rw [UInt32.toNat_add, UInt32.toNat_and, hmask, and_clear_low (by omega) hlt, hfour]
    omega
  · have hzero : s.toNat % 4 = 0 := by
      rw [← hmod, Decidable.of_not_not hrest]
      rfl
    omega

/-- Without overflow, the rounded size is a multiple of four, at least eight and at least the
size. -/
lemma roundSize_bounds {size : UInt32} (h : size.toNat + 4 ≤ 2 ^ 31) :
    size.toNat ≤ (roundSize size).toNat ∧ 8 ≤ (roundSize size).toNat ∧
      4 ∣ (roundSize size).toNat ∧ (roundSize size).toNat + 4 ≤ 2 ^ 31 := by
  rw [toNat_roundSize, roundUp]
  omega

lemma asInt_eq (x : UInt32) :
    asInt x = if x.toNat < 2 ^ 31 then (x.toNat : ℤ) else x.toNat - 2 ^ 32 := by
  rw [asInt, BitVec.toInt_eq_toNat_cond]
  have hx : x.toBitVec.toNat = x.toNat := rfl
  rw [hx]
  split_ifs <;> first | rfl | omega

/-- A free block is split for a payload of the size. -/
def Splits (blockSize size : UInt32) : Prop :=
  asInt (blockSize - size - sizeofSizeT) ≥ asInt (minAllocSize + sizeofSizeT)

/-- A free block is split or used as it is. -/
def Takes (blockSize size : UInt32) : Prop :=
  Splits blockSize size ∨ blockSize ≥ size + sizeofSizeT

/-- When a block can be split. -/
lemma splits_iff {x size : UInt32} (hx : x.toNat < 2 ^ 31) (hsize : size.toNat + 4 ≤ 2 ^ 31) :
    Splits x size ↔ size.toNat + 16 ≤ x.toNat := by
  rw [Splits, asInt_eq, asInt_eq, UInt32.toNat_sub, UInt32.toNat_sub]
  have h₁ : sizeofSizeT.toNat = 4 := rfl
  have h₂ : (minAllocSize + sizeofSizeT).toNat = 12 := rfl
  rw [h₁, h₂]
  split_ifs <;> omega

/-! ### Lists of blocks -/

section Lists

variable {a e n : ℕ} {b c : Block} {l l₁ l₂ : List Block}

lemma Tiled.length_le (h : Tiled a l e) : a + 12 * l.length ≤ e := by
  induction l generalizing a with
  | nil => exact Nat.le_of_eq h
  | cons b l ih =>
    have := ih h.2.2
    have := h.2.1.le_size
    simp only [List.length_cons]
    omega

lemma length_freeAddrs_le (l : List Block) : (freeAddrs l).length ≤ l.length := by
  rw [freeAddrs, List.length_map]
  exact List.length_filter_le _ _

@[simp] lemma payloads_append : payloads (l₁ ++ l₂) = payloads l₁ ++ payloads l₂ := by
  simp [payloads]

lemma payloads_cons_free (hb : b.used = none) : payloads (b :: l) = payloads l := by
  simp [payloads, hb]

lemma payloads_cons_used (hb : b.used = some n) :
    payloads (b :: l) = (b.addr + 4, n) :: payloads l := by
  simp [payloads, hb]

/-- A free block has neighbours in use only. -/
lemma noAdjacentFree_split : NoAdjacentFree (l₁ ++ b :: l₂) ↔
    NoAdjacentFree l₁ ∧ NoAdjacentFree l₂ ∧ (b.used = none →
      (∀ c ∈ l₁.getLast?, c.used ≠ none) ∧ ∀ c ∈ l₂.head?, c.used ≠ none) := by
  rw [NoAdjacentFree]
  rw [List.isChain_append, List.isChain_cons]
  constructor
  · rintro ⟨h₁, ⟨hright, h₂⟩, hleft⟩
    refine ⟨h₁, h₂, fun hb => ⟨fun c hc => ?_, fun c hc => ?_⟩⟩
    · exact (hleft c hc b rfl).resolve_right fun hne => hne hb
    · exact (hright c hc).resolve_left fun hne => hne hb
  · rintro ⟨h₁, h₂, hfree⟩
    refine ⟨h₁, ⟨fun c hc => ?_, h₂⟩, fun c hc d hd => ?_⟩
    · by_cases hb : b.used = none
      · exact Or.inr ((hfree hb).2 c hc)
      · exact Or.inl hb
    · obtain rfl : b = d := by simpa using hd
      by_cases hb : b.used = none
      · exact Or.inl ((hfree hb).1 c hc)
      · exact Or.inr hb

end Lists

/-! ### `malloc` -/

/-- Nothing is written to the blocks in use. -/
def Unchanged (h h' : Heap) (l : List Block) : Prop :=
  ∀ c ∈ l, c.used ≠ none → ∀ x, c.addr ≤ x → x < c.addr + c.size → h'.mem x = h.mem x

/-- A block for `n` bytes is added at `ptr`. -/
def Allocates (h : Heap) (base : ℕ) (l : List Block) (n : ℕ) (h' : Heap) (ptr : UInt32) : Prop :=
  ∃ l', Rep h' base l' ∧ NoAdjacentFree l' ∧ (payloads l').Perm ((ptr.toNat, n) :: payloads l) ∧
    Unchanged h h' l

section Malloc

variable {h : Heap} {base n : ℕ} {b : Block} {l l₁ l₂ : List Block} {block size : UInt32}
  {prev : Option UInt32}

lemma toNat_add_sizeofSizeT {x : UInt32} (hx : x.toNat < 2 ^ 31) :
    (x + sizeofSizeT).toNat = x.toNat + 4 := by
  have : sizeofSizeT.toNat = 4 := rfl
  rw [UInt32.toNat_add]
  omega

/-- A free block that is big enough is taken as it is. -/
lemma Rep.use_allocates (hrep : Rep h base (l₁ ++ b :: l₂)) (hadj : NoAdjacentFree (l₁ ++ b :: l₂))
    (hb : b.used = none) (hn : n + 4 ≤ b.size) (hblock : block.toNat = b.addr)
    (hprev : IsPrev (freeAddrs l₁) prev) :
    Allocates h base (l₁ ++ b :: l₂) n (h.setLink (h.next block) prev) (block + sizeofSizeT) := by
  have hmem : b ∈ l₁ ++ b :: l₂ := by simp
  obtain ⟨h₁, h₂, -⟩ := noAdjacentFree_split.mp hadj
  have hend := (hrep.tiled.mem hmem).2.2
  have hbound := hrep.bound
  refine ⟨_, hrep.use hb hn hblock hprev, noAdjacentFree_split.mpr ⟨h₁, h₂, by simp⟩, ?_,
    fun c hc hused x hle hlt => ?_⟩
  · rw [payloads_append, payloads_append, payloads_cons_used rfl, payloads_cons_free hb,
      toNat_add_sizeofSizeT (by omega), hblock]
    exact List.perm_middle
  · cases prev with
    | none => rw [Heap.setLink_none_mem]
    | some p =>
      obtain ⟨F, hF⟩ := List.getLast?_eq_some_iff.mp hprev
      obtain ⟨m₁, pb, m₂, rfl, hpb, haddr, -, -⟩ := exists_of_freeAddrs hF
      refine hrep.tiled.mem_setNext (b := pb) (by simp) haddr.symm hc ?_ hle hlt
      rintro rfl
      exact hused hpb

/-- A bigger free block is split. -/
lemma Rep.split_allocates (hrep : Rep h base (l₁ ++ b :: l₂))
    (hadj : NoAdjacentFree (l₁ ++ b :: l₂)) (hb : b.used = none) (hblock : block.toNat = b.addr)
    (hsize : 8 ≤ size.toNat) (hdvd : 4 ∣ size.toNat) (hn : n ≤ size.toNat)
    (hle : size.toNat + 16 ≤ b.size) :
    Allocates h base (l₁ ++ b :: l₂) n
      ((h.setSize block (h.size block - (size + sizeofSizeT))).setSize
        (block + (h.size block - (size + sizeofSizeT))) (size + sizeofSizeT))
      (block + (h.size block - (size + sizeofSizeT)) + sizeofSizeT) := by
  have hmem : b ∈ l₁ ++ b :: l₂ := by simp
  obtain ⟨hok, -, hend⟩ := hrep.tiled.mem hmem
  have hbound := hrep.bound
  have hfull : (size + sizeofSizeT).toNat = size.toNat + 4 := toNat_add_sizeofSizeT (by omega)
  have hrest : (h.size block - (size + sizeofSizeT)).toNat = b.size - (size.toNat + 4) := by
    rw [UInt32.toNat_sub, hfull, hrep.size_eq hmem hblock]
    omega
  have hnew : (block + (h.size block - (size + sizeofSizeT))).toNat =
      b.addr + (b.size - (size.toNat + 4)) := by
    rw [UInt32.toNat_add, hrest, hblock]
    omega
  obtain ⟨h₁, h₂, hfree⟩ := noAdjacentFree_split.mp hadj
  refine ⟨_, hrep.splitOff (n := n) hb (Nat.dvd_add hdvd (by decide)) (by omega) (by omega)
    (by omega) hblock hnew hrest hfull, ?_, ?_, fun c hc hused x hle' hlt => ?_⟩
  · refine noAdjacentFree_split.mpr ⟨h₁, ?_, fun _ => ⟨(hfree hb).1, by simp⟩⟩
    exact (@noAdjacentFree_split _ [] _).mpr ⟨List.isChain_nil, h₂, by simp⟩
  · rw [payloads_append, payloads_append, payloads_cons_free (by exact hb), payloads_cons_used rfl,
      payloads_cons_free hb, toNat_add_sizeofSizeT (by omega), hnew]
    exact List.perm_middle
  · have hne : b ≠ c := by
      rintro rfl
      exact hused hb
    have hdisj := (hrep.tiled.disjoint hmem hc).resolve_left hne
    refine Eq.trans (Memory.writeWord_of_outside (by omega)) ?_
    exact hrep.tiled.mem_setSize hmem hblock hc hne hle' hlt

/-- The heap is extended. -/
lemma Rep.grow_allocates {heapEnd : UInt32} (hrep : Rep h base l) (hadj : NoAdjacentFree l)
    (hsize : 8 ≤ size.toNat) (hsize' : size.toNat + 4 ≤ 2 ^ 31) (hdvd : 4 ∣ size.toNat)
    (hn : n ≤ size.toNat) (hend : heapEnd = h.heapEnd + (sizeofSizeT + size))
    (hbound : heapEnd.toNat < 2 ^ 31) :
    Allocates h base l n ({ h with heapEnd := heapEnd }.setSize h.heapEnd (sizeofSizeT + size))
      (h.heapEnd + sizeofSizeT) := by
  have hold := hrep.bound
  have hfull : (sizeofSizeT + size).toNat = size.toNat + 4 := by
    rw [UInt32.add_comm]
    exact toNat_add_sizeofSizeT (by omega)
  have hendNat : heapEnd.toNat = h.heapEnd.toNat + (size.toNat + 4) := by
    rw [hend, UInt32.toNat_add, hfull]
    omega
  refine ⟨_, hrep.grow (n := n) (Nat.dvd_add hdvd (by decide)) (by omega) (by omega) hfull hendNat
    hbound, ?_, ?_, fun c hc hused x hle hlt => ?_⟩
  · refine noAdjacentFree_split.mpr ⟨hadj, List.isChain_nil, by simp⟩
  · rw [payloads_append, payloads_cons_used rfl, toNat_add_sizeofSizeT hold]
    exact List.perm_append_singleton _ _
  · have := (hrep.tiled.mem hc).2.2
    exact Memory.writeWord_of_outside (by omega)

/-- What the loop of `malloc` keeps: how much of the free list is left, and that no block has been
taken so far. -/
def ScanInv (h : Heap) (l : List Block) (size : UInt32) (j : ℕ) : Option UInt32 × UInt32 → Prop
  | (prev, block) => ∃ F₁ F₂, freeAddrs l = F₁ ++ F₂ ∧ F₂.length = j ∧
      Linked (nextAddr h.mem) (· = 0) block.toNat F₂ ∧ Rep.IsPrev F₁ prev ∧
      ∀ block : UInt32, block.toNat ∈ F₁ → ¬ Takes (h.size block) size

/-- What `malloc` does with the first free block that it takes, if any. -/
def Scanned (h : Heap) (l : List Block) (size : UInt32) : Option (Heap × UInt32) → Prop
  | none           => ∀ block : UInt32, block.toNat ∈ freeAddrs l → ¬ Takes (h.size block) size
  | some (h', ptr) => ∃ l₁ b l₂ prev block, l = l₁ ++ b :: l₂ ∧ b.used = none ∧
      UInt32.toNat block = b.addr ∧ Rep.IsPrev (freeAddrs l₁) prev ∧
      (Splits (h.size block) size ∧
          h' = (h.setSize block (h.size block - (size + sizeofSizeT))).setSize
            (block + (h.size block - (size + sizeofSizeT))) (size + sizeofSizeT) ∧
          ptr = block + (h.size block - (size + sizeofSizeT)) + sizeofSizeT ∨
        ¬ Splits (h.size block) size ∧ h.size block ≥ size + sizeofSizeT ∧
          h' = h.setLink (h.next block) prev ∧ ptr = block + sizeofSizeT)

/-- One round of the loop of `malloc`. -/
lemma Rep.mallocStep_ok (hrep : Rep h base l) (size : UInt32) (j : ℕ)
    (p : Option UInt32 × UInt32) (hp : ScanInv h l size j p) :
    RoundOk (ScanInv h l size) (Scanned h l size) j (mallocStep h size p) := by
  obtain ⟨prev, block⟩ := p
  obtain ⟨F₁, F₂, hF, hj, hlinked, hprev, hpassed⟩ := hp
  rw [mallocStep]
  dsimp only
  cases F₂ with
  | nil =>
    have hzero : block = 0 := UInt32.toNat_inj.mp hlinked
    rw [if_pos hzero]
    intro b hb
    rw [hF, List.append_nil] at hb
    exact hpassed b hb
  | cons x F₂ =>
    obtain ⟨hx, hne, htail⟩ := hlinked
    obtain ⟨l₁, b, l₂, rfl, hb, rfl, hF₁, -⟩ := exists_of_freeAddrs hF
    have hzero : block ≠ 0 := by
      rintro rfl
      exact hne (hx.symm.trans UInt32.toNat_zero)
    rw [if_neg hzero]
    by_cases hsplit : asInt (h.size block - size - sizeofSizeT) ≥ asInt (minAllocSize + sizeofSizeT)
    · rw [if_pos hsplit]
      have hread : (h.setSize block (h.size block - (size + sizeofSizeT))).size block =
          h.size block - (size + sizeofSizeT) := Memory.readWord_writeWord_self _ _ _
      rw [hread]
      exact ⟨l₁, b, l₂, prev, block, rfl, hb, hx, hF₁ ▸ hprev, .inl ⟨hsplit, rfl, rfl⟩⟩
    rw [if_neg hsplit]
    by_cases hfit : h.size block ≥ size + sizeofSizeT
    · rw [if_pos hfit]
      exact ⟨l₁, b, l₂, prev, block, rfl, hb, hx, hF₁ ▸ hprev, .inr ⟨hsplit, hfit, rfl, rfl⟩⟩
    · rw [if_neg hfit]
      refine ⟨F₂.length, by rw [← hj]; simp, F₁ ++ [b.addr], F₂, by simp [hF], rfl, ?_, ?_, ?_⟩
      · rw [Heap.next, hx]
        exact htail
      · exact List.getLast?_concat.trans (by rw [hx])
      · intro c hc
        rcases List.mem_append.mp hc with hc | hc
        · exact hpassed c hc
        · have hcb : c = block := UInt32.toNat_inj.mp ((List.mem_singleton.mp hc).trans hx.symm)
          rw [hcb]
          exact not_or.mpr ⟨hsplit, hfit⟩

/-- The loop of `malloc` ends, whatever the size. -/
lemma Rep.mallocScan (hrep : Rep h base l) (size : UInt32) :
    ∃ found, loop (mallocStep h size) (2 ^ 32) (none, h.freeList) = some found ∧
      Scanned h l size found := by
  have hlen := hrep.tiled.length_le
  have hfree := length_freeAddrs_le l
  have hbound := hrep.bound
  exact loop_spec (ScanInv h l size) _ (hrep.mallocStep_ok size) (2 ^ 32) (freeAddrs l).length
    (none, h.freeList) ⟨[], freeAddrs l, rfl, rfl, hrep.links, rfl, by simp⟩ (by omega)

/-- A free block that is taken for a size in range has room for it. -/
lemma Rep.scanned_allocates (hrep : Rep h base l) (hadj : NoAdjacentFree l)
    (hsize : 8 ≤ size.toNat) (hsize' : size.toNat + 4 ≤ 2 ^ 31) (hdvd : 4 ∣ size.toNat)
    (hn : n ≤ size.toNat) {h' : Heap} {ptr : UInt32} (hscan : Scanned h l size (some (h', ptr))) :
    Allocates h base l n h' ptr := by
  obtain ⟨l₁, b, l₂, prev, block, rfl, hb, hblock, hprev, htaken⟩ := hscan
  have hmem : b ∈ l₁ ++ b :: l₂ := by simp
  have hend := (hrep.tiled.mem hmem).2.2
  have hbound := hrep.bound
  have hbsize := hrep.size_eq hmem hblock
  rcases htaken with ⟨hsplit, rfl, rfl⟩ | ⟨-, hfit, rfl, rfl⟩
  · have hle := (splits_iff (by omega) hsize').mp hsplit
    exact hrep.split_allocates hadj hb hblock hsize hdvd hn (by omega)
  · have hle := UInt32.le_iff_toNat_le.mp hfit
    have hfull : (size + sizeofSizeT).toNat = size.toNat + 4 := toNat_add_sizeofSizeT (by omega)
    exact hrep.use_allocates hadj hb (by omega) hblock hprev

/-- A new payload is not at `NULL`. -/
lemma Allocates.ptr_ne_zero {h' : Heap} {ptr : UInt32} (h : Allocates h base l n h' ptr) :
    ptr ≠ 0 := by
  obtain ⟨l', -, -, hperm, -⟩ := h
  rintro rfl
  have hmem := hperm.mem_iff.mpr List.mem_cons_self
  obtain ⟨b, -, hb⟩ := List.mem_filterMap.mp hmem
  obtain ⟨m, -, hm⟩ := Option.map_eq_some_iff.mp hb
  have hzero : b.addr + 4 = (0 : UInt32).toNat := congrArg Prod.fst hm
  rw [UInt32.toNat_zero] at hzero
  omega

/-- The end of `malloc` extends the heap or returns `NULL`. -/
lemma Rep.mallocGrow_spec (hrep : Rep h base l) (hadj : NoAdjacentFree l) (hsize : 8 ≤ size.toNat)
    (hsize' : size.toNat + 4 ≤ 2 ^ 31) (hdvd : 4 ∣ size.toNat) (hn : n ≤ size.toNat) (grant : Bool) :
    mallocGrow h size grant = (h, 0) ∨
      ((mallocGrow h size grant).1.heapEnd.toNat < 2 ^ 31 →
        Allocates h base l n (mallocGrow h size grant).1 (mallocGrow h size grant).2) := by
  have hbound := hrep.bound
  have hfull : (sizeofSizeT + size).toNat = size.toNat + 4 := by
    rw [UInt32.add_comm]
    exact toNat_add_sizeofSizeT (by omega)
  have hne : h.heapEnd + (sizeofSizeT + size) ≠ 0 := by
    intro hzero
    have hval := congrArg UInt32.toNat hzero
    rw [UInt32.toNat_add, hfull, UInt32.toNat_zero] at hval
    omega
  unfold mallocGrow syscallMemlimit
  rw [if_pos rfl]
  dsimp only
  rw [if_neg hne]
  cases grant with
  | false => exact Or.inl rfl
  | true =>
    simp only [if_true, if_neg hne]
    exact Or.inr fun hlt => hrep.grow_allocates hadj hsize hsize' hdvd hn rfl hlt

/-- `malloc` returns, and either returns `NULL` and does nothing or adds a block. -/
lemma Rep.malloc_spec (hrep : Rep h base l) (hadj : NoAdjacentFree l)
    (hsize : size.toNat + 4 ≤ 2 ^ 31) (grant : Bool) :
    ∃ h' ptr, malloc h size grant = some (h', ptr) ∧
      ((ptr = 0 ∧ h' = h) ∨ (h'.heapEnd.toNat < 2 ^ 31 →
        ptr ≠ 0 ∧ Allocates h base l size.toNat h' ptr)) := by
  rw [malloc]
  by_cases hzero : size = 0
  · exact ⟨h, 0, if_pos hzero, Or.inl ⟨rfl, rfl⟩⟩
  rw [if_neg hzero]
  obtain ⟨hn, hmin, hdvd, hmax⟩ := roundSize_bounds hsize
  obtain ⟨found, hloop, hscan⟩ := hrep.mallocScan (roundSize size)
  dsimp only
  rw [hloop]
  cases found with
  | some res =>
    obtain ⟨h', ptr⟩ := res
    have halloc := hrep.scanned_allocates hadj hmin hmax hdvd hn hscan
    exact ⟨h', ptr, rfl, Or.inr fun _ => ⟨halloc.ptr_ne_zero, halloc⟩⟩
  | none =>
    refine ⟨(mallocGrow h (roundSize size) grant).1, (mallocGrow h (roundSize size) grant).2, rfl, ?_⟩
    rcases hrep.mallocGrow_spec hadj hmin hmax hdvd hn grant with hnull | hgrow
    · exact Or.inl ⟨congrArg Prod.snd hnull, congrArg Prod.fst hnull⟩
    · exact Or.inr fun hlt => ⟨(hgrow hlt).ptr_ne_zero, hgrow hlt⟩

end Malloc

/-! ### `free` -/

section Free

variable {h : Heap} {base n : ℕ} {b : Block} {l l₁ l₂ : List Block} {block prev cur : UInt32}

/-- The pointer to the block before, `NULL` for the head of the list. -/
def prevLink (prev : UInt32) : Option UInt32 := if prev = 0 then none else some prev

lemma freeLink_eq (h : Heap) (block prev cur : UInt32) :
    freeLink h block prev cur = (h.setLink block (prevLink prev)).setNext block cur := by
  rw [freeLink, prevLink]
  split_ifs <;> rfl

lemma toNat_sub_of_le {x y : UInt32} (h : y.toNat ≤ x.toNat) :
    (x - y).toNat = x.toNat - y.toNat := by
  have := x.toNat_lt
  rw [UInt32.toNat_sub]
  omega

lemma ne_zero_of_toNat_pos {x : UInt32} (h : 0 < x.toNat) : x ≠ 0 := by
  rintro rfl
  simp at h

/-- A block lies inside another one. -/
def Block.Within (b b' : Block) : Prop := b'.addr ≤ b.addr ∧ b.addr + b.size ≤ b'.addr + b'.size

lemma Block.Within.refl (b : Block) : b.Within b := ⟨le_rfl, le_rfl⟩

lemma Block.Within.trans {b b' b'' : Block} (h : b.Within b') (h' : b'.Within b'') :
    b.Within b'' :=
  ⟨h'.1.trans h.1, h.2.trans h'.2⟩

/-- Merging two blocks leaves those in use alone. -/
lemma Rep.merge_unchanged {next v : UInt32} (hrep : Rep h base l) (hmem : b ∈ l)
    (hb : b.used = none) (hblock : block.toNat = b.addr) :
    Unchanged h ((freeGrow h block next).setNext block v) l := by
  intro c hc hused x hle hlt
  have hne : b ≠ c := by
    rintro rfl
    exact hused hb
  rw [hrep.tiled.mem_setNext hmem hblock hc hne hle hlt, freeGrow]
  exact hrep.tiled.mem_setSize hmem hblock hc hne hle hlt

/-- The link that the search has kept is that of the block before, if this is free. -/
lemma Rep.prev_toNat {p : Block} (hp : p.used = none)
    (hprev : IsPrev (freeAddrs (l₁ ++ [p])) (prevLink prev)) : prev ≠ 0 ∧ prev.toNat = p.addr := by
  have hF : freeAddrs (l₁ ++ [p]) = freeAddrs l₁ ++ [p.addr] := by
    rw [freeAddrs_append, freeAddrs_cons_free hp, freeAddrs_nil]
  have hne : prev ≠ 0 := by
    intro hzero
    rw [prevLink, if_pos hzero] at hprev
    simp [IsPrev, hF] at hprev
  rw [prevLink, if_neg hne] at hprev
  have hlast : (freeAddrs (l₁ ++ [p])).getLast? = some prev.toNat := hprev
  rw [hF, List.getLast?_concat] at hlast
  exact ⟨hne, (Option.some.inj hlast).symm⟩

/-- The test of `free` whether the free block before is adjacent. -/
lemma Rep.prev_adjacent_iff {p : Block} (hrep : Rep h base (l₁ ++ p :: b :: l₂))
    (hblock : block.toNat = b.addr) (hprev : IsPrev (freeAddrs (l₁ ++ [p])) (prevLink prev)) :
    (prev ≠ 0 ∧ block - prev = h.size prev) ↔ p.used = none := by
  have hbound := hrep.bound
  have hbmem : b ∈ l₁ ++ p :: b :: l₂ := by simp
  have hpmem : p ∈ l₁ ++ p :: b :: l₂ := by simp
  have hbend := (hrep.tiled.mem hbmem).2.2
  have hpsize := (hrep.tiled.mem hpmem).1.le_size
  have hadjacent : p.addr + p.size = b.addr := by
    obtain ⟨x, -, hpx, -, hbx, -⟩ := Tiled.append_iff.mp hrep.tiled
    omega
  constructor
  · rintro ⟨hne, heq⟩
    by_contra hp
    rw [prevLink, if_neg hne] at hprev
    have hlast : (freeAddrs (l₁ ++ [p])).getLast? = some prev.toNat := hprev
    have hmemF := List.mem_of_getLast? hlast
    rw [freeAddrs_append, freeAddrs_cons_used hp, freeAddrs_nil, List.append_nil] at hmemF
    obtain ⟨c, hc, -, hcaddr⟩ := mem_freeAddrs.mp hmemF
    have hcp : c.addr + c.size ≤ p.addr := hrep.tiled.split.1 c hc
    -- the size of a free block further on does not reach over the block in use
    have hval := congrArg UInt32.toNat heq
    rw [toNat_sub_of_le (by omega), hrep.size_eq (b := c) (by simp [hc]) hcaddr.symm] at hval
    omega
  · intro hp
    obtain ⟨hne, hprevAddr⟩ := Rep.prev_toNat hp hprev
    refine ⟨hne, UInt32.toNat_inj.mp ?_⟩
    rw [toNat_sub_of_le (by omega), hrep.size_eq hpmem hprevAddr]
    omega

/-- The block before is merged if it is free and adjacent. -/
lemma Rep.mergePrev_spec (hrep : Rep h base (l₁ ++ b :: l₂)) (hb : b.used = none)
    (hadj : NoAdjacentFree l₁) (hblock : block.toNat = b.addr)
    (hprev : IsPrev (freeAddrs l₁) (prevLink prev)) (hcur : cur.toNat = nextAddr h.mem b.addr) :
    ∃ l₁' b', Rep (mergePrev h block prev cur).1 base (l₁' ++ b' :: l₂) ∧ b'.used = none ∧
      b.Within b' ∧ (mergePrev h block prev cur).2.toNat = b'.addr ∧ NoAdjacentFree l₁' ∧
      (∀ c ∈ l₁'.getLast?, c.used ≠ none) ∧ payloads l₁' = payloads l₁ ∧
      cur.toNat = nextAddr (mergePrev h block prev cur).1.mem b'.addr ∧
      (∀ c ∈ l₁, c.used ≠ none → c ∈ l₁') ∧
      Unchanged h (mergePrev h block prev cur).1 (l₁ ++ b :: l₂) := by
  rcases l₁.eq_nil_or_concat' with rfl | ⟨m, p, rfl⟩
  · have hfalse : mergePrev h block prev cur = (h, block) := by
      have hzero : prev = 0 := by
        by_contra hne
        rw [prevLink, if_neg hne] at hprev
        simp [IsPrev] at hprev
      rw [mergePrev, if_neg (by simp [hzero])]
    rw [hfalse]
    exact ⟨[], b, hrep, hb, .refl b, hblock, hadj, by simp, rfl, hcur, by simp,
      fun _ _ _ _ _ _ => rfl⟩
  have hlist : m ++ [p] ++ b :: l₂ = m ++ p :: b :: l₂ := by simp
  have hadjacent := (hlist ▸ hrep).prev_adjacent_iff hblock hprev
  obtain ⟨hm, -, hpfree⟩ := noAdjacentFree_split.mp hadj
  by_cases hp : p.used = none
  · -- the two blocks become one
    have htrue : mergePrev h block prev cur = ((freeGrow h prev block).setNext prev cur, prev) :=
      if_pos (hadjacent.mpr hp)
    have hprevAddr := (Rep.prev_toNat hp hprev).2
    have hpmem : p ∈ m ++ [p] ++ b :: l₂ := by simp
    have hpb : p.addr + p.size = b.addr := by
      obtain ⟨x, -, hpx, -, hbx, -⟩ := Tiled.append_iff.mp (hlist ▸ hrep).tiled
      omega
    rw [htrue]
    refine ⟨m, { p with size := p.size + b.size }, ?_, hp, ⟨?_, ?_⟩, hprevAddr, hm, (hpfree hp).1,
      ?_, ?_, fun c hc hused => ?_, hrep.merge_unchanged hpmem hp hprevAddr⟩
    · exact Rep.merge (hlist ▸ hrep) hp hb hprevAddr hblock hcur
    · exact (Nat.le_add_right _ _).trans hpb.le
    · rw [← hpb, Nat.add_assoc]
    · rw [payloads_append, payloads_cons_free hp]
      exact (List.append_nil _).symm
    · show cur.toNat = nextAddr ((freeGrow h prev block).setNext prev cur).mem p.addr
      rw [← hprevAddr, nextAddr_setNext_self]
    · rcases List.mem_append.mp hc with hc | hc
      · exact hc
      · rw [List.mem_singleton.mp hc] at hused
        exact absurd hp hused
  · have hfalse : mergePrev h block prev cur = (h, block) := if_neg (mt hadjacent.mp hp)
    rw [hfalse]
    refine ⟨m ++ [p], b, hrep, hb, .refl b, hblock, hadj, ?_, rfl, hcur, fun c hc _ => hc,
      fun _ _ _ _ _ _ => rfl⟩
    intro c hc
    rw [List.getLast?_concat, Option.mem_some_iff] at hc
    exact hc ▸ hp

/-- The block behind is merged if it is free and adjacent. -/
lemma Rep.mergeNext_spec (hrep : Rep h base (l₁ ++ b :: l₂)) (hb : b.used = none)
    (hadj : NoAdjacentFree l₂) (hblock : block.toNat = b.addr)
    (hcur : cur.toNat = nextAddr h.mem b.addr) :
    ∃ b' l₂', Rep (mergeNext h block cur) base (l₁ ++ b' :: l₂') ∧ b'.used = none ∧ b.Within b' ∧
      NoAdjacentFree l₂' ∧ (∀ c ∈ l₂'.head?, c.used ≠ none) ∧ payloads l₂' = payloads l₂ ∧
      Unchanged h (mergeNext h block cur) (l₁ ++ b :: l₂) := by
  have hbound := hrep.bound
  have hmem : b ∈ l₁ ++ b :: l₂ := by simp
  obtain ⟨hbok, hbpos, hbend⟩ := hrep.tiled.mem hmem
  have hpos := hrep.pos
  have hlinks : Linked (nextAddr h.mem) (· = 0) cur.toNat (freeAddrs l₂) := by
    rw [hcur]
    exact (hrep.links_split hb).suffix.2.2
  cases l₂ with
  | nil =>
    have hzero : cur = 0 := UInt32.toNat_inj.mp hlinks
    have hfalse : mergeNext h block cur = h := if_neg (by simp [hzero])
    rw [hfalse]
    exact ⟨b, [], hrep, hb, .refl b, hadj, by simp, rfl, fun _ _ _ _ _ _ => rfl⟩
  | cons c m =>
    have hcmem : c ∈ l₁ ++ b :: c :: m := by simp
    obtain ⟨hcok, -, hcend⟩ := hrep.tiled.mem hcmem
    obtain ⟨x, -, hbx, -, hcx, -, hm⟩ := Tiled.append_iff.mp hrep.tiled
    obtain ⟨-, hmadj, hcfree⟩ := (@noAdjacentFree_split _ [] _).mp hadj
    by_cases hc : c.used = none
    · rw [freeAddrs_cons_free hc] at hlinks
      have hcurAddr : cur.toNat = c.addr := hlinks.1
      have hcond : cur ≠ 0 ∧ cur - block = h.size block := by
        refine ⟨ne_zero_of_toNat_pos (by omega), UInt32.toNat_inj.mp ?_⟩
        rw [toNat_sub_of_le (by omega), hrep.size_eq hmem hblock]
        omega
      have htrue : mergeNext h block cur =
        (freeGrow h block cur).setNext block ((freeGrow h block cur).next cur) := if_pos hcond
      rw [htrue]
      refine ⟨{ b with size := b.size + c.size }, m, hrep.merge hb hc hblock hcurAddr ?_, hb,
        ⟨le_rfl, Nat.add_le_add_left (Nat.le_add_right _ _) _⟩, hmadj, (hcfree hc).2,
        (payloads_cons_free hc).symm, hrep.merge_unchanged hmem hb hblock⟩
      rw [Heap.next, hcurAddr]
      refine hrep.tiled.nextAddr_setSize hmem hblock ?_
      exact mem_freeAddrs.mpr ⟨c, hcmem, hc, rfl⟩
    · have hcond : ¬ (cur ≠ 0 ∧ cur - block = h.size block) := by
        rintro ⟨hne, heq⟩
        rw [freeAddrs_cons_used hc] at hlinks
        cases hF : freeAddrs m with
        | nil =>
          rw [hF] at hlinks
          exact hne (UInt32.toNat_inj.mp hlinks)
        | cons y F =>
          rw [hF] at hlinks
          obtain ⟨d, hd, -, hdaddr⟩ := mem_freeAddrs.mp (show y ∈ freeAddrs m by rw [hF]; simp)
          have hdle := (hm.mem hd).2.1
          have hcsize := hcok.le_size
          have hval := congrArg UInt32.toNat heq
          have hcurAddr : cur.toNat = y := hlinks.1
          rw [toNat_sub_of_le (by omega), hrep.size_eq hmem hblock] at hval
          omega
      have hfalse : mergeNext h block cur = h := if_neg hcond
      rw [hfalse]
      refine ⟨b, c :: m, hrep, hb, .refl b, hadj, fun d hd => ?_, rfl, fun _ _ _ _ _ _ => rfl⟩
      rw [List.head?_cons, Option.mem_some_iff] at hd
      exact hd ▸ hc

/-- A block is taken out of use and becomes part of a free one. -/
def Frees (h : Heap) (base : ℕ) (l₁ : List Block) (b : Block) (l₂ : List Block) (h' : Heap) : Prop :=
  ∃ l', Rep h' base l' ∧ NoAdjacentFree l' ∧ payloads l' = payloads (l₁ ++ l₂) ∧
    Unchanged h h' (l₁ ++ l₂) ∧ ∃ b' ∈ l', b'.used = none ∧ b.Within b'

/-- A block in use is put into the free list between its neighbours and merged with them. -/
lemma Rep.freeInsert_spec (hrep : Rep h base (l₁ ++ b :: l₂))
    (hadj : NoAdjacentFree (l₁ ++ b :: l₂)) (hb : b.used ≠ none) (hblock : block.toNat = b.addr)
    (hprev : IsPrev (freeAddrs l₁) (prevLink prev))
    (hcur : Linked (nextAddr h.mem) (· = 0) cur.toNat (freeAddrs l₂)) :
    Frees h base l₁ b l₂ (freeInsert h block prev cur) := by
  obtain ⟨hadj₁, hadj₂, -⟩ := noAdjacentFree_split.mp hadj
  have hmem : b ∈ l₁ ++ b :: l₂ := by simp
  have hlink : Rep (freeLink h block prev cur) base (l₁ ++ { b with used := none } :: l₂) := by
    rw [freeLink_eq]
    exact hrep.link hb hblock hprev hcur
  have hnext : cur.toNat = nextAddr (freeLink h block prev cur).mem b.addr := by
    rw [freeLink_eq, ← hblock, nextAddr_setNext_self]
  have hframe : Unchanged h (freeLink h block prev cur) (l₁ ++ l₂) := by
    intro c hc hused x hle hlt
    have hc' : c ∈ l₁ ++ b :: l₂ := by
      rcases List.mem_append.mp hc with hc | hc <;> simp [hc]
    have hne : b ≠ c := by
      have hsize := (hrep.tiled.mem hmem).1.le_size
      rintro rfl
      rcases List.mem_append.mp hc with hc | hc
      · have := hrep.tiled.split.1 b hc
        omega
      · have := hrep.tiled.split.2 b hc
        omega
    rw [freeLink_eq, hrep.tiled.mem_setNext hmem hblock hc' hne hle hlt]
    cases hp : prevLink prev with
    | none => rw [Heap.setLink_none_mem]
    | some p =>
      rw [hp] at hprev
      obtain ⟨F, hF⟩ := List.getLast?_eq_some_iff.mp hprev
      obtain ⟨m₁, pb, m₂, rfl, hpb, haddr, -, -⟩ := exists_of_freeAddrs hF
      refine hrep.tiled.mem_setNext (b := pb) (by simp) haddr.symm hc' ?_ hle hlt
      rintro rfl
      exact hused hpb
  obtain ⟨m, b₂, hrep₂, hb₂, hwithin₂, hblock₂, hadjm, hlast, hpay₁, hnext₂, hkeep, hframe₂⟩ :=
    hlink.mergePrev_spec rfl hadj₁ hblock hprev hnext
  obtain ⟨b₃, m₂, hrep₃, hb₃, hwithin₃, hadjm₂, hhead, hpay₂, hframe₃⟩ :=
    hrep₂.mergeNext_spec hb₂ hadj₂ hblock₂ hnext₂
  refine ⟨m ++ b₃ :: m₂, hrep₃, noAdjacentFree_split.mpr ⟨hadjm, hadjm₂, fun _ => ⟨hlast, hhead⟩⟩,
    ?_, fun c hc hused x hle hlt => ?_, b₃, by simp, hb₃, hwithin₂.trans hwithin₃⟩
  · rw [payloads_append, payloads_append, payloads_cons_free hb₃, hpay₁, hpay₂]
  · have hc₁ : c ∈ l₁ ++ { b with used := none } :: l₂ := by
      rcases List.mem_append.mp hc with hc | hc <;> simp [hc]
    have hc₂ : c ∈ m ++ b₂ :: l₂ := by
      rcases List.mem_append.mp hc with hc | hc
      · simp [hkeep c hc hused]
      · simp [hc]
    calc (freeInsert h block prev cur).mem x
        = (mergePrev (freeLink h block prev cur) block prev cur).1.mem x :=
          hframe₃ c hc₂ hused x hle hlt
      _ = (freeLink h block prev cur).mem x := hframe₂ c hc₁ hused x hle hlt
      _ = h.mem x := hframe c hc hused x hle hlt

/-- Two ways to cut a list at a number are the same. -/
lemma append_inj_of_lt {A B C D : List ℕ} {a : ℕ} (h : A ++ B = C ++ D) (hA : ∀ x ∈ A, x < a)
    (hB : ∀ x ∈ B, a < x) (hC : ∀ x ∈ C, x < a) (hD : ∀ x ∈ D, a < x) : A = C ∧ B = D := by
  have hcut : ∀ X Y : List ℕ, (∀ x ∈ X, x < a) → (∀ y ∈ Y, a < y) →
      (X ++ Y).filter (· < a) = X := by
    intro X Y hX hY
    rw [List.filter_append, List.filter_eq_self.mpr (by simpa using hX), List.filter_eq_nil_iff.mpr ?_,
      List.append_nil]
    intro y hy
    have := hY y hy
    simp
    omega
  have heq : A = C := by rw [← hcut A B hA hB, h, hcut C D hC hD]
  subst heq
  exact ⟨rfl, List.append_cancel_left h⟩

/-- What the loop of `free` keeps: it has passed free blocks before the block only. -/
def PlaceInv (h : Heap) (l : List Block) (a j : ℕ) : UInt32 × UInt32 → Prop
  | (prev, cur) => ∃ F₁ F₂, freeAddrs l = F₁ ++ F₂ ∧ F₂.length = j ∧ (∀ x ∈ F₁, x < a) ∧
      Linked (nextAddr h.mem) (· = 0) cur.toNat F₂ ∧ Rep.IsPrev F₁ (prevLink prev)

lemma Rep.freeStep_ok (hrep : Rep h base (l₁ ++ b :: l₂)) (hadj : NoAdjacentFree (l₁ ++ b :: l₂))
    (hb : b.used ≠ none) (hblock : block.toNat = b.addr) (j : ℕ) (p : UInt32 × UInt32)
    (hp : PlaceInv h (l₁ ++ b :: l₂) b.addr j p) :
    RoundOk (PlaceInv h (l₁ ++ b :: l₂) b.addr) (Frees h base l₁ b l₂) j (freeStep h block p) := by
  obtain ⟨prev, cur⟩ := p
  obtain ⟨F₁, F₂, hF, hj, hbefore, hlinked, hprev⟩ := hp
  have hmem : b ∈ l₁ ++ b :: l₂ := by simp
  have hsize := (hrep.tiled.mem hmem).1.le_size
  have hlist : freeAddrs (l₁ ++ b :: l₂) = freeAddrs l₁ ++ freeAddrs l₂ := by
    rw [freeAddrs_append, freeAddrs_cons_used hb]
  have hleft : ∀ x ∈ freeAddrs l₁, x < b.addr := by
    intro x hx
    obtain ⟨c, hc, -, rfl⟩ := mem_freeAddrs.mp hx
    have := hrep.tiled.split.1 c hc
    have := (hrep.tiled.mem (b := c) (by simp [hc])).1.le_size
    omega
  have hright : ∀ x ∈ freeAddrs l₂, b.addr < x := by
    intro x hx
    obtain ⟨c, hc, -, rfl⟩ := mem_freeAddrs.mp hx
    have := hrep.tiled.split.2 c hc
    omega
  have hsorted := hrep.tiled.freeAddrs_pairwise
  unfold freeStep
  dsimp only
  by_cases hplace : cur > block ∨ cur = 0
  · rw [if_pos hplace]
    have hbehind : ∀ x ∈ F₂, b.addr < x := by
      cases F₂ with
      | nil => simp
      | cons y F =>
        have hy : cur.toNat = y := hlinked.1
        have hlt : b.addr < y := by
          rcases hplace with hgt | hzero
          · have := UInt32.lt_iff_toNat_lt.mp hgt
            omega
          · have hne : y ≠ 0 := hlinked.2.1
            rw [hzero, UInt32.toNat_zero] at hy
            omega
        rw [hF] at hsorted
        have hrest := List.pairwise_cons.mp (List.pairwise_append.mp hsorted).2.1
        intro x hx
        rcases List.mem_cons.mp hx with rfl | hx
        · exact hlt
        · exact hlt.trans (hrest.1 x hx)
    obtain ⟨rfl, rfl⟩ := append_inj_of_lt (hF.symm.trans hlist) hbefore hbehind hleft hright
    exact hrep.freeInsert_spec hadj hb hblock hprev hlinked
  · rw [if_neg hplace]
    obtain ⟨hle, hne⟩ := not_or.mp hplace
    cases F₂ with
    | nil => exact absurd (UInt32.toNat_inj.mp (show cur.toNat = (0 : UInt32).toNat from hlinked)) hne
    | cons y F =>
      obtain ⟨hy, -, htail⟩ := hlinked
      have hyb : y < b.addr := by
        have hy' : y ∈ freeAddrs l₁ ++ freeAddrs l₂ := by rw [← hlist, hF]; simp
        rcases List.mem_append.mp hy' with hy' | hy'
        · exact hleft y hy'
        · have := hright y hy'
          have := mt UInt32.lt_iff_toNat_lt.mpr hle
          omega
      refine ⟨F.length, by rw [← hj]; simp, F₁ ++ [y], F, by simp [hF], rfl, ?_, ?_, ?_⟩
      · intro x hx
        rcases List.mem_append.mp hx with hx | hx
        · exact hbefore x hx
        · rw [List.mem_singleton.mp hx]; exact hyb
      · rw [Heap.next, hy]
        exact htail
      · rw [prevLink, if_neg hne]
        exact List.getLast?_concat.trans (by rw [hy])

/-- `free` returns, and takes a block in use away. -/
lemma Rep.free_spec {ptr : UInt32} (hrep : Rep h base (l₁ ++ b :: l₂))
    (hadj : NoAdjacentFree (l₁ ++ b :: l₂)) (hb : b.used ≠ none) (hptr : ptr.toNat = b.addr + 4) :
    ∃ h', free h ptr = some h' ∧ Frees h base l₁ b l₂ h' := by
  have hblock : (ptr - sizeofSizeT).toNat = b.addr := by
    have hfour : sizeofSizeT.toNat = 4 := rfl
    rw [toNat_sub_of_le (by omega)]
    omega
  have hne : ptr ≠ 0 := ne_zero_of_toNat_pos (by omega)
  have hlen := hrep.tiled.length_le
  have hfree := length_freeAddrs_le (l₁ ++ b :: l₂)
  have hbound := hrep.bound
  rw [free]
  rw [if_neg hne]
  exact loop_spec _ _ (hrep.freeStep_ok hadj hb hblock) (2 ^ 32) (freeAddrs (l₁ ++ b :: l₂)).length
    (0, h.freeList) ⟨[], _, rfl, rfl, by simp, hrep.links, by simp [prevLink, IsPrev]⟩ (by omega)

end Free

end Osm.Userland
