import Osm.Core.Linked
import Osm.Userland.Malloc
import Mathlib.Data.List.Chain
import Mathlib.Data.List.Perm.Basic
import Mathlib.Tactic.Linarith

/-!
# The blocks of the heap

`Tiled a l e` says that the blocks of `l` cover the addresses from `a` to `e`, one after the other.
`Rep h base l` relates such a list to a heap: the headers hold the sizes, and the free list links
the free blocks in the order of their addresses. The lemmas of `Rep` are the changes that `malloc`
and `free` make to the list: a block is taken out of the free list, split off a free one, added
at the end, put into the free list or merged with the next one.
-/

namespace Osm.Userland

open Osm.Core

/-- A block of the heap; `used` is the size that was asked for, `none` for a free block. -/
structure Block where
  addr : ℕ
  size : ℕ
  used : Option ℕ

/-- Room for a header and a link, a multiple of four, and enough for what was asked for. -/
structure Block.Ok (b : Block) : Prop where
  le_size : 12 ≤ b.size
  dvd : 4 ∣ b.size
  used : ∀ n ∈ b.used, n + 4 ≤ b.size

/-- The blocks cover the addresses from `a` to `e`. -/
def Tiled : ℕ → List Block → ℕ → Prop
  | a, [],     e => a = e
  | a, b :: l, e => b.addr = a ∧ b.Ok ∧ Tiled (a + b.size) l e

/-- The addresses of the free blocks. -/
def freeAddrs (l : List Block) : List ℕ := (l.filter fun b => b.used.isNone).map Block.addr

/-- The pointers to the payloads of the blocks in use, with the sizes that were asked for. -/
def payloads (l : List Block) : List (ℕ × ℕ) :=
  l.filterMap fun b => b.used.map fun n => (b.addr + 4, n)

/-- No two free blocks are adjacent. -/
def NoAdjacentFree (l : List Block) : Prop :=
  l.IsChain fun b c => b.used ≠ none ∨ c.used ≠ none

namespace Tiled

variable {a e : ℕ} {b c : Block} {l l₁ l₂ : List Block}

lemma append_iff : Tiled a (l₁ ++ l₂) e ↔ ∃ x, Tiled a l₁ x ∧ Tiled x l₂ e := by
  induction l₁ generalizing a with
  | nil => simp [Tiled]
  | cons b l ih => simp [Tiled, ih, and_assoc]

lemma le (h : Tiled a l e) : a ≤ e := by
  induction l generalizing a with
  | nil => exact Nat.le_of_eq h
  | cons b l ih =>
    have := ih h.2.2
    omega

lemma mem (h : Tiled a l e) (hb : b ∈ l) : b.Ok ∧ a ≤ b.addr ∧ b.addr + b.size ≤ e := by
  induction l generalizing a with
  | nil => simp at hb
  | cons c l ih =>
    obtain ⟨haddr, hok, htail⟩ := h
    have hle := htail.le
    rcases List.mem_cons.mp hb with rfl | hb
    · exact ⟨hok, by omega, by omega⟩
    · obtain ⟨h₁, h₂, h₃⟩ := ih htail hb
      exact ⟨h₁, by omega, h₃⟩

lemma dvd_addr (h : Tiled a l e) (ha : 4 ∣ a) (hb : b ∈ l) : 4 ∣ b.addr := by
  induction l generalizing a with
  | nil => simp at hb
  | cons c l ih =>
    obtain ⟨haddr, hok, htail⟩ := h
    rcases List.mem_cons.mp hb with rfl | hb
    · rw [haddr]; exact ha
    · exact ih htail (Nat.dvd_add ha hok.dvd) hb

/-- The blocks to the left and to the right of a block. -/
lemma split (h : Tiled a (l₁ ++ b :: l₂) e) :
    (∀ c ∈ l₁, c.addr + c.size ≤ b.addr) ∧ ∀ c ∈ l₂, b.addr + b.size ≤ c.addr := by
  obtain ⟨x, h₁, haddr, -, h₂⟩ := append_iff.mp h
  refine ⟨fun c hc => ?_, fun c hc => ?_⟩
  · have := (h₁.mem hc).2.2
    omega
  · have := (h₂.mem hc).2.1
    omega

/-- Two blocks are the same or do not overlap. -/
lemma disjoint (h : Tiled a l e) (hb : b ∈ l) (hc : c ∈ l) :
    b = c ∨ b.addr + b.size ≤ c.addr ∨ c.addr + c.size ≤ b.addr := by
  obtain ⟨l₁, l₂, rfl⟩ := List.append_of_mem hb
  rcases List.mem_append.mp hc with hc | hc
  · exact Or.inr (Or.inr (h.split.1 c hc))
  · rcases List.mem_cons.mp hc with rfl | hc
    · exact Or.inl rfl
    · exact Or.inr (Or.inl (h.split.2 c hc))

/-- Two blocks are the same or at least 12 bytes apart. -/
lemma addr_cases (h : Tiled a l e) (hb : b ∈ l) (hc : c ∈ l) :
    b = c ∨ b.addr + 12 ≤ c.addr ∨ c.addr + 12 ≤ b.addr := by
  have hb' := (h.mem hb).1.le_size
  have hc' := (h.mem hc).1.le_size
  exact (h.disjoint hb hc).imp_right fun hne => by omega

/-- The two sides of a block tile the rest, whatever takes its place. -/
lemma replace (h : Tiled a (l₁ ++ b :: l₂) e) (l' : List Block)
    (h' : Tiled b.addr l' (b.addr + b.size)) : Tiled a (l₁ ++ l' ++ l₂) e := by
  obtain ⟨x, h₁, haddr, -, h₂⟩ := append_iff.mp h
  refine append_iff.mpr ⟨b.addr + b.size, append_iff.mpr ⟨x, h₁, ?_⟩, ?_⟩
  · rw [← haddr]; exact h'
  · rw [haddr]; exact h₂

lemma pairwise (h : Tiled a l e) : l.Pairwise fun b c => b.addr + b.size ≤ c.addr := by
  induction l generalizing a with
  | nil => exact List.Pairwise.nil
  | cons b l ih =>
    obtain ⟨haddr, -, htail⟩ := h
    refine List.pairwise_cons.mpr ⟨fun c hc => ?_, ih htail⟩
    have := (htail.mem hc).2.1
    omega

/-- The free blocks come in the order of their addresses. -/
lemma freeAddrs_pairwise (h : Tiled a l e) : (freeAddrs l).Pairwise (· < ·) := by
  refine List.pairwise_map.mpr ?_
  have hsub : (l.filter fun b => b.used.isNone).Sublist l := List.filter_sublist
  refine (h.pairwise.sublist hsub).imp_of_mem fun {b c} hb _ hle => ?_
  have hok := (h.mem (hsub.subset hb)).1.le_size
  omega

/-- No two payloads begin at the same address. -/
lemma payloads_nodup (h : Tiled a l e) : ((payloads l).map Prod.fst).Nodup := by
  refine List.pairwise_map.mpr (List.pairwise_filterMap.mpr ?_)
  refine h.pairwise.imp_of_mem fun {b c} hb _ hle x hx y hy heq => ?_
  obtain ⟨n, -, rfl⟩ := Option.map_eq_some_iff.mp hx
  obtain ⟨m, -, rfl⟩ := Option.map_eq_some_iff.mp hy
  have hsize := (h.mem hb).1.le_size
  have heq : b.addr + 4 = c.addr + 4 := heq
  omega

end Tiled

section FreeAddrs

variable {b : Block} {l l₁ l₂ : List Block} {x : ℕ}

@[simp] lemma freeAddrs_nil : freeAddrs [] = [] := rfl

@[simp] lemma freeAddrs_append : freeAddrs (l₁ ++ l₂) = freeAddrs l₁ ++ freeAddrs l₂ := by
  simp [freeAddrs]

lemma freeAddrs_cons_free (hb : b.used = none) : freeAddrs (b :: l) = b.addr :: freeAddrs l := by
  simp [freeAddrs, hb]

lemma freeAddrs_cons_used (hb : b.used ≠ none) : freeAddrs (b :: l) = freeAddrs l := by
  obtain ⟨n, hn⟩ := Option.ne_none_iff_exists'.mp hb
  simp [freeAddrs, hn]

lemma mem_freeAddrs : x ∈ freeAddrs l ↔ ∃ b ∈ l, b.used = none ∧ b.addr = x := by
  simp [freeAddrs, and_assoc]

/-- A place in the free list is a place in the list of blocks. -/
lemma exists_of_freeAddrs {F₁ F₂ : List ℕ} (h : freeAddrs l = F₁ ++ x :: F₂) :
    ∃ l₁ b l₂, l = l₁ ++ b :: l₂ ∧ b.used = none ∧ b.addr = x ∧ freeAddrs l₁ = F₁ ∧
      freeAddrs l₂ = F₂ := by
  obtain ⟨l', l'', hl, rfl, hx⟩ := List.map_eq_append_iff.mp h
  obtain ⟨b, l''', rfl, rfl, rfl⟩ := List.map_eq_cons_iff.mp hx
  obtain ⟨m₁, m₂, rfl, rfl, hm₂⟩ := List.filter_eq_append_iff.mp hl
  obtain ⟨m₃, m₄, rfl, hnone, hb, rfl⟩ := List.filter_eq_cons_iff.mp hm₂
  refine ⟨m₁ ++ m₃, b, m₄, by simp, by simpa using hb, rfl, ?_, rfl⟩
  have hm₃ : m₃.filter (fun b => b.used.isNone) = [] := by
    rw [List.filter_eq_nil_iff]
    exact hnone
  simp [freeAddrs, hm₃]

end FreeAddrs

/-! ### The heap and its blocks -/

/-- The link of a block. -/
def nextAddr (m : Memory) (a : ℕ) : ℕ := (m.readWord (a + 4)).toNat

@[simp] lemma nextAddr_setNext_self (h : Heap) (block v : UInt32) :
    nextAddr (h.setNext block v).mem block.toNat = v.toNat := by
  rw [nextAddr, Heap.setNext, Memory.readWord_writeWord_self]

namespace Tiled

variable {h : Heap} {a e : ℕ} {b c : Block} {l : List Block} {block v : UInt32}

/-- Assigning to a link leaves the headers alone. -/
lemma header_setNext (ht : Tiled a l e) (hb : b ∈ l) (hblock : block.toNat = b.addr) (hc : c ∈ l) :
    (h.setNext block v).mem.readWord c.addr = h.mem.readWord c.addr := by
  rw [Heap.setNext, hblock]
  have := ht.addr_cases hb hc
  rcases this with rfl | hne
  · exact Memory.readWord_writeWord_of_ne (by omega)
  · exact Memory.readWord_writeWord_of_ne (by omega)

/-- Assigning to a header leaves the other blocks alone. -/
lemma header_setSize (ht : Tiled a l e) (hb : b ∈ l) (hblock : block.toNat = b.addr) (hc : c ∈ l)
    (hne : b ≠ c) : (h.setSize block v).mem.readWord c.addr = h.mem.readWord c.addr := by
  rw [Heap.setSize, hblock]
  have := (ht.addr_cases hb hc).resolve_left hne
  exact Memory.readWord_writeWord_of_ne (by omega)

lemma nextAddr_setSize (ht : Tiled a l e) (hb : b ∈ l) (hblock : block.toNat = b.addr) {x : ℕ}
    (hx : x ∈ freeAddrs l) : nextAddr (h.setSize block v).mem x = nextAddr h.mem x := by
  obtain ⟨c, hc, -, rfl⟩ := mem_freeAddrs.mp hx
  rw [nextAddr, Heap.setSize, hblock]
  have := ht.addr_cases hb hc
  rcases this with rfl | hne
  · rw [Memory.readWord_writeWord_of_ne (by omega), nextAddr]
  · rw [Memory.readWord_writeWord_of_ne (by omega), nextAddr]

lemma nextAddr_setNext (ht : Tiled a l e) (hb : b ∈ l) (hblock : block.toNat = b.addr) {x : ℕ}
    (hx : x ∈ freeAddrs l) (hne : x ≠ b.addr) :
    nextAddr (h.setNext block v).mem x = nextAddr h.mem x := by
  obtain ⟨c, hc, -, rfl⟩ := mem_freeAddrs.mp hx
  rw [nextAddr, Heap.setNext, hblock]
  have := (ht.addr_cases hb hc).resolve_left fun heq => hne (heq ▸ rfl)
  rw [Memory.readWord_writeWord_of_ne (by omega), nextAddr]

/-- Assigning to a field of a block leaves the bytes of all others alone. -/
lemma mem_setNext (ht : Tiled a l e) (hb : b ∈ l) (hblock : block.toNat = b.addr) (hc : c ∈ l)
    (hne : b ≠ c) {x : ℕ} (hle : c.addr ≤ x) (hlt : x < c.addr + c.size) :
    (h.setNext block v).mem x = h.mem x := by
  have hdisj := (ht.disjoint hb hc).resolve_left hne
  have hsize := (ht.mem hb).1.le_size
  exact Memory.writeWord_of_outside (by omega)

lemma mem_setSize (ht : Tiled a l e) (hb : b ∈ l) (hblock : block.toNat = b.addr) (hc : c ∈ l)
    (hne : b ≠ c) {x : ℕ} (hle : c.addr ≤ x) (hlt : x < c.addr + c.size) :
    (h.setSize block v).mem x = h.mem x := by
  have hdisj := (ht.disjoint hb hc).resolve_left hne
  have hsize := (ht.mem hb).1.le_size
  exact Memory.writeWord_of_outside (by omega)

end Tiled

/-- The heap, of whatever length, consists of the given blocks. -/
structure Laid (h : Heap) (base : ℕ) (l : List Block) : Prop where
  tiled : Tiled base l h.heapEnd.toNat
  header : ∀ b ∈ l, (h.mem.readWord b.addr).toNat = b.size
  links : Linked (nextAddr h.mem) (· = 0) h.freeList.toNat (freeAddrs l)

/-- The heap consists of the given blocks. -/
structure Rep (h : Heap) (base : ℕ) (l : List Block) : Prop where
  pos : 0 < base
  dvd : 4 ∣ base
  bound : h.heapEnd.toNat < 2 ^ 31
  tiled : Tiled base l h.heapEnd.toNat
  header : ∀ b ∈ l, (h.mem.readWord b.addr).toNat = b.size
  links : Linked (nextAddr h.mem) (· = 0) h.freeList.toNat (freeAddrs l)

namespace Rep

variable {h : Heap} {base n k : ℕ} {b c : Block} {l l₁ l₂ : List Block} {block p v : UInt32}

lemma size_eq (hrep : Rep h base l) (hb : b ∈ l) (hblock : block.toNat = b.addr) :
    (h.size block).toNat = b.size := by
  rw [Heap.size, hblock]
  exact hrep.header b hb

/-- The same blocks with other links. -/
lemma congr {h' : Heap} {l' : List Block} (hrep : Rep h base l) (hend : h'.heapEnd = h.heapEnd)
    (htiled : Tiled base l' h.heapEnd.toNat)
    (hheader : ∀ b ∈ l', (h'.mem.readWord b.addr).toNat = b.size)
    (hlinks : Linked (nextAddr h'.mem) (· = 0) h'.freeList.toNat (freeAddrs l')) :
    Rep h' base l' where
  pos := hrep.pos
  dvd := hrep.dvd
  bound := hend ▸ hrep.bound
  tiled := hend ▸ htiled
  header := hheader
  links := hlinks

lemma links_split (hrep : Rep h base (l₁ ++ b :: l₂)) (hb : b.used = none) :
    Linked (nextAddr h.mem) (· = 0) h.freeList.toNat (freeAddrs l₁ ++ b.addr :: freeAddrs l₂) := by
  have hlinks := hrep.links
  rwa [freeAddrs_append, freeAddrs_cons_free hb] at hlinks

/-- The blocks stay where they are if one of them changes its use. -/
lemma tiled_setUsed (hrep : Rep h base (l₁ ++ b :: l₂)) (used : Option ℕ)
    (hn : ∀ n ∈ used, n + 4 ≤ b.size) :
    Tiled base (l₁ ++ { b with used := used } :: l₂) h.heapEnd.toNat := by
  have hok := (hrep.tiled.mem (b := b) (by simp)).1
  have htiled := hrep.tiled.replace [{ b with used := used }]
    ⟨rfl, ⟨hok.le_size, hok.dvd, hn⟩, rfl⟩
  simpa using htiled

/-- Another use of a block does not change what is in the headers. -/
lemma exists_same_header {used : Option ℕ} (hc : c ∈ l₁ ++ { b with used := used } :: l₂) :
    ∃ c' ∈ l₁ ++ b :: l₂, c'.addr = c.addr ∧ c'.size = c.size := by
  rcases List.mem_append.mp hc with hc | hc
  · exact ⟨c, by simp [hc], rfl, rfl⟩
  · rcases List.mem_cons.mp hc with rfl | hc
    · exact ⟨b, by simp, rfl, rfl⟩
    · exact ⟨c, by simp [hc], rfl, rfl⟩

/-- Where a link to a block of the free list is kept: in the head of the list or in the block
before it. -/
def IsPrev (F : List ℕ) : Option UInt32 → Prop
  | none   => F = []
  | some p => F.getLast? = some p.toNat

/-- A free block is taken out of the free list. -/
lemma use {prev : Option UInt32} (hrep : Rep h base (l₁ ++ b :: l₂)) (hb : b.used = none)
    (hn : n + 4 ≤ b.size) (hblock : block.toNat = b.addr) (hprev : IsPrev (freeAddrs l₁) prev) :
    Rep (h.setLink (h.next block) prev) base (l₁ ++ { b with used := some n } :: l₂) := by
  have htiled := hrep.tiled_setUsed (some n) (by simpa using hn)
  have hlinks := hrep.links_split hb
  have hfree : freeAddrs (l₁ ++ { b with used := some n } :: l₂) = freeAddrs l₁ ++ freeAddrs l₂ := by
    rw [freeAddrs_append, freeAddrs_cons_used (by simp)]
  have hnext : (h.next block).toNat = nextAddr h.mem b.addr := by
    rw [Heap.next, hblock, nextAddr]
  cases prev with
  | none =>
    refine hrep.congr (h.setLink_heapEnd _ _) htiled (fun c hc => ?_) ?_
    · obtain ⟨c', hc', haddr, hsize⟩ := exists_same_header hc
      rw [← haddr, ← hsize, Heap.setLink_none_mem]
      exact hrep.header c' hc'
    · have hnil : freeAddrs l₁ = [] := hprev
      rw [hfree, hnil]
      rw [hnil] at hlinks
      rw [Heap.setLink_none_mem, Heap.setLink_none_freeList, hnext]
      exact hlinks.2.2
  | some p =>
    obtain ⟨F, hF⟩ := List.getLast?_eq_some_iff.mp hprev
    obtain ⟨m₁, pb, m₂, rfl, hpb, haddr, -, -⟩ := exists_of_freeAddrs hF
    have hmem : pb ∈ (m₁ ++ pb :: m₂) ++ b :: l₂ := by simp
    rw [Heap.setLink_some]
    refine hrep.congr (h.setNext_heapEnd _ _) htiled (fun c hc => ?_) ?_
    · obtain ⟨c', hc', haddr', hsize⟩ := exists_same_header hc
      rw [← haddr', ← hsize, hrep.tiled.header_setNext hmem haddr.symm hc']
      exact hrep.header c' hc'
    · rw [hfree, hF]
      rw [hF] at hlinks
      rw [Heap.setNext_freeList]
      simp only [List.append_assoc, List.singleton_append] at hlinks ⊢
      have hnodup := hlinks.nodup
      refine hlinks.unlink (fun y hy => ?_) ?_
      · refine hrep.tiled.nextAddr_setNext hmem haddr.symm ?_ ?_
        · rw [freeAddrs_append, freeAddrs_cons_free hb, hF]
          rcases List.mem_append.mp hy with hy | hy <;> simp [hy]
        · rintro rfl
          rw [haddr] at hy
          rcases List.mem_append.mp hy with hy | hy
          · exact (List.nodup_append.mp hnodup).2.2 _ hy _ List.mem_cons_self rfl
          · have := (List.nodup_append.mp hnodup).2.1
            simp_all
      · rw [nextAddr_setNext_self, hnext]

/-- The end of a free block is split off. -/
lemma splitOff {newBlock size size' : UInt32} (hrep : Rep h base (l₁ ++ b :: l₂))
    (hb : b.used = none) (hdvd : 4 ∣ k) (hk : 12 ≤ k) (hle : k + 12 ≤ b.size) (hn : n + 4 ≤ k)
    (hblock : block.toNat = b.addr) (hnew : newBlock.toNat = b.addr + (b.size - k))
    (hsize : size.toNat = b.size - k) (hsize' : size'.toNat = k) :
    Rep ((h.setSize block size).setSize newBlock size') base
      (l₁ ++ { b with size := b.size - k } ::
        { addr := b.addr + (b.size - k), size := k, used := some n } :: l₂) := by
  have hmem : b ∈ l₁ ++ b :: l₂ := by simp
  have hok := (hrep.tiled.mem hmem).1
  have hsplit := hrep.tiled.split
  -- neither the headers nor the links of other blocks are in the way
  have hother : ∀ c, c ∈ l₁ ∨ c ∈ l₂ → ∀ i ≤ 4,
      ((h.setSize block size).setSize newBlock size').mem.readWord (c.addr + i) =
        h.mem.readWord (c.addr + i) := by
    intro c hc i hi
    have hbounds : c.addr + 12 ≤ b.addr ∨ b.addr + b.size ≤ c.addr := by
      rcases hc with hc | hc
      · have := hsplit.1 c hc
        have := (hrep.tiled.mem (b := c) (by simp [hc])).1.le_size
        omega
      · exact Or.inr (hsplit.2 c hc)
    rw [Heap.setSize, Memory.readWord_writeWord_of_ne (by omega), Heap.setSize,
      Memory.readWord_writeWord_of_ne (by omega)]
  refine hrep.congr rfl ?_ (fun c hc => ?_) ?_
  · have htiled := hrep.tiled.replace [{ b with size := b.size - k },
      { addr := b.addr + (b.size - k), size := k, used := some n }] ?_
    · simpa using htiled
    · refine ⟨rfl, ⟨?_, Nat.dvd_sub hok.dvd hdvd, by simp [hb]⟩, rfl, ⟨hk, hdvd, by simpa using hn⟩,
        ?_⟩
      · show 12 ≤ b.size - k
        omega
      · show b.addr + (b.size - k) + k = b.addr + b.size
        omega
  · have hcases : (c ∈ l₁ ∨ c ∈ l₂) ∨ c = { b with size := b.size - k } ∨
        c = { addr := b.addr + (b.size - k), size := k, used := some n } := by
      simp only [List.mem_append, List.mem_cons] at hc
      tauto
    rcases hcases with hc | rfl | rfl
    · have := hother c hc 0 (by omega)
      rw [Nat.add_zero] at this
      rw [this]
      exact hrep.header c (by rcases hc with hc | hc <;> simp [hc])
    · rw [Heap.setSize, Memory.readWord_writeWord_of_ne (by dsimp only; omega), Heap.setSize, hblock,
        Memory.readWord_writeWord_self]
      exact hsize
    · rw [Heap.setSize, hnew, Memory.readWord_writeWord_self]
      exact hsize'
  · have hfree : freeAddrs (l₁ ++ { b with size := b.size - k } ::
        { addr := b.addr + (b.size - k), size := k, used := some n } :: l₂) =
        freeAddrs (l₁ ++ b :: l₂) := by
      rw [freeAddrs_append, freeAddrs_append, freeAddrs_cons_free (by exact hb),
        freeAddrs_cons_free hb, freeAddrs_cons_used (by simp)]
    rw [hfree]
    refine hrep.links.congr fun x hx => ?_
    obtain ⟨c, hc, -, rfl⟩ := mem_freeAddrs.mp hx
    simp only [nextAddr]
    rcases List.mem_append.mp hc with hc | hc
    · rw [hother c (Or.inl hc) 4 le_rfl]
    · rcases List.mem_cons.mp hc with rfl | hc
      · rw [Heap.setSize, Memory.readWord_writeWord_of_ne (by omega), Heap.setSize,
          Memory.readWord_writeWord_of_ne (by omega)]
      · rw [hother c (Or.inr hc) 4 le_rfl]

lemma laid (hrep : Rep h base l) : Laid h base l := ⟨hrep.tiled, hrep.header, hrep.links⟩

/-- A block is added at the end of the heap. -/
lemma grow_laid {heapEnd size : UInt32} (hrep : Rep h base l) (hdvd : 4 ∣ k) (hk : 12 ≤ k)
    (hn : n + 4 ≤ k) (hsize : size.toNat = k) (hend : heapEnd.toNat = h.heapEnd.toNat + k) :
    Laid ({ h with heapEnd := heapEnd }.setSize h.heapEnd size) base
      (l ++ [{ addr := h.heapEnd.toNat, size := k, used := some n }]) where
  tiled := by
    refine Tiled.append_iff.mpr ⟨_, hrep.tiled, rfl, ⟨hk, hdvd, by simpa using hn⟩, ?_⟩
    exact hend.symm
  header c hc := by
    rcases List.mem_append.mp hc with hc | hc
    · obtain ⟨hok, -, hle⟩ := hrep.tiled.mem hc
      have := hok.le_size
      rw [Heap.setSize, Memory.readWord_writeWord_of_ne (by omega)]
      exact hrep.header c hc
    · rw [List.mem_singleton.mp hc, Heap.setSize, Memory.readWord_writeWord_self]
      exact hsize
  links := by
    rw [freeAddrs_append, freeAddrs_cons_used (by simp), freeAddrs_nil, List.append_nil]
    refine hrep.links.congr fun x hx => ?_
    obtain ⟨c, hc, -, rfl⟩ := mem_freeAddrs.mp hx
    obtain ⟨hok, -, hle⟩ := hrep.tiled.mem hc
    have := hok.le_size
    rw [nextAddr, Heap.setSize, Memory.readWord_writeWord_of_ne (by omega), nextAddr]

/-- A block is added at the end of a heap that stays small. -/
lemma grow {heapEnd size : UInt32} (hrep : Rep h base l) (hdvd : 4 ∣ k) (hk : 12 ≤ k)
    (hn : n + 4 ≤ k) (hsize : size.toNat = k) (hend : heapEnd.toNat = h.heapEnd.toNat + k)
    (hbound : heapEnd.toNat < 2 ^ 31) :
    Rep ({ h with heapEnd := heapEnd }.setSize h.heapEnd size) base
      (l ++ [{ addr := h.heapEnd.toNat, size := k, used := some n }]) := by
  obtain ⟨htiled, hheader, hlinks⟩ := hrep.grow_laid hdvd hk hn hsize hend
  exact ⟨hrep.pos, hrep.dvd, hbound, htiled, hheader, hlinks⟩

/-- A block in use is put into the free list. -/
lemma link {prev : Option UInt32} {cur : UInt32} (hrep : Rep h base (l₁ ++ b :: l₂))
    (hb : b.used ≠ none) (hblock : block.toNat = b.addr) (hprev : IsPrev (freeAddrs l₁) prev)
    (hcur : Linked (nextAddr h.mem) (· = 0) cur.toNat (freeAddrs l₂)) :
    Rep ((h.setLink block prev).setNext block cur) base
      (l₁ ++ { b with used := none } :: l₂) := by
  have hmem : b ∈ l₁ ++ b :: l₂ := by simp
  have htiled := hrep.tiled_setUsed none (by simp)
  have hlinks := hrep.links
  have hsplit := hrep.tiled.split
  have hpos : b.addr ≠ 0 := by
    have := (hrep.tiled.mem hmem).2.1
    have := hrep.pos
    omega
  rw [freeAddrs_append, freeAddrs_cons_used hb] at hlinks
  have hfree : freeAddrs (l₁ ++ { b with used := none } :: l₂) =
      freeAddrs l₁ ++ b.addr :: freeAddrs l₂ := by
    rw [freeAddrs_append, freeAddrs_cons_free rfl]
  have hne : ∀ x ∈ freeAddrs l₁ ++ freeAddrs l₂, x ≠ b.addr := by
    intro x hx heq
    have hok := (hrep.tiled.mem hmem).1.le_size
    rcases List.mem_append.mp hx with hx | hx
    · obtain ⟨c, hc, -, hcx⟩ := mem_freeAddrs.mp hx
      have := hsplit.1 c hc
      have := (hrep.tiled.mem (b := c) (by simp [hc])).1.le_size
      omega
    · obtain ⟨c, hc, -, hcx⟩ := mem_freeAddrs.mp hx
      have := hsplit.2 c hc
      omega
  have hold : ∀ x ∈ freeAddrs l₁ ++ freeAddrs l₂, x ∈ freeAddrs (l₁ ++ b :: l₂) := by
    intro x hx
    rwa [freeAddrs_append, freeAddrs_cons_used hb]
  cases prev with
  | none =>
    have hnil : freeAddrs l₁ = [] := hprev
    refine hrep.congr rfl htiled (fun c hc => ?_) ?_
    · obtain ⟨c', hc', haddr, hsize⟩ := exists_same_header hc
      rw [← haddr, ← hsize, hrep.tiled.header_setNext hmem hblock hc', Heap.setLink_none_mem]
      exact hrep.header c' hc'
    · rw [hfree, hnil, Heap.setNext_freeList, Heap.setLink_none_freeList, hblock]
      refine ⟨rfl, hpos, ?_⟩
      rw [← hblock, nextAddr_setNext_self]
      refine hcur.congr fun x hx => ?_
      rw [hrep.tiled.nextAddr_setNext hmem hblock (hold x (by simp [hx])) (hne x (by simp [hx])),
        Heap.setLink_none_mem]
  | some p =>
    obtain ⟨F, hF⟩ := List.getLast?_eq_some_iff.mp hprev
    obtain ⟨m₁, pb, m₂, rfl, hpb, haddr, -, -⟩ := exists_of_freeAddrs hF
    have hpmem : pb ∈ (m₁ ++ pb :: m₂) ++ b :: l₂ := by simp
    rw [Heap.setLink_some]
    refine hrep.congr rfl htiled (fun c hc => ?_) ?_
    · obtain ⟨c', hc', haddr', hsize⟩ := exists_same_header hc
      rw [← haddr', ← hsize, hrep.tiled.header_setNext hmem hblock hc',
        hrep.tiled.header_setNext hpmem haddr.symm hc']
      exact hrep.header c' hc'
    · have hassoc : ∀ G, freeAddrs (m₁ ++ pb :: m₂) ++ G = F ++ p.toNat :: G := by
        intro G
        rw [hF, List.append_assoc, List.singleton_append]
      rw [hfree, hassoc, Heap.setNext_freeList, Heap.setNext_freeList]
      rw [hassoc] at hlinks hne hold
      have hnodup := List.nodup_append.mp hlinks.nodup
      have hp : p.toNat ∈ F ++ p.toNat :: freeAddrs l₂ := by simp
      -- links other than those of the two blocks
      have hsame : ∀ x ∈ F ++ p.toNat :: freeAddrs l₂, x ≠ p.toNat →
          nextAddr ((h.setNext p block).setNext block cur).mem x = nextAddr h.mem x := by
        intro x hx hxp
        rw [hrep.tiled.nextAddr_setNext hmem hblock (hold x hx) (hne x hx),
          hrep.tiled.nextAddr_setNext hpmem haddr.symm (hold x hx) (by rwa [haddr])]
      refine hlinks.replace (fun x hx => hsame x (by simp [hx]) ?_) ?_
      · exact fun heq => hnodup.2.2 x hx _ List.mem_cons_self heq
      · rw [hrep.tiled.nextAddr_setNext hmem hblock (hold _ hp) (hne _ hp), nextAddr_setNext_self]
        refine ⟨hblock, hpos, ?_⟩
        rw [← hblock, nextAddr_setNext_self]
        refine hcur.congr fun x hx => hsame x (by simp [hx]) ?_
        rintro rfl
        exact (List.nodup_cons.mp hnodup.2.1).1 hx

/-- A free block is merged with the free block behind it. -/
lemma merge {c : Block} {next v : UInt32} (hrep : Rep h base (l₁ ++ b :: c :: l₂))
    (hb : b.used = none) (hc : c.used = none) (hblock : block.toNat = b.addr)
    (hnext : next.toNat = c.addr) (hv : v.toNat = nextAddr h.mem c.addr) :
    Rep ((freeGrow h block next).setNext block v) base
      (l₁ ++ { b with size := b.size + c.size } :: l₂) := by
  have hbmem : b ∈ l₁ ++ b :: c :: l₂ := by simp
  have hcmem : c ∈ l₁ ++ b :: c :: l₂ := by simp
  obtain ⟨hbok, hble, -⟩ := hrep.tiled.mem hbmem
  obtain ⟨hcok, -, hcle⟩ := hrep.tiled.mem hcmem
  have hbc := hrep.tiled.split.2 c (by simp)
  have hbound := hrep.bound
  obtain ⟨x, h₁, rfl, -, hcaddr, -, h₂⟩ := Tiled.append_iff.mp hrep.tiled
  have hsum : (h.size block + h.size next).toNat = b.size + c.size := by
    rw [UInt32.toNat_add, hrep.size_eq hbmem hblock, hrep.size_eq hcmem hnext]
    exact Nat.mod_eq_of_lt (by omega)
  have hbsize := hbok.le_size
  have hcsize := hcok.le_size
  have hsplit := hrep.tiled.split
  refine hrep.congr rfl ?_ (fun d hd => ?_) ?_
  · refine Tiled.append_iff.mpr ⟨b.addr, h₁, rfl, ⟨?_, Nat.dvd_add hbok.dvd hcok.dvd, by simp [hb]⟩, ?_⟩
    · show 12 ≤ b.size + c.size
      omega
    · rw [← Nat.add_assoc]
      exact h₂
  · rcases List.mem_append.mp hd with hd | hd
    · have hmem : d ∈ l₁ ++ b :: c :: l₂ := by simp [hd]
      have := hsplit.1 d hd
      rw [hrep.tiled.header_setNext hbmem hblock hmem, freeGrow,
        hrep.tiled.header_setSize hbmem hblock hmem (by rintro rfl; omega)]
      exact hrep.header d hmem
    · rcases List.mem_cons.mp hd with rfl | hd
      · rw [hrep.tiled.header_setNext (c := b) hbmem hblock hbmem, freeGrow, Heap.setSize, hblock,
          Memory.readWord_writeWord_self]
        exact hsum
      · have hmem : d ∈ l₁ ++ b :: c :: l₂ := by simp [hd]
        have := hsplit.2 d (by simp [hd])
        rw [hrep.tiled.header_setNext hbmem hblock hmem, freeGrow,
          hrep.tiled.header_setSize hbmem hblock hmem (by rintro rfl; omega)]
        exact hrep.header d hmem
  · have hlinks := hrep.links
    rw [freeAddrs_append, freeAddrs_cons_free hb, freeAddrs_cons_free hc] at hlinks
    rw [freeAddrs_append, freeAddrs_cons_free (by exact hb), Heap.setNext_freeList]
    have hnodup := List.nodup_append.mp hlinks.nodup
    refine hlinks.unlink (fun y hy => ?_) ?_
    · have hy' : y ∈ freeAddrs (l₁ ++ b :: c :: l₂) := by
        rw [freeAddrs_append, freeAddrs_cons_free hb, freeAddrs_cons_free hc]
        rcases List.mem_append.mp hy with hy | hy <;> simp [hy]
      rw [hrep.tiled.nextAddr_setNext hbmem hblock hy' ?_, freeGrow,
        hrep.tiled.nextAddr_setSize hbmem hblock hy']
      rintro rfl
      rcases List.mem_append.mp hy with hy | hy
      · exact hnodup.2.2 _ hy _ List.mem_cons_self rfl
      · exact (List.nodup_cons.mp hnodup.2.1).1 (List.mem_cons_of_mem _ hy)
    · rw [← hblock, nextAddr_setNext_self, hv]

end Rep

end Osm.Userland
