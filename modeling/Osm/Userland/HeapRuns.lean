import Osm.Userland.Allocation
import Mathlib.Logic.Relation

/-!
# Programs that use the heap

A program calls `malloc` and `free` in any order and writes to its payloads in between. It asks
for at most `2 ^ 30` bytes at a time and frees what it has got from `malloc` and not freed yet.
The kernel may refuse to extend the heap at any time, and does not let it grow to `2 ^ 31`. Then
the heap always consists of blocks as described by `Rep`.
-/

namespace Osm.Userland

open Osm.Core

/-- A heap and the pointers in use, with the sizes that were asked for. -/
structure Program where
  heap : Heap
  live : List (UInt32 × UInt32)

/-- The address is inside the payload of a block in use; the header of the block gives its size. -/
def InPayload (h : Heap) (ptr : UInt32) (x : ℕ) : Prop :=
  ptr.toNat ≤ x ∧ x < ptr.toNat - 4 + (h.mem.readWord (ptr.toNat - 4)).toNat

/-- The bytes of the block of a pointer, from its header on, are the same. -/
def SameBlock (h h' : Heap) (ptr : UInt32) : Prop :=
  ∀ x, ptr.toNat - 4 ≤ x → x < ptr.toNat - 4 + (h.mem.readWord (ptr.toNat - 4)).toNat →
    h'.mem x = h.mem x

lemma SameBlock.payload {h h' : Heap} {ptr : UInt32} {x : ℕ} (hsame : SameBlock h h' ptr)
    (hx : InPayload h ptr x) : h'.mem x = h.mem x :=
  hsame x ((Nat.sub_le _ _).trans hx.1) hx.2

lemma SameBlock.header {h h' : Heap} {ptr : UInt32} (hsame : SameBlock h h' ptr)
    (hsize : 4 ≤ (h.mem.readWord (ptr.toNat - 4)).toNat) :
    h'.mem.readWord (ptr.toNat - 4) = h.mem.readWord (ptr.toNat - 4) :=
  Memory.readWord_congr fun x hle hlt => hsame x hle (by omega)

lemma SameBlock.trans {h h' h'' : Heap} {ptr : UInt32} (hsame : SameBlock h h' ptr)
    (hsize : 4 ≤ (h.mem.readWord (ptr.toNat - 4)).toNat) (hsame' : SameBlock h' h'' ptr) :
    SameBlock h h'' ptr := by
  intro x hle hlt
  refine (hsame' x hle ?_).trans (hsame x hle hlt)
  rw [hsame.header hsize]
  exact hlt

/-- What a program does. -/
inductive Step : Program → Program → Prop
  | malloc {P : Program} {size : UInt32} {grant : Bool} {h' : Heap} {ptr : UInt32}
      (hsize : size.toNat ≤ 2 ^ 30) (hexec : malloc P.heap size grant = some (h', ptr))
      (hbound : h'.heapEnd.toNat < 2 ^ 31) :
      Step P { heap := h', live := if ptr = 0 then P.live else (ptr, size) :: P.live }
  | free {P : Program} {ptr size : UInt32} {h' : Heap} (hlive : (ptr, size) ∈ P.live)
      (hexec : free P.heap ptr = some h') :
      Step P { heap := h', live := P.live.erase (ptr, size) }
  | freeNull {P : Program} {h' : Heap} (hexec : free P.heap 0 = some h') :
      Step P { P with heap := h' }
  | write {P : Program} {ptr size : UInt32} {x : ℕ} (v : UInt8) (hlive : (ptr, size) ∈ P.live)
      (hx : InPayload P.heap ptr x) :
      Step P { P with heap := { P.heap with mem := Function.update P.heap.mem x v } }

/-- A program at its start. -/
def Program.initial (mem : Memory) (heapEnd : UInt32) : Program where
  heap := { mem := mem, freeList := 0, heapEnd := heapEnd }
  live := []

/-- The states of a program that starts with an empty heap. -/
def Reachable (mem : Memory) (heapEnd : UInt32) (P : Program) : Prop :=
  Relation.ReflTransGen Step (Program.initial mem heapEnd) P

/-- The heap of the program consists of the given blocks, and it knows those in use. -/
structure HeapInv (base : ℕ) (P : Program) (l : List Block) : Prop where
  rep : Rep P.heap base l
  apart : NoAdjacentFree l
  live : (payloads l).Perm (P.live.map fun e => (e.1.toNat, e.2.toNat))

/-- A write to a payload leaves headers and links alone. -/
lemma Rep.write {h : Heap} {base x : ℕ} {b : Block} {l : List Block} (hrep : Rep h base l)
    (hb : b ∈ l) (hused : b.used ≠ none) (hle : b.addr + 4 ≤ x) (hlt : x < b.addr + b.size)
    (v : UInt8) : Rep { h with mem := Function.update h.mem x v } base l := by
  have hsame : ∀ a, a + 4 ≤ x ∨ x < a →
      Memory.readWord (Function.update h.mem x v) a = h.mem.readWord a := by
    intro a ha
    refine Memory.readWord_congr fun y h₁ h₂ => Function.update_of_ne (by omega) _ _
  refine hrep.congr rfl hrep.tiled (fun c hc => ?_) (hrep.links.congr fun y hy => ?_)
  · have hok := (hrep.tiled.mem hc).1.le_size
    rw [hsame c.addr ?_]
    · exact hrep.header c hc
    · rcases hrep.tiled.disjoint hb hc with rfl | hne
      · exact Or.inl hle
      · omega
  · obtain ⟨c, hc, hfree, rfl⟩ := mem_freeAddrs.mp hy
    have hok := (hrep.tiled.mem hc).1.le_size
    rw [nextAddr, hsame (c.addr + 4) ?_, nextAddr]
    rcases hrep.tiled.disjoint hb hc with rfl | hne
    · exact absurd hfree hused
    · omega

namespace HeapInv

variable {base : ℕ} {P P' : Program} {l : List Block} {ptr size : UInt32}

/-- The block of a pointer in use. -/
lemma exists_block (h : HeapInv base P l) (hlive : (ptr, size) ∈ P.live) :
    ∃ b ∈ l, b.used = some size.toNat ∧ ptr.toNat = b.addr + 4 := by
  have hmem : (ptr.toNat, size.toNat) ∈ payloads l :=
    h.live.mem_iff.mpr (List.mem_map.mpr ⟨_, hlive, rfl⟩)
  obtain ⟨b, hb, hpay⟩ := List.mem_filterMap.mp hmem
  obtain ⟨m, hm, heq⟩ := Option.map_eq_some_iff.mp hpay
  rw [Prod.mk.injEq] at heq
  exact ⟨b, hb, by rw [hm, heq.2], heq.1.symm⟩

/-- The payload of a pointer in use. -/
lemma inPayload_iff (h : HeapInv base P l) {b : Block} (hb : b ∈ l) (hptr : ptr.toNat = b.addr + 4)
    {x : ℕ} : InPayload P.heap ptr x ↔ b.addr + 4 ≤ x ∧ x < b.addr + b.size := by
  rw [InPayload, hptr, Nat.add_sub_cancel, h.rep.header b hb]

/-- The header of a pointer in use: there is room for what was asked for, and the block ends before
the heap does. -/
lemma live_bounds (h : HeapInv base P l) (hlive : (ptr, size) ∈ P.live) :
    4 ≤ ptr.toNat ∧ 12 ≤ (P.heap.mem.readWord (ptr.toNat - 4)).toNat ∧
      size.toNat + 4 ≤ (P.heap.mem.readWord (ptr.toNat - 4)).toNat ∧
      ptr.toNat - 4 + (P.heap.mem.readWord (ptr.toNat - 4)).toNat ≤ P.heap.heapEnd.toNat := by
  obtain ⟨b, hb, hused, hptr⟩ := h.exists_block hlive
  obtain ⟨hok, -, hend⟩ := h.rep.tiled.mem hb
  rw [hptr, Nat.add_sub_cancel, h.rep.header b hb]
  exact ⟨Nat.le_add_left _ _, hok.le_size, hok.used _ hused, hend⟩

/-- The blocks of different pointers in use do not overlap. -/
lemma live_apart (h : HeapInv base P l) (hlive : (ptr, size) ∈ P.live) {ptr' size' : UInt32}
    (hlive' : (ptr', size') ∈ P.live) (hne : ptr ≠ ptr') :
    ptr.toNat - 4 + (P.heap.mem.readWord (ptr.toNat - 4)).toNat ≤ ptr'.toNat - 4 ∨
      ptr'.toNat - 4 + (P.heap.mem.readWord (ptr'.toNat - 4)).toNat ≤ ptr.toNat - 4 := by
  obtain ⟨b, hb, -, hptr⟩ := h.exists_block hlive
  obtain ⟨c, hc, -, hptr'⟩ := h.exists_block hlive'
  have hbc : b ≠ c := by
    rintro rfl
    exact hne (UInt32.toNat_inj.mp (hptr.trans hptr'.symm))
  rw [hptr, hptr', Nat.add_sub_cancel, Nat.add_sub_cancel, h.rep.header b hb, h.rep.header c hc]
  exact (h.rep.tiled.disjoint hb hc).resolve_left hbc

/-- The pointers in use are different. -/
lemma live_nodup (h : HeapInv base P l) : (P.live.map Prod.fst).Nodup := by
  have hperm := h.live.map Prod.fst
  rw [List.map_map] at hperm
  have hlive := hperm.nodup_iff.mp h.rep.tiled.payloads_nodup
  exact List.Nodup.of_map UInt32.toNat (by rwa [List.map_map])

/-- The block of a pointer in use is the same if nothing is written to it. -/
lemma sameBlock {h' : Heap} {b : Block} {l' : List Block} (h : HeapInv base P l) (hb : b ∈ l)
    (hused : b.used ≠ none) (hptr : ptr.toNat = b.addr + 4) (hframe : Unchanged P.heap h' l')
    (hb' : b ∈ l') : SameBlock P.heap h' ptr := by
  intro x hle hlt
  rw [hptr, Nat.add_sub_cancel] at hle hlt
  rw [h.rep.header b hb] at hlt
  exact hframe b hb' hused x hle hlt

/-- `malloc` returns; either it returns `NULL` and does nothing, or it adds a block and leaves the
others as they are. -/
lemma malloc_spec (h : HeapInv base P l) (hsize : size.toNat + 4 ≤ 2 ^ 31) (grant : Bool) :
    ∃ h' ptr, Userland.malloc P.heap size grant = some (h', ptr) ∧
      (h'.heapEnd.toNat < 2 ^ 31 → ptr = 0 ∧ h' = P.heap ∨ ptr ≠ 0 ∧
        ∃ l', HeapInv base { heap := h', live := (ptr, size) :: P.live } l' ∧
          ∀ e ∈ P.live, SameBlock P.heap h' e.1) := by
  obtain ⟨h', ptr, hexec, hcases⟩ := h.rep.malloc_spec h.apart hsize grant
  refine ⟨h', ptr, hexec, fun hbound => ?_⟩
  rcases hcases with hnull | halloc
  · exact .inl hnull
  · obtain ⟨hne, l', hrep, hapart, hperm, hframe⟩ := halloc hbound
    refine .inr ⟨hne, l', ⟨hrep, hapart, hperm.trans (h.live.cons _)⟩, fun e he => ?_⟩
    obtain ⟨b, hb, hused, hptr⟩ := h.exists_block he
    exact h.sameBlock hb (by simp [hused]) hptr hframe hb

lemma malloc {grant : Bool} {h' : Heap} (h : HeapInv base P l) (hsize : size.toNat + 4 ≤ 2 ^ 31)
    (hexec : Userland.malloc P.heap size grant = some (h', ptr))
    (hbound : h'.heapEnd.toNat < 2 ^ 31) :
    ∃ l', HeapInv base
      { heap := h', live := if ptr = 0 then P.live else (ptr, size) :: P.live } l' := by
  obtain ⟨h'', ptr', hres, hcases⟩ := h.malloc_spec hsize grant
  rw [hexec, Option.some.injEq, Prod.mk.injEq] at hres
  obtain ⟨rfl, rfl⟩ := hres
  rcases hcases hbound with ⟨rfl, rfl⟩ | ⟨hne, l', hinv, -⟩
  · exact ⟨l, h⟩
  · rw [if_neg hne]
    exact ⟨l', hinv⟩

/-- `free` returns; the block becomes part of a free one, and the others stay as they are. -/
lemma free_spec (h : HeapInv base P l) (hlive : (ptr, size) ∈ P.live) :
    ∃ h' l', Userland.free P.heap ptr = some h' ∧
      HeapInv base { heap := h', live := P.live.erase (ptr, size) } l' ∧
      (∃ b ∈ l', b.used = none ∧ b.addr ≤ ptr.toNat - 4 ∧
        ptr.toNat - 4 + (P.heap.mem.readWord (ptr.toNat - 4)).toNat ≤ b.addr + b.size) ∧
      ∀ e ∈ P.live, e.1 ≠ ptr → SameBlock P.heap h' e.1 := by
  obtain ⟨b, hb, hused, hptr⟩ := h.exists_block hlive
  have hheader := h.rep.header b hb
  obtain ⟨l₁, l₂, rfl⟩ := List.append_of_mem hb
  obtain ⟨h', hexec, l', hrep, hapart, hpay, hframe, b', hb', hfree, hwithin⟩ :=
    h.rep.free_spec h.apart (by simp [hused]) hptr
  refine ⟨h', l', hexec, ⟨hrep, hapart, ?_⟩, ⟨b', hb', hfree, ?_⟩, fun e he hne => ?_⟩
  · rw [hpay]
    have hsplit : (payloads (l₁ ++ b :: l₂)).Perm
        ((ptr.toNat, size.toNat) :: payloads (l₁ ++ l₂)) := by
      rw [payloads_append, payloads_append, payloads_cons_used hused, hptr]
      exact List.perm_middle
    have herase := (List.perm_cons_erase hlive).map fun e => (e.1.toNat, e.2.toNat)
    exact ((hsplit.symm.trans h.live).trans herase).cons_inv
  · rw [hptr, Nat.add_sub_cancel, hheader]
    exact hwithin
  · obtain ⟨c, hc, hused', hptr'⟩ := h.exists_block he
    have hcb : c ≠ b := by
      rintro rfl
      exact hne (UInt32.toNat_inj.mp (hptr'.trans hptr.symm))
    refine h.sameBlock hc (by simp [hused']) hptr' hframe ?_
    simp only [List.mem_append, List.mem_cons] at hc ⊢
    tauto

lemma free {h' : Heap} (h : HeapInv base P l) (hlive : (ptr, size) ∈ P.live)
    (hexec : Userland.free P.heap ptr = some h') :
    ∃ l', HeapInv base { heap := h', live := P.live.erase (ptr, size) } l' := by
  obtain ⟨h'', l', hres, hinv, -⟩ := h.free_spec hlive
  obtain rfl : h' = h'' := Option.some.inj (hexec.symm.trans hres)
  exact ⟨l', hinv⟩

lemma step (h : HeapInv base P l) (hstep : Step P P') : ∃ l', HeapInv base P' l' := by
  cases hstep with
  | malloc hsize hexec hbound => exact h.malloc (by omega) hexec hbound
  | free hlive hexec => exact h.free hlive hexec
  | freeNull hexec =>
    obtain rfl := Option.some.inj hexec
    exact ⟨l, h⟩
  | write v hlive hx =>
    obtain ⟨b, hb, hused, hptr⟩ := h.exists_block hlive
    obtain ⟨hle, hlt⟩ := (h.inPayload_iff hb hptr).mp hx
    exact ⟨l, h.rep.write hb (by simp [hused]) hle hlt v, h.apart, h.live⟩

lemma steps (h : HeapInv base P l) (hsteps : Relation.ReflTransGen Step P P') :
    ∃ l', HeapInv base P' l' := by
  induction hsteps with
  | refl => exact ⟨l, h⟩
  | tail _ hstep ih =>
    obtain ⟨l', hl'⟩ := ih
    exact hl'.step hstep

end HeapInv

lemma Reachable.heapInv {mem : Memory} {heapEnd : UInt32} (hpos : heapEnd ≠ 0)
    (hdvd : 4 ∣ heapEnd.toNat) (hlt : heapEnd.toNat < 2 ^ 31) {P : Program}
    (h : Reachable mem heapEnd P) : ∃ l, HeapInv heapEnd.toNat P l := by
  have hne : heapEnd.toNat ≠ 0 := fun hzero => hpos (UInt32.toNat_inj.mp hzero)
  have hinit : HeapInv heapEnd.toNat (Program.initial mem heapEnd) [] :=
    ⟨⟨Nat.pos_of_ne_zero hne, hdvd, hlt, rfl, by simp, rfl⟩, List.isChain_nil, List.Perm.nil⟩
  exact hinit.steps h

/-- After any sequence of calls and writes: the heap is tiled by blocks whose headers hold their
sizes, multiples of four and at least 12; the free list links the free ones in increasing order,
no two of which are adjacent; the others are those in use. A payload in use is aligned and at
least as large as was asked for. Every further call returns, and changes no byte of a payload in
use other than the one that is freed. -/
theorem heap_invariant {mem : Memory} {heapEnd : UInt32} (hpos : heapEnd ≠ 0)
    (hdvd : 4 ∣ heapEnd.toNat) (hlt : heapEnd.toNat < 2 ^ 31) {P : Program}
    (h : Reachable mem heapEnd P) :
    (∃ l, Tiled heapEnd.toNat l P.heap.heapEnd.toNat ∧
      (∀ b ∈ l, (P.heap.mem.readWord b.addr).toNat = b.size) ∧
      Linked (nextAddr P.heap.mem) (· = 0) P.heap.freeList.toNat (freeAddrs l) ∧
      (freeAddrs l).Pairwise (· < ·) ∧ NoAdjacentFree l ∧
      (payloads l).Perm (P.live.map fun e => (e.1.toNat, e.2.toNat))) ∧
    (∀ e ∈ P.live, 4 ∣ e.1.toNat ∧
      e.2.toNat + 4 ≤ (P.heap.mem.readWord (e.1.toNat - 4)).toNat) ∧
    (∀ size grant, size.toNat ≤ 2 ^ 30 → ∃ h' ptr, malloc P.heap size grant = some (h', ptr) ∧
      (h'.heapEnd.toNat < 2 ^ 31 → ∀ e ∈ P.live, ∀ x, InPayload P.heap e.1 x →
        h'.mem x = P.heap.mem x)) ∧
    ∀ e ∈ P.live, ∃ h', free P.heap e.1 = some h' ∧
      ∀ e' ∈ P.live, e'.1 ≠ e.1 → ∀ x, InPayload P.heap e'.1 x → h'.mem x = P.heap.mem x := by
  obtain ⟨l, hl⟩ := h.heapInv hpos hdvd hlt
  have hrep := hl.rep
  refine ⟨⟨l, hrep.tiled, hrep.header, hrep.links, hrep.tiled.freeAddrs_pairwise, hl.apart, hl.live⟩,
    fun e he => ?_, fun size grant hsize => ?_, fun e he => ?_⟩
  · obtain ⟨b, hb, hused, hptr⟩ := hl.exists_block he
    have hbdvd := hrep.tiled.dvd_addr hdvd hb
    have hok := (hrep.tiled.mem hb).1.used _ hused
    rw [hptr, Nat.add_sub_cancel, hrep.header b hb]
    exact ⟨Nat.dvd_add hbdvd (dvd_refl 4), hok⟩
  · have hroom : size.toNat + 4 ≤ 2 ^ 31 := by omega
    obtain ⟨h', ptr, hexec, hcases⟩ := hl.malloc_spec hroom grant
    refine ⟨h', ptr, hexec, fun hbound e he x hx => ?_⟩
    rcases hcases hbound with ⟨-, rfl⟩ | ⟨-, l', -, hothers⟩
    · rfl
    · exact (hothers e he).payload hx
  · obtain ⟨h', -, hexec, -, -, hothers⟩ := hl.free_spec he
    exact ⟨h', hexec, fun e' he' hne x hx => (hothers e' he' hne).payload hx⟩

/-- A program asks for 10 and for 100 bytes and frees the first payload: the heaps after the calls
and the pointers. -/
def freeFirst : Option ((Heap × UInt32) × (Heap × UInt32) × Heap) := do
  let first ← malloc (Program.initial (fun _ => 0) 0x1000).heap 10 true
  let second ← malloc first.1 100 true
  let h ← free second.1 first.2
  return (first, second, h)

lemma freeFirst_run : freeFirst.any (fun r =>
    r.1.2 = 0x1004 ∧ r.2.1.2 = 0x1014 ∧ r.1.1.heapEnd.toNat < 2 ^ 31 ∧
      r.2.1.1.heapEnd.toNat < 2 ^ 31 ∧ r.2.2.freeList = 0x1000) = true := by
  decide +kernel

theorem heap_invariant_freed : ∃ P, Reachable (fun _ => 0) 0x1000 P ∧ P.live = [(0x1014, 100)] ∧
    P.heap.freeList = 0x1000 ∧ ∀ e ∈ P.live, 4 ∣ e.1.toNat ∧
      e.2.toNat + 4 ≤ (P.heap.mem.readWord (e.1.toNat - 4)).toNat := by
  obtain ⟨⟨⟨h₁, p₁⟩, ⟨h₂, p₂⟩, _⟩, hrun, hval⟩ := (Option.any_eq_true _ _).mp freeFirst_run
  obtain ⟨rfl, rfl, hb₁, hb₂, hfree⟩ := of_decide_eq_true hval
  simp only [freeFirst, Option.bind_eq_bind, Option.bind_eq_some_iff, Option.pure_def,
    Option.some.injEq, Prod.mk.injEq] at hrun
  obtain ⟨_, hr₁, _, hr₂, h, hr₃, rfl, rfl, rfl⟩ := hrun
  have hstart : Reachable (fun _ => 0) 0x1000 { heap := h₁, live := [(0x1004, 10)] } :=
    Relation.ReflTransGen.single (Step.malloc (by decide) hr₁ hb₁)
  have htwo : Reachable (fun _ => 0) 0x1000
      { heap := h₂, live := [(0x1014, 100), (0x1004, 10)] } :=
    hstart.tail (@Step.malloc ⟨h₁, _⟩ 100 true h₂ 0x1014 (by decide) hr₂ hb₂)
  have hreach : Reachable (fun _ => 0) 0x1000 { heap := h, live := [(0x1014, 100)] } :=
    htwo.tail (@Step.free ⟨h₂, _⟩ 0x1004 10 h (List.mem_cons_of_mem _ List.mem_cons_self) hr₃)
  exact ⟨_, hreach, rfl, hfree, (heap_invariant (by decide) (by decide) (by decide) hreach).2.1⟩

end Osm.Userland
