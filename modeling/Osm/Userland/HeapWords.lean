import Osm.Userland.HeapRuns

/-!
# Words in payloads

A program that stores words in its payloads does not disturb the heap, and finds them again until
it frees the block.
-/

namespace Osm.Userland

open Osm.Core

lemma writeWord_eq_update (m : Memory) (a : ℕ) (w : UInt32) :
    m.writeWord a w = Function.update (Function.update (Function.update (Function.update m
      a (Memory.wordByte w 0)) (a + 1) (Memory.wordByte w 1)) (a + 2) (Memory.wordByte w 2))
      (a + 3) (Memory.wordByte w 3) := by
  funext x
  by_cases hx : a ≤ x ∧ x < a + 4
  · obtain ⟨hle, hlt⟩ := hx
    obtain rfl | rfl | rfl | rfl : x = a ∨ x = a + 1 ∨ x = a + 2 ∨ x = a + 3 := by omega
    all_goals simp [Memory.writeWord]
  · rw [Memory.writeWord, if_neg hx]
    simp only [Function.update_apply]
    rw [if_neg (by omega), if_neg (by omega), if_neg (by omega), if_neg (by omega)]

/-- A word of a block that is the same. -/
lemma SameBlock.readWord {h h' : Heap} {ptr : UInt32} {k : ℕ} (hsame : SameBlock h h' ptr)
    (hk : k + 8 ≤ (h.mem.readWord (ptr.toNat - 4)).toNat) (hptr : 4 ≤ ptr.toNat) :
    h'.mem.readWord (ptr.toNat + k) = h.mem.readWord (ptr.toNat + k) :=
  Memory.readWord_congr fun x hle hlt => hsame x (by omega) (by omega)

namespace HeapInv

variable {base : ℕ} {P : Program} {l : List Block} {ptr ptr' size size' : UInt32}

/-- A word is stored in a payload. -/
lemma writeWord (h : HeapInv base P l) (hlive : (ptr, size) ∈ P.live) {k : ℕ}
    (hk : k + 4 ≤ size.toNat) (w : UInt32) :
    HeapInv base { P with
      heap := { P.heap with mem := P.heap.mem.writeWord (ptr.toNat + k) w } } l := by
  obtain ⟨b, hb, hused, hptr⟩ := h.exists_block hlive
  have hroom := (h.rep.tiled.mem hb).1.used _ hused
  have hne : b.used ≠ none := by simp [hused]
  rw [writeWord_eq_update]
  refine ⟨?_, h.apart, h.live⟩
  have h₀ := h.rep.write hb hne (x := ptr.toNat + k) (by omega) (by omega) (Memory.wordByte w 0)
  have h₁ := h₀.write hb hne (x := ptr.toNat + k + 1) (by omega) (by omega) (Memory.wordByte w 1)
  have h₂ := h₁.write hb hne (x := ptr.toNat + k + 2) (by omega) (by omega) (Memory.wordByte w 2)
  exact h₂.write hb hne (x := ptr.toNat + k + 3) (by omega) (by omega) (Memory.wordByte w 3)

/-- Storing a word in a payload leaves the other blocks alone. -/
lemma writeWord_sameBlock (h : HeapInv base P l) (hlive : (ptr, size) ∈ P.live) {k : ℕ}
    (hk : k + 4 ≤ size.toNat) (w : UInt32) (hlive' : (ptr', size') ∈ P.live) (hne : ptr ≠ ptr') :
    SameBlock P.heap { P.heap with mem := P.heap.mem.writeWord (ptr.toNat + k) w } ptr' := by
  intro x hle hlt
  obtain ⟨hptr, -, hroom, -⟩ := h.live_bounds hlive
  have hapart := h.live_apart hlive hlive' hne
  exact Memory.writeWord_of_outside (by omega)

/-- A word of another payload is the same when a block is. -/
lemma readWord_of_sameBlock (h : HeapInv base P l) (hlive : (ptr, size) ∈ P.live) {h' : Heap}
    (hsame : SameBlock P.heap h' ptr) {k : ℕ} (hk : k + 4 ≤ size.toNat) :
    h'.mem.readWord (ptr.toNat + k) = P.heap.mem.readWord (ptr.toNat + k) := by
  obtain ⟨hptr, -, hroom, -⟩ := h.live_bounds hlive
  exact hsame.readWord (by omega) hptr

/-- How `malloc` moves the end of the heap, and when it returns `NULL`. -/
lemma malloc_heapEnd (h : HeapInv base P l) (hsize : size.toNat + 4 ≤ 2 ^ 31) (hne : size ≠ 0)
    {grant : Bool} {h' : Heap} (hexec : Userland.malloc P.heap size grant = some (h', ptr)) :
    (h'.heapEnd = P.heap.heapEnd ∧ (ptr = 0 → grant = false)) ∨
      (grant = true ∧ h'.heapEnd = P.heap.heapEnd + (sizeofSizeT + roundSize size) ∧ ptr ≠ 0) := by
  obtain ⟨hn, hmin, hdvd, hmax⟩ := roundSize_bounds hsize
  obtain ⟨found, hloop, hscan⟩ := h.rep.mallocScan (roundSize size)
  have hmalloc : Userland.malloc P.heap size grant =
      some (found.getD (mallocGrow P.heap (roundSize size) grant)) := by
    rw [Userland.malloc, if_neg hne]
    dsimp only
    rw [hloop]
    rfl
  rw [hmalloc, Option.some.injEq] at hexec
  cases found with
  | some res =>
    obtain ⟨h₁, ptr₁⟩ := res
    cases hexec
    have halloc := h.rep.scanned_allocates h.apart hmin hmax hdvd hn hscan
    refine .inl ⟨?_, fun hzero => absurd hzero halloc.ptr_ne_zero⟩
    obtain ⟨-, -, -, prev, block, -, -, -, -, ⟨-, hsplit, -⟩ | ⟨-, -, hlink, -⟩⟩ := hscan
    · rw [hsplit, Heap.setSize_heapEnd, Heap.setSize_heapEnd]
    · rw [hlink, Heap.setLink_heapEnd]
  | none =>
    have hgrow : mallocGrow P.heap (roundSize size) grant = (h', ptr) := hexec
    have hbound := h.rep.bound
    have hfull : (sizeofSizeT + roundSize size).toNat = (roundSize size).toNat + 4 := by
      rw [UInt32.add_comm]
      exact toNat_add_sizeofSizeT (by omega)
    have hend : P.heap.heapEnd + (sizeofSizeT + roundSize size) ≠ 0 := by
      apply ne_zero_of_toNat_pos
      rw [UInt32.toNat_add, hfull]
      omega
    unfold mallocGrow syscallMemlimit at hgrow
    rw [if_pos rfl] at hgrow
    dsimp only at hgrow
    rw [if_neg hend] at hgrow
    cases grant with
    | false =>
      cases hgrow
      exact .inl ⟨rfl, fun _ => rfl⟩
    | true =>
      simp only [if_true, if_neg hend] at hgrow
      cases hgrow
      refine .inr ⟨rfl, Heap.setSize_heapEnd .., ne_zero_of_toNat_pos ?_⟩
      rw [toNat_add_sizeofSizeT hbound]
      omega

end HeapInv

end Osm.Userland
