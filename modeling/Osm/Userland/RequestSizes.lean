import Osm.Userland.LargeRequests
import Osm.Userland.Realloc

/-!
# The sizes that `realloc` and `calloc` use

`realloc` copies as many bytes as the new payload is to have, and not as many as the old one has;
`calloc` multiplies in 32 bits. Both are right when the allocation fails. Otherwise the old payload
has to be large enough, and the product has to be the one of the natural numbers.
-/

namespace Osm.Userland

open Osm.Core

/-- `malloc` returns `NULL`: no free block is taken, and the kernel refuses to extend the heap. -/
def Refused (h : Heap) (size : UInt32) (grant : Bool) : Prop :=
  size = 0 ∨ (∀ b, OnFreeList h b → ¬ Takes (h.size b) (roundSize size)) ∧
    h.heapEnd + (sizeofSizeT + roundSize size) ≠ 0 ∧ grant = false

/-- `realloc` copies bytes of the payload only. -/
def ReallocReadsPayload (P : Program) (ptr size : UInt32) (grant : Bool) : Prop :=
  ∀ a ∈ reallocReads P.heap ptr size grant, InPayload P.heap ptr a

/-- What `calloc` returns is `NULL` or a block that is as it should be, all of whose bytes are
zero. -/
def CallocSound (base : ℕ) (P : Program) (nmemb size : UInt32) (grant : Bool) : Prop :=
  ∀ h' ptr, calloc P.heap nmemb size grant = some (h', ptr) → ptr ≠ 0 →
    SoundBlock base h' P.live ptr (nmemb.toNat * size.toNat) ∧
    ∀ i < nmemb.toNat * size.toNat, h'.mem (ptr.toNat + i) = 0

section

variable {h : Heap} {base n : ℕ} {l : List Block} {P : Program} {ptr size nmemb : UInt32}
  {grant : Bool}

/-- A block that is taken is not at `NULL`. -/
lemma HeapInv.scanned_ne_zero (hinv : HeapInv base P l) {h' : Heap}
    (hscan : Scanned P.heap l (roundSize size) (some (h', ptr))) : ptr ≠ 0 := by
  by_cases hroom : size.toNat + 4 ≤ 2 ^ 31
  · obtain ⟨hn, hmin, hdvd, hmax⟩ := roundSize_bounds hroom
    exact (hinv.rep.scanned_allocates hinv.apart hmin hmax hdvd hn hscan).ptr_ne_zero
  · refine (hinv.rep.scanned_large ?_ hscan).1
    rw [roundUp]
    omega

/-- `malloc` returns, and what it returns is `NULL` if and only if the request is refused. -/
lemma HeapInv.malloc_refused_iff (hinv : HeapInv base P l) (size : UInt32) (grant : Bool) :
    ∃ r, Userland.malloc P.heap size grant = some r ∧
      (r.2 = 0 ↔ Refused P.heap size grant) := by
  have hrep := hinv.rep
  by_cases hsize : size = 0
  · exact ⟨(P.heap, 0), by rw [Userland.malloc, if_pos hsize], iff_of_true rfl (.inl hsize)⟩
  rcases hrep.malloc_cases hsize grant with ⟨h', ptr, hexec, hscan⟩ | ⟨hexec, hscan⟩
  · refine ⟨_, hexec, iff_of_false (hinv.scanned_ne_zero hscan) ?_⟩
    rintro (hzero | ⟨hnot, -⟩)
    · exact hsize hzero
    · obtain ⟨block, hblock, htakes⟩ := hrep.scanned_takes hscan
      exact hnot block hblock htakes
  · have hpos : 0 < P.heap.heapEnd.toNat := hrep.pos.trans_le hrep.tiled.le
    have hptr : P.heap.heapEnd + sizeofSizeT ≠ 0 :=
      ne_zero_of_toNat_pos (by rw [toNat_add_sizeofSizeT hrep.bound]; omega)
    have hnot : ∀ b, OnFreeList P.heap b → ¬ Takes (P.heap.size b) (roundSize size) :=
      fun b hb => hscan b (hrep.laid.onFreeList_iff.mp hb)
    refine ⟨_, hexec, ?_⟩
    rw [mallocGrow_eq _ (ne_zero_of_toNat_pos hpos), Refused, or_iff_right hsize,
      and_iff_right hnot]
    split_ifs with hzero hgrant
    · exact iff_of_false hptr fun hrefused => hrefused.1 hzero
    · exact iff_of_false hptr fun hrefused => by simp [hgrant] at hrefused
    · exact iff_of_true rfl ⟨hzero, eq_false_of_ne_true hgrant⟩

lemma HeapInv.reallocReads_iff (hinv : HeapInv base P l) (hlive : (ptr, size) ∈ P.live)
    (n : UInt32) (grant : Bool) :
    ReallocReadsPayload P ptr n grant ↔
      Refused P.heap n grant ∨ n.toNat + 4 ≤ (P.heap.mem.readWord (ptr.toNat - 4)).toNat := by
  obtain ⟨hptr4, hmin, -, hend⟩ := hinv.live_bounds hlive
  have hbound := hinv.rep.bound
  have hptr : ptr ≠ 0 := ne_zero_of_toNat_pos (by omega)
  obtain ⟨r, hexec, hrefused⟩ := hinv.malloc_refused_iff n grant
  rw [ReallocReadsPayload, ← hrefused]
  by_cases hnull : r.2 = 0
  · have hreads : reallocReads P.heap ptr n grant = [] := by
      rw [reallocReads, hexec]
      split_ifs
      · rfl
      · exact if_neg (not_not.mpr hnull)
    rw [hreads]
    exact iff_of_true (fun a ha => by cases ha) (.inl hnull)
  · have hn : n ≠ 0 := by
      rintro rfl
      exact hnull (hrefused.mpr (.inl rfl))
    have hreads : reallocReads P.heap ptr n grant =
        (List.range n.toNat).map fun i => (ptr + UInt32.ofNat i).toNat := by
      rw [reallocReads, hexec, if_neg (not_or.mpr ⟨hptr, hn⟩)]
      exact if_pos hnull
    rw [hreads, List.forall_mem_map, or_iff_right hnull]
    constructor
    · intro hin
      -- the first byte behind the block is read, too
      by_contra hlt
      have hlast := hin ((P.heap.mem.readWord (ptr.toNat - 4)).toNat - 4)
        (List.mem_range.mpr (by omega))
      rw [InPayload, toNat_add_ofNat (by omega)] at hlast
      omega
    · intro hroom i hi
      have hi := List.mem_range.mp hi
      rw [InPayload, toNat_add_ofNat (by omega)]
      omega

/-- Bytes are stored in the payload of a block. -/
lemma Placed.storeBytes {h' : Heap} (hplaced : Placed h' base l ptr n)
    (byte : Memory → ℕ → UInt8) : Placed (storeBytes h' ptr byte n) base l ptr n := by
  obtain ⟨l', b, hlaid, hperm, hb, hused, hptr, -, hroom, hend⟩ := hplaced.exists_block
  have hlt := h'.heapEnd.toNat_lt
  -- what is not in the payload of the block stays as it is
  have hsame : ∀ a, a + 4 ≤ ptr.toNat ∨ b.addr + b.size ≤ a →
      (Userland.storeBytes h' ptr byte n).mem.readWord a = h'.mem.readWord a :=
    fun a ha => Memory.readWord_congr fun x _ _ => storeBytes_of_outside (by omega) (by omega)
  refine ⟨l', ⟨?_, fun c hc => ?_, ?_⟩, hperm⟩
  · rw [storeBytes_heapEnd]
    exact hlaid.tiled
  · rw [hsame c.addr, hlaid.header c hc]
    rcases hlaid.tiled.disjoint hb hc with rfl | hne
    · exact .inl hptr.ge
    · have hsize := (hlaid.tiled.mem hc).1.le_size
      omega
  · rw [storeBytes_freeList]
    refine hlaid.links.congr fun x hx => ?_
    obtain ⟨c, hc, hfree, rfl⟩ := mem_freeAddrs.mp hx
    have hsize := (hlaid.tiled.mem hc).1.le_size
    have hne : b ≠ c := by
      rintro rfl
      rw [hused] at hfree
      cases hfree
    have hapart := (hlaid.tiled.disjoint hb hc).resolve_left hne
    rw [nextAddr, hsame (c.addr + 4) (by omega), nextAddr]

/-- The block of a pointer that has been placed ends before the addresses do. -/
lemma Placed.le {h' : Heap} (hplaced : Placed h' base l ptr n) : ptr.toNat + n ≤ 2 ^ 32 := by
  obtain ⟨l', b, -, -, -, -, hptr, -, hroom, hend⟩ := hplaced.exists_block
  have hlt := h'.heapEnd.toNat_lt
  omega

lemma calloc_eq {r : Heap × UInt32} (hexec : malloc h (nmemb * size) grant = some r) :
    calloc h nmemb size grant = some (if r.2 ≠ 0 then
      storeBytes r.1 r.2 (fun _ _ => 0) (nmemb * size).toNat else r.1, r.2) := by
  rw [calloc, hexec]
  rfl

lemma HeapInv.callocSound_iff (hinv : HeapInv base P l)
    (hkernel : KernelAnswer P.heap (nmemb * size) grant) :
    CallocSound base P nmemb size grant ↔ Refused P.heap (nmemb * size) grant ∨
      nmemb.toNat * size.toNat < 2 ^ 32 ∧ RequestOk P.heap (nmemb * size) grant := by
  obtain ⟨r, hexec, hrefused⟩ := hinv.malloc_refused_iff (nmemb * size) grant
  rw [CallocSound, calloc_eq hexec, ← hrefused]
  by_cases hnull : r.2 = 0
  · refine iff_of_true (fun h' ptr hcalloc hptr => ?_) (.inl hnull)
    cases hcalloc
    exact absurd hnull hptr
  rw [or_iff_right hnull, if_pos hnull]
  have hmul := UInt32.toNat_mul nmemb size
  constructor
  · intro hsound
    have hle := (hsound _ _ rfl hnull).1.le_heapEnd
    rw [storeBytes_heapEnd] at hle
    have hlt : nmemb.toNat * size.toNat < 2 ^ 32 :=
      (Nat.le_add_right _ 4).trans_lt (hle.trans_lt r.1.heapEnd.toNat_lt)
    refine ⟨hlt, hinv.requestOk fun h' ptr hmalloc _ => ?_⟩
    cases hexec.symm.trans hmalloc
    rw [hmul, Nat.mod_eq_of_lt hlt]
    exact hle
  · rintro ⟨hlt, hok⟩ h' ptr hcalloc -
    cases hcalloc
    rw [Nat.mod_eq_of_lt hlt] at hmul
    obtain ⟨r', hexec', hcases⟩ := hinv.rep.malloc_placed hinv.apart hok hkernel
    cases hexec.symm.trans hexec'
    have hplaced : Placed r.1 base l r.2 (nmemb * size).toNat := by
      rcases hcases with hzero | ⟨-, hplaced⟩
      · exact absurd (congrArg Prod.snd hzero) hnull
      · exact hplaced
    rw [← hmul]
    exact ⟨(hplaced.storeBytes _).sound hinv, fun i hi => storeBytes_inside hplaced.le hi⟩

end

theorem realloc_calloc_sizes_iff {mem : Memory} {heapEnd : UInt32} (hpos : heapEnd ≠ 0)
    (hdvd : 4 ∣ heapEnd.toNat) (hlt : heapEnd.toNat < 2 ^ 31) {P : Program}
    (h : LargeReachable mem heapEnd P) (grant : Bool) :
    (∀ ptr size n, (ptr, size) ∈ P.live → (ReallocReadsPayload P ptr n grant ↔
      Refused P.heap n grant ∨ n.toNat + 4 ≤ (P.heap.mem.readWord (ptr.toNat - 4)).toNat)) ∧
    ∀ nmemb size, KernelAnswer P.heap (nmemb * size) grant →
      (CallocSound heapEnd.toNat P nmemb size grant ↔ Refused P.heap (nmemb * size) grant ∨
        nmemb.toNat * size.toNat < 2 ^ 32 ∧ RequestOk P.heap (nmemb * size) grant) := by
  obtain ⟨l, hl⟩ := h.heapInv hpos hdvd hlt
  exact ⟨fun _ _ n hlive => hl.reallocReads_iff hlive n grant,
    fun _ _ hkernel => hl.callocSound_iff hkernel⟩

/-- A program asks for 8 bytes, and then for 16 bytes instead; another one asks for two times more
than half of what there is. -/
lemma sizes_run : (malloc (Program.initial (fun _ => 0) 0x1000).heap 8 true).any (fun r =>
      r.2 = 0x1004 ∧ r.1.heapEnd.toNat < 2 ^ 31 ∧ (r.1.mem.readWord 0x1000).toNat = 12 ∧
      0x1010 ∈ reallocReads r.1 0x1004 16 true) = true ∧
    (calloc (Program.initial (fun _ => 0) 0x1000).heap 2 0x80000002 true).any (fun r =>
      r.2 = 0x1004 ∧ (r.1.size 0x1000).toNat = 12) = true := by
  constructor <;> decide +kernel

/-- At its start, a program gets 100 zeros. After a request for 8 bytes, 4 bytes instead are taken
from the payload of the live block. -/
theorem realloc_calloc_sizes_live :
    CallocSound (UInt32.toNat 0x1000) (Program.initial (fun _ => 0) 0x1000) 10 10 true ∧
    ∃ P, LargeReachable (fun _ => 0) 0x1000 P ∧ (0x1004, 8) ∈ P.live ∧
      ReallocReadsPayload P 0x1004 4 true := by
  constructor
  · have hkernel : KernelAnswer (Program.initial (fun _ => 0) 0x1000).heap (10 * 10) true := by
      unfold KernelAnswer
      decide
    exact ((realloc_calloc_sizes_iff (by decide) (by decide) (by decide) .refl true).2 10 10
      hkernel).mpr (.inr ⟨by decide, .inl (by decide)⟩)
  · obtain ⟨⟨h₁, ptr⟩, hexec, hval⟩ := (Option.any_eq_true _ _).mp sizes_run.1
    obtain ⟨rfl, hbound, hheader, -⟩ := of_decide_eq_true hval
    have hreach : LargeReachable (fun _ => 0) 0x1000 { heap := h₁, live := [(0x1004, 8)] } :=
      .single (.other (.malloc (by decide) hexec hbound))
    refine ⟨_, hreach, List.mem_singleton_self _, ?_⟩
    refine ((realloc_calloc_sizes_iff (by decide) (by decide) (by decide) hreach true).1 0x1004 8 4
      (List.mem_singleton_self _)).mpr (.inr ?_)
    change 4 + 4 ≤ (h₁.mem.readWord 0x1000).toNat
    rw [hheader]
    decide

theorem realloc_calloc_sizes_not_sound :
    (∃ P ptr size n grant, LargeReachable (fun _ => 0) 0x1000 P ∧ (ptr, size) ∈ P.live ∧
      ¬ ReallocReadsPayload P ptr n grant) ∧
    ∃ P nmemb size grant, LargeReachable (fun _ => 0) 0x1000 P ∧
      KernelAnswer P.heap (nmemb * size) grant ∧
      ¬ CallocSound (UInt32.toNat 0x1000) P nmemb size grant := by
  obtain ⟨hrealloc, hcalloc⟩ := sizes_run
  constructor
  · obtain ⟨⟨h₁, ptr⟩, hexec, hval⟩ := (Option.any_eq_true _ _).mp hrealloc
    obtain ⟨rfl, hbound, hheader, hread⟩ := of_decide_eq_true hval
    refine ⟨{ heap := h₁, live := [(0x1004, 8)] }, 0x1004, 8, 16, true, ?_,
      List.mem_singleton_self _, fun hpayload => ?_⟩
    · exact .single (.other (.malloc (by decide) hexec hbound))
    · have hlt : 0x1010 < 0x1004 - 4 + (h₁.mem.readWord 0x1000).toNat := (hpayload _ hread).2
      rw [hheader] at hlt
      exact absurd hlt (by decide)
  · refine ⟨Program.initial (fun _ => 0) 0x1000, 2, 0x80000002, true, .refl, ?_, fun hsound => ?_⟩
    · unfold KernelAnswer
      decide
    · obtain ⟨⟨h', ptr⟩, hexec, hval⟩ := (Option.any_eq_true _ _).mp hcalloc
      obtain ⟨rfl, hsize⟩ := of_decide_eq_true hval
      have hroom : 2 * 0x80000002 + 4 ≤ (h'.size 0x1000).toNat :=
        (hsound h' _ hexec (by decide)).1.room
      rw [hsize] at hroom
      exact absurd hroom (by decide)

end Osm.Userland
