import Osm.Core.Words
import Mathlib.Data.Nat.Notation
import Mathlib.Order.CompletePartialOrder
import Mathlib.Order.Interval.Set.Disjoint
import Mathlib.Tactic.Common

/-!
# Permanent kernel memory

A model of `kernel/kmalloc.c`. The memory behind the kernel image is given away from the front, and
nothing of it is ever freed. A result `none` stands for a panic.

The regions that `kmalloc` returns are disjoint and inside the memory exactly as long as no request
is so large that the end of its region is not a 32-bit address.
-/

namespace Osm.Kernel

open Osm.Core

/-- What `kmalloc_get_numpages` reads of a device descriptor: its type and the first word of the
area that it points to. -/
structure IoDescriptor where
  type       : UInt32
  ioAreaWord : UInt32

/-- `YAMS_MAX_DEVICES`. -/
def yamsMaxDevices : ℕ := 128

/-- `YAMS_TYPECODE_MEMINFO`. -/
def yamsTypecodeMeminfo : UInt32 := 0x101

/-- `kmalloc_get_numpages`. -/
def kmallocGetNumpages (ioDesc : ℕ → IoDescriptor) : Option UInt32 :=
  let numPages :=
    match (List.range yamsMaxDevices).find? fun i => (ioDesc i).type = yamsTypecodeMeminfo with
    | some i => (ioDesc i).ioAreaWord
    | none   => 0
  if numPages = 0 then none else some numPages

/-- The variables of the module. -/
structure FreeArea where
  start     : UInt32
  memoryEnd : UInt32
  deriving DecidableEq

/-- The address moved up to a word boundary. -/
def alignWord (address : UInt32) : UInt32 :=
  if address &&& 0x03 ≠ 0 then (address + 4) &&& 0xfffffffc else address

/-- `kmalloc_init`, with the address of `KERNEL_ENDS_HERE`. -/
def kmallocInit (ioDesc : ℕ → IoDescriptor) (kernelEnd : UInt32) : Option FreeArea :=
  match kmallocGetNumpages ioDesc with
  | none          => none
  | some numPages => some ⟨alignWord kernelEnd, 0x80000000 + numPages * 4096⟩

/-- `kmalloc`: the variables afterwards and the address. -/
def kmalloc (area : FreeArea) (bytes : Int32) : Option (FreeArea × UInt32) :=
  if area.start = 0xffffffff then none
  else if area.start = 0 then none
  else if bytes < 0 then none
  else if area.start + bytes.toUInt32 > area.memoryEnd then none
  else some ({ area with start := alignWord (area.start + bytes.toUInt32) }, area.start)

/-- What a call of `kmalloc` has returned, and the number of bytes that it has been called with. -/
structure KmallocRegion where
  address : UInt32
  bytes   : Int32
  deriving DecidableEq

/-- The addresses of the region. -/
def KmallocRegion.addresses (region : KmallocRegion) : Set ℕ :=
  Set.Ico region.address.toNat (region.address.toNat + region.bytes.toNatClampNeg)

/-- The regions of a sequence of calls, up to the first one that panics. -/
def kmallocs : FreeArea → List Int32 → List KmallocRegion
  | _,    []             => []
  | area, bytes :: calls =>
    match kmalloc area bytes with
    | none              => []
    | some (area', res) => ⟨res, bytes⟩ :: kmallocs area' calls

/-- The regions are aligned, lie in the memory behind the kernel, and are disjoint. -/
structure PermanentRegions (kernelEnd memoryEnd : UInt32) (regions : List KmallocRegion) : Prop where
  aligned  : ∀ region ∈ regions, 4 ∣ region.address.toNat
  inside   : ∀ region ∈ regions, kernelEnd.toNat ≤ region.address.toNat ∧
    region.address.toNat + region.bytes.toNatClampNeg ≤ memoryEnd.toNat
  disjoint : regions.Pairwise fun region region' => Disjoint region.addresses region'.addresses

/-- Every call, up to the first one that panics, asks for fewer bytes than there are 32-bit
addresses from the start of the free area on. -/
def RequestsFit : FreeArea → List Int32 → Prop
  | _,    []             => True
  | area, bytes :: calls =>
    bytes.toNatClampNeg < 2 ^ 32 - area.start.toNat ∧
      ∀ area' res, kmalloc area bytes = some (area', res) → RequestsFit area' calls

/-! ### One call -/

/-- The address moved up to a word boundary, without overflow. -/
lemma toNat_alignWord {address : UInt32} (h : address.toNat + 4 < 2 ^ 32) :
    (alignWord address).toNat = (address.toNat + 3) / 4 * 4 := by
  have hlow : address &&& 0x03 = 0 ↔ 2 ^ 2 ∣ address.toNat := by
    rw [← UInt32.toNat_inj, UInt32.toNat_and]
    exact @and_low_eq_zero _ 2
  have hadd : (address + 4).toNat = address.toNat + 4 := by
    rw [UInt32.toNat_add]
    exact Nat.mod_eq_of_lt h
  have hclear : ((address + 4) &&& 0xfffffffc).toNat = (address.toNat + 4) / 2 ^ 2 * 2 ^ 2 := by
    rw [UInt32.toNat_and, hadd]
    exact @and_clear_low _ 2 32 (by decide) h
  rw [alignWord]
  split_ifs with hrest
  · rw [hclear]
    have := mt hlow.mpr hrest
    omega
  · have := hlow.mp (not_not.mp hrest)
    omega

/-- The free area starts behind the kernel at a word boundary, and at most the rest of a word behind
the memory. -/
structure FreeArea.Ok (kernelEnd : UInt32) (area : FreeArea) : Prop where
  lower   : 0x80010000 ≤ kernelEnd.toNat
  upper   : area.memoryEnd.toNat ≤ 0xa0000000
  aligned : 4 ∣ area.start.toNat
  start   : kernelEnd.toNat ≤ area.start.toNat
  finish  : area.start.toNat < area.memoryEnd.toNat + 4

variable {kernelEnd memoryEnd res : UInt32} {area area' : FreeArea} {bytes : Int32}
  {calls : List Int32}

lemma ok_kmallocInit {ioDesc : ℕ → IoDescriptor} (hinit : kmallocInit ioDesc kernelEnd = some area)
    (haligned : 4 ∣ kernelEnd.toNat) (hlower : 0x80010000 ≤ kernelEnd)
    (hend : kernelEnd < area.memoryEnd) (hupper : area.memoryEnd ≤ 0xa0000000) :
    area.Ok kernelEnd := by
  rw [UInt32.le_iff_toNat_le] at hlower hupper
  rw [UInt32.lt_iff_toNat_lt] at hend
  change 0x80010000 ≤ _ at hlower
  change _ ≤ 0xa0000000 at hupper
  have hstart : area.start.toNat = kernelEnd.toNat := by
    rw [kmallocInit] at hinit
    cases hpages : kmallocGetNumpages ioDesc with
    | none =>
      rw [hpages] at hinit
      cases hinit
    | some numPages =>
      rw [hpages] at hinit
      cases hinit
      rw [toNat_alignWord (by omega)]
      omega
  refine ⟨hlower, hupper, ?_, hstart.ge, ?_⟩
  · rw [hstart]
    exact haligned
  · rw [hstart]
    omega

/-- What a call of `kmalloc` does that does not panic. -/
lemma kmalloc_eq_some (h : kmalloc area bytes = some (area', res)) :
    res = area.start ∧ 0 ≤ bytes ∧ area.start + bytes.toUInt32 ≤ area.memoryEnd ∧
      area' = { area with start := alignWord (area.start + bytes.toUInt32) } := by
  rw [kmalloc] at h
  split_ifs at h with hdisabled hinit hneg hmemory
  cases h
  exact ⟨rfl, Int32.not_lt.mp hneg, UInt32.not_lt.mp hmemory, rfl⟩

/-- A call whose region ends at a 32-bit address. -/
lemma toNat_start_add (hbytes : 0 ≤ bytes)
    (hfit : bytes.toNatClampNeg < 2 ^ 32 - area.start.toNat) :
    (area.start + bytes.toUInt32).toNat = area.start.toNat + bytes.toNatClampNeg := by
  rw [UInt32.toNat_add, Int32.toNat_toUInt32_of_le hbytes]
  exact Nat.mod_eq_of_lt (by omega)

namespace FreeArea.Ok

/-- A call whose region ends at a 32-bit address returns the start of the free area, which
continues behind the region. -/
lemma kmalloc (hok : area.Ok kernelEnd) (hfit : bytes.toNatClampNeg < 2 ^ 32 - area.start.toNat)
    (h : kmalloc area bytes = some (area', res)) :
    area'.Ok kernelEnd ∧ area'.memoryEnd = area.memoryEnd ∧
      area.start.toNat + bytes.toNatClampNeg ≤ area.memoryEnd.toNat ∧
      area.start.toNat + bytes.toNatClampNeg ≤ area'.start.toNat := by
  obtain ⟨-, hbytes, hmemory, rfl⟩ := kmalloc_eq_some h
  have hupper := hok.upper
  rw [UInt32.le_iff_toNat_le, toNat_start_add hbytes hfit] at hmemory
  have hstart : (alignWord (area.start + bytes.toUInt32)).toNat =
      (area.start.toNat + bytes.toNatClampNeg + 3) / 4 * 4 := by
    rw [toNat_alignWord, toNat_start_add hbytes hfit]
    rw [toNat_start_add hbytes hfit]
    omega
  refine ⟨⟨hok.lower, hupper, ?_, ?_, ?_⟩, rfl, hmemory, ?_⟩
  · rw [hstart]
    exact Nat.dvd_mul_left 4 _
  · have := hok.start
    dsimp only
    omega
  · dsimp only
    omega
  · dsimp only
    omega

/-- A call whose region does not end at a 32-bit address does not panic. -/
lemma kmalloc_of_large (hok : area.Ok kernelEnd) (hend : kernelEnd.toNat < area.memoryEnd.toNat)
    (hbytes : 0 ≤ bytes) (hlarge : ¬ bytes.toNatClampNeg < 2 ^ 32 - area.start.toNat) :
    ∃ area', Osm.Kernel.kmalloc area bytes = some (area', area.start) := by
  have hlower := hok.lower
  have hupper := hok.upper
  have hstart := hok.start
  have hfinish := hok.finish
  have hmax : bytes.toNatClampNeg < 2 ^ 31 := Int32.toNatClampNeg_lt bytes
  have hdisabled : area.start ≠ 0xffffffff := by
    intro h
    have : area.start.toNat = 0xffffffff := by rw [h]; rfl
    omega
  have hinit : area.start ≠ 0 := by
    intro h
    have : area.start.toNat = 0 := by rw [h]; rfl
    omega
  have hwrap : (area.start + bytes.toUInt32).toNat =
      area.start.toNat + bytes.toNatClampNeg - 2 ^ 32 := by
    rw [UInt32.toNat_add, Int32.toNat_toUInt32_of_le hbytes]
    omega
  have hmemory : ¬ area.start + bytes.toUInt32 > area.memoryEnd := by
    rw [gt_iff_lt, UInt32.lt_iff_toNat_lt, hwrap]
    omega
  rw [Osm.Kernel.kmalloc, if_neg hdisabled, if_neg hinit, if_neg (Int32.not_lt.mpr hbytes),
    if_neg hmemory]
  exact ⟨_, rfl⟩

end FreeArea.Ok

/-! ### Sequences of calls -/

/-- The regions start where the free area starts, or behind. -/
lemma FreeArea.Ok.permanentRegions (hok : area.Ok kernelEnd) (hfit : RequestsFit area calls) :
    PermanentRegions kernelEnd area.memoryEnd (kmallocs area calls) ∧
      ∀ region ∈ kmallocs area calls, area.start.toNat ≤ region.address.toNat := by
  induction calls generalizing area with
  | nil => exact ⟨⟨List.forall_mem_nil _, List.forall_mem_nil _, .nil⟩, List.forall_mem_nil _⟩
  | cons bytes calls ih =>
    obtain ⟨hbytes, hrest⟩ := hfit
    rw [kmallocs]
    cases hcall : Osm.Kernel.kmalloc area bytes with
    | none => exact ⟨⟨List.forall_mem_nil _, List.forall_mem_nil _, .nil⟩, List.forall_mem_nil _⟩
    | some result =>
      obtain ⟨area', res⟩ := result
      obtain ⟨rfl, -, -, -⟩ := kmalloc_eq_some hcall
      obtain ⟨hok', hmemory, hinside, hbehind⟩ := hok.kmalloc hbytes hcall
      obtain ⟨hregions, hstart⟩ := ih hok' (hrest _ _ hcall)
      rw [hmemory] at hregions
      refine ⟨⟨?_, ?_, ?_⟩, ?_⟩
      · exact List.forall_mem_cons.mpr ⟨hok.aligned, hregions.aligned⟩
      · exact List.forall_mem_cons.mpr ⟨⟨hok.start, hinside⟩, hregions.inside⟩
      · refine List.pairwise_cons.mpr ⟨fun region hregion => ?_, hregions.disjoint⟩
        refine Set.disjoint_left.mpr fun x hx hx' => ?_
        have := hstart region hregion
        have := hx.2
        have := hx'.1
        dsimp only at *
        omega
      · refine List.forall_mem_cons.mpr ⟨le_rfl, fun region hregion => ?_⟩
        have := hstart region hregion
        omega

/-- A request that is too large gets a region that leaves the memory. -/
lemma FreeArea.Ok.requestsFit (hok : area.Ok kernelEnd)
    (hend : kernelEnd.toNat < area.memoryEnd.toNat) (hcalls : ∀ bytes ∈ calls, 0 ≤ bytes)
    (h : PermanentRegions kernelEnd area.memoryEnd (kmallocs area calls)) :
    RequestsFit area calls := by
  induction calls generalizing area with
  | nil => trivial
  | cons bytes calls ih =>
    obtain ⟨hbytes, hcalls⟩ := List.forall_mem_cons.mp hcalls
    rw [kmallocs] at h
    have hfit : bytes.toNatClampNeg < 2 ^ 32 - area.start.toNat := by
      by_contra hlarge
      obtain ⟨area', hcall⟩ := hok.kmalloc_of_large hend hbytes hlarge
      rw [hcall] at h
      have hinside := (h.inside _ List.mem_cons_self).2
      have hupper := hok.upper
      dsimp only at hinside
      omega
    refine ⟨hfit, fun area' res hcall => ?_⟩
    obtain ⟨hok', hmemory, -, -⟩ := hok.kmalloc hfit hcall
    rw [hcall] at h
    rw [← hmemory] at h hend
    refine ih hok' hend hcalls ⟨?_, ?_, ?_⟩
    · exact (List.forall_mem_cons.mp h.aligned).2
    · exact (List.forall_mem_cons.mp h.inside).2
    · exact (List.pairwise_cons.mp h.disjoint).2

/-- The regions that a sequence of calls of `kmalloc` returns are aligned, inside the memory and
disjoint if and only if no request is too large for a 32-bit address. -/
theorem permanentRegions_iff {ioDesc : ℕ → IoDescriptor}
    (hinit : kmallocInit ioDesc kernelEnd = some area) (haligned : 4 ∣ kernelEnd.toNat)
    (hlower : 0x80010000 ≤ kernelEnd) (hend : kernelEnd < area.memoryEnd)
    (hupper : area.memoryEnd ≤ 0xa0000000) (hcalls : ∀ bytes ∈ calls, 0 ≤ bytes) :
    PermanentRegions kernelEnd area.memoryEnd (kmallocs area calls) ↔ RequestsFit area calls := by
  have hok := ok_kmallocInit hinit haligned hlower hend hupper
  exact ⟨hok.requestsFit (UInt32.lt_iff_toNat_lt.mp hend) hcalls,
    fun hfit => (hok.permanentRegions hfit).1⟩

/-- A system with 256 pages of memory. -/
def smallMachine : ℕ → IoDescriptor := fun _ => ⟨yamsTypecodeMeminfo, 256⟩

/-- Two requests in a small system. -/
theorem permanentRegions_small :
    ∃ area, kmallocInit smallMachine 0x80040000 = some area ∧
      PermanentRegions 0x80040000 area.memoryEnd (kmallocs area [10, 20]) := by
  refine ⟨⟨0x80040000, 0x80100000⟩, by decide, ?_⟩
  refine (@permanentRegions_iff _ _ _ smallMachine (by decide) (by decide) (by decide) (by decide)
    (by decide) (by simp)).mpr ⟨by decide, fun area' res h => ⟨?_, fun _ _ _ => trivial⟩⟩
  cases h
  decide

/-- A request for the rest of the 32-bit addresses gets a region that leaves the memory. -/
theorem permanentRegions_large :
    ∃ area, kmallocInit smallMachine 0x80040000 = some area ∧
      (kmallocs area [0x7ffc0000]).length = 1 ∧
      ¬ PermanentRegions 0x80040000 area.memoryEnd (kmallocs area [0x7ffc0000]) := by
  refine ⟨⟨0x80040000, 0x80100000⟩, by decide, by decide, fun h => ?_⟩
  have hinside := (h.inside ⟨0x80040000, 0x7ffc0000⟩ (by decide)).2
  exact absurd hinside (by decide)

end Osm.Kernel
