import Osm.Vm.PageTable

/-!
# TLB exceptions

A model of `vm/tlb.c`. A TLB exception either writes an entry of the page table of the current
thread to a random place in the TLB, or it finishes the current process, or it panics.
`process_finish` does not return, so a handler ends with the call of it.
-/

namespace Osm.Vm

/-- How the handling of a TLB exception ends. -/
inductive TlbOutcome where
  | writeRandom (entry : TlbEntry)
  | processFinish (retval : ℕ)
  | kernelPanic (msg : String)

/-- `tlb_exception_state_t`. -/
structure TlbExceptionState where
  badvaddr : UInt32
  badvpn2  : ℕ
  asid     : ℕ

/-- `_tlb_get_exception_state`: the hardware splits the address of the access. -/
def tlbGetExceptionState (vaddr : UInt32) (asid : ℕ) : TlbExceptionState where
  badvaddr := vaddr
  badvpn2  := vpn2 vaddr
  asid     := asid

/-- `tlb_error`. -/
def tlbError (isUserland : Bool) (msg : String) : TlbOutcome :=
  if isUserland then .processFinish 255 else .kernelPanic msg

/-- `tlb_entry_is_valid`. -/
def tlbEntryIsValid (entry : TlbEntry) (vaddr : UInt32) : Bool :=
  (entry.lo (addrIsOnOddPage vaddr)).v

/-- `tlb_access_exception`. The loop over the entries ends at the first one for the pair. -/
def tlbAccessException (isUserland : Bool) (ptable : Option Pagetable)
    (tes : TlbExceptionState) : TlbOutcome :=
  match ptable with
  | none        => tlbError isUserland "No pagetable associated with current thread."
  | some ptable =>
    match findPair ptable tes.badvpn2 with
    | some i =>
      if tlbEntryIsValid (ptable.entries i) tes.badvaddr then .writeRandom (ptable.entries i)
      else
        tlbError isUserland "Found an invalid TLB entry while handling a TLB miss exception."
    | none   => .kernelPanic "Page not found in pagetable."

/-- `tlb_load_exception`. -/
def tlbLoadException (isUserland : Bool) (ptable : Option Pagetable)
    (tes : TlbExceptionState) : TlbOutcome :=
  tlbAccessException isUserland ptable tes

/-- `tlb_store_exception`. -/
def tlbStoreException (isUserland : Bool) (ptable : Option Pagetable)
    (tes : TlbExceptionState) : TlbOutcome :=
  tlbAccessException isUserland ptable tes

/-- A TLB exception is contained: the TLB gets the valid entry of the page table for the address,
or the process is finished. -/
def Contained (table : Pagetable) (vaddr : UInt32) : TlbOutcome → Prop
  | .writeRandom entry => (∃ i < table.validCount, entry = table.entries i) ∧
    entry.vpn2 = vpn2 vaddr ∧ tlbEntryIsValid entry vaddr = true
  | .processFinish _   => True
  | .kernelPanic _     => False


variable {table : Pagetable} {vaddr : UInt32} {i : ℕ}

/-- A valid entry is written, and an invalid one is an error. -/
lemma tlbAccessException_of_found (h : findPair table (vpn2 vaddr) = some i)
    (isUserland : Bool) (asid : ℕ) :
    tlbAccessException isUserland (some table) (tlbGetExceptionState vaddr asid) =
      if (lookup table vaddr).isSome then .writeRandom (table.entries i)
      else tlbError isUserland
        "Found an invalid TLB entry while handling a TLB miss exception." := by
  simp only [tlbAccessException, tlbGetExceptionState, h, lookup_isSome_of_found h]
  rfl

/-- Without an entry for the pair the kernel panics, also for an access of a user program. -/
lemma tlbAccessException_of_not_found (h : findPair table (vpn2 vaddr) = none)
    (isUserland : Bool) (asid : ℕ) :
    tlbAccessException isUserland (some table) (tlbGetExceptionState vaddr asid) =
      .kernelPanic "Page not found in pagetable." := by
  simp only [tlbAccessException, tlbGetExceptionState, h]

/-- An entry that is written to the TLB is the valid one of the page table for the address. -/
lemma tlbAccessException_writeRandom {isUserland : Bool} {asid : ℕ} {entry : TlbEntry}
    (h : tlbAccessException isUserland (some table) (tlbGetExceptionState vaddr asid) =
      .writeRandom entry) : ∃ i < table.validCount, (table.entries i).vpn2 = vpn2 vaddr ∧
        tlbEntryIsValid (table.entries i) vaddr = true ∧ entry = table.entries i := by
  cases hfind : findPair table (vpn2 vaddr) with
  | none =>
    rw [tlbAccessException_of_not_found hfind] at h
    cases h
  | some i =>
    obtain ⟨hi, hpair⟩ := findPair_some hfind
    rw [tlbAccessException_of_found hfind] at h
    split_ifs at h with hvalid
    · cases h
      rw [lookup_isSome_of_found hfind] at hvalid
      exact ⟨i, hi, hpair, hvalid, rfl⟩
    · cases isUserland <;> cases h

lemma contained_iff_mem_pairs (asid : ℕ) :
    Contained table vaddr
      (tlbAccessException true (some table) (tlbGetExceptionState vaddr asid)) ↔
      vpn2 vaddr ∈ table.pairs := by
  cases hfind : findPair table (vpn2 vaddr) with
  | none =>
    rw [tlbAccessException_of_not_found hfind, Contained]
    simp [findPair_eq_none_iff_notMem.mp hfind]
  | some i =>
    have hmem := mem_pairs_of_found hfind
    obtain ⟨hi, hpair⟩ := findPair_some hfind
    rw [tlbAccessException_of_found hfind]
    split_ifs with hv
    · rw [lookup_isSome_of_found hfind] at hv
      exact iff_of_true ⟨⟨i, hi, rfl⟩, hpair, hv⟩ hmem
    · exact iff_of_true trivial hmem

/-- For every page table and every address, a TLB load or store exception of a user program is
contained exactly when a page of the pair that the address is in was passed to `vm_map`. -/
theorem userFault_contained_iff {asid : ℕ} {garbage : ℕ → TlbEntry} {calls : List PageCall}
    (h : Built asid garbage calls table) (vaddr : UInt32) :
    (Contained table vaddr
      (tlbLoadException true (some table) (tlbGetExceptionState vaddr asid)) ∧
     Contained table vaddr
      (tlbStoreException true (some table) (tlbGetExceptionState vaddr asid))) ↔
      vpn2 vaddr ∈ mappedPairs calls := by
  rw [tlbLoadException, tlbStoreException, and_self, contained_iff_mem_pairs, h.mapsCalls.pairs]

/-- With only the second page mapped, an access to it goes on and one to address 0 is fatal for
the process. -/
theorem userFault_contained_iff_oddPage : ∃ table,
    Built 3 leftover [.map 0x5000 0x1000 true] table ∧
    tlbStoreException true (some table) (tlbGetExceptionState 0 3) = .processFinish 255 ∧
    ((Contained table 0x1abc
        (tlbLoadException true (some table) (tlbGetExceptionState 0x1abc 3)) ∧
      Contained table 0x1abc
        (tlbStoreException true (some table) (tlbGetExceptionState 0x1abc 3))) ↔
      vpn2 0x1abc ∈ mappedPairs [.map 0x5000 0x1000 true]) := by
  have hmap : Built 3 leftover ([] ++ [.map 0x5000 0x1000 true]) _ := .call .create rfl
  exact ⟨_, hmap, rfl, userFault_contained_iff hmap 0x1abc⟩

/-- A program that has only the page at `0x5000` mapped panics the kernel by a store to the null
pointer. -/
theorem nullStore_panics : ∃ table, Built 3 leftover [.map 0x8000 0x5000 true] table ∧
    tlbStoreException true (some table) (tlbGetExceptionState 0 3) =
      .kernelPanic "Page not found in pagetable." ∧
    ¬ Contained table 0 (tlbStoreException true (some table) (tlbGetExceptionState 0 3)) := by
  have hmap : Built 3 leftover ([] ++ [.map 0x8000 0x5000 true]) _ := .call .create rfl
  exact ⟨_, hmap, rfl, id⟩

end Osm.Vm
