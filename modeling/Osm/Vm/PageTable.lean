import Mathlib.Algebra.Order.Ring.Int
import Mathlib.Data.Finset.Card
import Mathlib.Data.Finset.Image
import Mathlib.Data.Nat.Bitwise
import Mathlib.Logic.Function.Basic

/-!
# Page tables

A model of `vm/vm.c`. An entry of a page table maps a pair of virtual pages, an even and an odd
one, in the format of the TLB. A table is filled from its first entry on; what is in the entries
behind the last valid one is left over from an earlier use of the memory.

A result `none` stands for a panic of the kernel.
-/

namespace Osm.Vm

/-- `PAGE_SIZE`. -/
def pageSize : ℕ := 4096

/-- `PAGETABLE_ENTRIES`. -/
def pagetableEntries : ℕ := 340

/-- One half of a TLB entry: the fields `PFN0`, `D0`, `V0` and `G0`, or those of the odd page. -/
structure EntryLo where
  pfn : ℕ
  d   : Bool
  v   : Bool
  g   : Bool
  deriving DecidableEq

/-- `tlb_entry_t`. The halves are for the even and for the odd page of the pair. -/
structure TlbEntry where
  vpn2 : ℕ
  asid : ℕ
  lo   : Bool → EntryLo

/-- `pagetable_t`. -/
structure Pagetable where
  asid       : ℕ
  validCount : ℕ
  entries    : ℕ → TlbEntry

/-- `vaddr >> 13`. -/
def vpn2 (vaddr : UInt32) : ℕ := (vaddr >>> 13).toNat

/-- `ADDR_IS_ON_ODD_PAGE`. -/
def addrIsOnOddPage (vaddr : UInt32) : Bool := vaddr &&& 0x1000 ≠ 0

/-- The first valid entry for a pair of pages. -/
def findPair (table : Pagetable) (pair : ℕ) : Option ℕ :=
  (List.range table.validCount).find? fun i => (table.entries i).vpn2 = pair

/-- The half of an entry that maps a page. -/
def mappedLo (physaddr : UInt32) (dirty : Bool) : EntryLo where
  pfn := (physaddr >>> 12).toNat
  d   := dirty
  v   := true
  g   := false

/-- Replace a half of an entry. -/
def TlbEntry.setLo (entry : TlbEntry) (odd : Bool) (lo : EntryLo) : TlbEntry :=
  { entry with lo := Function.update entry.lo odd lo }

/-- Replace an entry. -/
def Pagetable.setEntry (table : Pagetable) (i : ℕ) (entry : TlbEntry) : Pagetable :=
  { table with entries := Function.update table.entries i entry }

/-- `vm_create_pagetable`, in a page with arbitrary contents. -/
def vmCreatePagetable (asid : ℕ) (garbage : ℕ → TlbEntry) : Pagetable where
  asid       := asid
  validCount := 0
  entries    := garbage

/-- The new entry of `vm_map`. The page number and the write enabling bit of the other half are
left as they are. -/
def newEntry (table : Pagetable) (physaddr vaddr : UInt32) (dirty : Bool) : TlbEntry :=
  let odd := addrIsOnOddPage vaddr
  let old := table.entries table.validCount
  let entry := { old with vpn2 := vpn2 vaddr, asid := table.asid % 256 }
  (entry.setLo odd (mappedLo physaddr dirty)).setLo (!odd) { old.lo (!odd) with v := false }

/-- `vm_map`. The loop over the entries is left at the first one for the pair. -/
def vmMap (table : Pagetable) (physaddr vaddr : UInt32) (dirty : Bool) : Option Pagetable :=
  let odd := addrIsOnOddPage vaddr
  match findPair table (vpn2 vaddr) with
  | some i =>
    if ((table.entries i).lo odd).v then none
    else some (table.setEntry i ((table.entries i).setLo odd (mappedLo physaddr dirty)))
  | none   =>
    if table.validCount ≥ pagetableEntries then none
    else
      some { table.setEntry table.validCount (newEntry table physaddr vaddr dirty) with
        validCount := table.validCount + 1 }

/-- `vm_set_dirty`. -/
def vmSetDirty (table : Pagetable) (vaddr : UInt32) (dirty : Bool) : Option Pagetable :=
  let odd := addrIsOnOddPage vaddr
  match findPair table (vpn2 vaddr) with
  | some i =>
    let lo := (table.entries i).lo odd
    if lo.v then some (table.setEntry i ((table.entries i).setLo odd { lo with d := dirty }))
    else none
  | none   => none

/-! ### What a table maps -/

/-- Where a half maps its page, if it does: the page frame and the write enabling bit. -/
def EntryLo.target (lo : EntryLo) : Option (ℕ × Bool) :=
  if lo.v then some (lo.pfn, lo.d) else none

/-- Where a page of a pair is mapped, according to the first entry for the pair. -/
def lookupPair (table : Pagetable) (pair : ℕ) (odd : Bool) : Option (ℕ × Bool) :=
  (findPair table pair).bind fun i => ((table.entries i).lo odd).target

/-- Where a virtual address is mapped. -/
def lookup (table : Pagetable) (vaddr : UInt32) : Option (ℕ × Bool) :=
  lookupPair table (vpn2 vaddr) (addrIsOnOddPage vaddr)

/-- The pairs of pages that have an entry. -/
def Pagetable.pairs (table : Pagetable) : Finset ℕ :=
  (Finset.range table.validCount).image fun i => (table.entries i).vpn2

/-- The number of the virtual page of an address. -/
def pageOf (vaddr : UInt32) : ℕ := vaddr.toNat / pageSize


lemma addrIsOnOddPage_iff (vaddr : UInt32) :
    addrIsOnOddPage vaddr = true ↔ vaddr.toNat / 4096 % 2 = 1 := by
  have hmask : (vaddr &&& 0x1000).toNat = 2 ^ 12 * (vaddr.toNat / 2 ^ 12 % 2) := by
    have hbit := Nat.and_two_pow vaddr.toNat 12
    rw [Nat.toNat_testBit, Nat.mul_comm] at hbit
    rw [UInt32.toNat_and]
    exact hbit
  rw [addrIsOnOddPage, decide_eq_true_iff, ne_eq, ← UInt32.toNat_inj, hmask, UInt32.toNat_zero]
  omega

lemma vpn2_eq (vaddr : UInt32) : vpn2 vaddr = vaddr.toNat / 8192 := by
  rw [vpn2, UInt32.toNat_shiftRight]
  exact Nat.shiftRight_eq_div_pow vaddr.toNat 13

/-- Addresses on the same page are in the same half of the same pair. -/
lemma pageOf_eq_iff (vaddr vaddr' : UInt32) : pageOf vaddr' = pageOf vaddr ↔
    vpn2 vaddr' = vpn2 vaddr ∧ addrIsOnOddPage vaddr' = addrIsOnOddPage vaddr := by
  rw [pageOf, pageOf, vpn2_eq, vpn2_eq, Bool.eq_iff_iff, addrIsOnOddPage_iff, addrIsOnOddPage_iff,
    pageSize]
  omega

@[simp]
lemma mappedLo_target (physaddr : UInt32) (dirty : Bool) :
    (mappedLo physaddr dirty).target = some ((physaddr >>> 12).toNat, dirty) := rfl

lemma EntryLo.target_isSome (lo : EntryLo) : lo.target.isSome = lo.v := by
  rw [target]
  cases lo.v <;> rfl

/-- The entries in use are for different pairs, and each of them maps a page. -/
structure PagetableOk (table : Pagetable) : Prop where
  count_le : table.validCount ≤ pagetableEntries
  distinct : ∀ i < table.validCount, ∀ j < table.validCount,
    (table.entries i).vpn2 = (table.entries j).vpn2 → i = j
  used     : ∀ i < table.validCount, ∃ odd, ((table.entries i).lo odd).v = true
  asid     : ∀ i < table.validCount, (table.entries i).asid = table.asid % 256

variable {table table' : Pagetable} {pair : ℕ} {odd dirty : Bool} {i : ℕ}
  {physaddr vaddr : UInt32} {entry : TlbEntry}

lemma findPair_some (h : findPair table pair = some i) :
    i < table.validCount ∧ (table.entries i).vpn2 = pair := by
  have hpair := List.find?_some h
  exact ⟨List.mem_range.mp (List.mem_of_find?_eq_some h), of_decide_eq_true hpair⟩

lemma findPair_eq_none_iff :
    findPair table pair = none ↔ ∀ i < table.validCount, (table.entries i).vpn2 ≠ pair := by
  simp [findPair]

lemma findPair_eq_none_iff_notMem : findPair table pair = none ↔ pair ∉ table.pairs := by
  simp [findPair_eq_none_iff, Pagetable.pairs]

lemma mem_pairs_of_found (h : findPair table pair = some i) : pair ∈ table.pairs := by
  obtain ⟨hi, hpair⟩ := findPair_some h
  rw [← hpair]
  exact Finset.mem_image_of_mem _ (Finset.mem_range.mpr hi)

lemma lookupPair_of_found (h : findPair table pair = some i) :
    lookupPair table pair odd = ((table.entries i).lo odd).target := by
  rw [lookupPair, h]
  rfl

lemma lookupPair_of_not_found (h : findPair table pair = none) :
    lookupPair table pair odd = none := by
  rw [lookupPair, h]
  rfl

lemma mem_pairs_of_lookup {target : ℕ × Bool} (h : lookup table vaddr = some target) :
    vpn2 vaddr ∈ table.pairs := by
  by_contra hnot
  rw [lookup, lookupPair_of_not_found (findPair_eq_none_iff_notMem.mpr hnot)] at h
  cases h

lemma lookup_congr {vaddr' : UInt32} (h : pageOf vaddr' = pageOf vaddr) :
    lookup table vaddr' = lookup table vaddr := by
  obtain ⟨hpair, hodd⟩ := (pageOf_eq_iff vaddr vaddr').mp h
  rw [lookup, lookup, hpair, hodd]

namespace PagetableOk

lemma findPair_eq (h : PagetableOk table) (hi : i < table.validCount)
    (hpair : (table.entries i).vpn2 = pair) : findPair table pair = some i := by
  cases hfind : findPair table pair with
  | none => exact absurd hpair (findPair_eq_none_iff.mp hfind i hi)
  | some j =>
    obtain ⟨hj, hjpair⟩ := findPair_some hfind
    rw [h.distinct j hj i hi (hjpair.trans hpair.symm)]

lemma card_pairs (h : PagetableOk table) : table.pairs.card = table.validCount := by
  rw [Pagetable.pairs, Finset.card_image_of_injOn, Finset.card_range]
  intro i hi j hj hij
  exact h.distinct i (Finset.mem_range.mp hi) j (Finset.mem_range.mp hj) hij

end PagetableOk

lemma vmCreatePagetable_ok (asid : ℕ) (garbage : ℕ → TlbEntry) :
    PagetableOk (vmCreatePagetable asid garbage) where
  count_le := Nat.zero_le _
  distinct i hi := absurd hi (Nat.not_lt_zero i)
  used i hi     := absurd hi (Nat.not_lt_zero i)
  asid i hi     := absurd hi (Nat.not_lt_zero i)

/-! ### Changing an entry -/

@[simp]
lemma setLo_lo_self (entry : TlbEntry) (odd : Bool) (lo : EntryLo) :
    (entry.setLo odd lo).lo odd = lo := Function.update_self ..

lemma setLo_lo (entry : TlbEntry) {odd odd' : Bool} (lo : EntryLo) (h : odd' ≠ odd) :
    (entry.setLo odd lo).lo odd' = entry.lo odd' := Function.update_of_ne h ..

@[simp]
lemma setEntry_self (table : Pagetable) (i : ℕ) (entry : TlbEntry) :
    (table.setEntry i entry).entries i = entry := Function.update_self ..

lemma setEntry_ne (table : Pagetable) {i j : ℕ} (entry : TlbEntry) (h : j ≠ i) :
    (table.setEntry i entry).entries j = table.entries j := Function.update_of_ne h ..

lemma setEntry_vpn2 (h : entry.vpn2 = (table.entries i).vpn2) (j : ℕ) :
    ((table.setEntry i entry).entries j).vpn2 = (table.entries j).vpn2 := by
  by_cases hj : j = i
  · rw [hj, setEntry_self, h]
  · rw [setEntry_ne table entry hj]

/-- Replacing an entry by one for the same pair does not change the search. -/
lemma findPair_setEntry (h : entry.vpn2 = (table.entries i).vpn2) (pair : ℕ) :
    findPair (table.setEntry i entry) pair = findPair table pair := by
  rw [findPair]
  simp_rw [setEntry_vpn2 h]
  rfl

lemma pairs_setEntry (h : entry.vpn2 = (table.entries i).vpn2) :
    (table.setEntry i entry).pairs = table.pairs := by
  rw [Pagetable.pairs]
  simp_rw [setEntry_vpn2 h]
  rfl

/-- Replace the half for the page of an address in an entry. -/
def Pagetable.setHalf (table : Pagetable) (i : ℕ) (vaddr : UInt32) (lo : EntryLo) : Pagetable :=
  table.setEntry i ((table.entries i).setLo (addrIsOnOddPage vaddr) lo)

lemma lookup_setHalf {lo : EntryLo} (hfind : findPair table (vpn2 vaddr) = some i) (v : UInt32) :
    lookup (table.setHalf i vaddr lo) v =
      if pageOf v = pageOf vaddr then lo.target else lookup table v := by
  have hvpn2 : ((table.entries i).setLo (addrIsOnOddPage vaddr) lo).vpn2 =
      (table.entries i).vpn2 := rfl
  have hsame : ∀ pair, findPair (table.setHalf i vaddr lo) pair = findPair table pair :=
    findPair_setEntry hvpn2
  split_ifs with hpage
  · rw [lookup_congr hpage, lookup, lookupPair_of_found ((hsame _).trans hfind),
      Pagetable.setHalf, setEntry_self, setLo_lo_self]
  · cases hv : findPair table (vpn2 v) with
    | none =>
      rw [lookup, lookup, lookupPair_of_not_found hv, lookupPair_of_not_found ((hsame _).trans hv)]
    | some j =>
      rw [lookup, lookup, lookupPair_of_found hv, lookupPair_of_found ((hsame _).trans hv),
        Pagetable.setHalf]
      by_cases hj : j = i
      · -- the same pair, so the address is in the other half
        subst hj
        have hpair : vpn2 v = vpn2 vaddr :=
          (findPair_some hv).2.symm.trans (findPair_some hfind).2
        have hodd : addrIsOnOddPage v ≠ addrIsOnOddPage vaddr :=
          fun hodd => hpage ((pageOf_eq_iff vaddr v).mpr ⟨hpair, hodd⟩)
        rw [setEntry_self, setLo_lo _ _ hodd]
      · rw [setEntry_ne _ _ hj]

lemma PagetableOk.setHalf {lo : EntryLo} (h : PagetableOk table) (hv : lo.v = true) :
    PagetableOk (table.setHalf i vaddr lo) where
  count_le := h.count_le
  distinct j hj k hk hjk := by
    rw [Pagetable.setHalf, setEntry_vpn2 (by rfl), setEntry_vpn2 (by rfl)] at hjk
    exact h.distinct j hj k hk hjk
  used j hj := by
    by_cases hji : j = i
    · use addrIsOnOddPage vaddr
      rw [hji, Pagetable.setHalf, setEntry_self, setLo_lo_self, hv]
    · rw [Pagetable.setHalf, setEntry_ne _ _ hji]
      exact h.used j hj
  asid j hj := by
    by_cases hji : j = i
    · subst hji
      rw [Pagetable.setHalf, setEntry_self]
      exact h.asid j hj
    · rw [Pagetable.setHalf, setEntry_ne _ _ hji]
      exact h.asid j hj

/-- Add an entry behind the entries in use. -/
def Pagetable.push (table : Pagetable) (entry : TlbEntry) : Pagetable :=
  { table.setEntry table.validCount entry with validCount := table.validCount + 1 }

@[simp]
lemma push_last (table : Pagetable) (entry : TlbEntry) :
    (table.push entry).entries table.validCount = entry := Function.update_self ..

lemma push_lt (entry : TlbEntry) (hi : i < table.validCount) :
    (table.push entry).entries i = table.entries i := Function.update_of_ne hi.ne ..

lemma findPair_push (table : Pagetable) (entry : TlbEntry) (pair : ℕ) :
    findPair (table.push entry) pair =
      (findPair table pair).or (if entry.vpn2 = pair then some table.validCount else none) := by
  have hcount : (table.push entry).validCount = table.validCount + 1 := rfl
  rw [findPair, hcount, List.range_succ, List.find?_append]
  congr 1
  · rw [findPair, ← List.head?_filter, ← List.head?_filter]
    congr 1
    apply List.filter_congr
    intro i hi
    rw [push_lt entry (List.mem_range.mp hi)]
  · rw [List.find?_singleton, push_last]
    simp only [decide_eq_true_eq]

lemma pairs_push (table : Pagetable) (entry : TlbEntry) :
    (table.push entry).pairs = insert entry.vpn2 table.pairs := by
  have hcount : (table.push entry).validCount = table.validCount + 1 := rfl
  rw [Pagetable.pairs, hcount, Finset.range_add_one, Finset.image_insert, push_last]
  congr 1
  apply Finset.image_congr
  intro i hi
  exact congrArg TlbEntry.vpn2 (push_lt entry (Finset.mem_range.mp hi))

lemma newEntry_lo (table : Pagetable) (physaddr vaddr : UInt32) (dirty odd : Bool) :
    ((newEntry table physaddr vaddr dirty).lo odd).target =
      if odd = addrIsOnOddPage vaddr then some ((physaddr >>> 12).toNat, dirty) else none := by
  rw [newEntry]
  split_ifs with hodd
  · rw [setLo_lo _ _ (by simp [hodd]), hodd, setLo_lo_self, mappedLo_target]
  · rw [Bool.eq_not.mpr hodd, setLo_lo_self]
    rfl

lemma lookup_push_newEntry (hfind : findPair table (vpn2 vaddr) = none) (v : UInt32) :
    lookup (table.push (newEntry table physaddr vaddr dirty)) v =
      if pageOf v = pageOf vaddr then some ((physaddr >>> 12).toNat, dirty)
      else lookup table v := by
  have hnew : (newEntry table physaddr vaddr dirty).vpn2 = vpn2 vaddr := rfl
  have hsearch := findPair_push table (newEntry table physaddr vaddr dirty) (vpn2 v)
  rw [hnew] at hsearch
  by_cases hpair : vpn2 v = vpn2 vaddr
  · rw [if_pos hpair.symm, hpair, hfind, Option.none_or] at hsearch
    have hpage : pageOf v = pageOf vaddr ↔ addrIsOnOddPage v = addrIsOnOddPage vaddr := by
      simp [pageOf_eq_iff, hpair]
    rw [lookup, hpair, lookupPair_of_found hsearch, push_last, newEntry_lo, lookup, hpair,
      lookupPair_of_not_found hfind]
    simp only [hpage]
  · have hpage : pageOf v ≠ pageOf vaddr := fun h => hpair ((pageOf_eq_iff vaddr v).mp h).1
    rw [if_neg (Ne.symm hpair), Option.or_none] at hsearch
    rw [if_neg hpage, lookup, lookup, lookupPair, lookupPair, hsearch]
    cases hv : findPair table (vpn2 v) with
    | none => rfl
    | some j =>
      rw [Option.bind_some, Option.bind_some, push_lt _ (findPair_some hv).1]

lemma PagetableOk.push_newEntry (h : PagetableOk table)
    (hfind : findPair table (vpn2 vaddr) = none) (hcount : table.validCount < pagetableEntries) :
    PagetableOk (table.push (newEntry table physaddr vaddr dirty)) := by
  have hfresh := findPair_eq_none_iff.mp hfind
  -- an entry of the new table is an old one or the last one
  have hcases : ∀ {j}, j < (table.push (newEntry table physaddr vaddr dirty)).validCount →
      j < table.validCount ∨ j = table.validCount := fun hj => Nat.lt_succ_iff_lt_or_eq.mp hj
  constructor
  · exact hcount
  · intro j hj k hk hjk
    rcases hcases hj with hj | rfl <;> rcases hcases hk with hk | rfl
    · rw [push_lt _ hj, push_lt _ hk] at hjk
      exact h.distinct j hj k hk hjk
    · rw [push_lt _ hj, push_last] at hjk
      exact absurd hjk (hfresh j hj)
    · rw [push_lt _ hk, push_last] at hjk
      exact absurd hjk.symm (hfresh k hk)
    · rfl
  · intro j hj
    rcases hcases hj with hj | rfl
    · rw [push_lt _ hj]
      exact h.used j hj
    · use addrIsOnOddPage vaddr
      rw [← EntryLo.target_isSome, push_last, newEntry_lo, if_pos rfl, Option.isSome_some]
  · intro j hj
    rcases hcases hj with hj | rfl
    · rw [push_lt _ hj]
      exact h.asid j hj
    · rw [push_last]
      rfl

/-! ### The calls -/

lemma lookup_isSome_of_found (hfind : findPair table (vpn2 vaddr) = some i) :
    (lookup table vaddr).isSome = ((table.entries i).lo (addrIsOnOddPage vaddr)).v := by
  rw [lookup, lookupPair_of_found hfind, EntryLo.target_isSome]

lemma vmMap_cases (h : vmMap table physaddr vaddr dirty = some table') :
    (∃ i, findPair table (vpn2 vaddr) = some i ∧
      table' = table.setHalf i vaddr (mappedLo physaddr dirty)) ∨
    (findPair table (vpn2 vaddr) = none ∧ table.validCount < pagetableEntries ∧
      table' = table.push (newEntry table physaddr vaddr dirty)) := by
  simp only [vmMap] at h
  split at h
  case h_1 i hfind =>
    split_ifs at h
    exact .inl ⟨i, hfind, (Option.some.inj h).symm⟩
  case h_2 hfind =>
    split_ifs at h with hcount
    exact .inr ⟨hfind, Nat.lt_of_not_le hcount, (Option.some.inj h).symm⟩

lemma vmSetDirty_cases (h : vmSetDirty table vaddr dirty = some table') :
    ∃ i, findPair table (vpn2 vaddr) = some i ∧
      ((table.entries i).lo (addrIsOnOddPage vaddr)).v = true ∧
      table' = table.setHalf i vaddr
        { (table.entries i).lo (addrIsOnOddPage vaddr) with d := dirty } := by
  simp only [vmSetDirty] at h
  split at h
  case h_1 i hfind =>
    split_ifs at h with hv
    exact ⟨i, hfind, hv, (Option.some.inj h).symm⟩
  case h_2 => cases h

lemma vmMap_ok (hok : PagetableOk table) (h : vmMap table physaddr vaddr dirty = some table') :
    PagetableOk table' := by
  obtain ⟨i, -, rfl⟩ | ⟨hfind, hcount, rfl⟩ := vmMap_cases h
  · exact hok.setHalf rfl
  · exact hok.push_newEntry hfind hcount

lemma vmSetDirty_ok (hok : PagetableOk table) (h : vmSetDirty table vaddr dirty = some table') :
    PagetableOk table' := by
  obtain ⟨i, -, hv, rfl⟩ := vmSetDirty_cases h
  exact hok.setHalf hv

lemma vmMap_lookup (h : vmMap table physaddr vaddr dirty = some table') (v : UInt32) :
    lookup table' v =
      if pageOf v = pageOf vaddr then some ((physaddr >>> 12).toNat, dirty)
      else lookup table v := by
  obtain ⟨i, hfind, rfl⟩ | ⟨hfind, -, rfl⟩ := vmMap_cases h
  · rw [lookup_setHalf hfind, mappedLo_target]
  · exact lookup_push_newEntry hfind v

lemma vmSetDirty_lookup (h : vmSetDirty table vaddr dirty = some table') (v : UInt32) :
    lookup table' v =
      if pageOf v = pageOf vaddr then (lookup table vaddr).map fun frame => (frame.1, dirty)
      else lookup table v := by
  obtain ⟨i, hfind, hv, rfl⟩ := vmSetDirty_cases h
  rw [lookup_setHalf hfind]
  split_ifs with hpage
  · rw [lookup, lookupPair_of_found hfind, EntryLo.target, EntryLo.target, if_pos hv, if_pos hv]
    rfl
  · rfl

lemma vmMap_pairs (h : vmMap table physaddr vaddr dirty = some table') :
    table'.pairs = insert (vpn2 vaddr) table.pairs := by
  obtain ⟨i, hfind, rfl⟩ | ⟨hfind, -, rfl⟩ := vmMap_cases h
  · rw [Finset.insert_eq_of_mem (mem_pairs_of_found hfind)]
    exact pairs_setEntry rfl
  · exact pairs_push table _

lemma vmSetDirty_pairs (h : vmSetDirty table vaddr dirty = some table') :
    table'.pairs = table.pairs := by
  obtain ⟨i, -, -, rfl⟩ := vmSetDirty_cases h
  exact pairs_setEntry rfl

lemma vmMap_asid (h : vmMap table physaddr vaddr dirty = some table') :
    table'.asid = table.asid := by
  obtain ⟨i, -, rfl⟩ | ⟨-, -, rfl⟩ := vmMap_cases h <;> rfl

lemma vmSetDirty_asid (h : vmSetDirty table vaddr dirty = some table') :
    table'.asid = table.asid := by
  obtain ⟨i, -, -, rfl⟩ := vmSetDirty_cases h
  rfl

/-- `vm_map` panics when the page is mapped already, or when there is no entry left for the
pair. -/
lemma vmMap_eq_none_iff (hok : PagetableOk table) :
    vmMap table physaddr vaddr dirty = none ↔
      (lookup table vaddr).isSome ∨ pagetableEntries < (insert (vpn2 vaddr) table.pairs).card := by
  rw [vmMap]
  cases hfind : findPair table (vpn2 vaddr) with
  | some i =>
    have hcard : ¬ pagetableEntries < (insert (vpn2 vaddr) table.pairs).card := by
      rw [Finset.insert_eq_of_mem (mem_pairs_of_found hfind), hok.card_pairs]
      exact hok.count_le.not_gt
    rw [lookup_isSome_of_found hfind]
    simp [hcard]
  | none =>
    have hcard : (insert (vpn2 vaddr) table.pairs).card = table.validCount + 1 := by
      rw [Finset.card_insert_of_notMem (findPair_eq_none_iff_notMem.mp hfind), hok.card_pairs]
    rw [hcard, Nat.lt_succ_iff, lookup, lookupPair_of_not_found hfind]
    simp

/-- `vm_set_dirty` panics when the page is not mapped. -/
lemma vmSetDirty_eq_none_iff :
    vmSetDirty table vaddr dirty = none ↔ lookup table vaddr = none := by
  rw [vmSetDirty]
  cases hfind : findPair table (vpn2 vaddr) with
  | some i =>
    rw [← @Option.not_isSome_iff_eq_none _ (lookup table vaddr), lookup_isSome_of_found hfind]
    simp
  | none =>
    rw [lookup, lookupPair_of_not_found hfind]
    simp

/-! ### Tables built by calls -/

/-- A call that changes a page table. -/
inductive PageCall where
  | map (physaddr vaddr : UInt32) (dirty : Bool)
  | setDirty (vaddr : UInt32) (dirty : Bool)

namespace PageCall

def exec (table : Pagetable) : PageCall → Option Pagetable
  | map physaddr vaddr dirty => vmMap table physaddr vaddr dirty
  | setDirty vaddr dirty     => vmSetDirty table vaddr dirty

/-- The virtual page that a call is about. -/
def page : PageCall → ℕ
  | map _ vaddr _    => pageOf vaddr
  | setDirty vaddr _ => pageOf vaddr

/-- The write enabling bit that a call sets. -/
def dirtyBit : PageCall → Bool
  | map _ _ dirty    => dirty
  | setDirty _ dirty => dirty

/-- The pair of pages that a call of `vm_map` is about. -/
def mappedPair : PageCall → Option ℕ
  | map _ vaddr _ => some (vpn2 vaddr)
  | setDirty _ _  => none

end PageCall

/-- The tables that calls of `vm_map` and `vm_set_dirty` make of a new table, when none of the
calls panics. -/
inductive Built (asid : ℕ) (garbage : ℕ → TlbEntry) : List PageCall → Pagetable → Prop where
  | create : Built asid garbage [] (vmCreatePagetable asid garbage)
  | call {calls table call table'} (h : Built asid garbage calls table)
      (hcall : PageCall.exec table call = some table') : Built asid garbage (calls ++ [call]) table'

/-- The pairs of pages that were passed to `vm_map`. -/
def mappedPairs (calls : List PageCall) : Finset ℕ := (calls.filterMap PageCall.mappedPair).toFinset

/-- A page was passed to `vm_map`, with a physical page. -/
def Mapped (calls : List PageCall) (page frame : ℕ) : Prop :=
  ∃ physaddr vaddr dirty, PageCall.map physaddr vaddr dirty ∈ calls ∧ pageOf vaddr = page ∧
    (physaddr >>> 12).toNat = frame

/-- The last call for a page sets the write enabling bit. -/
def LastDirty (calls : List PageCall) (page : ℕ) (dirty : Bool) : Prop :=
  ∃ pre call post, calls = pre ++ call :: post ∧ call.page = page ∧ call.dirtyBit = dirty ∧
    ∀ call' ∈ post, call'.page ≠ page


variable {calls : List PageCall} {call : PageCall} {page frame asid : ℕ}
  {garbage : ℕ → TlbEntry}

lemma mapped_append_map : Mapped (calls ++ [.map physaddr vaddr dirty]) page frame ↔
    Mapped calls page frame ∨ (pageOf vaddr = page ∧ (physaddr >>> 12).toNat = frame) := by
  constructor
  · rintro ⟨physaddr', vaddr', dirty', hmem, hpage, hframe⟩
    rcases List.mem_append.mp hmem with hmem | hmem
    · exact .inl ⟨physaddr', vaddr', dirty', hmem, hpage, hframe⟩
    · cases List.mem_singleton.mp hmem
      exact .inr ⟨hpage, hframe⟩
  · rintro (⟨physaddr', vaddr', dirty', hmem, hpage, hframe⟩ | ⟨hpage, hframe⟩)
    · exact ⟨physaddr', vaddr', dirty', List.mem_append_left _ hmem, hpage, hframe⟩
    · exact ⟨physaddr, vaddr, dirty, List.mem_append_right _ (List.mem_singleton_self _),
        hpage, hframe⟩

lemma mapped_append_setDirty :
    Mapped (calls ++ [.setDirty vaddr dirty]) page frame ↔ Mapped calls page frame := by
  simp [Mapped]

lemma lastDirty_append_self (h : call.page = page) :
    LastDirty (calls ++ [call]) page dirty ↔ call.dirtyBit = dirty := by
  constructor
  · rintro ⟨pre, call', post, heq, -, hdirty, hpost⟩
    rcases List.eq_nil_or_concat post with rfl | ⟨post, last, rfl⟩
    · cases (List.append_inj' heq rfl).2
      exact hdirty
    · -- the last call is behind the one found
      rw [List.concat_eq_append, ← List.cons_append, ← List.append_assoc] at heq
      cases (List.append_inj' heq rfl).2
      exact absurd h (hpost call (by simp))
  · intro hdirty
    exact ⟨calls, call, [], rfl, h, hdirty, by simp⟩

lemma lastDirty_append_of_ne (h : call.page ≠ page) :
    LastDirty (calls ++ [call]) page dirty ↔ LastDirty calls page dirty := by
  constructor
  · rintro ⟨pre, call', post, heq, hpage, hdirty, hpost⟩
    rcases List.eq_nil_or_concat post with rfl | ⟨post, last, rfl⟩
    · cases (List.append_inj' heq rfl).2
      exact absurd hpage h
    · rw [List.concat_eq_append, ← List.cons_append, ← List.append_assoc] at heq
      refine ⟨pre, call', post, (List.append_inj' heq rfl).1, hpage, hdirty, ?_⟩
      intro call'' hmem
      exact hpost call'' (by simp [hmem])
  · rintro ⟨pre, call', post, rfl, hpage, hdirty, hpost⟩
    refine ⟨pre, call', post ++ [call], by simp, hpage, hdirty, ?_⟩
    intro call'' hmem
    rcases List.mem_append.mp hmem with hmem | hmem
    · exact hpost call'' hmem
    · rw [List.mem_singleton.mp hmem]
      exact h

/-- A table keeps what was passed to the calls. -/
structure MapsCalls (calls : List PageCall) (table : Pagetable) : Prop where
  ok    : PagetableOk table
  pairs : table.pairs = mappedPairs calls
  frame : ∀ v frame, (lookup table v).map Prod.fst = some frame ↔ Mapped calls (pageOf v) frame
  dirty : ∀ v dirty, (lookup table v).map Prod.snd = some dirty ↔ LastDirty calls (pageOf v) dirty

namespace MapsCalls

lemma isSome_iff (h : MapsCalls calls table) (v : UInt32) :
    (lookup table v).isSome ↔ ∃ frame, Mapped calls (pageOf v) frame := by
  simp only [← h.frame, ← Option.isSome_iff_exists, Option.isSome_map]

lemma create (asid : ℕ) (garbage : ℕ → TlbEntry) :
    MapsCalls [] (vmCreatePagetable asid garbage) where
  ok := vmCreatePagetable_ok asid garbage
  pairs := rfl
  frame v frame := by simp [Mapped, lookup, lookupPair, findPair, vmCreatePagetable]
  dirty v dirty := by simp [LastDirty, lookup, lookupPair, findPair, vmCreatePagetable]

lemma map (h : MapsCalls calls table) (hmap : vmMap table physaddr vaddr dirty = some table') :
    MapsCalls (calls ++ [.map physaddr vaddr dirty]) table' := by
  -- the page is not mapped before, or the call would panic
  have hnone : lookup table vaddr = none := by
    by_contra hsome
    rw [(vmMap_eq_none_iff h.ok).mpr (.inl (Option.isSome_iff_ne_none.mpr hsome))] at hmap
    cases hmap
  constructor
  · exact vmMap_ok h.ok hmap
  · rw [vmMap_pairs hmap, h.pairs, mappedPairs, mappedPairs, List.filterMap_append,
      List.toFinset_append]
    simp [PageCall.mappedPair]
  · intro v frame
    rw [vmMap_lookup hmap, mapped_append_map, ← h.frame]
    split_ifs with hpage
    · simp [lookup_congr hpage, hnone, hpage]
    · simp [Ne.symm hpage]
  · intro v dirty'
    rw [vmMap_lookup hmap]
    split_ifs with hpage
    · rw [lastDirty_append_self (by exact hpage.symm)]
      simp [PageCall.dirtyBit]
    · rw [lastDirty_append_of_ne (by exact Ne.symm hpage), h.dirty]

lemma setDirty (h : MapsCalls calls table) (hset : vmSetDirty table vaddr dirty = some table') :
    MapsCalls (calls ++ [.setDirty vaddr dirty]) table' := by
  obtain ⟨target, htarget⟩ : ∃ target, lookup table vaddr = some target := by
    rw [← Option.ne_none_iff_exists']
    intro hnone
    rw [vmSetDirty_eq_none_iff.mpr hnone] at hset
    cases hset
  constructor
  · exact vmSetDirty_ok h.ok hset
  · rw [vmSetDirty_pairs hset, h.pairs, mappedPairs, mappedPairs, List.filterMap_append,
      List.filterMap_cons_none (by rfl), List.filterMap_nil, List.append_nil]
  · intro v frame
    rw [vmSetDirty_lookup hset, mapped_append_setDirty, ← h.frame]
    split_ifs with hpage
    · rw [lookup_congr hpage, htarget]
      rfl
    · rfl
  · intro v dirty'
    rw [vmSetDirty_lookup hset]
    split_ifs with hpage
    · rw [lastDirty_append_self (by exact hpage.symm), htarget]
      simp [PageCall.dirtyBit]
    · rw [lastDirty_append_of_ne (by exact Ne.symm hpage), h.dirty]

end MapsCalls

lemma Built.mapsCalls (h : Built asid garbage calls table) : MapsCalls calls table := by
  induction h with
  | create => exact MapsCalls.create asid garbage
  | @call calls table call table' _ hcall ih =>
    cases call with
    | map physaddr vaddr dirty => exact ih.map hcall
    | setDirty vaddr dirty => exact ih.setDirty hcall

/-- A call changes no lookup of another page. -/
lemma PageCall.exec_lookup_of_ne (h : PageCall.exec table call = some table') {v : UInt32}
    (hv : pageOf v ≠ call.page) : lookup table' v = lookup table v := by
  cases call with
  | map physaddr vaddr dirty =>
    rw [vmMap_lookup h]
    exact if_neg hv
  | setDirty vaddr dirty =>
    rw [vmSetDirty_lookup h]
    exact if_neg hv

/-- A page table is a finite map: the entries in use are for different pairs, a page is found when
it was passed to `vm_map`, with the page frame of that call and the write enabling bit of the last
call for the page, and a call changes no other page. The panics of the calls are for a page that
is mapped twice, for a pair too many, and for a page that is not mapped. -/
theorem pagetable_is_finite_map (h : Built asid garbage calls table) :
    (∀ i < table.validCount, ∀ j < table.validCount,
      (table.entries i).vpn2 = (table.entries j).vpn2 → i = j) ∧
    (∀ v, (lookup table v).isSome ↔ ∃ frame, Mapped calls (pageOf v) frame) ∧
    (∀ v frame dirty, lookup table v = some (frame, dirty) →
      Mapped calls (pageOf v) frame ∧ LastDirty calls (pageOf v) dirty) ∧
    (∀ v frame, Mapped calls (pageOf v) frame → ∃ dirty, lookup table v = some (frame, dirty)) ∧
    (∀ call table' v, PageCall.exec table call = some table' → pageOf v ≠ call.page →
      lookup table' v = lookup table v) ∧
    (∀ physaddr vaddr dirty, vmMap table physaddr vaddr dirty = none ↔
      (∃ frame, Mapped calls (pageOf vaddr) frame) ∨
        pagetableEntries < (insert (vpn2 vaddr) (mappedPairs calls)).card) ∧
    (∀ vaddr dirty, vmSetDirty table vaddr dirty = none ↔
      ¬ ∃ frame, Mapped calls (pageOf vaddr) frame) := by
  have hmaps := h.mapsCalls
  refine ⟨hmaps.ok.distinct, hmaps.isSome_iff, ?_, ?_, ?_, ?_, ?_⟩
  · intro v frame dirty hv
    rw [← hmaps.frame, ← hmaps.dirty, hv]
    exact ⟨rfl, rfl⟩
  · intro v frame hmapped
    rw [← hmaps.frame, Option.map_eq_some_iff] at hmapped
    obtain ⟨⟨frame', dirty⟩, hv, rfl⟩ := hmapped
    exact ⟨dirty, hv⟩
  · intro call table' v hcall hv
    exact PageCall.exec_lookup_of_ne hcall hv
  · intro physaddr vaddr dirty
    rw [vmMap_eq_none_iff hmaps.ok, hmaps.isSome_iff, hmaps.pairs]
  · intro vaddr dirty
    rw [vmSetDirty_eq_none_iff, ← hmaps.isSome_iff, Option.not_isSome_iff_eq_none]

/-- Entries left over from an earlier table, for the first pair of pages. -/
def leftover (_ : ℕ) : TlbEntry := ⟨0, 7, fun _ => ⟨9, true, true, true⟩⟩

theorem pagetable_is_finite_map_oddPage : ∃ table,
    Built 3 leftover [.map 0x5000 0x1000 true, .setDirty 0x1000 false] table ∧
    lookup table 0x1abc = some (5, false) ∧ lookup table 0xabc = none ∧
    (∀ v, (lookup table v).isSome ↔
      ∃ frame, Mapped [.map 0x5000 0x1000 true, .setDirty 0x1000 false] (pageOf v) frame) := by
  have hmap : Built 3 leftover ([] ++ [.map 0x5000 0x1000 true]) _ := .call .create rfl
  have hset : Built 3 leftover ([] ++ [.map 0x5000 0x1000 true] ++ [.setDirty 0x1000 false]) _ :=
    .call hmap rfl
  exact ⟨_, hset, rfl, rfl, (pagetable_is_finite_map hset).2.1⟩

end Osm.Vm
