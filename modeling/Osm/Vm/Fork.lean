import Osm.Core.Loop
import Osm.Vm.PagePool
import Mathlib.Algebra.BigOperators.Intervals

/-!
# The copy of an address space

A model of `process_fork_setup` in `proc/process.c`. Physical memory is a map from page numbers to
pages. A page holds the data of a user program or a page table, which takes a whole page of the
pool as well. The kernel reaches physical pages through its unmapped segment, in which all of
physical memory is taken to lie.

A result `none` stands for a failed assertion or a panic.
-/

namespace Osm.Vm

open Osm.Core Osm.Lib

/-- The contents of a physical page. -/
inductive PhysPage where
  | data (bytes : Fin pageSize → UInt8)
  | table (table : Pagetable)

/-- `context_t`. -/
structure Context where
  cpuRegs     : ℕ → UInt32
  hi          : UInt32
  lo          : UInt32
  pc          : UInt32
  status      : UInt32
  prevContext : UInt32

/-- `MIPS_REGISTER_V0`. -/
def mipsRegisterV0 : ℕ := 1

/-- The pool and physical memory. -/
structure PhysMemory where
  pool   : Pagepool
  memory : ℕ → PhysPage

/-- The page table in a physical page. -/
def PhysMemory.table? (m : PhysMemory) (page : ℕ) : Option Pagetable :=
  match m.memory page with
  | .table table => some table
  | .data _      => none

/-- Replace a physical page. -/
def PhysMemory.setPage (m : PhysMemory) (page : ℕ) (contents : PhysPage) : PhysMemory :=
  { m with memory := Function.update m.memory page contents }

/-- `pagepool_get_phys_page` with the assertion that a page was found. -/
def PhysMemory.getPage (m : PhysMemory) : Option (PhysMemory × UInt32) := do
  let (pool, physPage) ← pagepoolGetPhysPage m.pool
  if physPage = 0 then none else some ({ m with pool }, physPage)

/-- `vm_create_pagetable` with the assertion that a page was found. The entries of the new table
are what is left in the page, which depends on its contents. -/
def createPagetable (leftover : PhysPage → ℕ → TlbEntry) (m : PhysMemory) (asid : ℕ) :
    Option (PhysMemory × ℕ) := do
  let (m, physPage) ← m.getPage
  let page := physPage.toNat / pageSize
  let table := vmCreatePagetable asid (leftover (m.memory page))
  return (m.setPage page (.table table), page)

/-- Take a page, map it and copy the parent's page to it. -/
def copyPage (child : ℕ) (vaddr : UInt32) (lo : EntryLo) (m : PhysMemory) :
    Option PhysMemory := do
  let (m, physPage) ← m.getPage
  let table ← m.table? child
  let table ← vmMap table physPage vaddr lo.d
  let m := m.setPage child (.table table)
  return m.setPage (physPage.toNat / pageSize) (m.memory lo.pfn)

/-- The virtual address of a page of a pair. -/
def pairAddr (pair : ℕ) (odd : Bool) : UInt32 :=
  if odd then (UInt32.ofNat pair <<< 13) ||| 4096 else UInt32.ofNat pair <<< 13

/-- The statement `if (tlb_parent.V0)` of the loop, or the one for the odd page. -/
def copyHalf (child : ℕ) (tlbParent : TlbEntry) (odd : Bool) (m : PhysMemory) :
    Option PhysMemory :=
  let lo := tlbParent.lo odd
  if lo.v then copyPage child (pairAddr tlbParent.vpn2 odd) lo m else some m

/-- The body of the loop over the parent's entries. -/
def copyEntry (child : ℕ) (tlbParent : TlbEntry) (m : PhysMemory) : Option PhysMemory := do
  let m ← copyHalf child tlbParent false m
  copyHalf child tlbParent true m

/-- One round of the loop, which reads the number of entries and the entry again. -/
def copyRound (parent child : ℕ) : ℕ × PhysMemory → (ℕ × PhysMemory) ⊕ Option PhysMemory
  | (i, m) =>
    match m.table? parent with
    | none       => .inr none
    | some table =>
      if i < table.validCount then
        match copyEntry child (table.entries i) m with
        | some m => .inl (i + 1, m)
        | none   => .inr none
      else .inr (some m)

/-- `process_fork_setup` until it signals `sem_wait`, for the thread `asid` and the thread entry of
the parent: the page of its page table and its user context. The result has the page of the new
page table and the new user context. -/
def processForkSetup (leftover : PhysPage → ℕ → TlbEntry) (asid parent : ℕ)
    (userContext : Context) (m : PhysMemory) : Option (PhysMemory × ℕ × Context) := do
  let (m, child) ← createPagetable leftover m asid
  let m ← (loop (copyRound parent child) (pagetableEntries + 1) (0, m)).join
  let context := { userContext with
    cpuRegs := Function.update userContext.cpuRegs mipsRegisterV0 0
    pc      := userContext.pc + 4 }
  return (m, child, context)

/-! ### Addresses of pages -/

lemma pairAddr_toNat {pair : ℕ} (hpair : pair < 2 ^ 19) (odd : Bool) :
    (pairAddr pair odd).toNat = pair * 8192 + if odd then 4096 else 0 := by
  have hshift : (UInt32.ofNat pair <<< 13).toNat = 2 ^ 13 * pair := by
    have hsmall : pair % 2 ^ 32 = pair := Nat.mod_eq_of_lt (by omega)
    rw [UInt32.toNat_shiftLeft, UInt32.toNat_ofNat', hsmall,
      show (13 : UInt32).toNat % 32 = 13 from rfl, Nat.shiftLeft_eq, Nat.mul_comm]
    exact Nat.mod_eq_of_lt (by omega)
  cases odd with
  | false =>
    rw [pairAddr, if_neg Bool.false_ne_true, hshift, if_neg Bool.false_ne_true]
    omega
  | true =>
    rw [pairAddr, if_pos rfl, UInt32.toNat_or, hshift, if_pos rfl,
      show (4096 : UInt32).toNat = 4096 from rfl,
      ← Nat.two_pow_add_eq_or_of_lt (show 4096 < 2 ^ 13 by decide)]
    omega

lemma vpn2_pairAddr {pair : ℕ} (hpair : pair < 2 ^ 19) (odd : Bool) :
    vpn2 (pairAddr pair odd) = pair := by
  rw [vpn2_eq, pairAddr_toNat hpair]
  split <;> omega

lemma addrIsOnOddPage_pairAddr {pair : ℕ} (hpair : pair < 2 ^ 19) (odd : Bool) :
    addrIsOnOddPage (pairAddr pair odd) = odd := by
  rw [Bool.eq_iff_iff, addrIsOnOddPage_iff, pairAddr_toNat hpair]
  cases odd with
  | false =>
    simp only [Bool.false_eq_true, if_false, iff_false]
    omega
  | true =>
    simp only [if_true, iff_true]
    omega

lemma pageOf_pairAddr {pair : ℕ} (hpair : pair < 2 ^ 19) (odd : Bool) (v : UInt32) :
    pageOf v = pageOf (pairAddr pair odd) ↔ vpn2 v = pair ∧ addrIsOnOddPage v = odd := by
  rw [pageOf_eq_iff, vpn2_pairAddr hpair, addrIsOnOddPage_pairAddr hpair]

lemma vpn2_lt (vaddr : UInt32) : vpn2 vaddr < 2 ^ 19 := by
  have hlt := vaddr.toNat_lt
  rw [vpn2_eq]
  omega

/-! ### Pages of a table -/

/-- The number of pages that an entry maps. -/
def TlbEntry.numMapped (entry : TlbEntry) : ℕ :=
  (entry.lo false).v.toNat + (entry.lo true).v.toNat

/-- The number of pages that the entries of a table from an index on map. -/
def Pagetable.numMappedFrom (table : Pagetable) (i : ℕ) : ℕ :=
  ∑ k ∈ Finset.Ico i table.validCount, (table.entries k).numMapped

/-- The number of pages that a table maps. -/
def Pagetable.numMapped (table : Pagetable) : ℕ := table.numMappedFrom 0


variable {m m' m₀ : PhysMemory} {parent child : Pagetable} {childPage page i left : ℕ}
  {numPages numResPages : ℕ} {garbage : Memory} {vaddr : UInt32} {lo : EntryLo}
  {done done' : UInt32 → Prop}

lemma numMappedFrom_succ (hi : i < parent.validCount) :
    parent.numMappedFrom i = (parent.entries i).numMapped + parent.numMappedFrom (i + 1) :=
  Finset.sum_eq_sum_Ico_succ_bot hi _

/-- A page that is free can be taken from the pool. -/
lemma getPage_eq (hpool : ∃ out, PoolInv numPages numResPages m.pool out)
    (hnum : numPages ≤ 2 ^ 19) (hpos : 1 ≤ numResPages) (hfree : 0 < m.pool.free.card) :
    ∃ p ∈ m.pool.free, p < 2 ^ 19 ∧
      m.getPage = some ({ m with pool := m.pool.take p }, pageAddr p) := by
  obtain ⟨out, hinv⟩ := hpool
  obtain ⟨page, hpage⟩ := Finset.card_pos.mp hfree
  obtain ⟨p, hp, heq⟩ := hinv.pagepoolGetPhysPage_of_mem hpage
  obtain ⟨hlt, hle, -⟩ := (hinv.mem_free p).mp hp
  refine ⟨p, hp, by omega, ?_⟩
  rw [PhysMemory.getPage, heq]
  exact if_neg (pageAddr_ne_zero (by omega) (by omega))

/-- The new table has the pages of the parent that are done, each in a page frame of its own that
was free before and holds a copy, and the pages that were in use are as before. -/
structure Copying (m₀ : PhysMemory) (parent : Pagetable) (childPage numPages numResPages : ℕ)
    (done : UInt32 → Prop) (left : ℕ) (child : Pagetable) (m : PhysMemory) : Prop where
  pool    : ∃ out, PoolInv numPages numResPages m.pool out
  subset  : m.pool.free ⊆ m₀.pool.free
  left_le : left ≤ m.pool.free.card
  page    : childPage ∈ m₀.pool.free \ m.pool.free
  kept    : ∀ page ∉ m₀.pool.free, m.memory page = m₀.memory page
  table   : m.memory childPage = .table child
  ok      : PagetableOk child
  pairs   : child.pairs ⊆ parent.pairs
  copied  : ∀ v, done v → (lookup child v).map Prod.snd = (lookup parent v).map Prod.snd
  others  : ∀ v, ¬ done v → lookup child v = none
  fresh   : ∀ v frame dirty, lookup child v = some (frame, dirty) →
    frame ∈ m₀.pool.free \ m.pool.free ∧ frame ≠ childPage
  same    : ∀ v frame dirty frame' dirty', lookup child v = some (frame, dirty) →
    lookup parent v = some (frame', dirty') → m.memory frame = m₀.memory frame'
  inj     : ∀ v v' frame dirty dirty', lookup child v = some (frame, dirty) →
    lookup child v' = some (frame, dirty') → pageOf v = pageOf v'

namespace Copying

/-- Every page of the new table is a page of the parent that is done. -/
lemma done_of_isSome (h : Copying m₀ parent childPage numPages numResPages done left child m)
    {v : UInt32} (hv : (lookup child v).isSome) : done v ∧ (lookup parent v).isSome := by
  have hdone : done v := by
    by_contra hnot
    rw [h.others v hnot] at hv
    cases hv
  have hcopied := congrArg Option.isSome (h.copied v hdone)
  rw [Option.isSome_map, Option.isSome_map, hv] at hcopied
  exact ⟨hdone, hcopied.symm⟩

/-- Only pages that the parent maps count as done. -/
lemma congr (h : Copying m₀ parent childPage numPages numResPages done left child m)
    (hdone : ∀ v, (lookup parent v).isSome → (done v ↔ done' v)) :
    Copying m₀ parent childPage numPages numResPages done' left child m :=
  { h with
    copied := by
      intro v hv
      cases hparent : lookup parent v with
      | none =>
        have hchild : ¬ (lookup child v).isSome := by
          intro hsome
          have hmapped := (h.done_of_isSome hsome).2
          rw [hparent] at hmapped
          cases hmapped
        rw [Option.not_isSome_iff_eq_none.mp hchild]
      | some target =>
        rw [← hparent]
        exact h.copied v ((hdone v (by rw [hparent]; rfl)).mpr hv)
    others := by
      intro v hv
      by_contra hne
      obtain ⟨hdv, hmapped⟩ := h.done_of_isSome (Option.isSome_iff_ne_none.mpr hne)
      exact hv ((hdone v hmapped).mp hdv) }

/-- The pages that are taken are not among those in use before. -/
lemma ne_of_mem_free (h : Copying m₀ parent childPage numPages numResPages done left child m)
    {p : ℕ} (hp : p ∈ m.pool.free) : p ≠ childPage ∧
      ∀ v frame dirty, lookup child v = some (frame, dirty) → frame ≠ p := by
  constructor
  · rintro rfl
    exact (Finset.mem_sdiff.mp h.page).2 hp
  · rintro v frame dirty hv rfl
    exact (Finset.mem_sdiff.mp (h.fresh v frame dirty hv).1).2 hp

/-- The memory after a page was copied. -/
lemma copyPage_eq (h : Copying m₀ parent childPage numPages numResPages done (left + 1) child m)
    (hnum : numPages ≤ 2 ^ 19) (hpos : 1 ≤ numResPages) (hparent : PagetableOk parent)
    (hlookup : lookup parent vaddr = some (lo.pfn, lo.d)) (hnot : lookup child vaddr = none) :
    ∃ p ∈ m.pool.free, p < 2 ^ 19 ∧ ∃ child',
      vmMap child (pageAddr p) vaddr lo.d = some child' ∧
      copyPage childPage vaddr lo m = some
        ((({ m with pool := m.pool.take p } : PhysMemory).setPage childPage (.table child')).setPage p
          (Function.update m.memory childPage (.table child') lo.pfn)) := by
  obtain ⟨p, hp, hlt, hget⟩ := getPage_eq h.pool hnum hpos (by have := h.left_le; omega)
  have hpair := mem_pairs_of_lookup hlookup
  -- the table of the child cannot overflow, since the one of the parent did not
  have hcard : (insert (vpn2 vaddr) child.pairs).card ≤ pagetableEntries := by
    refine (Finset.card_le_card (Finset.insert_subset hpair h.pairs)).trans ?_
    rw [hparent.card_pairs]
    exact hparent.count_le
  obtain ⟨child', hmap⟩ : ∃ child', vmMap child (pageAddr p) vaddr lo.d = some child' := by
    rw [← Option.ne_none_iff_exists', ne_eq, vmMap_eq_none_iff h.ok, hnot, not_or, Nat.not_lt]
    exact ⟨by simp, hcard⟩
  refine ⟨p, hp, hlt, child', hmap, ?_⟩
  have htable : PhysMemory.table? { m with pool := m.pool.take p } childPage = some child := by
    simp only [PhysMemory.table?, h.table]
  rw [copyPage, hget]
  simp only [Option.bind_eq_bind, Option.bind_some, htable, hmap, pageAddr_page hlt]
  rfl

/-- Copying a page of the parent. -/
lemma copyPage (h : Copying m₀ parent childPage numPages numResPages done (left + 1) child m)
    (hnum : numPages ≤ 2 ^ 19) (hpos : 1 ≤ numResPages) (hparent : PagetableOk parent)
    (hframes : ∀ v frame dirty, lookup parent v = some (frame, dirty) → frame ∉ m₀.pool.free)
    (hlookup : lookup parent vaddr = some (lo.pfn, lo.d)) (hnot : ¬ done vaddr) :
    ∃ m' child', Vm.copyPage childPage vaddr lo m = some m' ∧
      Copying m₀ parent childPage numPages numResPages
        (fun v => done v ∨ pageOf v = pageOf vaddr) left child' m' := by
  obtain ⟨p, hp, hlt, child', hmap, hcopy⟩ :=
    h.copyPage_eq hnum hpos hparent hlookup (h.others vaddr hnot)
  obtain ⟨hpchild, hpframe⟩ := h.ne_of_mem_free hp
  have hp₀ := h.subset hp
  obtain ⟨hchild₀, hchildm⟩ := Finset.mem_sdiff.mp h.page
  have hlookup' : ∀ v, lookup child' v =
      if pageOf v = pageOf vaddr then some (p, lo.d) else lookup child v := by
    intro v
    rw [vmMap_lookup hmap, pageAddr_frame hlt]
  -- the source of the copy is a page that was in use
  have hsrc : lo.pfn ∉ m₀.pool.free := hframes vaddr _ _ hlookup
  have hdata : Function.update m.memory childPage (.table child') lo.pfn = m₀.memory lo.pfn := by
    rw [Function.update_of_ne (ne_of_mem_of_not_mem hchild₀ hsrc).symm, h.kept _ hsrc]
  rw [hdata] at hcopy
  have hmem : ∀ q, q ≠ p → q ≠ childPage → ((({ m with pool := m.pool.take p } :
      PhysMemory).setPage childPage (.table child')).setPage p (m₀.memory lo.pfn)).memory q =
        m.memory q := by
    intro q hqp hqc
    exact (Function.update_of_ne hqp ..).trans (Function.update_of_ne hqc ..)
  have hfree : (m.pool.take p).free = m.pool.free.erase p := Pagepool.take_free m.pool p
  refine ⟨_, child', hcopy, ?_⟩
  constructor
  case pool =>
    obtain ⟨out, hinv⟩ := h.pool
    exact ⟨_, hinv.take hnum hp⟩
  case subset =>
    change (m.pool.take p).free ⊆ m₀.pool.free
    rw [hfree]
    exact (Finset.erase_subset p m.pool.free).trans h.subset
  case left_le =>
    change left ≤ (m.pool.take p).free.card
    rw [hfree, Finset.card_erase_of_mem hp]
    exact Nat.le_sub_one_of_lt h.left_le
  case page =>
    refine Finset.mem_sdiff.mpr ⟨hchild₀, fun hin => hchildm ?_⟩
    exact Finset.mem_of_mem_erase (hfree ▸ hin)
  case kept =>
    intro q hq
    rw [hmem q (ne_of_mem_of_not_mem hp₀ hq).symm (ne_of_mem_of_not_mem hchild₀ hq).symm]
    exact h.kept q hq
  case table =>
    exact (Function.update_of_ne hpchild.symm ..).trans (Function.update_self ..)
  case ok => exact vmMap_ok h.ok hmap
  case pairs =>
    rw [vmMap_pairs hmap]
    exact Finset.insert_subset (mem_pairs_of_lookup hlookup) h.pairs
  case copied =>
    intro v hv
    rw [hlookup']
    split_ifs with hpage
    · rw [lookup_congr hpage, hlookup]
      rfl
    · exact h.copied v (hv.resolve_right hpage)
  case others =>
    intro v hv
    rw [not_or] at hv
    rw [hlookup', if_neg hv.2]
    exact h.others v hv.1
  case fresh =>
    intro v frame dirty hv
    rw [hlookup'] at hv
    split_ifs at hv with hpage
    · cases hv
      refine ⟨Finset.mem_sdiff.mpr ⟨hp₀, fun hin => ?_⟩, hpchild⟩
      exact Finset.notMem_erase _ _ (hfree ▸ hin)
    · obtain ⟨hmem', hne⟩ := h.fresh v frame dirty hv
      obtain ⟨h₀, hm⟩ := Finset.mem_sdiff.mp hmem'
      refine ⟨Finset.mem_sdiff.mpr ⟨h₀, fun hin => hm ?_⟩, hne⟩
      exact Finset.mem_of_mem_erase (hfree ▸ hin)
  case same =>
    intro v frame dirty frame' dirty' hv hv'
    rw [hlookup'] at hv
    split_ifs at hv with hpage
    · cases hv
      rw [lookup_congr hpage, hlookup] at hv'
      cases hv'
      exact Function.update_self ..
    · rw [hmem frame (hpframe v frame dirty hv) (h.fresh v frame dirty hv).2]
      exact h.same v frame dirty frame' dirty' hv hv'
  case inj =>
    intro v v' frame dirty dirty' hv hv'
    rw [hlookup'] at hv hv'
    split_ifs at hv with hpage <;> split_ifs at hv' with hpage'
    · exact hpage.trans hpage'.symm
    · cases hv
      exact absurd rfl (hpframe v' _ dirty' hv')
    · cases hv'
      exact absurd rfl (hpframe v _ dirty hv)
    · exact h.inj v v' frame dirty dirty' hv hv'

/-- Copying the half of an entry of the parent, if it is valid. -/
lemma copyHalf {odd : Bool} {k : ℕ} (h : Copying m₀ parent childPage numPages numResPages done
      (((parent.entries k).lo odd).v.toNat + left) child m)
    (hnum : numPages ≤ 2 ^ 19) (hpos : 1 ≤ numResPages) (hparent : PagetableOk parent)
    (hframes : ∀ v frame dirty, lookup parent v = some (frame, dirty) → frame ∉ m₀.pool.free)
    (hk : k < parent.validCount) (hpair : (parent.entries k).vpn2 < 2 ^ 19)
    (hnot : ∀ v, vpn2 v = (parent.entries k).vpn2 → addrIsOnOddPage v = odd → ¬ done v) :
    ∃ m' child', Vm.copyHalf childPage (parent.entries k) odd m = some m' ∧
      Copying m₀ parent childPage numPages numResPages
        (fun v => done v ∨ vpn2 v = (parent.entries k).vpn2 ∧ addrIsOnOddPage v = odd)
        left child' m' := by
  have hpage := pageOf_pairAddr hpair odd
  have hvpn2 := vpn2_pairAddr hpair odd
  have hodd := addrIsOnOddPage_pairAddr hpair odd
  have hlookup : lookup parent (pairAddr (parent.entries k).vpn2 odd) =
      ((parent.entries k).lo odd).target := by
    rw [lookup, hvpn2, hodd, lookupPair_of_found (hparent.findPair_eq hk rfl)]
  by_cases hv : ((parent.entries k).lo odd).v = true
  · rw [Vm.copyHalf, if_pos hv]
    rw [hv, Bool.toNat_true, Nat.add_comm] at h
    rw [EntryLo.target, if_pos hv] at hlookup
    obtain ⟨m', child', hcopy, hcopying⟩ :=
      h.copyPage hnum hpos hparent hframes hlookup (hnot _ hvpn2 hodd)
    refine ⟨m', child', hcopy, hcopying.congr fun v _ => ?_⟩
    rw [hpage]
  · rw [Vm.copyHalf, if_neg hv]
    rw [Bool.eq_false_iff.mpr hv, Bool.toNat_false, Nat.zero_add] at h
    refine ⟨m, child, rfl, h.congr fun v hsome => ?_⟩
    -- the parent does not map the page
    have hnone : ¬ (vpn2 v = (parent.entries k).vpn2 ∧ addrIsOnOddPage v = odd) := by
      intro hpv
      rw [lookup_congr ((hpage v).mpr hpv), hlookup, EntryLo.target_isSome] at hsome
      exact hv hsome
    simp [hnone]

/-- Copying the pages of an entry of the parent. -/
lemma copyEntry (h : Copying m₀ parent childPage numPages numResPages
      (fun v => ∃ k < i, (parent.entries k).vpn2 = vpn2 v) (parent.numMappedFrom i) child m)
    (hnum : numPages ≤ 2 ^ 19) (hpos : 1 ≤ numResPages) (hparent : PagetableOk parent)
    (hframes : ∀ v frame dirty, lookup parent v = some (frame, dirty) → frame ∉ m₀.pool.free)
    (hi : i < parent.validCount) (hpair : (parent.entries i).vpn2 < 2 ^ 19) :
    ∃ m' child', Vm.copyEntry childPage (parent.entries i) m = some m' ∧
      Copying m₀ parent childPage numPages numResPages
        (fun v => ∃ k < i + 1, (parent.entries k).vpn2 = vpn2 v) (parent.numMappedFrom (i + 1))
        child' m' := by
  -- the pair of the entry is not done, since no earlier entry is for it
  have hnew : ∀ v, vpn2 v = (parent.entries i).vpn2 →
      ¬ ∃ k < i, (parent.entries k).vpn2 = vpn2 v := by
    rintro v hv ⟨k, hk, hkv⟩
    exact hk.ne (hparent.distinct k (hk.trans hi) i hi (hkv.trans hv))
  rw [numMappedFrom_succ hi, TlbEntry.numMapped, Nat.add_assoc] at h
  obtain ⟨m₁, child₁, heven, h₁⟩ :=
    h.copyHalf hnum hpos hparent hframes hi hpair fun v hv _ => hnew v hv
  obtain ⟨m₂, child₂, hodd, h₂⟩ := h₁.copyHalf hnum hpos hparent hframes hi hpair (by
    rintro v hv hodd (hdone | ⟨-, heven⟩)
    · exact hnew v hv hdone
    · rw [hodd] at heven
      cases heven)
  refine ⟨m₂, child₂, ?_, h₂.congr fun v _ => ?_⟩
  · rw [Vm.copyEntry, heven]
    exact hodd
  · simp only [Nat.lt_succ_iff_lt_or_eq, or_and_right, exists_or, exists_eq_left, or_assoc]
    have hsplit : (vpn2 v = (parent.entries i).vpn2 ∧ addrIsOnOddPage v = false ∨
        vpn2 v = (parent.entries i).vpn2 ∧ addrIsOnOddPage v = true) ↔
          (parent.entries i).vpn2 = vpn2 v := by
      cases addrIsOnOddPage v <;> simp [eq_comm]
    rw [hsplit]

end Copying

/-! ### The whole address space -/

/-- The new table of the child, before a page is copied. -/
lemma createPagetable_copying (leftover : PhysPage → ℕ → TlbEntry) (asid : ℕ)
    (hpool : ∃ out, PoolInv numPages numResPages m.pool out) (hnum : numPages ≤ 2 ^ 19)
    (hpos : 1 ≤ numResPages) (hfree : left + 1 ≤ m.pool.free.card) :
    ∃ m' childPage child, createPagetable leftover m asid = some (m', childPage) ∧
      Copying m parent childPage numPages numResPages (fun _ => False) left child m' := by
  obtain ⟨p, hp, hlt, hget⟩ := getPage_eq hpool hnum hpos (by omega)
  obtain ⟨out, hinv⟩ := hpool
  have hfree' : (m.pool.take p).free = m.pool.free.erase p := Pagepool.take_free m.pool p
  have hnone : ∀ v, lookup (vmCreatePagetable asid (leftover (m.memory p))) v = none := fun v => rfl
  refine ⟨({ m with pool := m.pool.take p } : PhysMemory).setPage p
    (.table (vmCreatePagetable asid (leftover (m.memory p)))), p,
    vmCreatePagetable asid (leftover (m.memory p)), ?_, ?_⟩
  · rw [createPagetable, hget]
    simp only [Option.bind_eq_bind, Option.bind_some, pageAddr_page hlt]
    rfl
  · constructor
    case pool => exact ⟨_, hinv.take hnum hp⟩
    case subset =>
      change (m.pool.take p).free ⊆ m.pool.free
      rw [hfree']
      exact Finset.erase_subset p m.pool.free
    case left_le =>
      change left ≤ (m.pool.take p).free.card
      rw [hfree', Finset.card_erase_of_mem hp]
      omega
    case page =>
      refine Finset.mem_sdiff.mpr ⟨hp, fun hin => ?_⟩
      exact Finset.notMem_erase _ _ (hfree' ▸ hin)
    case kept =>
      intro q hq
      exact Function.update_of_ne (ne_of_mem_of_not_mem hp hq).symm ..
    case table => exact Function.update_self ..
    case ok => exact vmCreatePagetable_ok asid _
    case pairs => exact Finset.empty_subset _
    case copied => exact fun v hv => hv.elim
    case others => exact fun v _ => hnone v
    case fresh =>
      intro v frame dirty hv
      cases (hnone v).symm.trans hv
    case same =>
      intro v frame dirty frame' dirty' hv
      cases (hnone v).symm.trans hv
    case inj =>
      intro v v' frame dirty dirty' hv
      cases (hnone v).symm.trans hv

/-- The loop over the entries of the parent copies all of its pages. -/
lemma copyRound_loop {parentPage : ℕ}
    (h : Copying m₀ parent childPage numPages numResPages (fun _ => False) parent.numMapped child m)
    (hnum : numPages ≤ 2 ^ 19) (hpos : 1 ≤ numResPages) (hparent : PagetableOk parent)
    (hframes : ∀ v frame dirty, lookup parent v = some (frame, dirty) → frame ∉ m₀.pool.free)
    (hpairs : ∀ pair ∈ parent.pairs, pair < 2 ^ 19)
    (hmem : m₀.memory parentPage = .table parent) (hused : parentPage ∉ m₀.pool.free) :
    ∃ m' child', loop (copyRound parentPage childPage) (pagetableEntries + 1) (0, m) = some (some m') ∧
      Copying m₀ parent childPage numPages numResPages
        (fun v => ∃ k < parent.validCount, (parent.entries k).vpn2 = vpn2 v) 0 child' m' := by
  let done : ℕ → UInt32 → Prop := fun i v => ∃ k < i, (parent.entries k).vpn2 = vpn2 v
  -- the loop index counts the entries that are left
  let Inv : ℕ → ℕ × PhysMemory → Prop := fun j s => s.1 + j = parent.validCount ∧
    ∃ child', Copying m₀ parent childPage numPages numResPages (done s.1)
      (parent.numMappedFrom s.1) child' s.2
  let Post : Option PhysMemory → Prop := fun r => ∃ m' child', r = some m' ∧
    Copying m₀ parent childPage numPages numResPages (done parent.validCount) 0 child' m'
  have hround : ∀ j s, Inv j s → RoundOk Inv Post j (copyRound parentPage childPage s) := by
    rintro j ⟨i, m'⟩ ⟨hij, child', hcopying⟩
    have hpage : m'.memory parentPage = .table parent :=
      (hcopying.kept parentPage hused).trans hmem
    have htable : m'.table? parentPage = some parent := by
      simp only [PhysMemory.table?, hpage]
    simp only [copyRound, htable]
    by_cases hi : i < parent.validCount
    · have hpair := hpairs _ (mem_pairs_of_found (hparent.findPair_eq hi rfl))
      obtain ⟨m'', child'', hentry, hcopying'⟩ :=
        hcopying.copyEntry hnum hpos hparent hframes hi hpair
      rw [if_pos hi, hentry]
      change i + j = parent.validCount at hij
      refine ⟨j - 1, by omega, ?_, child'', hcopying'⟩
      change i + 1 + (j - 1) = parent.validCount
      omega
    · have hi : i = parent.validCount := by
        change i + j = parent.validCount at hij
        omega
      subst hi
      rw [if_neg (lt_irrefl _)]
      refine ⟨m', child', rfl, ?_⟩
      have hleft : parent.numMappedFrom parent.validCount = 0 := by
        rw [Pagetable.numMappedFrom, Finset.Ico_self, Finset.sum_empty]
      rwa [hleft] at hcopying
  have hstart : Inv parent.validCount (0, m) :=
    ⟨Nat.zero_add _, child, h.congr fun v _ => by simp [done]⟩
  obtain ⟨r, hr, m', child', rfl, hcopying⟩ := loop_spec Inv Post hround (pagetableEntries + 1)
    parent.validCount (0, m) hstart (Nat.lt_succ_of_le hparent.count_le)
  exact ⟨m', child', hr, hcopying⟩

/-- The pairs of a table that was built by calls are in the range of the address space. -/
lemma Built.pairs_lt {asid : ℕ} {entries : ℕ → TlbEntry} {calls : List PageCall}
    (h : Built asid entries calls parent) : ∀ pair ∈ parent.pairs, pair < 2 ^ 19 := by
  intro pair hpair
  rw [h.mapsCalls.pairs, mappedPairs, List.mem_toFinset, List.mem_filterMap] at hpair
  obtain ⟨call, -, hcall⟩ := hpair
  cases call with
  | map physaddr vaddr dirty =>
    cases hcall
    exact vpn2_lt vaddr
  | setDirty vaddr dirty => cases hcall

/-- `process_fork_setup` with enough free pages. The page table and the page frames of the parent
are in use. When the child signals the parent, its table maps the pages of the parent with the
same write enabling bits, to different page frames that were free and now hold the same bytes; no
page that was in use has changed, that of the parent's table included; and the user context is the
parent's but for the result and the program counter. -/
theorem processForkSetup_copies {leftover : PhysPage → ℕ → TlbEntry} {asid asid' parentPage : ℕ}
    {entries : ℕ → TlbEntry} {calls : List PageCall} {out : List UInt32} {userContext : Context}
    (hnum : numPages ≤ 2 ^ 19) (hpos : 1 ≤ numResPages) (hres : numResPages ≤ numPages)
    (hrun : PoolRun garbage numPages numResPages m.pool out)
    (hbuilt : Built asid' entries calls parent)
    (htable : m.memory parentPage = .table parent) (hused : parentPage ∉ m.pool.free)
    (hframes : ∀ v frame dirty, lookup parent v = some (frame, dirty) → frame ∉ m.pool.free)
    (hfree : parent.numMapped + 1 ≤ m.pool.free.card) :
    ∃ m' childPage context child,
      processForkSetup leftover asid parentPage userContext m = some (m', childPage, context) ∧
      m'.memory childPage = .table child ∧ childPage ∈ m.pool.free ∧
      (∀ v, (lookup child v).map Prod.snd = (lookup parent v).map Prod.snd) ∧
      (∀ v frame dirty, lookup child v = some (frame, dirty) →
        frame ∈ m.pool.free ∧ frame ∉ m'.pool.free ∧ frame ≠ childPage) ∧
      (∀ v v' frame dirty dirty', lookup child v = some (frame, dirty) →
        lookup child v' = some (frame, dirty') → pageOf v = pageOf v') ∧
      (∀ v frame dirty frame' dirty', lookup child v = some (frame, dirty) →
        lookup parent v = some (frame', dirty') → m'.memory frame = m.memory frame') ∧
      (∀ page ∉ m.pool.free, m'.memory page = m.memory page) ∧
      m'.memory parentPage = .table parent ∧
      context.cpuRegs mipsRegisterV0 = 0 ∧ context.pc = userContext.pc + 4 ∧
      (∀ r ≠ mipsRegisterV0, context.cpuRegs r = userContext.cpuRegs r) ∧
      context.hi = userContext.hi ∧ context.lo = userContext.lo ∧
      context.status = userContext.status ∧ context.prevContext = userContext.prevContext := by
  have hparent := hbuilt.mapsCalls.ok
  obtain ⟨m₁, childPage, child₁, hcreate, hstart⟩ :=
    createPagetable_copying leftover asid ⟨out, hrun.inv hnum hpos hres⟩ hnum hpos hfree
  obtain ⟨m₂, child₂, hloop, hend⟩ :=
    copyRound_loop hstart hnum hpos hparent hframes hbuilt.pairs_lt htable hused
  -- every page of the parent is in one of the entries
  have hall : ∀ v, (lookup child₂ v).map Prod.snd = (lookup parent v).map Prod.snd :=
    fun v => (hend.congr fun v hsome => by
      obtain ⟨target, htarget⟩ := Option.isSome_iff_exists.mp hsome
      obtain ⟨k, hk, hpair⟩ := Finset.mem_image.mp (mem_pairs_of_lookup htarget)
      exact iff_of_true ⟨k, Finset.mem_range.mp hk, hpair⟩ trivial).copied v trivial
  refine ⟨m₂, childPage, { userContext with
    cpuRegs := Function.update userContext.cpuRegs mipsRegisterV0 0
    pc      := userContext.pc + 4 }, child₂, ?_, hend.table, (Finset.mem_sdiff.mp hend.page).1, hall, ?_,
    hend.inj, hend.same, hend.kept, (hend.kept parentPage hused).trans htable, ?_, rfl, ?_, rfl,
    rfl, rfl, rfl⟩
  · rw [processForkSetup, hcreate]
    simp only [Option.bind_eq_bind, Option.bind_some, hloop, Option.join_some]
    rfl
  · intro v frame dirty hv
    obtain ⟨hmem, hne⟩ := hend.fresh v frame dirty hv
    obtain ⟨hmem₀, hmem₂⟩ := Finset.mem_sdiff.mp hmem
    exact ⟨hmem₀, hmem₂, hne⟩
  · exact Function.update_self mipsRegisterV0 0 userContext.cpuRegs
  · intro r hr
    exact Function.update_of_ne hr 0 userContext.cpuRegs

/-- A pool of eight pages after two of them were taken. -/
lemma exists_twoPagesTaken : ∃ pool out table frame, PoolRun (fun _ => 0xab) 40 32 pool out ∧
    table ∉ pool.free ∧ frame ∉ pool.free ∧ frame < 2 ^ 19 ∧ pool.free.card = 6 := by
  have hinit : PoolRun (fun _ => 0xab) 40 32 _ _ := .init
  have hinv := hinit.inv (by decide) (by decide) (by decide)
  have hnum : (pagepoolInit (fun _ => 0xab) 40 32).numFreePages = 8 := rfl
  generalize pagepoolInit (fun _ => 0xab) 40 32 = pool at hinit hinv hnum
  have hcard : pool.free.card = 8 := by
    rw [hinv.num_free] at hnum
    exact_mod_cast hnum
  obtain ⟨table, htable, hrun₁⟩ := hinit.get_of_card (by decide) (by decide) (by decide) (by omega)
  have hcard₁ : (pool.take table).free.card = 7 := by
    rw [Pagepool.take_free, Finset.card_erase_of_mem htable, hcard]
  obtain ⟨frame, hframe, hrun₂⟩ :=
    hrun₁.get_of_card (by decide) (by decide) (by decide) (by omega)
  have hlt := ((hrun₁.inv (by decide) (by decide) (by decide)).mem_free frame).mp hframe
  refine ⟨_, _, table, frame, hrun₂, ?_, ?_, by omega, ?_⟩
  · rw [Pagepool.take_free, Pagepool.take_free]
    simp
  · rw [Pagepool.take_free]
    exact Finset.notMem_erase _ _
  · rw [Pagepool.take_free, Finset.card_erase_of_mem hframe, hcard₁]

/-- A parent with one page, which took its page table and the page from the pool. -/
theorem processForkSetup_copies_onePage : ∃ (m m' : PhysMemory) (parent child : Pagetable)
    (parentPage childPage : ℕ) (context : Context),
    m.memory parentPage = .table parent ∧ (lookup parent 0x1000).isSome ∧
    processForkSetup (fun _ => leftover) 4 parentPage ⟨fun _ => 7, 0, 0, 0x1000, 0, 0⟩ m =
      some (m', childPage, context) ∧
    m'.memory childPage = .table child ∧ context.pc = 0x1004 ∧
    (∀ v, (lookup child v).map Prod.snd = (lookup parent v).map Prod.snd) := by
  obtain ⟨pool, out, table, frame, hrun, htable, hframe, hlt, hcard⟩ := exists_twoPagesTaken
  have hbuilt : Built 3 leftover ([] ++ [.map (pageAddr frame) 0x1000 true])
      ((vmCreatePagetable 3 leftover).push
        (newEntry (vmCreatePagetable 3 leftover) (pageAddr frame) 0x1000 true)) := .call .create rfl
  have hlookup : ∀ v, lookup ((vmCreatePagetable 3 leftover).push
      (newEntry (vmCreatePagetable 3 leftover) (pageAddr frame) 0x1000 true)) v =
      if pageOf v = pageOf 0x1000 then some ((pageAddr frame >>> 12).toNat, true) else none :=
    lookup_push_newEntry rfl
  have hmapped : ((vmCreatePagetable 3 leftover).push
      (newEntry (vmCreatePagetable 3 leftover) (pageAddr frame) 0x1000 true)).numMapped = 1 := rfl
  generalize (vmCreatePagetable 3 leftover).push
    (newEntry (vmCreatePagetable 3 leftover) (pageAddr frame) 0x1000 true) = parent
    at hbuilt hlookup hmapped
  rw [pageAddr_frame hlt] at hlookup
  obtain ⟨m', childPage, context, child, hfork, hchild, -, hall, -, -, -, -, -, -, hpc, -⟩ :=
    processForkSetup_copies (m := ⟨pool, fun _ => .table parent⟩)
      (by decide) (by decide) (by decide) hrun hbuilt rfl htable (by
        intro v frame' dirty hv
        rw [hlookup] at hv
        split_ifs at hv
        cases hv
        exact hframe) (by
        rw [hmapped]
        exact (by decide : 2 ≤ 6).trans hcard.ge)
  exact ⟨_, m', parent, child, table, childPage, context, rfl, by rw [hlookup]; rfl, hfork, hchild,
    hpc, hall⟩

end Osm.Vm
