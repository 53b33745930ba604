import Osm.Core.Ownership
import Osm.Vm.Fork

/-!
# Address spaces of several threads

Threads make page tables, take pages from the pool, map them, write to the pages that they have
mapped and give their page table back, in any order and one operation at a time: the functions of
the pool run one after the other, and a page table is changed by its own thread only. The pages that
a process has mapped are not given back when it ends.
-/

namespace Osm.Vm

open Osm.Core Osm.Lib

/-- What a page that was written as something else is read as: entries of a page table or bytes. -/
structure RawPage where
  entries : PhysPage → ℕ → TlbEntry
  bytes   : PhysPage → Fin pageSize → UInt8

/-- Physical memory and, for every thread, the page with its page table, `pagetable` in its entry,
and the page that it has taken from the pool and not mapped yet, `phys_page`. -/
structure Spaces where
  phys      : PhysMemory
  pagetable : ℕ → Option ℕ
  physPage  : ℕ → Option ℕ

/-- What a thread can do. -/
inductive SpaceOp where
  /-- `vm_create_pagetable`, at the start of a process. -/
  | create
  /-- `pagepool_get_phys_page`, when it finds a page. -/
  | take
  /-- `vm_map` of the page that was taken. -/
  | map (vaddr : UInt32) (dirty : Bool)
  /-- `vm_set_dirty`. -/
  | setDirty (vaddr : UInt32) (dirty : Bool)
  /-- A byte is stored through the page table. -/
  | store (vaddr : UInt32) (byte : UInt8)
  /-- `memcopy` of the page that another thread has at an address, as `process_fork_setup` does. -/
  | copy (parent : ℕ) (vaddr : UInt32)
  /-- `vm_destroy_pagetable`, at the end of a process. -/
  | destroy
  deriving DecidableEq

namespace Spaces

/-- The page table of a thread and the page that it is in. -/
def table? (s : Spaces) (t : ℕ) : Option (ℕ × Pagetable) := do
  let page ← s.pagetable t
  let table ← s.phys.table? page
  return (page, table)

/-- Where a thread has mapped an address: the page frame and the write enabling bit. -/
def lookup? (s : Spaces) (t : ℕ) (vaddr : UInt32) : Option (ℕ × Bool) := do
  let (_, table) ← s.table? t
  lookup table vaddr

/-- What a thread finds at an address: the contents of the page and the write enabling bit. -/
def view (s : Spaces) (t : ℕ) (vaddr : UInt32) : Option (PhysPage × Bool) :=
  (s.lookup? t vaddr).map fun target => (s.phys.memory target.1, target.2)

/-- The state with another physical page. -/
def setPage (s : Spaces) (page : ℕ) (contents : PhysPage) : Spaces :=
  { s with phys := s.phys.setPage page contents }

/-- An operation of a thread; `none` stands for a failed assertion, a panic, or an operation that
the thread does not make in this state. -/
def exec (raw : RawPage) (t : ℕ) : SpaceOp → Spaces → Option Spaces
  | .create, s =>
    if s.pagetable t = none then do
      let (phys, page) ← createPagetable raw.entries s.phys t
      return { s with phys, pagetable := Function.update s.pagetable t (some page) }
    else none
  | .take, s =>
    if s.physPage t = none then do
      let (phys, addr) ← s.phys.getPage
      let page := addr.toNat / pageSize
      return { s with phys, physPage := Function.update s.physPage t (some page) }
    else none
  | .map vaddr dirty, s => do
    let frame ← s.physPage t
    let (page, table) ← s.table? t
    let table ← vmMap table (pageAddr frame) vaddr dirty
    return { s.setPage page (.table table) with physPage := Function.update s.physPage t none }
  | .setDirty vaddr dirty, s => do
    let (page, table) ← s.table? t
    let table ← vmSetDirty table vaddr dirty
    return s.setPage page (.table table)
  | .store vaddr byte, s => do
    let (frame, dirty) ← s.lookup? t vaddr
    let offset : Fin pageSize := ⟨vaddr.toNat % pageSize, Nat.mod_lt _ (by decide)⟩
    if dirty then
      return s.setPage frame (.data (Function.update (raw.bytes (s.phys.memory frame)) offset byte))
    else none
  | .copy parent vaddr, s => do
    let (frame, _) ← s.lookup? t vaddr
    let (source, _) ← s.lookup? parent vaddr
    return s.setPage frame (s.phys.memory source)
  | .destroy, s => do
    let page ← s.pagetable t
    let pool ← pagepoolFreePhysPage s.phys.pool (pageAddr page)
    return { s with
      phys := { s.phys with pool }
      pagetable := Function.update s.pagetable t none }

end Spaces

/-- No thread has a page table, and the pool is as `pagepool_init` leaves it. -/
def initSpaces (garbage : Memory) (numPages numResPages : ℕ) (memory : ℕ → PhysPage) : Spaces where
  phys      := ⟨pagepoolInit garbage numPages numResPages, memory⟩
  pagetable := fun _ => none
  physPage  := fun _ => none

/-- The state after operations, each with its thread. -/
def runOps (raw : RawPage) : List (ℕ × SpaceOp) → Spaces → Option Spaces
  | [], s             => some s
  | (t, op) :: ops, s => do
    let s ← s.exec raw t op
    runOps raw ops s

/-! ### Who holds a page -/

/-- What a thread has a page for. -/
inductive PageRole where
  | table
  | taken
  | mapped (page : ℕ)

/-- A thread holds a page. -/
def Spaces.Holds (s : Spaces) : ℕ × PageRole → ℕ → Prop
  | (t, .table), p       => s.pagetable t = some p
  | (t, .taken), p       => s.physPage t = some p
  | (t, .mapped page), p => ∃ vaddr dirty, pageOf vaddr = page ∧ s.lookup? t vaddr = some (p, dirty)

/-- Page tables are in order, and a page that is held has one holder and is neither free nor
reserved. -/
structure SpacesInv (numPages numResPages : ℕ) (s : Spaces) : Prop where
  pool      : ∃ out, PoolInv numPages numResPages s.phys.pool out
  tables    : ∀ t page, s.pagetable t = some page →
    ∃ table, s.phys.memory page = .table table ∧ PagetableOk table ∧
      ∀ pair ∈ table.pairs, pair < 2 ^ 19
  exclusive : Exclusive s.phys.pool.free s.Holds
  range     : ∀ owner p, s.Holds owner p → numResPages ≤ p ∧ p < numPages

variable {raw : RawPage} {s s' : Spaces} {t t' page frame : ℕ} {table : Pagetable}
  {numPages numResPages : ℕ} {vaddr : UInt32} {dirty : Bool}

namespace Spaces

lemma table?_eq_some : s.table? t = some (page, table) ↔
    s.pagetable t = some page ∧ s.phys.memory page = .table table := by
  simp only [table?, PhysMemory.table?, Option.bind_eq_bind, Option.bind_eq_some_iff]
  constructor
  · rintro ⟨p, hp, table', htable, heq⟩
    cases heq
    split at htable
    · cases htable
      exact ⟨hp, ‹_›⟩
    · cases htable
  · rintro ⟨hp, htable⟩
    exact ⟨page, hp, table, by rw [htable], rfl⟩

lemma lookup?_of_table? (h : s.table? t = some (page, table)) (vaddr : UInt32) :
    s.lookup? t vaddr = lookup table vaddr := by
  rw [lookup?, h]
  rfl

lemma lookup?_of_none (h : s.pagetable t = none) (vaddr : UInt32) : s.lookup? t vaddr = none := by
  rw [lookup?, table?, h]
  rfl

lemma lookup?_congr (h : s'.table? t = s.table? t) (vaddr : UInt32) :
    s'.lookup? t vaddr = s.lookup? t vaddr := by rw [lookup?, h, lookup?]

/-- Another physical page does not change a page table elsewhere. -/
lemma table?_setPage_of_ne {contents : PhysPage} (h : s.pagetable t ≠ some page) :
    (s.setPage page contents).table? t = s.table? t := by
  simp only [table?, setPage, PhysMemory.setPage, PhysMemory.table?]
  cases htable : s.pagetable t with
  | none => rfl
  | some p =>
    have hne : p ≠ page := fun heq => h (by rw [htable, heq])
    simp only [Option.bind_eq_bind, Option.bind_some, Function.update_of_ne hne]

lemma table?_setPage_self {table' : Pagetable} (h : s.pagetable t = some page) :
    (s.setPage page (.table table')).table? t = some (page, table') :=
  table?_eq_some.mpr ⟨h, Function.update_self ..⟩

end Spaces

/-- `pagepool_get_phys_page` finds a free page. -/
lemma getPage_eq_some {m m' : PhysMemory} {addr : UInt32}
    (hpool : ∃ out, PoolInv numPages numResPages m.pool out) (hnum : numPages ≤ 2 ^ 19)
    (hpos : 1 ≤ numResPages) (h : m.getPage = some (m', addr)) :
    ∃ p ∈ m.pool.free, p < 2 ^ 19 ∧ m' = { m with pool := m.pool.take p } ∧ addr = pageAddr p := by
  rcases Finset.eq_empty_or_nonempty m.pool.free with hempty | hne
  · obtain ⟨out, hinv⟩ := hpool
    rw [PhysMemory.getPage, hinv.pagepoolGetPhysPage_of_empty hempty] at h
    cases h
  · obtain ⟨p, hp, hlt, hget⟩ := getPage_eq hpool hnum hpos (Finset.card_pos.mpr hne)
    rw [hget] at h
    cases h
    exact ⟨p, hp, hlt, rfl, rfl⟩

/-! ### What an operation changes -/

/-- What a thread has is the same in two states. -/
structure Untouched (t : ℕ) (s s' : Spaces) : Prop where
  pagetable : s'.pagetable t = s.pagetable t
  physPage  : s'.physPage t = s.physPage t
  memory    : ∀ role p, s.Holds (t, role) p → s'.phys.memory p = s.phys.memory p

namespace Untouched

lemma table? (h : Untouched t s s') : s'.table? t = s.table? t := by
  simp only [Spaces.table?, PhysMemory.table?, h.pagetable]
  cases htable : s.pagetable t with
  | none => rfl
  | some page => simp only [Option.bind_eq_bind, Option.bind_some, h.memory .table page htable]

lemma holds_iff (h : Untouched t s s') (role : PageRole) (p : ℕ) :
    s'.Holds (t, role) p ↔ s.Holds (t, role) p := by
  cases role with
  | table => rw [Spaces.Holds, h.pagetable, Spaces.Holds]
  | taken => rw [Spaces.Holds, h.physPage, Spaces.Holds]
  | mapped page => simp only [Spaces.Holds, Spaces.lookup?_congr h.table?]

lemma view_eq (h : Untouched t s s') (vaddr : UInt32) : s'.view t vaddr = s.view t vaddr := by
  rw [Spaces.view, Spaces.lookup?_congr h.table?, Spaces.view]
  cases htarget : s.lookup? t vaddr with
  | none => rfl
  | some target =>
    have hheld : s.Holds (t, .mapped (pageOf vaddr)) target.1 := ⟨vaddr, target.2, rfl, htarget⟩
    rw [Option.map_some, Option.map_some, h.memory _ _ hheld]

end Untouched

namespace SpacesInv

variable (h : SpacesInv numPages numResPages s) (hnum : numPages ≤ 2 ^ 19) (hpos : 1 ≤ numResPages)
include h

/-- A page that the thread `t` holds is not held by another thread. -/
lemma not_holds {role role' : PageRole} {p : ℕ} (hp : s.Holds (t, role) p) (hne : t' ≠ t) :
    ¬s.Holds (t', role') p := fun hp' =>
  hne (congrArg Prod.fst (h.exclusive.unique (t', role') (t, role) p hp' hp))

/-- A page that changes was free or held by the thread. -/
lemma untouched_of_changes
    (hpagetable : ∀ t', t' ≠ t → s'.pagetable t' = s.pagetable t')
    (hphysPage : ∀ t', t' ≠ t → s'.physPage t' = s.physPage t')
    (hmemory : ∀ q, s'.phys.memory q = s.phys.memory q ∨ q ∈ s.phys.pool.free ∨
      ∃ role, s.Holds (t, role) q) (hne : t' ≠ t) : Untouched t' s s' where
  pagetable := hpagetable t' hne
  physPage  := hphysPage t' hne
  memory role p hp := by
    rcases hmemory p with hsame | hfree | ⟨role', hheld⟩
    · exact hsame
    · exact absurd hfree (h.exclusive.taken _ p hp)
    · exact absurd hp (h.not_holds hheld hne)

omit h in
/-- Only the page is changed, which the thread holds. -/
lemma memory_setPage (role : PageRole) (hheld : s.Holds (t, role) page) (contents : PhysPage)
    (q : ℕ) : (s.setPage page contents).phys.memory q = s.phys.memory q ∨
      q ∈ s.phys.pool.free ∨ ∃ role, s.Holds (t, role) q := by
  by_cases hq : q = page
  · exact .inr (.inr ⟨role, hq ▸ hheld⟩)
  · exact .inl (Function.update_of_ne hq ..)

/-- The other threads are untouched, so that only the thread itself matters. -/
lemma of_thread (hothers : ∀ t', t' ≠ t → Untouched t' s s')
    (hpool : ∃ out, PoolInv numPages numResPages s'.phys.pool out)
    (htable : ∀ page, s'.pagetable t = some page → ∃ table, s'.phys.memory page = .table table ∧
      PagetableOk table ∧ ∀ pair ∈ table.pairs, pair < 2 ^ 19)
    (hexclusive : Exclusive s'.phys.pool.free s'.Holds)
    (hrange : ∀ role p, s'.Holds (t, role) p → numResPages ≤ p ∧ p < numPages) :
    SpacesInv numPages numResPages s' where
  pool := hpool
  tables t' page hpage := by
    by_cases ht : t' = t
    · exact htable page (ht ▸ hpage)
    · have hsame := hothers t' ht
      rw [hsame.pagetable] at hpage
      obtain ⟨table, hmem, hok⟩ := h.tables t' page hpage
      exact ⟨table, (hsame.memory .table page hpage).trans hmem, hok⟩
  exclusive := hexclusive
  range := by
    rintro ⟨t', role⟩ p hp
    by_cases ht : t' = t
    · exact hrange role p (ht ▸ hp)
    · exact h.range (t', role) p (((hothers t' ht).holds_iff role p).mp hp)

/-- Only pages that the thread holds are written, and its page table stays as it is. -/
lemma setPage {role : PageRole} (hheld : s.Holds (t, role) page) (hrole : role ≠ .table)
    (contents : PhysPage) : SpacesInv numPages numResPages (s.setPage page contents) ∧
      ∀ t', t' ≠ t → Untouched t' s (s.setPage page contents) := by
  have hpage : ∀ t', s.pagetable t' ≠ some page := fun t' heq =>
    hrole (congrArg Prod.snd (h.exclusive.unique (t, role) (t', .table) page hheld heq))
  have hHolds : ∀ owner p, (s.setPage page contents).Holds owner p ↔ s.Holds owner p := by
    rintro ⟨t', role'⟩ p
    cases role' with
    | table => rfl
    | taken => rfl
    | mapped n =>
      simp only [Spaces.Holds, Spaces.lookup?_congr (Spaces.table?_setPage_of_ne (hpage t'))]
  have hothers : ∀ t', t' ≠ t → Untouched t' s (s.setPage page contents) := by
    refine fun t' ht => ⟨rfl, rfl, fun role' p hp => Function.update_of_ne ?_ ..⟩
    rintro rfl
    exact h.not_holds hheld ht hp
  refine ⟨h.of_thread hothers h.pool (fun p hp => ?_) ?_ fun role' p hp => ?_, hothers⟩
  · obtain ⟨table, hmem, hok⟩ := h.tables t p hp
    exact ⟨table, (Function.update_of_ne (by rintro rfl; exact hpage t hp) ..).trans hmem, hok⟩
  · exact h.exclusive.mono (Finset.Subset.refl _) fun owner p => (hHolds owner p).mp
  · exact h.range (t, role') p ((hHolds (t, role') p).mp hp)

include hnum in
/-- The pool without a page. -/
lemma take_pool {p : ℕ} (hp : p ∈ s.phys.pool.free) :
    (∃ out, PoolInv numPages numResPages (s.phys.pool.take p) out) ∧
      numResPages ≤ p ∧ p < numPages := by
  obtain ⟨out, hinv⟩ := h.pool
  obtain ⟨hlt, hle, -⟩ := (hinv.mem_free p).mp hp
  exact ⟨⟨_, hinv.take hnum hp⟩, hle, hlt⟩

/-- A thread acquires a free page. -/
lemma acquire {p : ℕ} {role : PageRole} (hp : p ∈ s.phys.pool.free)
    (hpool : s'.phys.pool = s.phys.pool.take p)
    (hHolds : ∀ owner q, s'.Holds owner q → s.Holds owner q ∨ owner = (t, role) ∧ q = p) :
    Exclusive s'.phys.pool.free s'.Holds := by
  rw [hpool, Pagepool.take_free]
  exact h.exclusive.acquire hp (Finset.erase_subset _ _) (Finset.notMem_erase _ _) hHolds

include hnum hpos

lemma create (hexec : s.exec raw t .create = some s') : SpacesInv numPages numResPages s' ∧
    ∀ t', t' ≠ t → Untouched t' s s' := by
  rw [Spaces.exec] at hexec
  split_ifs at hexec with hnone
  simp only [createPagetable, Option.bind_eq_bind, Option.bind_eq_some_iff] at hexec
  obtain ⟨⟨phys, p⟩, ⟨⟨m, addr⟩, hget, heq⟩, hs'⟩ := hexec
  obtain ⟨page, hp, hlt, rfl, rfl⟩ := getPage_eq_some h.pool hnum hpos hget
  rw [pageAddr_page hlt] at heq
  cases heq
  have hpagetable : s'.pagetable = Function.update s.pagetable t (some p) := by cases hs'; rfl
  have hphysPage : s'.physPage = s.physPage := by cases hs'; rfl
  have hpool : s'.phys.pool = s.phys.pool.take p := by cases hs'; rfl
  have hself : s'.phys.memory p =
      .table (vmCreatePagetable t (raw.entries (s.phys.memory p))) := by
    cases hs'
    exact Function.update_self ..
  have hmem : ∀ q, q ≠ p → s'.phys.memory q = s.phys.memory q := by
    cases hs'
    exact fun q hq => Function.update_of_ne hq ..
  clear hs'
  have hothers : ∀ t', t' ≠ t → Untouched t' s s' := fun t' ht =>
    h.untouched_of_changes (fun t' ht => by rw [hpagetable, Function.update_of_ne ht])
      (fun t' _ => by rw [hphysPage]) (fun q => by
        by_cases hq : q = p
        · exact .inr (.inl (hq ▸ hp))
        · exact .inl (hmem q hq)) ht
  -- the new page table maps no page
  have hempty : ∀ v, s'.lookup? t v = none := fun v =>
    Spaces.lookup?_of_table? (Spaces.table?_eq_some.mpr
      ⟨by rw [hpagetable, Function.update_self], hself⟩) v
  have hHolds : ∀ owner q, s'.Holds owner q → s.Holds owner q ∨ owner = (t, .table) ∧ q = p := by
    rintro ⟨t', role⟩ q hq
    by_cases ht : t' = t
    · subst ht
      cases role with
      | table =>
        rw [Spaces.Holds, hpagetable, Function.update_self] at hq
        exact .inr ⟨rfl, (Option.some.inj hq).symm⟩
      | taken => exact .inl (by rwa [Spaces.Holds, hphysPage] at hq)
      | mapped n =>
        obtain ⟨v, dirty, -, hv⟩ := hq
        rw [hempty] at hv
        cases hv
    · exact .inl (((hothers t' ht).holds_iff role q).mp hq)
  obtain ⟨hinv, hrange⟩ := h.take_pool hnum hp
  refine ⟨h.of_thread hothers (hpool ▸ hinv) (fun q hq => ?_) (h.acquire hp hpool hHolds)
    fun role q hq => ?_, hothers⟩
  · rw [hpagetable, Function.update_self] at hq
    cases hq
    exact ⟨_, hself, vmCreatePagetable_ok t _, by simp [Pagetable.pairs, vmCreatePagetable]⟩
  · rcases hHolds _ q hq with hold | ⟨-, rfl⟩
    · exact h.range _ q hold
    · exact hrange

lemma take (hexec : s.exec raw t .take = some s') : SpacesInv numPages numResPages s' ∧
    ∀ t', t' ≠ t → Untouched t' s s' := by
  rw [Spaces.exec] at hexec
  split_ifs at hexec with hnone
  simp only [Option.bind_eq_bind, Option.bind_eq_some_iff] at hexec
  obtain ⟨⟨phys, addr⟩, hget, hs'⟩ := hexec
  obtain ⟨p, hp, hlt, rfl, rfl⟩ := getPage_eq_some h.pool hnum hpos hget
  rw [pageAddr_page hlt] at hs'
  have hpagetable : s'.pagetable = s.pagetable := by cases hs'; rfl
  have hphysPage : s'.physPage = Function.update s.physPage t (some p) := by cases hs'; rfl
  have hpool : s'.phys.pool = s.phys.pool.take p := by cases hs'; rfl
  have hmem : s'.phys.memory = s.phys.memory := by cases hs'; rfl
  clear hs'
  have htable : ∀ t', s'.table? t' = s.table? t' := fun t' => by
    simp only [Spaces.table?, PhysMemory.table?, hpagetable, hmem]
  have hothers : ∀ t', t' ≠ t → Untouched t' s s' := fun t' ht =>
    h.untouched_of_changes (fun t' _ => by rw [hpagetable])
      (fun t' ht => by rw [hphysPage, Function.update_of_ne ht]) (fun q => .inl (by rw [hmem])) ht
  have hHolds : ∀ owner q, s'.Holds owner q → s.Holds owner q ∨ owner = (t, .taken) ∧ q = p := by
    rintro ⟨t', role⟩ q hq
    by_cases ht : t' = t
    · subst ht
      cases role with
      | table => exact .inl (by rwa [Spaces.Holds, hpagetable] at hq)
      | taken =>
        rw [Spaces.Holds, hphysPage, Function.update_self] at hq
        exact .inr ⟨rfl, (Option.some.inj hq).symm⟩
      | mapped n =>
        simp only [Spaces.Holds, Spaces.lookup?_congr (htable t')] at hq
        exact .inl hq
    · exact .inl (((hothers t' ht).holds_iff role q).mp hq)
  obtain ⟨hinv, hrange⟩ := h.take_pool hnum hp
  refine ⟨h.of_thread hothers (hpool ▸ hinv) (fun q hq => ?_) (h.acquire hp hpool hHolds)
    fun role q hq => ?_, hothers⟩
  · rw [hpagetable] at hq
    obtain ⟨table, htab, hok⟩ := h.tables t q hq
    exact ⟨table, by rw [hmem, htab], hok⟩
  · rcases hHolds _ q hq with hold | ⟨-, rfl⟩
    · exact h.range _ q hold
    · exact hrange

omit hpos in
/-- The page that a thread has taken becomes a page that it has mapped. -/
lemma map (hexec : s.exec raw t (.map vaddr dirty) = some s') :
    SpacesInv numPages numResPages s' ∧ ∀ t', t' ≠ t → Untouched t' s s' := by
  simp only [Spaces.exec, Option.bind_eq_bind, Option.bind_eq_some_iff] at hexec
  obtain ⟨frame, hframe, ⟨page, table⟩, htable, table', hmap, hs'⟩ := hexec
  obtain ⟨hpage, hmem⟩ := Spaces.table?_eq_some.mp htable
  obtain ⟨table₀, hmem₀, hok, hpairs⟩ := h.tables t page hpage
  rw [hmem] at hmem₀
  cases hmem₀
  have hlt : frame < 2 ^ 19 := by
    have hrange := h.range (t, .taken) frame hframe
    omega
  have hpagetable : s'.pagetable = s.pagetable := by cases hs'; rfl
  have hphysPage : s'.physPage = Function.update s.physPage t none := by cases hs'; rfl
  have hpool : s'.phys.pool = s.phys.pool := by cases hs'; rfl
  have hmemory : s'.phys.memory = (s.setPage page (.table table')).phys.memory := by cases hs'; rfl
  clear hs'
  have hself : s'.table? t = some (page, table') :=
    Spaces.table?_eq_some.mpr ⟨by rw [hpagetable, hpage], by
      rw [hmemory]
      exact Function.update_self ..⟩
  have hothers : ∀ t', t' ≠ t → Untouched t' s s' := fun t' ht =>
    h.untouched_of_changes (fun t' _ => by rw [hpagetable])
      (fun t' ht => by rw [hphysPage, Function.update_of_ne ht]) (fun q => by
        rw [hmemory]
        exact memory_setPage .table hpage _ q) ht
  have hHolds : ∀ owner q, s'.Holds owner q → (s.Holds owner q ∧ owner ≠ (t, .taken)) ∨
      owner = (t, .mapped (pageOf vaddr)) ∧ q = frame := by
    rintro ⟨t', role⟩ q hq
    by_cases ht : t' = t
    · subst ht
      cases role with
      | table => exact .inl ⟨by rwa [Spaces.Holds, hpagetable] at hq, by simp⟩
      | taken =>
        rw [Spaces.Holds, hphysPage, Function.update_self] at hq
        cases hq
      | mapped n =>
        obtain ⟨v, dirty', rfl, hv⟩ := hq
        rw [Spaces.lookup?_of_table? hself, vmMap_lookup hmap, pageAddr_frame hlt] at hv
        split_ifs at hv with hsame
        · cases hv
          exact .inr ⟨by rw [hsame], rfl⟩
        · exact .inl ⟨⟨v, dirty', rfl, by rwa [Spaces.lookup?_of_table? htable]⟩, by simp⟩
    · exact .inl ⟨((hothers t' ht).holds_iff role q).mp hq, by simp [ht]⟩
  refine ⟨h.of_thread hothers (hpool ▸ h.pool) (fun q hq => ?_) ?_ fun role q hq => ?_, hothers⟩
  · rw [hpagetable, hpage] at hq
    cases hq
    refine ⟨table', (Spaces.table?_eq_some.mp hself).2, vmMap_ok hok hmap, ?_⟩
    rw [vmMap_pairs hmap]
    simpa using ⟨vpn2_lt vaddr, hpairs⟩
  · have hheld : s.Holds (t, .taken) frame := hframe
    rw [hpool]
    exact h.exclusive.transfer hheld hHolds
  · rcases hHolds _ q hq with ⟨hold, -⟩ | ⟨-, rfl⟩
    · exact h.range _ q hold
    · exact h.range (t, .taken) q hframe

omit hpos in
/-- The page of a page table is given back. -/
lemma destroy (hexec : s.exec raw t .destroy = some s') : SpacesInv numPages numResPages s' ∧
    ∀ t', t' ≠ t → Untouched t' s s' := by
  simp only [Spaces.exec, Option.bind_eq_bind, Option.bind_eq_some_iff] at hexec
  obtain ⟨page, hpage, pool, hfree, hs'⟩ := hexec
  have hheld : s.Holds (t, .table) page := hpage
  obtain ⟨hle, hlt⟩ := h.range _ page hheld
  obtain ⟨out, hinv⟩ := h.pool
  have hout : pageAddr page ∈ out := by
    by_contra hnot
    exact h.exclusive.taken _ page hheld ((hinv.mem_free page).mpr ⟨hlt, hle, hnot⟩)
  rw [hinv.pagepoolFreePhysPage_eq hnum hlt hle hout] at hfree
  cases hfree
  have hpagetable : s'.pagetable = Function.update s.pagetable t none := by cases hs'; rfl
  have hphysPage : s'.physPage = s.physPage := by cases hs'; rfl
  have hpool : s'.phys.pool = s.phys.pool.give page := by cases hs'; rfl
  have hmem : s'.phys.memory = s.phys.memory := by cases hs'; rfl
  clear hs'
  have hothers : ∀ t', t' ≠ t → Untouched t' s s' := fun t' ht =>
    h.untouched_of_changes (fun t' ht => by rw [hpagetable, Function.update_of_ne ht])
      (fun t' _ => by rw [hphysPage]) (fun q => .inl (by rw [hmem])) ht
  have hnone : s'.pagetable t = none := by rw [hpagetable, Function.update_self]
  have hHolds : ∀ owner q, s'.Holds owner q → s.Holds owner q ∧ owner ≠ (t, .table) := by
    rintro ⟨t', role⟩ q hq
    by_cases ht : t' = t
    · subst ht
      cases role with
      | table =>
        rw [Spaces.Holds, hnone] at hq
        cases hq
      | taken => exact ⟨by rwa [Spaces.Holds, hphysPage] at hq, by simp⟩
      | mapped n =>
        obtain ⟨v, dirty, -, hv⟩ := hq
        rw [Spaces.lookup?_of_none hnone] at hv
        cases hv
    · exact ⟨((hothers t' ht).holds_iff role q).mp hq, by simp [ht]⟩
  refine ⟨h.of_thread hothers (hpool ▸ ⟨_, hinv.give hnum hlt hle hout⟩) (fun q hq => ?_) ?_
    fun role q hq => h.range _ q (hHolds _ q hq).1, hothers⟩
  · rw [hnone] at hq
    cases hq
  · refine h.exclusive.release hheld (fun q hq => ?_) hHolds
    rw [hpool, Pagepool.give_free (by rw [hinv.num_pages]; exact hlt), Finset.mem_insert] at hq
    exact hq.symm

omit hnum hpos in
lemma setDirty (hexec : s.exec raw t (.setDirty vaddr dirty) = some s') :
    SpacesInv numPages numResPages s' ∧ ∀ t', t' ≠ t → Untouched t' s s' := by
  simp only [Spaces.exec, Option.bind_eq_bind, Option.bind_eq_some_iff] at hexec
  obtain ⟨⟨page, table⟩, htable, table', hset, hs'⟩ := hexec
  cases hs'
  obtain ⟨hpage, hmem⟩ := Spaces.table?_eq_some.mp htable
  obtain ⟨table₀, hmem₀, hok, hpairs⟩ := h.tables t page hpage
  rw [hmem] at hmem₀
  cases hmem₀
  have hself : (s.setPage page (.table table')).table? t = some (page, table') :=
    Spaces.table?_setPage_self hpage
  have hothers : ∀ t', t' ≠ t → Untouched t' s (s.setPage page (.table table')) := fun t' ht =>
    h.untouched_of_changes (fun _ _ => rfl) (fun _ _ => rfl)
      (memory_setPage .table hpage _) ht
  have hHolds : ∀ owner q, (s.setPage page (.table table')).Holds owner q → s.Holds owner q := by
    rintro ⟨t', role⟩ q hq
    by_cases ht : t' = t
    · subst ht
      cases role with
      | table => exact hq
      | taken => exact hq
      | mapped n =>
        obtain ⟨v, dirty', rfl, hv⟩ := hq
        rw [Spaces.lookup?_of_table? hself, vmSetDirty_lookup hset] at hv
        split_ifs at hv with hsame
        · obtain ⟨target, htarget, heq⟩ := Option.map_eq_some_iff.mp hv
          cases heq
          refine ⟨vaddr, target.2, hsame.symm, ?_⟩
          rw [Spaces.lookup?_of_table? htable, htarget]
        · exact ⟨v, dirty', rfl, by rwa [Spaces.lookup?_of_table? htable]⟩
    · exact ((hothers t' ht).holds_iff role q).mp hq
  refine ⟨h.of_thread hothers h.pool (fun q hq => ?_) ?_
    fun role q hq => h.range _ q (hHolds _ q hq), hothers⟩
  · cases hpage.symm.trans hq
    refine ⟨table', (Spaces.table?_eq_some.mp hself).2, vmSetDirty_ok hok hset, ?_⟩
    rw [vmSetDirty_pairs hset]
    exact hpairs
  · exact h.exclusive.mono (Finset.Subset.refl _) hHolds

/-- Every operation keeps the invariant and leaves the other threads as they are. -/
lemma exec {op : SpaceOp} (hexec : s.exec raw t op = some s') :
    SpacesInv numPages numResPages s' ∧ ∀ t', t' ≠ t → Untouched t' s s' := by
  cases op with
  | create => exact h.create hnum hpos hexec
  | take => exact h.take hnum hpos hexec
  | map vaddr dirty => exact h.map hnum hexec
  | setDirty vaddr dirty => exact h.setDirty hexec
  | store vaddr byte =>
    simp only [Spaces.exec, Option.bind_eq_bind, Option.bind_eq_some_iff] at hexec
    obtain ⟨⟨frame, dirty⟩, hlookup, hs'⟩ := hexec
    split_ifs at hs' with hdirty
    cases hs'
    have hheld : s.Holds (t, .mapped (pageOf vaddr)) frame := ⟨vaddr, dirty, rfl, hlookup⟩
    exact h.setPage hheld (by simp) _
  | copy parent vaddr =>
    simp only [Spaces.exec, Option.bind_eq_bind, Option.bind_eq_some_iff] at hexec
    obtain ⟨⟨frame, dirty⟩, hlookup, source, -, hs'⟩ := hexec
    cases hs'
    have hheld : s.Holds (t, .mapped (pageOf vaddr)) frame := ⟨vaddr, dirty, rfl, hlookup⟩
    exact h.setPage hheld (by simp) _
  | destroy => exact h.destroy hnum hexec

end SpacesInv

/-! ### Runs -/

lemma Untouched.refl (t : ℕ) (s : Spaces) : Untouched t s s := ⟨rfl, rfl, fun _ _ _ => rfl⟩

lemma Untouched.trans {s'' : Spaces} (h : Untouched t s s') (h' : Untouched t s' s'') :
    Untouched t s s'' where
  pagetable := h'.pagetable.trans h.pagetable
  physPage  := h'.physPage.trans h.physPage
  memory role p hp := (h'.memory role p ((h.holds_iff role p).mpr hp)).trans (h.memory role p hp)

lemma initSpaces_inv {garbage : Memory} {memory : ℕ → PhysPage} (hres : numResPages ≤ numPages) :
    SpacesInv numPages numResPages (initSpaces garbage numPages numResPages memory) := by
  have hnone : ∀ owner p, ¬(initSpaces garbage numPages numResPages memory).Holds owner p := by
    rintro ⟨t, role⟩ p hp
    cases role with
    | table => cases hp
    | taken => cases hp
    | mapped page =>
      obtain ⟨v, dirty, -, hv⟩ := hp
      cases hv
  exact ⟨⟨[], PoolInv.init hres⟩, fun t page hpage => (by cases hpage),
    ⟨fun a b p ha => absurd ha (hnone a p), fun a p ha => absurd ha (hnone a p)⟩,
    fun a p ha => absurd ha (hnone a p)⟩

lemma runOps_append {ops ops' : List (ℕ × SpaceOp)} :
    runOps raw (ops ++ ops') s = (runOps raw ops s).bind (runOps raw ops') := by
  induction ops generalizing s with
  | nil => rfl
  | cons op ops ih =>
    simp only [List.cons_append, runOps, Option.bind_eq_bind, Option.bind_assoc]
    exact congrArg _ (funext fun s => ih)

section Runs

variable (hnum : numPages ≤ 2 ^ 19) (hpos : 1 ≤ numResPages)
include hnum hpos

/-- A run keeps the invariant and leaves the threads as they are that have no part in it. -/
lemma SpacesInv.runOps {ops : List (ℕ × SpaceOp)} (h : SpacesInv numPages numResPages s)
    (hrun : Vm.runOps raw ops s = some s') : SpacesInv numPages numResPages s' ∧
      ∀ t, (∀ op ∈ ops, op.1 ≠ t) → Untouched t s s' := by
  induction ops generalizing s with
  | nil =>
    cases hrun
    exact ⟨h, fun t _ => Untouched.refl t _⟩
  | cons op ops ih =>
    simp only [Vm.runOps, Option.bind_eq_bind, Option.bind_eq_some_iff] at hrun
    obtain ⟨s₁, hexec, hrest⟩ := hrun
    obtain ⟨hinv₁, hothers₁⟩ := h.exec hnum hpos hexec
    obtain ⟨hinv, hothers⟩ := ih hinv₁ hrest
    refine ⟨hinv, fun t ht => ?_⟩
    have hfirst := hothers₁ t (ht op List.mem_cons_self).symm
    exact hfirst.trans (hothers t fun op' hop' => ht op' (List.mem_cons_of_mem op hop'))

end Runs

/-- Pages with any contents are read as pages of zeros. -/
def zeroRaw : RawPage := ⟨fun _ _ => ⟨0, 0, fun _ => ⟨0, false, false, false⟩⟩, fun _ _ => 0⟩

/-- Eight free pages. -/
def eightPages : Spaces := initSpaces (fun _ => 0xab) 40 32 fun _ => .data fun _ => 0

/-- A thread maps a page. -/
def onePage (t : ℕ) : List (ℕ × SpaceOp) := [(t, .create), (t, .take), (t, .map 0x1000 true)]

end Osm.Vm
