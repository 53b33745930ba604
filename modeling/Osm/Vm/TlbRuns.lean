import Osm.Kernel.Thread
import Osm.Vm.Tlb
import Mathlib.Logic.Relation

/-!
# The TLB and the page tables

The TLB caches entries of the page tables of all threads; the identifier of an address space is
the number of its thread. Entries get into the TLB only by TLB exceptions, in a row that the
hardware chooses. `vm_map`, `vm_set_dirty` and `vm_destroy_pagetable` do not look at the TLB, so
what it caches can differ from the page table of the thread.

A run is made of the steps in which `process_start`, `process_fork_setup`, `process_memlimit`,
`process_finish` and TLB exceptions use page tables and the TLB, in any order of the threads.
-/

namespace Osm.Vm

/-- What a thread is doing: its slot is free, it has no page table yet, it builds its address
space, or it runs its user program, system calls included. -/
inductive Phase where
  | free
  | starting
  | loading
  | user
  deriving DecidableEq

/-- The rows of the TLB, and the threads with their page tables. -/
structure TlbState where
  tlb    : ℕ → Option TlbEntry
  phase  : ℕ → Phase
  tables : ℕ → Option Pagetable

namespace TlbState

def initial : TlbState where
  tlb _    := none
  phase _  := .free
  tables _ := none

def setPhase (s : TlbState) (t : ℕ) (phase : Phase) : TlbState :=
  { s with phase := Function.update s.phase t phase }

def setTable (s : TlbState) (t : ℕ) (table : Option Pagetable) : TlbState :=
  { s with tables := Function.update s.tables t table }

def setRow (s : TlbState) (row : ℕ) (entry : TlbEntry) : TlbState :=
  { s with tlb := Function.update s.tlb row (some entry) }

@[simp]
lemma setPhase_self (s : TlbState) (t : ℕ) (phase : Phase) :
    (s.setPhase t phase).phase t = phase := Function.update_self ..

lemma setPhase_ne (s : TlbState) {t t' : ℕ} (phase : Phase) (h : t' ≠ t) :
    (s.setPhase t phase).phase t' = s.phase t' := Function.update_of_ne h ..

@[simp]
lemma setTable_self (s : TlbState) (t : ℕ) (table : Option Pagetable) :
    (s.setTable t table).tables t = table := Function.update_self ..

lemma setTable_ne (s : TlbState) {t t' : ℕ} (table : Option Pagetable) (h : t' ≠ t) :
    (s.setTable t table).tables t' = s.tables t' := Function.update_of_ne h ..

@[simp]
lemma setRow_self (s : TlbState) (row : ℕ) (entry : TlbEntry) :
    (s.setRow row entry).tlb row = some entry := Function.update_self ..

lemma setRow_ne (s : TlbState) {row row' : ℕ} (entry : TlbEntry) (h : row' ≠ row) :
    (s.setRow row entry).tlb row' = s.tlb row' := Function.update_of_ne h ..

/-- A row of the TLB has an entry for a pair of pages of an address space. -/
def Caches (s : TlbState) (pair asid row : ℕ) : Prop :=
  ∃ entry, s.tlb row = some entry ∧ entry.vpn2 = pair ∧ entry.asid = asid

/-- An access is translated: a row of the TLB maps the page for the address space. -/
def Hits (s : TlbState) (vaddr : UInt32) (asid row : ℕ) : Prop :=
  ∃ entry, s.tlb row = some entry ∧ entry.vpn2 = vpn2 vaddr ∧ entry.asid = asid ∧
    tlbEntryIsValid entry vaddr = true

end TlbState

/-- A step of a thread. -/
inductive TlbAction where
  | threadCreate (t : ℕ)
  | createPagetable (t : ℕ) (garbage : ℕ → TlbEntry)
  | map (t : ℕ) (physaddr vaddr : UInt32) (dirty : Bool)
  | setDirty (t : ℕ) (vaddr : UInt32) (dirty : Bool)
  | miss (t : ℕ) (vaddr : UInt32) (row : ℕ)
  | gotoUserland (t : ℕ)
  | finish (t : ℕ)

/-- The steps. A thread maps pages when it builds its address space and in `process_memlimit`, and
write protects pages at the end of `process_start`. While it builds its address space the kernel
accesses pages of the user program, so there are TLB exceptions then, too. -/
inductive TlbStep : TlbState → TlbAction → TlbState → Prop where
  | threadCreate {s t} (ht : t < Kernel.configMaxThreads) (hphase : s.phase t = .free) :
      TlbStep s (.threadCreate t) (s.setPhase t .starting)
  | createPagetable {s t garbage} (hphase : s.phase t = .starting) :
      TlbStep s (.createPagetable t garbage)
        ((s.setPhase t .loading).setTable t (some (vmCreatePagetable t garbage)))
  | map {s t physaddr vaddr dirty table table'} (hphase : s.phase t = .loading ∨ s.phase t = .user)
      (htable : s.tables t = some table) (hmap : vmMap table physaddr vaddr dirty = some table') :
      TlbStep s (.map t physaddr vaddr dirty) (s.setTable t (some table'))
  | setDirty {s t vaddr dirty table table'} (hphase : s.phase t = .loading)
      (htable : s.tables t = some table) (hset : vmSetDirty table vaddr dirty = some table') :
      TlbStep s (.setDirty t vaddr dirty) (s.setTable t (some table'))
  | miss {s t vaddr row table entry isUserland}
      (hphase : s.phase t = .loading ∨ s.phase t = .user) (htable : s.tables t = some table)
      (hmiss : ∀ row, ¬ s.Hits vaddr t row)
      (hwrite : tlbAccessException isUserland (some table) (tlbGetExceptionState vaddr t) =
        .writeRandom entry) :
      TlbStep s (.miss t vaddr row) (s.setRow row entry)
  | gotoUserland {s t} (hphase : s.phase t = .loading) :
      TlbStep s (.gotoUserland t) (s.setPhase t .user)
  | finish {s t} (hphase : s.phase t = .user) :
      TlbStep s (.finish t) ((s.setPhase t .free).setTable t none)

/-- The states of all runs. -/
def TlbReachable : TlbState → Prop :=
  Relation.ReflTransGen (fun s s' => ∃ action, TlbStep s action s') TlbState.initial

/-- A step that changes an entry of a page table, or makes a new one, finds no old entry for it in
the TLB. -/
def NotCached (s : TlbState) : TlbAction → Prop
  | .createPagetable t _ => ∀ pair row, ¬ s.Caches pair t row
  | .map t _ vaddr _     => ∀ row, ¬ s.Caches (vpn2 vaddr) t row
  | .setDirty t vaddr _  => ∀ row, ¬ s.Caches (vpn2 vaddr) t row
  | _                    => True

/-- The states of the runs in which no step changes what the TLB has cached. -/
def TlbReachableUncached : TlbState → Prop :=
  Relation.ReflTransGen (fun s s' => ∃ action, TlbStep s action s' ∧ NotCached s action)
    TlbState.initial

/-- For a thread that runs its user program, the entries of the TLB are those of its page table,
and there is one entry for a pair of pages of an address space at most. -/
def TlbAgrees (s : TlbState) : Prop :=
  ∀ t table, s.phase t = .user → s.tables t = some table →
    (∀ row entry, s.tlb row = some entry → entry.asid = t →
      ∃ i, findPair table entry.vpn2 = some i ∧ ∀ odd,
        (entry.lo odd).pfn = ((table.entries i).lo odd).pfn ∧
        (entry.lo odd).v = ((table.entries i).lo odd).v ∧
        (entry.lo odd).d = ((table.entries i).lo odd).d) ∧
    (∀ row row' entry entry', s.tlb row = some entry → s.tlb row' = some entry' →
      entry.vpn2 = entry'.vpn2 → entry.asid = entry'.asid → row = row')

/-! ### The invariant -/

/-- The entries of the TLB for a thread with a page table are entries of the table, and none is
there twice. -/
structure TlbInv (s : TlbState) : Prop where
  lt     : ∀ t, s.phase t ≠ .free → t < Kernel.configMaxThreads
  early  : ∀ t, s.phase t = .free ∨ s.phase t = .starting → s.tables t = none
  ok     : ∀ t table, s.tables t = some table → PagetableOk table ∧ table.asid = t
  cached : ∀ t table row entry, s.tables t = some table → s.tlb row = some entry →
    entry.asid = t → ∃ i < table.validCount, entry = table.entries i
  unique : ∀ row row' entry entry', s.tlb row = some entry → s.tlb row' = some entry' →
    entry.vpn2 = entry'.vpn2 → entry.asid = entry'.asid → row = row'

variable {s s' : TlbState} {t : ℕ} {table table' : Pagetable} {vaddr physaddr : UInt32}
  {dirty : Bool} {i : ℕ} {action : TlbAction}

/-- Replacing a half of the entry for a pair leaves the entries of other pairs alone. -/
lemma setHalf_entries {k : ℕ} {lo : EntryLo} (hfind : findPair table (vpn2 vaddr) = some k)
    (hne : (table.entries i).vpn2 ≠ vpn2 vaddr) :
    (table.setHalf k vaddr lo).entries i = table.entries i := by
  apply setEntry_ne
  rintro rfl
  exact hne (findPair_some hfind).2

/-- `vm_map` leaves the entries of other pairs alone. -/
lemma vmMap_entries (h : vmMap table physaddr vaddr dirty = some table')
    (hi : i < table.validCount) (hne : (table.entries i).vpn2 ≠ vpn2 vaddr) :
    i < table'.validCount ∧ table'.entries i = table.entries i := by
  obtain ⟨k, hfind, rfl⟩ | ⟨-, -, rfl⟩ := vmMap_cases h
  · exact ⟨hi, setHalf_entries hfind hne⟩
  · exact ⟨Nat.lt_succ_of_lt hi, push_lt _ hi⟩

/-- `vm_set_dirty` leaves the entries of other pairs alone. -/
lemma vmSetDirty_entries (h : vmSetDirty table vaddr dirty = some table')
    (hi : i < table.validCount) (hne : (table.entries i).vpn2 ≠ vpn2 vaddr) :
    i < table'.validCount ∧ table'.entries i = table.entries i := by
  obtain ⟨k, hfind, -, rfl⟩ := vmSetDirty_cases h
  exact ⟨hi, setHalf_entries hfind hne⟩

namespace TlbInv

lemma initial : TlbInv TlbState.initial := by
  constructor
  · intro t ht
    exact absurd rfl ht
  · intro t _
    rfl
  · intro t table htable
    cases htable
  · intro t table row entry htable
    cases htable
  · intro row row' entry entry' hrow
    cases hrow

/-- A thread with a page table is not free. -/
lemma lt_of_table (h : TlbInv s) (htable : s.tables t = some table) :
    t < Kernel.configMaxThreads := by
  apply h.lt
  intro hfree
  rw [h.early t (.inl hfree)] at htable
  cases htable

/-- A thread in an early phase has to be without a page table. -/
lemma setPhase {phase : Phase} (h : TlbInv s) (hlt : t < Kernel.configMaxThreads)
    (hearly : phase = .free ∨ phase = .starting → s.tables t = none) :
    TlbInv (s.setPhase t phase) where
  lt t' hphase := by
    by_cases htt : t' = t
    · exact htt ▸ hlt
    · rw [s.setPhase_ne phase htt] at hphase
      exact h.lt t' hphase
  early t' hphase := by
    by_cases htt : t' = t
    · rw [htt, s.setPhase_self] at hphase
      exact htt ▸ hearly hphase
    · rw [s.setPhase_ne phase htt] at hphase
      exact h.early t' hphase
  ok := h.ok
  cached := h.cached
  unique := h.unique

/-- A new page table of a thread has to keep what is cached of the old one. -/
lemma setTable {newTable : Option Pagetable} (h : TlbInv s)
    (hearly : s.phase t = .free ∨ s.phase t = .starting → newTable = none)
    (hok : ∀ table ∈ newTable, PagetableOk table ∧ table.asid = t)
    (hcached : ∀ table ∈ newTable, ∀ row entry, s.tlb row = some entry → entry.asid = t →
      ∃ i < table.validCount, entry = table.entries i) :
    TlbInv (s.setTable t newTable) where
  lt := h.lt
  early t' hphase := by
    by_cases htt : t' = t
    · subst htt
      rw [s.setTable_self]
      exact hearly hphase
    · rw [s.setTable_ne newTable htt]
      exact h.early t' hphase
  ok t' table htable := by
    by_cases htt : t' = t
    · subst htt
      rw [s.setTable_self] at htable
      exact hok table htable
    · rw [s.setTable_ne newTable htt] at htable
      exact h.ok t' table htable
  cached t' table row entry htable hrow hentry := by
    by_cases htt : t' = t
    · subst htt
      rw [s.setTable_self] at htable
      exact hcached table htable row entry hrow hentry
    · rw [s.setTable_ne newTable htt] at htable
      exact h.cached t' table row entry htable hrow hentry
  unique := h.unique

/-- A new table finds nothing cached for its thread. -/
lemma create (h : TlbInv s) (hphase : s.phase t = .starting) (garbage : ℕ → TlbEntry)
    (hnot : ∀ pair row, ¬ s.Caches pair t row) :
    TlbInv ((s.setPhase t .loading).setTable t (some (vmCreatePagetable t garbage))) := by
  have hlt : t < Kernel.configMaxThreads := h.lt t (by rw [hphase]; decide)
  refine (h.setPhase hlt (by simp)).setTable (by simp) ?_ ?_
  · intro table htable
    cases htable
    exact ⟨vmCreatePagetable_ok t garbage, rfl⟩
  · intro table _ row entry hrow hentry
    exact absurd ⟨entry, hrow, rfl, hentry⟩ (hnot entry.vpn2 row)

/-- Changing the entry of a pair that is not cached. -/
lemma changeEntry (h : TlbInv s) (hphase : s.phase t = .loading ∨ s.phase t = .user)
    (htable : s.tables t = some table) (hnot : ∀ row, ¬ s.Caches (vpn2 vaddr) t row)
    (hok : PagetableOk table') (hasid : table'.asid = table.asid)
    (hentries : ∀ i < table.validCount, (table.entries i).vpn2 ≠ vpn2 vaddr →
      i < table'.validCount ∧ table'.entries i = table.entries i) :
    TlbInv (s.setTable t (some table')) := by
  refine h.setTable ?_ ?_ ?_
  · rintro (hfree | hstarting)
    · rcases hphase with hphase | hphase <;> cases hphase.symm.trans hfree
    · rcases hphase with hphase | hphase <;> cases hphase.symm.trans hstarting
  · intro table'' htable''
    cases htable''
    exact ⟨hok, hasid.trans (h.ok t table htable).2⟩
  · intro table'' htable'' row entry hrow hentry
    cases htable''
    obtain ⟨i, hi, rfl⟩ := h.cached t table row entry htable hrow hentry
    have hne : (table.entries i).vpn2 ≠ vpn2 vaddr := fun hpair =>
      hnot row ⟨table.entries i, hrow, hpair, hentry⟩
    obtain ⟨hi', heq⟩ := hentries i hi hne
    exact ⟨i, hi', heq.symm⟩

/-- The page table of a thread is destroyed, and what is cached of it stays. -/
lemma destroy (h : TlbInv s) (hlt : t < Kernel.configMaxThreads) :
    TlbInv ((s.setPhase t .free).setTable t none) := by
  have hnone : TlbInv (s.setTable t none) := h.setTable (fun _ => rfl) (by simp) (by simp)
  exact hnone.setPhase hlt fun _ => s.setTable_self t none

/-- A TLB exception writes an entry that is not in the TLB. -/
lemma miss {isUserland : Bool} {row : ℕ} {entry : TlbEntry} (h : TlbInv s)
    (htable : s.tables t = some table) (hmiss : ∀ row, ¬ s.Hits vaddr t row)
    (hwrite : tlbAccessException isUserland (some table) (tlbGetExceptionState vaddr t) =
      .writeRandom entry) : TlbInv (s.setRow row entry) := by
  obtain ⟨hok, hasid⟩ := h.ok t table htable
  have hlt := h.lt_of_table htable
  obtain ⟨i, hi, hpair, hvalid, rfl⟩ := tlbAccessException_writeRandom hwrite
  have hentry : (table.entries i).asid = t := by
    rw [hok.asid i hi, hasid]
    exact Nat.mod_eq_of_lt (hlt.trans (by decide))
  -- an entry for the pair would be the one of the table, and the access would not have missed
  have hnew : ∀ row' entry', s.tlb row' = some entry' → entry'.vpn2 = (table.entries i).vpn2 →
      entry'.asid ≠ t := by
    intro row' entry' hrow' hpair' hasid'
    obtain ⟨j, hj, rfl⟩ := h.cached t table row' entry' htable hrow' hasid'
    obtain rfl := hok.distinct j hj i hi hpair'
    exact hmiss row' ⟨_, hrow', hpair, hasid', hvalid⟩
  constructor
  · exact h.lt
  · exact h.early
  · exact h.ok
  · intro t' table' row' entry' htable' hrow' hasid'
    by_cases hrr : row' = row
    · subst hrr
      rw [s.setRow_self] at hrow'
      cases hrow'
      have htt : t' = t := hasid'.symm.trans hentry
      subst htt
      cases htable'.symm.trans htable
      exact ⟨i, hi, rfl⟩
    · rw [s.setRow_ne _ hrr] at hrow'
      exact h.cached t' table' row' entry' htable' hrow' hasid'
  · intro row₁ row₂ entry₁ entry₂ hrow₁ hrow₂ hpairs hasids
    by_cases hr₁ : row₁ = row <;> by_cases hr₂ : row₂ = row
    · exact hr₁.trans hr₂.symm
    · subst hr₁
      rw [s.setRow_self] at hrow₁
      cases hrow₁
      rw [s.setRow_ne _ hr₂] at hrow₂
      exact absurd (hasids.symm.trans hentry) (hnew row₂ entry₂ hrow₂ hpairs.symm)
    · subst hr₂
      rw [s.setRow_self] at hrow₂
      cases hrow₂
      rw [s.setRow_ne _ hr₁] at hrow₁
      exact absurd (hasids.trans hentry) (hnew row₁ entry₁ hrow₁ hpairs)
    · rw [s.setRow_ne _ hr₁] at hrow₁
      rw [s.setRow_ne _ hr₂] at hrow₂
      exact h.unique row₁ row₂ entry₁ entry₂ hrow₁ hrow₂ hpairs hasids

/-- Every step that changes nothing that is cached keeps the invariant. -/
lemma step (h : TlbInv s) (hstep : TlbStep s action s') (hnot : NotCached s action) :
    TlbInv s' := by
  cases hstep with
  | @threadCreate t ht hphase => exact h.setPhase ht fun _ => h.early t (.inl hphase)
  | createPagetable hphase => exact h.create hphase _ hnot
  | map hphase htable hmap =>
    exact h.changeEntry hphase htable hnot (vmMap_ok (h.ok _ _ htable).1 hmap) (vmMap_asid hmap)
      fun i hi hne => vmMap_entries hmap hi hne
  | setDirty hphase htable hset =>
    exact h.changeEntry (.inl hphase) htable hnot (vmSetDirty_ok (h.ok _ _ htable).1 hset)
      (vmSetDirty_asid hset) fun i hi hne => vmSetDirty_entries hset hi hne
  | miss hphase htable hmiss hwrite => exact h.miss htable hmiss hwrite
  | @gotoUserland t hphase =>
    exact h.setPhase (h.lt t (by rw [hphase]; decide)) (by simp)
  | @finish t hphase => exact h.destroy (h.lt t (by rw [hphase]; decide))

lemma agrees (h : TlbInv s) : TlbAgrees s := by
  intro t table _ htable
  refine ⟨?_, h.unique⟩
  intro row entry hrow hentry
  obtain ⟨i, hi, rfl⟩ := h.cached t table row entry htable hrow hentry
  exact ⟨i, (h.ok t table htable).1.findPair_eq hi rfl, fun odd => ⟨rfl, rfl, rfl⟩⟩

end TlbInv

lemma TlbReachableUncached.inv (h : TlbReachableUncached s) : TlbInv s := by
  induction h with
  | refl => exact TlbInv.initial
  | tail _ hstep ih =>
    obtain ⟨action, hstep, hnot⟩ := hstep
    exact ih.step hstep hnot

lemma TlbReachableUncached.reachable (h : TlbReachableUncached s) : TlbReachable s := by
  induction h with
  | refl => exact .refl
  | tail _ hstep ih =>
    obtain ⟨action, hstep, -⟩ := hstep
    exact ih.tail ⟨action, hstep⟩

/-- In every run in which page table entries change only while the TLB has no entry for them, and
page tables are created only while it has none of their thread, the TLB agrees with the page
tables. -/
theorem tlbAgrees_of_uncached (h : TlbReachableUncached s) : TlbAgrees s := h.inv.agrees

/-! ### Read-only pages -/

/-- A state of the TLB without an entry for a pair, and another entry. -/
lemma not_hits_setRow {asid row : ℕ} {entry : TlbEntry} (h : ∀ row, ¬ s.Hits vaddr asid row)
    (hne : entry.vpn2 ≠ vpn2 vaddr) : ∀ row', ¬ (s.setRow row entry).Hits vaddr asid row' := by
  rintro row' ⟨entry', hrow, hpair, hrest⟩
  by_cases hrr : row' = row
  · rw [hrr, s.setRow_self] at hrow
    cases hrow
    exact hne hpair
  · rw [s.setRow_ne entry hrr] at hrow
    exact h row' ⟨entry', hrow, hpair, hrest⟩

/-- A thread with an empty page table, and nothing in the TLB. -/
def created : TlbState :=
  ((TlbState.initial.setPhase 2 .starting).setPhase 2 .loading).setTable 2
    (some (vmCreatePagetable 2 leftover))

lemma created_uncached : TlbReachableUncached created := by
  have hcreate := Relation.ReflTransGen.single (r := fun s s' => ∃ action, TlbStep s action s' ∧
    NotCached s action) ⟨_, TlbStep.threadCreate (t := 2) (s := .initial) (by decide) rfl, trivial⟩
  refine hcreate.tail ⟨_, @TlbStep.createPagetable _ 2 leftover rfl, ?_⟩
  rintro pair row ⟨entry, hrow, -⟩
  cases hrow

/-- A page that is mapped read-only by `process_fork_setup`, and cached afterwards. -/
theorem tlbAgrees_of_uncached_onePage : ∃ s entry, TlbReachableUncached s ∧ s.phase 2 = .user ∧
    s.tlb 0 = some entry ∧ entry.asid = 2 ∧ TlbAgrees s := by
  have hmap := created_uncached.tail ⟨_, @TlbStep.map _ 2 0x20000 0x1000 false _ _ (.inl rfl) rfl rfl, by
    rintro row ⟨entry, hrow, -⟩
    cases hrow⟩
  have huser := hmap.tail ⟨_, TlbStep.gotoUserland (t := 2) rfl, trivial⟩
  have hmiss := huser.tail ⟨_, @TlbStep.miss _ 2 0x1000 0 _ _ true (.inr rfl) rfl (by
    rintro row ⟨entry, hrow, -⟩
    cases hrow) rfl, trivial⟩
  exact ⟨_, _, hmiss, rfl, rfl, rfl, tlbAgrees_of_uncached hmiss⟩

/-- In `process_start` for a program with a read-only page at `0x1000` and another page at
`0x2000` the kernel fills the pages before the first one is write protected. The entry that this
leaves in the TLB lets the user program write to the page. -/
theorem tlbAgrees_fails : ∃ s, TlbReachable s ∧ ¬ TlbAgrees s := by
  have hstack := created_uncached.reachable.tail
    ⟨_, @TlbStep.map _ 2 0x20000 0x7fffe000 true _ _ (.inl rfl) rfl rfl⟩
  have hro := hstack.tail ⟨_, @TlbStep.map _ 2 0x21000 0x1000 true _ _ (.inl rfl) rfl rfl⟩
  have hrw := hro.tail ⟨_, @TlbStep.map _ 2 0x22000 0x2000 true _ _ (.inl rfl) rfl rfl⟩
  have hempty : ∀ {s : TlbState}, s.tlb = TlbState.initial.tlb → ∀ vaddr asid row,
      ¬ s.Hits vaddr asid row := by
    rintro s hs vaddr asid row ⟨entry, hrow, -⟩
    rw [hs] at hrow
    cases hrow
  -- the kernel sets the pages to zero
  have hmiss₁ := hrw.tail ⟨_, @TlbStep.miss _ 2 0x1000 0 _ _ false (.inl rfl) rfl
    (hempty rfl 0x1000 2) rfl⟩
  have hmiss₂ := hmiss₁.tail ⟨_, @TlbStep.miss _ 2 0x2000 1 _ _ false (.inl rfl) rfl
    (not_hits_setRow (hempty rfl 0x2000 2) (by decide)) rfl⟩
  have hmiss₃ := hmiss₂.tail ⟨_, @TlbStep.miss _ 2 0x7fffe000 2 _ _ false (.inl rfl) rfl
    (not_hits_setRow (not_hits_setRow (hempty rfl 0x7fffe000 2) (by decide)) (by decide)) rfl⟩
  have hprotect := hmiss₃.tail ⟨_, @TlbStep.setDirty _ 2 0x1000 false _ _ rfl rfl rfl⟩
  have huser := hprotect.tail ⟨_, TlbStep.gotoUserland (t := 2) rfl⟩
  refine ⟨_, huser, fun hagrees => ?_⟩
  obtain ⟨i, hfind, hlo⟩ := (hagrees 2 _ rfl rfl).1 0 _ rfl rfl
  cases hfind
  cases (hlo true).2.2

end Osm.Vm
