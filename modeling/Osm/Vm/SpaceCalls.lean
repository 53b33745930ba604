import Osm.Vm.Isolation
import Osm.Vm.Memlimit

/-!
# Calls on address spaces

`process_fork_setup` and `process_memlimit` are operations of the calling thread, one after the
other, so that what holds after any operations holds when they return. A child therefore has an
address space of its own; and what a process has mapped is lost to the pool when the process ends.
-/

namespace Osm.Vm

open Osm.Core Osm.Lib

variable {raw : RawPage} {s s' : Spaces} {t t' page frame : ℕ} {table : Pagetable}
  {numPages numResPages : ℕ} {vaddr : UInt32} {dirty : Bool}

/-- A thread goes from a state to another one by its own operations. -/
def RunsTo (raw : RawPage) (t : ℕ) (s s' : Spaces) : Prop :=
  ∃ ops : List (ℕ × SpaceOp), (∀ op ∈ ops, op.1 = t) ∧ runOps raw ops s = some s'

namespace RunsTo

lemma refl (raw : RawPage) (t : ℕ) (s : Spaces) : RunsTo raw t s s :=
  ⟨[], fun _ hop => absurd hop List.not_mem_nil, rfl⟩

lemma trans {s'' : Spaces} (h : RunsTo raw t s s') (h' : RunsTo raw t s' s'') :
    RunsTo raw t s s'' := by
  obtain ⟨ops, hops, hrun⟩ := h
  obtain ⟨ops', hops', hrun'⟩ := h'
  refine ⟨ops ++ ops', fun op hop => ?_, by rw [runOps_append, hrun, Option.bind_some, hrun']⟩
  exact (List.mem_append.mp hop).elim (hops op) (hops' op)

lemma single (op : SpaceOp) (h : s.exec raw t op = some s') : RunsTo raw t s s' :=
  ⟨[(t, op)], by simp, by rw [runOps, h]; rfl⟩

lemma inv (h : RunsTo raw t s s') (hnum : numPages ≤ 2 ^ 19) (hpos : 1 ≤ numResPages)
    (hinv : SpacesInv numPages numResPages s) :
    SpacesInv numPages numResPages s' ∧ ∀ t', t' ≠ t → Untouched t' s s' := by
  obtain ⟨ops, hops, hrun⟩ := h
  obtain ⟨hinv', hothers⟩ := hinv.runOps hnum hpos hrun
  exact ⟨hinv', fun t' ht => hothers t' fun op hop => by rw [hops op hop]; exact ht.symm⟩

end RunsTo

section Calls

variable (raw) {m m' : PhysMemory} {addr : UInt32} (hinv : SpacesInv numPages numResPages s)
  (hnum : numPages ≤ 2 ^ 19) (hpos : 1 ≤ numResPages) (htaken : s.physPage t = none)
include hinv hnum hpos htaken

/-- A page is taken from the pool and mapped. -/
lemma runsTo_takeMap {table' : Pagetable} (htable : s.table? t = some (page, table))
    (hget : s.phys.getPage = some (m, addr)) (hmap : vmMap table addr vaddr dirty = some table') :
    RunsTo raw t s { s with phys := m.setPage page (.table table') } ∧
      ∃ p, p < 2 ^ 19 ∧ addr = pageAddr p := by
  obtain ⟨p, hp, hlt, rfl, rfl⟩ := getPage_eq_some hinv.pool hnum hpos hget
  refine ⟨?_, p, hlt, rfl⟩
  have htake : s.exec raw t .take = some { s with
      phys := { s.phys with pool := s.phys.pool.take p }
      physPage := Function.update s.physPage t (some p) } := by
    rw [Spaces.exec, if_pos htaken, hget]
    simp [pageAddr_page hlt]
  refine (RunsTo.single .take htake).trans (RunsTo.single (.map vaddr dirty) ?_)
  have hback : Function.update (Function.update s.physPage t (some p)) t none = s.physPage := by
    rw [Function.update_idem, ← htaken, Function.update_eq_self]
  have htable' : Spaces.table? { s with
      phys := { s.phys with pool := s.phys.pool.take p }
      physPage := Function.update s.physPage t (some p) } t = some (page, table) := htable
  simp only [Spaces.exec, Function.update_self, Option.bind_eq_bind, Option.bind_some, htable',
    hmap, hback]
  rfl

end Calls

/-- The loop of `process_memlimit` makes operations of the thread only. -/
lemma runsTo_mapHeapPages {n i : ℕ} {table' : Pagetable} {pool' : Pagepool} {enough : Bool}
    (hinv : SpacesInv numPages numResPages s) (hnum : numPages ≤ 2 ^ 19) (hpos : 1 ≤ numResPages)
    (htaken : s.physPage t = none) (htable : s.table? t = some (page, table))
    (hmap : mapHeapPages n i table s.phys.pool = some (table', pool', enough)) :
    RunsTo raw t s { s with
      phys := ({ s.phys with pool := pool' } : PhysMemory).setPage page (.table table') } := by
  have hstay : ({ s.phys with pool := s.phys.pool } : PhysMemory).setPage page (.table table) =
      s.phys := by
    rw [PhysMemory.setPage, ← (Spaces.table?_eq_some.mp htable).2, Function.update_eq_self]
  induction n generalizing i s table with
  | zero =>
    cases hmap
    rw [hstay]
    exact RunsTo.refl raw t s
  | succ n ih =>
    simp only [mapHeapPages, Option.bind_eq_bind, Option.bind_eq_some_iff] at hmap
    obtain ⟨⟨pool₁, addr⟩, hget, hmap⟩ := hmap
    by_cases haddr : addr = 0
    · -- the pool is empty, and the call gives up
      have hsame : pool₁ = s.phys.pool := by
        obtain ⟨out, hpool⟩ := hinv.pool
        rcases Finset.eq_empty_or_nonempty s.phys.pool.free with hempty | ⟨p, hp⟩
        · rw [hpool.pagepoolGetPhysPage_of_empty hempty] at hget
          cases hget
          rfl
        · obtain ⟨q, hq, heq⟩ := hpool.pagepoolGetPhysPage_of_mem hp
          obtain ⟨hlt, hle, -⟩ := (hpool.mem_free q).mp hq
          rw [heq] at hget
          cases hget
          exact absurd haddr (pageAddr_ne_zero (by omega) (by omega))
      rw [if_pos haddr] at hmap
      cases hmap
      rw [hsame, hstay]
      exact RunsTo.refl raw t s
    · rw [if_neg haddr] at hmap
      simp only [Option.bind_eq_some_iff] at hmap
      obtain ⟨table₁, hvm, hrest⟩ := hmap
      have hpage : s.phys.getPage = some ({ s.phys with pool := pool₁ }, addr) := by
        rw [PhysMemory.getPage, hget]
        exact if_neg haddr
      obtain ⟨hrun, -⟩ := runsTo_takeMap raw hinv hnum hpos htaken htable hpage hvm
      obtain ⟨hinv₁, -⟩ := hrun.inv hnum hpos hinv
      have htable₁ : Spaces.table? { s with
          phys := ({ s.phys with pool := pool₁ } : PhysMemory).setPage page (.table table₁) } t =
          some (page, table₁) :=
        Spaces.table?_eq_some.mpr ⟨(Spaces.table?_eq_some.mp htable).1, Function.update_self ..⟩
      let memory₁ := Function.update s.phys.memory page (.table table₁)
      have hstay₁ : (PhysMemory.mk pool₁ memory₁).setPage page (.table table₁) =
          ⟨pool₁, memory₁⟩ := by
        rw [PhysMemory.setPage, Function.update_idem]
      have hrun₂ := ih hinv₁ htaken htable₁ hrest hstay₁
      refine hrun.trans ?_
      have hlast : (PhysMemory.mk pool' memory₁).setPage page (.table table') =
          (PhysMemory.mk pool' s.phys.memory).setPage page (.table table') := by
        rw [PhysMemory.setPage, Function.update_idem, PhysMemory.setPage]
      exact hlast ▸ hrun₂

/-- `process_memlimit` makes operations of the thread only. -/
lemma runsTo_processMemlimit {heapEnd heapEnd' answer : UInt32} {h' : HeapState}
    (hinv : SpacesInv numPages numResPages s) (hnum : numPages ≤ 2 ^ 19) (hpos : 1 ≤ numResPages)
    (htaken : s.physPage t = none) (htable : s.table? t = some (page, table))
    (hcall : processMemlimit ⟨heapEnd, table, s.phys.pool⟩ heapEnd' = some (h', answer)) :
    RunsTo raw t s { s with
      phys :=
        ({ s.phys with pool := h'.pool } : PhysMemory).setPage page (.table h'.pagetable) } := by
  have hstay : ({ s.phys with pool := s.phys.pool } : PhysMemory).setPage page (.table table) =
      s.phys := by
    rw [PhysMemory.setPage, ← (Spaces.table?_eq_some.mp htable).2, Function.update_eq_self]
  rw [processMemlimit] at hcall
  split_ifs at hcall with hzero hless
  · cases hcall
    rw [hstay]
    exact RunsTo.refl raw t s
  · cases hcall
    rw [hstay]
    exact RunsTo.refl raw t s
  · simp only [Option.bind_eq_bind, Option.bind_eq_some_iff] at hcall
    obtain ⟨⟨table', pool', enough⟩, hmap, heq⟩ := hcall
    have hrun : RunsTo raw t s _ := runsTo_mapHeapPages hinv hnum hpos htaken htable hmap
    cases enough with
    | true =>
      cases heq
      exact hrun
    | false =>
      cases heq
      exact hrun

/-- A process that grows its heap, in any state that operations lead to, does not change what other
threads find, and maps no page frame that another thread has mapped. -/
theorem memlimit_isolated {garbage : Memory} {memory : ℕ → PhysPage} {before : List (ℕ × SpaceOp)}
    {heapEnd heapEnd' answer : UInt32} {h' : HeapState} (hnum : numPages ≤ 2 ^ 19)
    (hpos : 1 ≤ numResPages) (hres : numResPages ≤ numPages)
    (hrun : runOps raw before (initSpaces garbage numPages numResPages memory) = some s)
    (htable : s.table? t = some (page, table)) (htaken : s.physPage t = none)
    (hcall : processMemlimit ⟨heapEnd, table, s.phys.pool⟩ heapEnd' = some (h', answer)) :
    ∃ s', s'.table? t = some (page, h'.pagetable) ∧ s'.phys.pool = h'.pool ∧
      (∃ ops, (∀ op ∈ ops, op.1 = t) ∧ runOps raw ops s = some s') ∧
      ∀ t', t' ≠ t → (∀ v, s'.view t' v = s.view t' v) ∧
        ∀ v v' frame dirty dirty', s'.lookup? t v = some (frame, dirty) →
          s'.lookup? t' v' ≠ some (frame, dirty') := by
  have hinv := ((initSpaces_inv hres).runOps hnum hpos hrun).1
  have hto : RunsTo raw t s _ := runsTo_processMemlimit hinv hnum hpos htaken htable hcall
  obtain ⟨hinv', hothers⟩ := hto.inv hnum hpos hinv
  obtain ⟨s', hs'⟩ : ∃ s', s' = ({ s with
      phys := ({ s.phys with pool := h'.pool } : PhysMemory).setPage page (.table h'.pagetable) } :
      Spaces) := ⟨_, rfl⟩
  rw [← hs'] at hto hinv' hothers
  have htable' : s'.table? t = some (page, h'.pagetable) := by
    rw [hs']
    exact Spaces.table?_eq_some.mpr ⟨(Spaces.table?_eq_some.mp htable).1, Function.update_self ..⟩
  refine ⟨s', htable', by rw [hs']; rfl, hto, fun t' ht => ⟨(hothers t' ht).view_eq, ?_⟩⟩
  intro v v' frame dirty dirty' hv hv'
  have howner := hinv'.exclusive.unique (t, .mapped (pageOf v)) (t', .mapped (pageOf v')) frame
    ⟨v, dirty, rfl, hv⟩ ⟨v', dirty', rfl, hv'⟩
  exact ht (congrArg Prod.fst howner).symm

/-- A heap that ends on the page at `0x1000` grows by a page. -/
theorem memlimit_isolated_onePage : ∃ (s : Spaces) (table : Pagetable) (h' : HeapState)
    (answer : UInt32) (s' : Spaces),
    runOps zeroRaw (onePage 1 ++ onePage 2) eightPages = some s ∧
    s.table? 1 = some (32, table) ∧
    processMemlimit ⟨0x1ff0, table, s.phys.pool⟩ 0x2ff0 = some (h', answer) ∧
    s'.table? 1 = some (32, h'.pagetable) ∧ s'.view 2 0x1000 = s.view 2 0x1000 := by
  obtain ⟨s, hs⟩ := Option.isSome_iff_exists.mp
    (show (runOps zeroRaw (onePage 1 ++ onePage 2) eightPages).isSome by decide +kernel)
  have hstate : (runOps zeroRaw (onePage 1 ++ onePage 2) eightPages).map (fun s =>
      ((s.table? 1).map fun x =>
          (x.1, (processMemlimit ⟨0x1ff0, x.2, s.phys.pool⟩ 0x2ff0).isSome),
        s.physPage 1)) = some (some (32, true), none) := by decide +kernel
  simp only [hs, Option.map_some, Option.some.injEq, Prod.mk.injEq,
    Option.map_eq_some_iff] at hstate
  obtain ⟨⟨⟨page, table⟩, htable, rfl, hcall⟩, htaken⟩ := hstate
  obtain ⟨⟨h', answer⟩, hcall⟩ := Option.isSome_iff_exists.mp hcall
  obtain ⟨s', htable', -, -, hothers⟩ := memlimit_isolated (by decide) (by decide) (by decide) hs
    htable htaken hcall
  exact ⟨s, table, h', answer, s', hs, htable, hcall, htable', (hothers 2 (by decide)).1 0x1000⟩

/-- The pages that an operation takes for good: a page table is given back, a page that was taken
to be mapped is not. -/
lemma exec_accounts {op : SpaceOp} {live : Finset ℕ} (hinv : SpacesInv numPages numResPages s)
    (hnum : numPages ≤ 2 ^ 19) (hpos : 1 ≤ numResPages)
    (hlive : ∀ t, t ∈ live ↔ (s.pagetable t).isSome) (hexec : s.exec raw t op = some s') :
    ∃ live' : Finset ℕ, (∀ t, t ∈ live' ↔ (s'.pagetable t).isSome) ∧
      s'.phys.pool.numFreePages + live'.card + (if op = .take then 1 else 0) =
        s.phys.pool.numFreePages + live.card := by
  cases op with
  | create =>
    rw [Spaces.exec] at hexec
    split_ifs at hexec with hnone
    simp only [createPagetable, Option.bind_eq_bind, Option.bind_eq_some_iff] at hexec
    obtain ⟨⟨phys, page⟩, ⟨⟨m, addr⟩, hget, heq⟩, hs'⟩ := hexec
    obtain ⟨p, -, -, rfl, -⟩ := getPage_eq_some hinv.pool hnum hpos hget
    cases heq
    cases hs'
    have hnew : t ∉ live := by simp [hlive, hnone]
    refine ⟨insert t live, fun t' => ?_, ?_⟩
    · by_cases ht : t' = t
      · simp [ht]
      · simp [ht, hlive]
    · rw [Finset.card_insert_of_notMem hnew]
      simp [PhysMemory.setPage, Pagepool.take]
  | take =>
    rw [Spaces.exec] at hexec
    split_ifs at hexec with hnone
    simp only [Option.bind_eq_bind, Option.bind_eq_some_iff] at hexec
    obtain ⟨⟨phys, addr⟩, hget, hs'⟩ := hexec
    obtain ⟨p, -, -, rfl, -⟩ := getPage_eq_some hinv.pool hnum hpos hget
    cases hs'
    refine ⟨live, hlive, ?_⟩
    simp only [Pagepool.take, if_true]
    omega
  | map vaddr dirty =>
    simp only [Spaces.exec, Option.bind_eq_bind, Option.bind_eq_some_iff] at hexec
    obtain ⟨frame, -, ⟨page, table⟩, -, table', -, hs'⟩ := hexec
    cases hs'
    exact ⟨live, hlive, by simp [Spaces.setPage, PhysMemory.setPage]⟩
  | setDirty vaddr dirty =>
    simp only [Spaces.exec, Option.bind_eq_bind, Option.bind_eq_some_iff] at hexec
    obtain ⟨⟨page, table⟩, -, table', -, hs'⟩ := hexec
    cases hs'
    exact ⟨live, hlive, by simp [Spaces.setPage, PhysMemory.setPage]⟩
  | store vaddr byte =>
    simp only [Spaces.exec, Option.bind_eq_bind, Option.bind_eq_some_iff] at hexec
    obtain ⟨⟨frame, dirty⟩, -, hs'⟩ := hexec
    split_ifs at hs' with hdirty
    cases hs'
    exact ⟨live, hlive, by simp [Spaces.setPage, PhysMemory.setPage]⟩
  | copy parent vaddr =>
    simp only [Spaces.exec, Option.bind_eq_bind, Option.bind_eq_some_iff] at hexec
    obtain ⟨⟨frame, dirty⟩, -, source, -, hs'⟩ := hexec
    cases hs'
    exact ⟨live, hlive, by simp [Spaces.setPage, PhysMemory.setPage]⟩
  | destroy =>
    simp only [Spaces.exec, Option.bind_eq_bind, Option.bind_eq_some_iff] at hexec
    obtain ⟨page, hpage, pool, hfree, hs'⟩ := hexec
    have hpool : pool.numFreePages = s.phys.pool.numFreePages + 1 := by
      rw [pagepoolFreePhysPage] at hfree
      split_ifs at hfree
      cases hfree
      rfl
    cases hs'
    have hmem : t ∈ live := by simp [hlive, hpage]
    refine ⟨live.erase t, fun t' => ?_, ?_⟩
    · by_cases ht : t' = t
      · simp [ht]
      · simp [ht, hlive]
    · have hcard := Finset.card_erase_add_one hmem
      simp only [hpool, reduceCtorEq, if_false]
      omega

/-- Every page that is not reserved is free, holds the page table of a thread, or was taken to be
mapped: of the pages of a process, only its page table comes back when it ends. -/
theorem mapped_pages_not_returned {garbage : Memory} {memory : ℕ → PhysPage}
    {ops : List (ℕ × SpaceOp)} (hnum : numPages ≤ 2 ^ 19) (hpos : 1 ≤ numResPages)
    (hres : numResPages ≤ numPages)
    (hrun : runOps raw ops (initSpaces garbage numPages numResPages memory) = some s) :
    ∃ live : Finset ℕ, (∀ t, t ∈ live ↔ (s.pagetable t).isSome) ∧
      s.phys.pool.numFreePages + live.card + (ops.map Prod.snd).count .take =
        numPages - numResPages := by
  have hrest : ∀ {s₀ : Spaces} (live : Finset ℕ), SpacesInv numPages numResPages s₀ →
      (∀ t, t ∈ live ↔ (s₀.pagetable t).isSome) → runOps raw ops s₀ = some s →
      ∃ live' : Finset ℕ, (∀ t, t ∈ live' ↔ (s.pagetable t).isSome) ∧
        s.phys.pool.numFreePages + live'.card + (ops.map Prod.snd).count .take =
          s₀.phys.pool.numFreePages + live.card := by
    clear hrun
    induction ops with
    | nil =>
      intro s₀ live _ hlive hrun
      cases hrun
      exact ⟨live, hlive, by simp⟩
    | cons op ops ih =>
      intro s₀ live hinv hlive hrun
      simp only [runOps, Option.bind_eq_bind, Option.bind_eq_some_iff] at hrun
      obtain ⟨s₁, hexec, hrest⟩ := hrun
      obtain ⟨live₁, hlive₁, hcount₁⟩ := exec_accounts hinv hnum hpos hlive hexec
      obtain ⟨live', hlive', hcount⟩ := ih live₁ (hinv.exec hnum hpos hexec).1 hlive₁ hrest
      refine ⟨live', hlive', ?_⟩
      rw [List.map_cons, List.count_cons]
      simp only [beq_iff_eq]
      split_ifs at hcount₁ ⊢ with htake <;> push_cast <;> omega
  obtain ⟨live, hlive, hcount⟩ := hrest ∅ (initSpaces_inv hres)
    (fun t => by simp [initSpaces]) hrun
  exact ⟨live, hlive, by simpa [initSpaces, pagepoolInit] using hcount⟩

/-- A thread maps a page and ends: seven of eight pages are left. -/
theorem mapped_pages_not_returned_onePage : ∃ s,
    runOps zeroRaw (onePage 1 ++ [(1, .destroy)]) eightPages = some s ∧ s.pagetable 1 = none ∧
    ∃ live : Finset ℕ, (∀ t, t ∈ live ↔ (s.pagetable t).isSome) ∧
      s.phys.pool.numFreePages + live.card + 1 = 8 := by
  obtain ⟨s, hs⟩ := Option.isSome_iff_exists.mp
    (show (runOps zeroRaw (onePage 1 ++ [(1, .destroy)]) eightPages).isSome by decide +kernel)
  have hnone : (runOps zeroRaw (onePage 1 ++ [(1, .destroy)]) eightPages).map
      (fun s => s.pagetable 1) = some none := by decide +kernel
  rw [hs, Option.map_some, Option.some.injEq] at hnone
  exact ⟨s, hs, hnone, mapped_pages_not_returned (by decide) (by decide) (by decide) hs⟩

end Osm.Vm
