import Osm.Fs.VfsOps
import Osm.Proc.Io

/-!
# Which system calls stop the kernel

The system calls for files and memory return a value unless `vfs_seek` gets a negative position,
`vfs_create` a negative size, or `vm_map` a page that is mapped already or a pair of pages for
which the page table has no room, or `vfs_end_op` finds the number of operations negative.
-/

namespace Osm.Proc

open Osm.Fs Osm.Vm

variable {φ : Type} {s s' : SysState φ} {p : Pid} {numPages numResPages : ℕ}

/-! ### Growing the heap -/

section Memlimit

variable {i n : ℕ} {table : Pagetable} {pool : Pagepool} {out : List UInt32}

/-- The pages from `i` on that are mapped when `n` pages are needed and `free` pages are there. -/
def newPages (i n free : ℕ) : Finset ℕ := Finset.Ico i (i + min n free)

/-- None of the pages to be mapped is mapped, and there are entries for all pairs. -/
def HasRoom (table : Pagetable) (pages : Finset ℕ) : Prop :=
  (∀ page ∈ pages, lookup table (pageAddr page) = none) ∧
    (table.pairs ∪ pages.image (· / 2)).card ≤ pagetableEntries

lemma newPages_succ {free : ℕ} (hfree : 0 < free) :
    newPages i (n + 1) free = insert i (newPages (i + 1) n (free - 1)) := by
  have hmin : min (n + 1) free = min n (free - 1) + 1 := by omega
  rw [newPages, newPages, hmin]
  ext page
  simp only [Finset.mem_Ico, Finset.mem_insert]
  omega

lemma hasRoom_empty (hok : PagetableOk table) : HasRoom table ∅ := by
  refine ⟨by simp, ?_⟩
  rw [Finset.image_empty, Finset.union_empty, hok.card_pairs]
  exact hok.count_le

lemma vpn2_pageAddr (hi : i < 2 ^ 20) : vpn2 (pageAddr i) = i / 2 := by
  rw [vpn2_eq_pageOf, pageOf_pageAddr hi]

/-- Mapping the first of the pages. -/
lemma hasRoom_insert {physaddr : UInt32} {table' : Pagetable} {pages : Finset ℕ} (hi : i < 2 ^ 20)
    (hpages : ∀ page ∈ pages, i < page ∧ page < 2 ^ 20)
    (hmap : vmMap table physaddr (pageAddr i) true = some table') (hok : PagetableOk table) :
    HasRoom table (insert i pages) ↔ HasRoom table' pages := by
  have hnone : lookup table (pageAddr i) = none := by
    by_contra hsome
    have hpanic : vmMap table physaddr (pageAddr i) true = none :=
      (vmMap_eq_none_iff hok).mpr (.inl (Option.isSome_iff_ne_none.mpr hsome))
    cases hpanic.symm.trans hmap
  have hlookup : ∀ page ∈ pages,
      lookup table' (pageAddr page) = lookup table (pageAddr page) := by
    intro page hpage
    obtain ⟨hlt, hlt'⟩ := hpages page hpage
    rw [vmMap_lookup hmap, pageOf_pageAddr hi, pageOf_pageAddr hlt', if_neg (by omega)]
  have hpairs : table'.pairs ∪ pages.image (· / 2) =
      table.pairs ∪ (insert i pages).image (· / 2) := by
    rw [vmMap_pairs hmap, vpn2_pageAddr hi, Finset.image_insert, Finset.insert_union,
      Finset.union_insert]
  rw [HasRoom, HasRoom, hpairs, Finset.forall_mem_insert]
  constructor
  · rintro ⟨⟨-, hunmapped⟩, hcard⟩
    exact ⟨fun page hpage => (hlookup page hpage).trans (hunmapped page hpage), hcard⟩
  · rintro ⟨hunmapped, hcard⟩
    exact ⟨⟨hnone, fun page hpage => (hlookup page hpage).symm.trans (hunmapped page hpage)⟩, hcard⟩

lemma not_hasRoom_of_vmMap {physaddr : UInt32} {pages : Finset ℕ} (hi : i < 2 ^ 20)
    (hok : PagetableOk table) (hmap : vmMap table physaddr (pageAddr i) true = none) :
    ¬ HasRoom table (insert i pages) := by
  rintro ⟨hunmapped, hcard⟩
  rcases (vmMap_eq_none_iff hok).mp hmap with hsome | hfull
  · rw [hunmapped i (Finset.mem_insert_self i pages)] at hsome
    cases hsome
  · have hsub : insert (vpn2 (pageAddr i)) table.pairs ⊆
        table.pairs ∪ (insert i pages).image (· / 2) := by
      rw [vpn2_pageAddr hi, Finset.image_insert, Finset.union_insert]
      exact Finset.insert_subset_insert _ Finset.subset_union_left
    exact absurd hcard (not_le.mpr (hfull.trans_le (Finset.card_le_card hsub)))

/-- The loop fails no assertion if and only if there is room for the pages that it gets. -/
lemma mapHeapPages_isSome_iff (hnum : numPages ≤ 2 ^ 19) (hpos : 1 ≤ numResPages)
    (hok : PagetableOk table) (hpool : PoolInv numPages numResPages pool out)
    (hbound : i + n ≤ 2 ^ 20) :
    (mapHeapPages n i table pool).isSome ↔ HasRoom table (newPages i n pool.free.card) := by
  induction n generalizing i table pool out with
  | zero =>
    rw [newPages, Nat.zero_min, Nat.add_zero, Finset.Ico_self]
    exact iff_of_true rfl (hasRoom_empty hok)
  | succ n ih =>
    rw [mapHeapPages]
    obtain ⟨hfree, hget⟩ | ⟨frame, hfree, -, hne, hget, hpool'⟩ :=
      hpool.pagepoolGetPhysPage_cases hnum hpos
    · rw [hget, hfree, newPages, Finset.card_empty, Nat.min_zero, Nat.add_zero i,
        Finset.Ico_self]
      exact iff_of_true rfl (hasRoom_empty hok)
    · have hcard : (pool.take frame).free.card = pool.free.card - 1 := by
        rw [Pagepool.take_free, Finset.card_erase_of_mem hfree]
      simp only [hget, Option.bind_eq_bind, Option.bind_some, if_neg hne]
      rw [newPages_succ (Finset.card_pos.mpr ⟨frame, hfree⟩), ← hcard]
      cases hmap : vmMap table (pageAddr frame) (pageAddr i) true with
      | none =>
        exact iff_of_false (by simp) (not_hasRoom_of_vmMap (by omega) hok hmap)
      | some table' =>
        rw [hasRoom_insert (by omega) _ hmap hok]
        · exact ih (vmMap_ok hok hmap) hpool' (by omega)
        · intro page hpage
          rw [newPages, Finset.mem_Ico] at hpage
          omega

end Memlimit

/-! ### The invariant -/

/-- What holds whenever a system call begins: the page tables and the pool of pages are in
order. -/
structure SysInv (numPages numResPages : ℕ) (s : SysState φ) : Prop where
  pagetables : ∀ p, PagetableOk (s.pagetable p)
  pool       : ∃ out, PoolInv numPages numResPages s.pool out

/-- A system call returns if it is safe, and the invariant holds afterwards. Otherwise it fails an
assertion. -/
def ReturnsIff (numPages numResPages : ℕ) (safe : Prop) {α : Type}
    (result : Option (α × SysState φ)) : Prop :=
  (safe → ∃ ret s', result = some (ret, s') ∧ SysInv numPages numResPages s') ∧
    (¬ safe → result = none)

lemma ReturnsIff.congr {safe safe' : Prop} {α : Type} {result : Option (α × SysState φ)}
    (h : ReturnsIff numPages numResPages safe result) (hsafe : safe ↔ safe') :
    ReturnsIff numPages numResPages safe' result :=
  ⟨fun h' => h.1 (hsafe.mpr h'), fun h' => h.2 (mt hsafe.mp h')⟩

lemma ReturnsIff.map {safe : Prop} {α β : Type} {result : Option (α × SysState φ)}
    (h : ReturnsIff numPages numResPages safe result) {f : α × SysState φ → β × SysState φ}
    (hf : ∀ ret s', SysInv numPages numResPages s' → SysInv numPages numResPages (f (ret, s')).2) :
    ReturnsIff numPages numResPages safe (result.map f) := by
  obtain ⟨hsafe, hstops⟩ := h
  constructor
  · intro h
    obtain ⟨ret, s', hresult, hinv⟩ := hsafe h
    rw [hresult]
    exact ⟨_, _, rfl, hf ret s' hinv⟩
  · intro h
    rw [hstops h]
    rfl

section Calls

variable (hinv : SysInv numPages numResPages s)
include hinv

lemma returnsIff_some {α : Type} (ret : α) :
    ReturnsIff numPages numResPages True (some (ret, s)) :=
  ⟨fun _ => ⟨ret, s, rfl, hinv⟩, fun h => absurd trivial h⟩

lemma SysInv.setFiles (p : Pid) (files : Files) :
    SysInv numPages numResPages (s.setFiles p files) :=
  ⟨hinv.pagetables, hinv.pool⟩

/-- A call of the virtual filesystem stops at its end if the number of operations is negative. -/
lemma onVfs_returnsIff {call : VfsState φ → VfsResult φ} {leaves ends : Prop}
    (h : CountsOp s.vfs leaves ends (call s.vfs)) :
    ReturnsIff numPages numResPages (s.vfs.ops < 0 → ¬ (s.vfs.usable = true ∧ ends))
      (onVfs s call) := by
  obtain ⟨-, hnone⟩ := h
  constructor
  · intro hsafe
    have hreturns : call s.vfs ≠ none := by
      rw [ne_eq, hnone]
      exact fun ⟨husable, hends, hneg⟩ => hsafe hneg ⟨husable, hends⟩
    obtain ⟨⟨ret, vfs⟩, hcall⟩ := Option.ne_none_iff_exists'.mp hreturns
    rw [onVfs, hcall]
    exact ⟨ret, { s with vfs }, rfl, ⟨hinv.pagetables, hinv.pool⟩⟩
  · intro hstops
    rw [Classical.not_imp, not_not] at hstops
    obtain ⟨hneg, husable, hends⟩ := hstops
    rw [onVfs, hnone.mpr ⟨husable, hends, hneg⟩]
    rfl

lemma onProcessFile_returnsIff {filehandle : ℤ} {call : ℤ → SysState φ → SysResult φ}
    {safe : Prop} (h : ReturnsIff numPages numResPages safe (call (fileOf filehandle) s)) :
    ReturnsIff numPages numResPages
      (processHasOpenFile (s.table p).files (fileOf filehandle) = true → safe)
      (onProcessFile p filehandle s call) := by
  rw [onProcessFile]
  split_ifs with hopen
  · exact h.congr (by simp [hopen])
  · exact (returnsIff_some hinv _).congr (by simp [hopen])

end Calls

/-! ### When the system calls return -/

/-- The file of a handle is one that the process has open, and so has the virtual filesystem. -/
def HasOpen (p : Pid) (s : SysState φ) (file : ℤ) : Prop :=
  processHasOpenFile (s.table p).files (fileOf file) = true ∧
    vfsVerifyOpen s.vfs (fileOf file) ≠ none

/-- The system call comes to `vfs_end_op`. -/
def Syscall.EndsOp (p : Pid) (s : SysState φ) (call : Syscall) : Prop :=
  s.vfs.usable = true ∧
    match call with
    | .open _ | .create _ _ | .remove _                => True
    | .close file | .seek file _ | .tell file          => HasOpen p s (toInt file)
    | .read file buffer length | .write file buffer length =>
      (toInt file ≠ 0 ∧ toInt file ≠ 1 ∧ toInt file ≠ 2) ∧
        ¬ (toInt length < 0 ∨ buffer.toNat = 0) ∧ HasOpen p s (toInt file)
    | .memlimit _                                      => False

/-- The pages that `process_memlimit` maps for a new end of the heap. -/
def heapPages (s : SysState φ) (p : Pid) (heapEnd : UInt32) : Finset ℕ :=
  newPages (pageOf (s.table p).heapEnd + 1)
    (pageOf heapEnd - pageOf (s.table p).heapEnd) s.pool.free.card

/-- The arguments of the system call do not stop the kernel. -/
def Syscall.ArgsSafe (p : Pid) (s : SysState φ) : Syscall → Prop
  | .seek file offset => s.vfs.usable = true →
      processHasOpenFile (s.table p).files (fileOf (toInt file)) = true → 0 ≤ toInt offset
  | .create _ size    => 0 ≤ toInt size
  | .memlimit heapEnd => heapEnd ≠ 0 → (s.table p).heapEnd ≤ heapEnd →
      HasRoom (s.pagetable p) (heapPages s p heapEnd)
  | _                 => True

/-- The system call does not stop the kernel. -/
def Syscall.Safe (p : Pid) (s : SysState φ) (call : Syscall) : Prop :=
  call.ArgsSafe p s ∧ (s.vfs.ops < 0 → ¬ call.EndsOp p s)

/-- A call for a handle comes to its end if the file is open. -/
lemma file_safe_iff {args opened negative usable ends : Prop} (hargs : args) :
    (opened → negative → ¬ (usable ∧ ends)) ↔ args ∧ (negative → ¬ (usable ∧ opened ∧ ends)) := by
  tauto

/-- A transfer comes to its end if also the handle is not one of the console. -/
lemma transfer_safe_iff {handle valid opened negative usable isOpen : Prop} (hhandle : handle) :
    (opened → negative → ¬ (usable ∧ valid ∧ isOpen)) ↔
      True ∧ (negative → ¬ (usable ∧ handle ∧ valid ∧ opened ∧ isOpen)) := by
  tauto

section

variable (hinv : SysInv numPages numResPages s)
include hinv

lemma ioOpen_returnsIff (d : Devices φ) (pathname : List UInt8) (arg : UInt32) :
    ReturnsIff numPages numResPages ((Syscall.open arg).Safe p s) (ioOpen d p pathname s) := by
  rw [ioOpen]
  have hsafe := onVfs_returnsIff hinv (@vfsOpen_countsOp φ d.fs pathname s.vfs)
  have hopen := hsafe.map (f := fun r =>
    if r.1 < 0 then (r.1, r.2)
    else (addInt r.1 3, r.2.setFiles p (processAddFile (r.2.table p).files r.1))) ?_
  · exact hopen.congr (by simp [Syscall.Safe, Syscall.ArgsSafe, Syscall.EndsOp])
  · intro file s' hinv'
    by_cases hfile : file < 0
    · simp only [hfile, if_true]
      exact hinv'
    · simp only [hfile, if_false]
      exact hinv'.setFiles p _

lemma ioCreate_returnsIff (d : Devices φ) (pathname : List UInt8) (arg size : UInt32) :
    ReturnsIff numPages numResPages ((Syscall.create arg size).Safe p s)
      (ioCreate d pathname (toInt size) s) := by
  by_cases hsize : toInt size < 0
  · rw [ioCreate, onVfs, vfsCreate, if_pos hsize]
    exact ⟨fun hsafe => absurd hsize (not_lt.mpr hsafe.1), fun _ => rfl⟩
  · have hcount : CountsOp s.vfs False True (vfsCreate d.fs pathname (toInt size) s.vfs) := by
      rw [vfsCreate, if_neg hsize]
      exact onVolume_countsOp ..
    exact (onVfs_returnsIff hinv hcount).congr
      (by simp [Syscall.Safe, Syscall.ArgsSafe, Syscall.EndsOp, not_lt.mp hsize])

lemma ioRemove_returnsIff (d : Devices φ) (pathname : List UInt8) (arg : UInt32) :
    ReturnsIff numPages numResPages ((Syscall.remove arg).Safe p s) (ioRemove d pathname s) :=
  (onVfs_returnsIff hinv (onVolume_countsOp ..)).congr
    (by simp [Syscall.Safe, Syscall.ArgsSafe, Syscall.EndsOp])

lemma ioClose_returnsIff (d : Devices φ) (file : UInt32) :
    ReturnsIff numPages numResPages ((Syscall.close file).Safe p s)
      (ioClose d p (toInt file) s) := by
  have hclose : ReturnsIff numPages numResPages _ (ioClose d p (toInt file) s) :=
    onProcessFile_returnsIff hinv (onVfs_returnsIff (hinv.setFiles p _) (vfsClose_countsOp ..))
  exact hclose.congr (file_safe_iff trivial)

lemma ioTell_returnsIff (file : UInt32) :
    ReturnsIff numPages numResPages ((Syscall.tell file).Safe p s) (ioTell p (toInt file) s) := by
  have htell : ReturnsIff numPages numResPages _ (ioTell p (toInt file) s) :=
    onProcessFile_returnsIff hinv (onVfs_returnsIff hinv (vfsTell_countsOp ..))
  exact htell.congr (file_safe_iff trivial)

lemma ioSeek_returnsIff (file offset : UInt32) :
    ReturnsIff numPages numResPages ((Syscall.seek file offset).Safe p s)
      (ioSeek p (toInt file) (toInt offset) s) := by
  by_cases hoffset : 0 ≤ toInt offset
  · have hseek : ReturnsIff numPages numResPages _ (ioSeek p (toInt file) (toInt offset) s) :=
      onProcessFile_returnsIff hinv (onVfs_returnsIff hinv (vfsSeek_countsOp _ hoffset _))
    exact hseek.congr (file_safe_iff fun _ _ => hoffset)
  · -- the assertion on the position is reached if the filesystem is usable and the file open
    have hvfs : ReturnsIff numPages numResPages (s.vfs.usable = false)
        (onVfs s (vfsSeek (fileOf (toInt file)) (toInt offset))) := by
      cases husable : s.vfs.usable with
      | true =>
        refine ⟨fun h => (Bool.noConfusion h), fun _ => ?_⟩
        rw [onVfs, vfsSeek, startOp_of_usable husable, if_pos (not_le.mp hoffset)]
        rfl
      | false =>
        rw [onVfs, vfsSeek, startOp_of_unusable husable]
        exact (returnsIff_some hinv _).congr (by simp)
    have hseek : ReturnsIff numPages numResPages _ (ioSeek p (toInt file) (toInt offset) s) :=
      onProcessFile_returnsIff hinv hvfs
    refine hseek.congr ⟨fun h => ⟨fun husable hopen => ?_, fun _ hends => ?_⟩, fun h hopen => ?_⟩
    · rw [h hopen] at husable
      cases husable
    · have hunusable := h hends.2.1
      rw [hends.1] at hunusable
      cases hunusable
    · rw [← Bool.not_eq_true]
      exact fun husable => hoffset (h.1 husable hopen)

lemma ioRead_returnsIff (d : Devices φ) (file buffer length : UInt32) :
    ReturnsIff numPages numResPages ((Syscall.read file buffer length).Safe p s)
      (ioRead d p (toInt file) buffer (toInt length) s) := by
  rw [ioRead]
  split_ifs with hin hout
  · exact (returnsIff_some hinv _).congr
      (by simp [Syscall.Safe, Syscall.ArgsSafe, Syscall.EndsOp, hin])
  · refine (returnsIff_some hinv _).congr (iff_of_true trivial ⟨trivial, fun _ hends => ?_⟩)
    obtain ⟨-, ⟨-, hone, htwo⟩, -⟩ := hends
    exact hout.elim hone htwo
  · have hread : ReturnsIff numPages numResPages _
        (onProcessFile p (toInt file) s fun file s =>
          onVfs s (vfsRead d.fs file buffer.toNat (toInt length))) :=
      onProcessFile_returnsIff hinv (onVfs_returnsIff hinv (transfer_countsOp ..))
    exact hread.congr (transfer_safe_iff ⟨hin, not_or.mp hout⟩)

lemma ioWrite_returnsIff (d : Devices φ) (file buffer length : UInt32) :
    ReturnsIff numPages numResPages ((Syscall.write file buffer length).Safe p s)
      (ioWrite d p (toInt file) buffer (toInt length) s) := by
  rw [ioWrite]
  split_ifs with hin hout herr
  · exact (returnsIff_some hinv _).congr
      (by simp [Syscall.Safe, Syscall.ArgsSafe, Syscall.EndsOp, hin])
  · exact (returnsIff_some hinv _).congr
      (by simp [Syscall.Safe, Syscall.ArgsSafe, Syscall.EndsOp, hout])
  · exact (returnsIff_some hinv _).congr
      (by simp [Syscall.Safe, Syscall.ArgsSafe, Syscall.EndsOp, herr])
  · have hwrite : ReturnsIff numPages numResPages _
        (onProcessFile p (toInt file) s fun file s =>
          onVfs s (vfsWrite d.fs file buffer.toNat (toInt length))) :=
      onProcessFile_returnsIff hinv (onVfs_returnsIff hinv (transfer_countsOp ..))
    exact hwrite.congr (transfer_safe_iff ⟨hin, hout, herr⟩)

/-- The call gives the process another heap. -/
lemma SysInv.setHeap (p : Pid) {heap : HeapState} (hok : PagetableOk heap.pagetable)
    (hpool : ∃ out, PoolInv numPages numResPages heap.pool out) (entry : Pcb) :
    SysInv numPages numResPages { s with
      table     := Function.update s.table p entry
      pagetable := Function.update s.pagetable p heap.pagetable
      pool      := heap.pool } := by
  refine ⟨fun q => ?_, hpool⟩
  by_cases hq : q = p
  · subst hq
    simp only [Function.update_self]
    exact hok
  · simp only [Function.update_of_ne hq]
    exact hinv.pagetables q

lemma processMemlimit_returnsIff (hnum : numPages ≤ 2 ^ 19) (hpos : 1 ≤ numResPages)
    (heapEnd : UInt32) :
    ReturnsIff numPages numResPages ((Syscall.memlimit heapEnd).Safe p s)
      (processMemlimit p heapEnd s) := by
  have hsafe : (Syscall.memlimit heapEnd).Safe p s ↔ (heapEnd ≠ 0 → (s.table p).heapEnd ≤ heapEnd →
      HasRoom (s.pagetable p) (heapPages s p heapEnd)) := by
    simp [Syscall.Safe, Syscall.ArgsSafe, Syscall.EndsOp]
  obtain ⟨out, hpool⟩ := hinv.pool
  rw [processMemlimit, Vm.processMemlimit]
  split_ifs with hzero hlt
  · refine ⟨fun _ => ⟨_, _, rfl, hinv.setHeap p (hinv.pagetables p) ⟨out, hpool⟩ _⟩, ?_⟩
    exact fun hstops => absurd (hsafe.mpr fun hne => absurd hzero hne) hstops
  · refine ⟨fun _ => ⟨_, _, rfl, hinv.setHeap p (hinv.pagetables p) ⟨out, hpool⟩ _⟩, ?_⟩
    exact fun hstops => absurd (hsafe.mpr fun _ hle => absurd hlt (UInt32.not_lt.mpr hle)) hstops
  · have hle : (s.table p).heapEnd ≤ heapEnd := UInt32.not_lt.mp hlt
    have hbound := pageOf_lt heapEnd
    have hmono := pageOf_mono hle
    have hroom := @mapHeapPages_isSome_iff numPages numResPages (pageOf (s.table p).heapEnd + 1)
      (pageOf heapEnd - pageOf (s.table p).heapEnd) _ _ _ hnum hpos (hinv.pagetables p) hpool
      (by omega)
    constructor
    · intro h
      obtain ⟨⟨table, pool, enough⟩, hloop⟩ :=
        Option.isSome_iff_exists.mp (hroom.mpr (hsafe.mp h hzero hle))
      obtain ⟨hpool', k, -, hgrown, -⟩ := mapHeapPages_grown hnum hpos hpool (by omega) hloop
      have hok := hgrown.ok (hinv.pagetables p)
      simp only [hloop, Option.bind_eq_bind, Option.bind_some]
      cases enough with
      | true => exact ⟨_, _, rfl, @SysInv.setHeap _ _ _ _ hinv p ⟨_, table, pool⟩ hok hpool' _⟩
      | false => exact ⟨_, _, rfl, @SysInv.setHeap _ _ _ _ hinv p ⟨_, table, pool⟩ hok hpool' _⟩
    · intro hstops
      have hnone := mt hroom.mp fun h => hstops (hsafe.mpr fun _ _ => h)
      simp only [Option.not_isSome_iff_eq_none.mp hnone, Option.bind_eq_bind, Option.bind_none]
      rfl

/-- What a system call does: it returns, or it stops the kernel. -/
lemma syscallHandle_returnsIff (hnum : numPages ≤ 2 ^ 19) (hpos : 1 ≤ numResPages)
    (strings : UInt32 → List UInt8) (d : Devices φ) (call : Syscall) :
    ReturnsIff numPages numResPages (call.Safe p s) (syscallHandle strings d p s call) := by
  have hvalue : ∀ {safe : Prop} {result : SysResult φ},
      ReturnsIff numPages numResPages safe result →
        ReturnsIff numPages numResPages safe (syscallHandle.value result) :=
    fun h => h.map fun _ _ hinv' => hinv'
  cases call with
  | «open» pathname => exact hvalue (ioOpen_returnsIff hinv d _ _)
  | close file => exact hvalue (ioClose_returnsIff hinv d _)
  | create pathname size => exact hvalue (ioCreate_returnsIff hinv d _ _ _)
  | remove pathname => exact hvalue (ioRemove_returnsIff hinv d _ _)
  | seek file offset => exact hvalue (ioSeek_returnsIff hinv _ _)
  | tell file => exact hvalue (ioTell_returnsIff hinv _)
  | read file buffer length => exact hvalue (ioRead_returnsIff hinv d _ _ _)
  | write file buffer length => exact hvalue (ioWrite_returnsIff hinv d _ _ _)
  | memlimit heapEnd => exact processMemlimit_returnsIff hinv hnum hpos heapEnd

lemma SysInv.step (hnum : numPages ≤ 2 ^ 19) (hpos : 1 ≤ numResPages)
    {strings : UInt32 → List UInt8} {d : Devices φ} {call : Syscall} {value : UInt32}
    (hcall : syscallHandle strings d p s call = some (value, s')) :
    SysInv numPages numResPages s' := by
  obtain ⟨hsafe, hstops⟩ := @syscallHandle_returnsIff _ _ p _ _ hinv hnum hpos strings d call
  by_cases h : call.Safe p s
  · obtain ⟨value', t, hcall', hinv'⟩ := hsafe h
    rw [hcall'] at hcall
    cases hcall
    exact hinv'
  · cases (hstops h).symm.trans hcall

end

/-- The runs of system calls of any processes, for any answers of the devices. -/
def SysRun : SysState φ → SysState φ → Prop :=
  Relation.ReflTransGen fun s s' => ∃ strings d p call value,
    syscallHandle strings d p s call = some (value, s')

lemma SysRun.inv (hnum : numPages ≤ 2 ^ 19) (hpos : 1 ≤ numResPages) {s₀ : SysState φ}
    (hstart : SysInv numPages numResPages s₀) (hrun : SysRun s₀ s) :
    SysInv numPages numResPages s := by
  induction hrun with
  | refl => exact hstart
  | tail _ hstep ih =>
    obtain ⟨strings, d, p, call, value, hcall⟩ := hstep
    exact ih.step hnum hpos hcall

/-- In every state that is reached by system calls, and for all arguments, a system call for files
or memory returns a value if and only if it is neither `io_seek` to a negative position on a file
of the process, nor `io_create` with a negative size, nor `process_memlimit` to an end for which a
page is mapped already or the page table has no room, nor a call that comes to `vfs_end_op` while
`vfs_ops` is negative. -/
theorem syscall_returns_iff (hnum : numPages ≤ 2 ^ 19) (hpos : 1 ≤ numResPages) {s₀ : SysState φ}
    (hstart : SysInv numPages numResPages s₀) (hrun : SysRun s₀ s)
    (strings : UInt32 → List UInt8) (d : Devices φ) (p : Pid) (call : Syscall) :
    (∃ value s', syscallHandle strings d p s call = some (value, s')) ↔ call.Safe p s := by
  obtain ⟨hsafe, hstops⟩ :=
    @syscallHandle_returnsIff _ _ p _ _ (hrun.inv hnum hpos hstart) hnum hpos strings d call
  constructor
  · rintro ⟨value, s', hcall⟩
    by_contra h
    cases (hstops h).symm.trans hcall
  · intro h
    obtain ⟨value, s', hcall, -⟩ := hsafe h
    exact ⟨value, s', hcall⟩

/-- A process without open files, on a machine with eight pages of which two are reserved. -/
def SysState.sample : SysState Unit where
  vfs         := vfsInit
  table _     := { state := .running, heapEnd := 0x5000 }
  pagetable _ := vmCreatePagetable 0 leftover
  pool        := pagepoolInit (fun _ => 0) 8 2

lemma SysState.sample_inv : SysInv 8 2 sample where
  pagetables _ := vmCreatePagetable_ok 0 leftover
  pool         := ⟨[], PoolInv.init (by decide)⟩

theorem syscall_returns_iff_create :
    ∃ value s', syscallHandle (fun _ => bootPath 'f') ⟨fun _ => 0, none⟩ 0 SysState.sample
      (.create 0x1000 100) = some (value, s') :=
  (syscall_returns_iff (by decide) (by decide) SysState.sample_inv .refl _ _ 0 _).mpr
    ⟨show 0 ≤ toInt 100 by decide, fun hneg => absurd hneg (by decide)⟩

/-- A process can stop the kernel with a file of size -1, or with position -1 for the file handle
2. -/
theorem syscall_stops_kernel :
    syscallHandle (fun _ => bootPath 'f') ⟨fun _ => 0, none⟩ 0 SysState.sample
      (.create 0x1000 0xffffffff) = none ∧
    syscallHandle (fun _ => bootPath 'f') ⟨fun _ => 0, none⟩ 0 SysState.sample
      (.seek 2 0xffffffff) = none := by
  have hspec := @syscallHandle_returnsIff Unit SysState.sample 0 8 2 SysState.sample_inv (by decide)
    (by decide) (fun _ => bootPath 'f') ⟨fun _ => 0, none⟩
  constructor
  · apply (hspec _).2
    rw [Syscall.Safe, Syscall.ArgsSafe]
    exact fun hsafe => absurd hsafe.1 (by decide)
  · apply (hspec _).2
    rw [Syscall.Safe, Syscall.ArgsSafe]
    exact fun hsafe => absurd (hsafe.1 rfl (by decide +kernel)) (by decide)

end Osm.Proc
