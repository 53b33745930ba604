import Osm.Fs.VfsOps

/-!
# The mount table as a map

Runs of `vfs_mount` and `vfs_unmount` of `fs/vfs.c` while no file is open. What is mounted under a
name is read off the history of the calls and their results, and compared with the rows.

The row of an unmounted filesystem keeps its name, so that `vfs_mount` refuses this name until the
row is taken again; and a name is stored in the first 15 bytes only, while the whole of it is
compared.
-/

namespace Osm.Fs

variable {φ : Type} {s s' : VfsState φ} {name : List UInt8} {fs : φ} {row : ℕ}

/-! ### The two calls -/

lemma freeEntry_eq_some (h : s.freeEntry = some row) :
    row < configMaxFilesystems ∧ (s.filesystems row).filesystem = none := by
  rw [VfsState.freeEntry, List.find?_range_eq_some] at h
  obtain ⟨hnone, hrow, -⟩ := h
  exact ⟨List.mem_range.mp hrow, by simpa using hnone⟩

lemma freeEntry_eq_none :
    s.freeEntry = none ↔
      ∀ row < configMaxFilesystems, (s.filesystems row).filesystem.isSome := by
  rw [VfsState.freeEntry, List.find?_eq_none]
  simp [Option.isSome_iff_ne_none]

lemma entryNamed_eq_some (h : s.entryNamed name = some row) :
    row < configMaxFilesystems ∧ (s.filesystems row).mountpoint = name := by
  rw [VfsState.entryNamed, List.find?_range_eq_some] at h
  obtain ⟨hname, hrow, -⟩ := h
  exact ⟨List.mem_range.mp hrow, by simpa using hname⟩

lemma entryNamed_eq_none :
    s.entryNamed name = none ↔
      ∀ row < configMaxFilesystems, (s.filesystems row).mountpoint ≠ name := by
  rw [VfsState.entryNamed, List.find?_eq_none]
  simp

/-- An operation ends with its own count. -/
lemma endOp_of_nonneg (ret : ℤ) (t : VfsState φ) (hops : t.ops = s.ops + 1) (h : 0 ≤ s.ops) :
    endOp ret t = some (ret, { t with ops := s.ops }) := by
  rw [endOp_begun ret t hops, if_neg (Int32.not_lt.mpr h)]

/-- What `vfs_mount` does. -/
lemma vfsMount_eq (fs : φ) (husable : s.usable = true) (hops : 0 ≤ s.ops) (hname : name ≠ []) :
    vfsMount fs name s = some (match s.freeEntry with
      | none     => (vfsLimit, s)
      | some row => match s.entryNamed name with
        | some _ => (vfsError, s)
        | none   => (vfsOk, s.setEntry row ⟨some fs, name.take (vfsNameLength - 1)⟩)) := by
  have hfree : (begun s).freeEntry = s.freeEntry := rfl
  have hnamed : (begun s).entryNamed name = s.entryNamed name := rfl
  rw [vfsMount, if_neg hname, startOp_of_usable husable, hfree, hnamed]
  cases s.freeEntry with
  | none => exact endOp_of_nonneg _ _ rfl hops
  | some row =>
    cases s.entryNamed name with
    | none => exact endOp_of_nonneg _ _ rfl hops
    | some row' => exact endOp_of_nonneg _ _ rfl hops

/-- What `vfs_unmount` does when no file is open. -/
lemma vfsUnmount_eq [DecidableEq φ] (name : List UInt8) (husable : s.usable = true) (hops : 0 ≤ s.ops)
    (hfiles : ∀ file < configMaxOpenFiles, (s.files file).filesystem = none) :
    vfsUnmount name s = some (match s.entryNamed name with
      | none     => (vfsNotFound, s)
      | some row => match (s.filesystems row).filesystem with
        | none   => (vfsNotFound, s)
        | some _ => (vfsOk, s.setEntry row { s.filesystems row with filesystem := none })) := by
  have hnamed : (begun s).entryNamed name = s.entryNamed name := rfl
  have hrows : (begun s).filesystems = s.filesystems := rfl
  rw [vfsUnmount, startOp_of_usable husable, hnamed, hrows]
  cases s.entryNamed name with
  | none => exact endOp_of_nonneg _ _ rfl hops
  | some row =>
    cases hfs : (s.filesystems row).filesystem with
    | none =>
      simp only [hfs]
      exact endOp_of_nonneg _ _ rfl hops
    | some fs =>
      have hclosed : ¬ ∃ file < configMaxOpenFiles, ((begun s).files file).filesystem = some fs := by
        rintro ⟨file, hfile, hopen⟩
        rw [show (begun s).files file = s.files file from rfl, hfiles file hfile] at hopen
        cases hopen
      simp only [hfs]
      rw [if_neg hclosed]
      exact endOp_of_nonneg _ _ rfl hops

/-! ### Histories -/

/-- The calls that change the mount table. -/
inductive MountCall (φ : Type) where
  | mount (fs : φ) (name : List UInt8)
  | unmount (name : List UInt8)

namespace MountCall

/-- Run a call. -/
def exec [DecidableEq φ] : MountCall φ → VfsState φ → VfsResult φ
  | mount fs name => vfsMount fs name
  | unmount name  => vfsUnmount name

/-- The name in a call. -/
def mountpoint : MountCall φ → List UInt8
  | mount _ name | unmount name => name

end MountCall

/-- The calls of a run with their results, the latest one first. -/
abbrev MountHistory (φ : Type) := List (MountCall φ × ℤ)

/-- The filesystem of the latest successful mount of a name that has not been unmounted since. -/
def latestMount (name : List UInt8) : MountHistory φ → Option φ
  | [] => none
  | (.mount fs name', ret) :: history =>
    if ret = vfsOk ∧ name' = name then some fs else latestMount name history
  | (.unmount name', ret) :: history =>
    if ret = vfsOk ∧ name' = name then none else latestMount name history

/-- The result that the documentation of `vfs_mount` gives. -/
def mountResult (s : VfsState φ) (history : MountHistory φ) (name : List UInt8) : ℤ :=
  if ∀ row < configMaxFilesystems, (s.filesystems row).filesystem.isSome then vfsLimit
  else if (latestMount name history).isSome then vfsError
  else vfsOk

/-- A run of calls with names that are not empty, in which every call satisfies a condition. -/
inductive MountRun [DecidableEq φ] (ok : VfsState φ → MountCall φ → Prop) :
    VfsState φ → MountHistory φ → Prop where
  | init : MountRun ok vfsInit []
  | call {s s' : VfsState φ} {history : MountHistory φ} {call : MountCall φ} {ret : ℤ} :
      MountRun ok s history → call.mountpoint ≠ [] → ok s call → call.exec s = some (ret, s') →
      MountRun ok s' ((call, ret) :: history)

/-- The mount table is the map of the history: in the rows, in the answers to the next calls that
satisfy a condition, and for `vfs_get_filesystem`. -/
structure IsMountMap [DecidableEq φ] (ok : VfsState φ → MountCall φ → Prop) (s : VfsState φ)
    (history : MountHistory φ) : Prop where
  distinct : ∀ i < configMaxFilesystems, ∀ j < configMaxFilesystems,
    (s.filesystems i).filesystem.isSome → (s.filesystems j).filesystem.isSome →
    (s.filesystems i).mountpoint = (s.filesystems j).mountpoint → i = j
  mount : ∀ fs name, name ≠ [] → ok s (.mount fs name) →
    ∃ s', vfsMount fs name s = some (mountResult s history name, s')
  unmount : ∀ name, name ≠ [] → ok s (.unmount name) →
    ∃ ret s', vfsUnmount name s = some (ret, s') ∧
      (ret = vfsNotFound ↔ latestMount name history = none)
  get : ∀ name, name ≠ [] → vfsGetFilesystem s name = latestMount name history

/-- The condition on a call: while a row is free, `vfs_mount` is called with a name of at most 15
bytes that is not left over in a row without a filesystem. -/
def FreshName (s : VfsState φ) : MountCall φ → Prop
  | .mount _ name => s.freeEntry ≠ none → name.length ≤ vfsNameLength - 1 ∧
      ∀ row < configMaxFilesystems, (s.filesystems row).filesystem = none →
        (s.filesystems row).mountpoint ≠ name
  | .unmount _    => True

/-! ### The invariant -/

variable {history : MountHistory φ}

/-- No file is open, names that are not empty are in one row only, and the rows with a filesystem
are what the history says is mounted. -/
structure MountInv (s : VfsState φ) (history : MountHistory φ) : Prop where
  usable   : s.usable = true
  ops      : 0 ≤ s.ops
  files    : ∀ file < configMaxOpenFiles, (s.files file).filesystem = none
  distinct : ∀ i < configMaxFilesystems, ∀ j < configMaxFilesystems,
    (s.filesystems i).mountpoint ≠ [] →
    (s.filesystems i).mountpoint = (s.filesystems j).mountpoint → i = j
  nonempty : ∀ row < configMaxFilesystems, (s.filesystems row).filesystem.isSome →
    (s.filesystems row).mountpoint ≠ []
  live     : ∀ row < configMaxFilesystems, ∀ fs, (s.filesystems row).filesystem = some fs →
    latestMount (s.filesystems row).mountpoint history = some fs
  row      : ∀ name fs, latestMount name history = some fs → ∃ row < configMaxFilesystems,
    (s.filesystems row).mountpoint = name ∧ (s.filesystems row).filesystem = some fs

lemma mountInv_vfsInit : MountInv (vfsInit : VfsState φ) [] where
  usable := rfl
  ops := Int32.le_refl 0
  files _ _ := rfl
  distinct _ _ _ _ h := absurd rfl h
  nonempty _ _ h := by cases h
  live _ _ _ h := by cases h
  row _ _ h := by cases h

namespace MountInv

/-- `vfs_get_filesystem` finds what is mounted. -/
lemma get (hinv : MountInv s history) (name : List UInt8) :
    vfsGetFilesystem s name = latestMount name history := by
  rw [vfsGetFilesystem]
  cases hnamed : s.entryNamed name with
  | none =>
    cases hmounted : latestMount name history with
    | none => rfl
    | some fs =>
      obtain ⟨row, hrow, hname, -⟩ := hinv.row name fs hmounted
      exact absurd hname (entryNamed_eq_none.mp hnamed row hrow)
  | some row =>
    obtain ⟨hrow, rfl⟩ := entryNamed_eq_some hnamed
    rw [Option.bind_some]
    cases hfs : (s.filesystems row).filesystem with
    | some fs => exact (hinv.live row hrow fs hfs).symm
    | none =>
      cases hmounted : latestMount (s.filesystems row).mountpoint history with
      | none => rfl
      | some fs =>
        -- the row of the mounted filesystem has the same name, so that it is this one
        obtain ⟨row', hrow', hname, hfs'⟩ := hinv.row _ fs hmounted
        have hne := hinv.nonempty row' hrow' (by rw [hfs']; rfl)
        have heq := hinv.distinct row' hrow' row hrow hne hname
        rw [heq, hfs] at hfs'
        cases hfs'

/-- A name is in a row with a filesystem exactly when something is mounted under it. -/
lemma mounted_of_entryNamed (hinv : MountInv s history) (hname : s.entryNamed name = some row) :
    latestMount name history = (s.filesystems row).filesystem := by
  rw [← hinv.get name, vfsGetFilesystem, hname, Option.bind_some]

lemma mounted_of_not_entryNamed (hinv : MountInv s history) (hname : s.entryNamed name = none) :
    latestMount name history = none := by
  rw [← hinv.get name, vfsGetFilesystem, hname, Option.bind_none]

/-- The result of `vfs_mount` is the documented one for a fresh name. -/
lemma mount (hinv : MountInv s history) (hname : name ≠ [])
    (hfresh : FreshName s (.mount fs name)) :
    ∃ s', vfsMount fs name s = some (mountResult s history name, s') := by
  rw [vfsMount_eq fs hinv.usable hinv.ops hname, mountResult]
  cases hfree : s.freeEntry with
  | none =>
    rw [if_pos (freeEntry_eq_none.mp hfree)]
    exact ⟨s, rfl⟩
  | some row =>
    have hnotfull : ¬ ∀ row < configMaxFilesystems, (s.filesystems row).filesystem.isSome := by
      rw [← freeEntry_eq_none, hfree]
      exact Option.some_ne_none row
    rw [if_neg hnotfull]
    cases hnamed : s.entryNamed name with
    | none =>
      rw [hinv.mounted_of_not_entryNamed hnamed]
      exact ⟨_, rfl⟩
    | some row' =>
      obtain ⟨hrow', hname'⟩ := entryNamed_eq_some hnamed
      obtain ⟨-, hleft⟩ := hfresh (by rw [hfree]; exact Option.some_ne_none row)
      have hsome : (s.filesystems row').filesystem.isSome :=
        Option.isSome_iff_ne_none.mpr fun hnone => hleft row' hrow' hnone hname'
      rw [hinv.mounted_of_entryNamed hnamed, if_pos hsome]
      exact ⟨s, rfl⟩

/-- The result of `vfs_unmount` is the documented one. -/
lemma unmount [DecidableEq φ] (hinv : MountInv s history) (name : List UInt8) :
    ∃ ret s', vfsUnmount name s = some (ret, s') ∧
      (ret = vfsNotFound ↔ latestMount name history = none) := by
  rw [vfsUnmount_eq name hinv.usable hinv.ops hinv.files]
  cases hnamed : s.entryNamed name with
  | none => exact ⟨_, _, rfl, by simp [hinv.mounted_of_not_entryNamed hnamed]⟩
  | some row =>
    rw [hinv.mounted_of_entryNamed hnamed]
    cases hfs : (s.filesystems row).filesystem with
    | none =>
      simp only [hfs]
      exact ⟨_, _, rfl, by simp⟩
    | some fs =>
      simp only [hfs]
      exact ⟨_, _, rfl, by simp [vfsOk, vfsNotFound]⟩

/-- A filesystem is mounted in a free row under a name that no row has. -/
lemma mount_ok (hinv : MountInv s history) (hname : name ≠ []) (hfree : s.freeEntry = some row)
    (hnamed : s.entryNamed name = none) (hlength : name.length ≤ vfsNameLength - 1) :
    MountInv (s.setEntry row ⟨some fs, name.take (vfsNameLength - 1)⟩)
      ((.mount fs name, vfsOk) :: history) := by
  obtain ⟨hrow, hnone⟩ := freeEntry_eq_some hfree
  have hother := entryNamed_eq_none.mp hnamed
  rw [List.take_of_length_le hlength]
  have hself : (s.setEntry row ⟨some fs, name⟩).filesystems row = ⟨some fs, name⟩ :=
    Function.update_self _ _ _
  have hrest : ∀ i, i ≠ row →
      (s.setEntry row ⟨some fs, name⟩).filesystems i = s.filesystems i := fun i hi =>
    Function.update_of_ne hi _ _
  refine
    { usable := hinv.usable
      ops := hinv.ops
      files := hinv.files
      distinct := fun i hi j hj hne heq => ?_
      nonempty := fun i hi hsome => ?_
      live := fun i hi fs' hfs' => ?_
      row := fun name' fs' hmounted => ?_ }
  · by_cases hir : i = row
    · by_cases hjr : j = row
      · rw [hir, hjr]
      · rw [hir, hself, hrest j hjr] at heq
        exact absurd heq.symm (hother j hj)
    · rw [hrest i hir] at hne heq
      by_cases hjr : j = row
      · rw [hjr, hself] at heq
        exact absurd heq (hother i hi)
      · rw [hrest j hjr] at heq
        exact hinv.distinct i hi j hj hne heq
  · by_cases hir : i = row
    · rw [hir, hself]
      exact hname
    · rw [hrest i hir] at hsome ⊢
      exact hinv.nonempty i hi hsome
  · by_cases hir : i = row
    · rw [hir, hself] at hfs' ⊢
      rw [latestMount, if_pos ⟨rfl, rfl⟩]
      exact hfs'
    · rw [hrest i hir] at hfs' ⊢
      rw [latestMount, if_neg (fun h => hother i hi h.2.symm)]
      exact hinv.live i hi fs' hfs'
  · by_cases heq : name = name'
    · rw [latestMount, if_pos ⟨rfl, heq⟩] at hmounted
      exact ⟨row, hrow, by rw [hself, heq], by rw [hself, hmounted]⟩
    · rw [latestMount, if_neg (fun h => heq h.2)] at hmounted
      obtain ⟨i, hi, hname', hfs'⟩ := hinv.row name' fs' hmounted
      have hir : i ≠ row := by
        rintro rfl
        rw [hnone] at hfs'
        cases hfs'
      exact ⟨i, hi, by rw [hrest i hir, hname'], by rw [hrest i hir, hfs']⟩

/-- The filesystem in the row of a name is unmounted; the row keeps the name. -/
lemma unmount_ok (hinv : MountInv s history) (hnamed : s.entryNamed name = some row)
    (hfs : (s.filesystems row).filesystem = some fs) :
    MountInv (s.setEntry row { s.filesystems row with filesystem := none })
      ((.unmount name, vfsOk) :: history) := by
  obtain ⟨hrow, rfl⟩ := entryNamed_eq_some hnamed
  have hne := hinv.nonempty row hrow (by rw [hfs]; rfl)
  set t := s.setEntry row { s.filesystems row with filesystem := none } with ht
  have hself : t.filesystems row = { s.filesystems row with filesystem := none } :=
    Function.update_self _ _ _
  have hrest : ∀ i, i ≠ row → t.filesystems i = s.filesystems i := fun i hi =>
    Function.update_of_ne hi _ _
  have hnames : ∀ i, (t.filesystems i).mountpoint = (s.filesystems i).mountpoint := by
    intro i
    by_cases hir : i = row
    · rw [hir, hself]
    · rw [hrest i hir]
  have hsome : ∀ i fs', (t.filesystems i).filesystem = some fs' →
      i ≠ row ∧ (s.filesystems i).filesystem = some fs' := by
    intro i fs' hfs'
    by_cases hir : i = row
    · rw [hir, hself] at hfs'
      cases hfs'
    · rw [hrest i hir] at hfs'
      exact ⟨hir, hfs'⟩
  refine
    { usable := hinv.usable
      ops := hinv.ops
      files := hinv.files
      distinct := fun i hi j hj hnempty heq => ?_
      nonempty := fun i hi hisSome => ?_
      live := fun i hi fs' hfs' => ?_
      row := fun name' fs' hmounted => ?_ }
  · rw [hnames] at hnempty heq
    rw [hnames] at heq
    exact hinv.distinct i hi j hj hnempty heq
  · obtain ⟨fs', hfs'⟩ := Option.isSome_iff_exists.mp hisSome
    rw [hnames]
    exact hinv.nonempty i hi (by rw [(hsome i fs' hfs').2]; rfl)
  · obtain ⟨hir, hfs'⟩ := hsome i fs' hfs'
    rw [hnames, latestMount, if_neg (fun h => hir (hinv.distinct row hrow i hi hne h.2).symm)]
    exact hinv.live i hi fs' hfs'
  · by_cases heq : (s.filesystems row).mountpoint = name'
    · rw [latestMount, if_pos ⟨rfl, heq⟩] at hmounted
      cases hmounted
    · rw [latestMount, if_neg (fun h => heq h.2)] at hmounted
      obtain ⟨i, hi, hname', hfs'⟩ := hinv.row name' fs' hmounted
      have hir : i ≠ row := by
        rintro rfl
        exact heq hname'
      exact ⟨i, hi, by rw [hnames, hname'], by rw [hrest i hir, hfs']⟩

/-- A call that does not succeed changes neither the table nor what is mounted. -/
lemma failed (hinv : MountInv s history) (call : MountCall φ) {ret : ℤ} (hret : ret ≠ vfsOk) :
    MountInv s ((call, ret) :: history) := by
  have hmounted : ∀ name, latestMount name ((call, ret) :: history) = latestMount name history := by
    intro name
    cases call with
    | mount fs name' => rw [latestMount, if_neg fun h => hret h.1]
    | unmount name' => rw [latestMount, if_neg fun h => hret h.1]
  exact
    { usable := hinv.usable
      ops := hinv.ops
      files := hinv.files
      distinct := hinv.distinct
      nonempty := hinv.nonempty
      live := fun row hrow fs hfs => by rw [hmounted, hinv.live row hrow fs hfs]
      row := fun name fs h => hinv.row name fs (by rw [← hmounted, h]) }

/-- A call with a fresh name keeps the invariant. -/
lemma exec [DecidableEq φ] {call : MountCall φ} {ret : ℤ} (hinv : MountInv s history) (hname : call.mountpoint ≠ [])
    (hfresh : FreshName s call) (hexec : call.exec s = some (ret, s')) :
    MountInv s' ((call, ret) :: history) := by
  cases call with
  | mount fs name =>
    have hname : name ≠ [] := hname
    rw [MountCall.exec, vfsMount_eq fs hinv.usable hinv.ops hname, Option.some.injEq] at hexec
    cases hfree : s.freeEntry with
    | none =>
      rw [hfree] at hexec
      cases hexec
      exact hinv.failed _ (by decide)
    | some row =>
      cases hnamed : s.entryNamed name with
      | some row' =>
        rw [hfree, hnamed] at hexec
        cases hexec
        exact hinv.failed _ (by decide)
      | none =>
        rw [hfree, hnamed] at hexec
        cases hexec
        exact hinv.mount_ok hname hfree hnamed (hfresh (by rw [hfree]; exact Option.some_ne_none row)).1
  | unmount name =>
    rw [MountCall.exec, vfsUnmount_eq name hinv.usable hinv.ops hinv.files,
      Option.some.injEq] at hexec
    cases hnamed : s.entryNamed name with
    | none =>
      rw [hnamed] at hexec
      cases hexec
      exact hinv.failed _ (by decide)
    | some row =>
      cases hfs : (s.filesystems row).filesystem with
      | none =>
        simp only [hnamed, hfs] at hexec
        cases hexec
        exact hinv.failed _ (by decide)
      | some fs =>
        simp only [hnamed, hfs] at hexec
        cases hexec
        exact hinv.unmount_ok hnamed hfs

end MountInv

lemma MountRun.mountInv [DecidableEq φ] (hrun : MountRun FreshName s history) : MountInv s history := by
  induction hrun with
  | init => exact mountInv_vfsInit
  | call _ hname hfresh hexec ih => exact ih.exec hname hfresh hexec

/-! ### The mount table -/

/-- In every run with fresh names, the mount table is a map from names to filesystems. -/
theorem mountRun_isMountMap [DecidableEq φ] (hrun : MountRun FreshName s history) :
    IsMountMap FreshName s history := by
  have hinv := hrun.mountInv
  exact
    { distinct := fun i hi j hj hsome _ heq =>
        hinv.distinct i hi j hj (hinv.nonempty i hi hsome) heq
      mount := fun fs name hname hfresh => hinv.mount hname hfresh
      unmount := fun name _ _ => hinv.unmount name
      get := fun name _ => hinv.get name }

/-- The rows after a first filesystem is mounted and unmounted. -/
def unmountedRows : VfsState ℕ :=
  (vfsInit.setEntry 0 ⟨some 5, [97]⟩).setEntry 0 ⟨none, [97]⟩

lemma mountRun_unmountedRows (ok : VfsState ℕ → MountCall ℕ → Prop)
    (hmount : ok vfsInit (.mount 5 [97]))
    (hunmount : ok (vfsInit.setEntry 0 ⟨some 5, [97]⟩) (.unmount [97])) :
    MountRun ok unmountedRows [(.unmount [97], vfsOk), (.mount 5 [97], vfsOk)] := by
  have hfirst : vfsMount 5 [97] vfsInit = some (vfsOk, vfsInit.setEntry 0 ⟨some 5, [97]⟩) :=
    vfsMount_eq 5 rfl (Int32.le_refl 0) (by decide)
  have hsecond : vfsUnmount [97] (vfsInit.setEntry 0 ⟨some 5, [97]⟩) =
      some (vfsOk, unmountedRows) :=
    vfsUnmount_eq [97] rfl (Int32.le_refl 0) (fun _ _ => rfl)
  exact .call (.call .init (by decide) hmount hfirst) (by decide) hunmount hsecond

/-- Another filesystem is mounted after the first one is unmounted. -/
theorem mountRun_isMountMap_remount : ∃ s history,
    MountRun FreshName s history ∧ latestMount [98] history = some 7 ∧
      IsMountMap FreshName s history := by
  have hthird : vfsMount 7 [98] unmountedRows =
      some (vfsOk, unmountedRows.setEntry 0 ⟨some 7, [98]⟩) :=
    vfsMount_eq 7 rfl (Int32.le_refl 0) (by decide)
  have hrun := mountRun_unmountedRows FreshName (fun _ => by decide) trivial
  have hremount : MountRun FreshName _ _ :=
    @MountRun.call _ _ _ _ _ _ (.mount 7 [98]) _ hrun (by decide) (fun _ => by decide) hthird
  exact ⟨_, _, hremount, by decide, mountRun_isMountMap hremount⟩

/-- A name cannot be mounted again after it is unmounted. -/
theorem not_isMountMap_unmounted : ¬ ∀ (s : VfsState ℕ) (history : MountHistory ℕ),
    MountRun (fun _ _ => True) s history → IsMountMap (fun _ _ => True) s history := by
  intro hall
  have hmap := hall _ _ (mountRun_unmountedRows (fun _ _ => True) trivial trivial)
  obtain ⟨s', hagain⟩ := hmap.mount 5 [97] (by decide) trivial
  have hrefused : vfsMount 5 [97] unmountedRows = some (vfsError, unmountedRows) :=
    vfsMount_eq 5 rfl (Int32.le_refl 0) (by decide)
  have hresult : mountResult unmountedRows [(.unmount [97], vfsOk), (.mount 5 [97], vfsOk)] [97] =
      vfsOk := by decide
  rw [hrefused, hresult] at hagain
  cases hagain

end Osm.Fs
