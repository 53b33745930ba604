import Osm.Core.LockOrder
import Osm.Fs.Vfs

/-!
# The locks of the file layer

The functions of `fs/vfs.c` and `fs/tfs.c`, given by their uses of `vfs_op_sem`, `vfs_table.sem`,
`openfile_table.sem` and the locks of the volumes. A condition on anything else, such as a
parameter, a table, the answer of the disk or what a loop finds, is a choice; a loop whose rounds
can leave the function is one choice. All volumes are those of `fs/tfs.c`, each with a lock of its
own.

The functions take the locks in the order in which they are named above, and release them at every
exit.
-/

namespace Osm.Fs

open Osm.Core LockProg

variable {φ : Type}

/-- The semaphores that are used as locks. -/
inductive FileLock (φ : Type) where
  | opSem
  | tableSem
  | openfileSem
  | tfsLock (fs : φ)
  deriving DecidableEq

/-- The order in which the locks are taken. -/
def FileLock.rank : FileLock φ → ℕ
  | opSem       => 0
  | tableSem    => 1
  | openfileSem => 2
  | tfsLock _   => 3

open FileLock

/-- A function of the file layer. -/
abbrev FileProg (φ α : Type) := LockProg (FileLock φ) α

namespace Locks

/-- A condition that does not depend on the locks. -/
def test : FileProg φ Bool := pick Bool

/-! ### The driver -/

/-- `tfs_unmount`. -/
def tfsUnmount (fs : φ) : FileProg φ Unit := do
  lock (tfsLock fs)
  drop (tfsLock fs)

/-- `tfs_open`: whether a file identifier is returned. -/
def tfsOpen (fs : φ) : FileProg φ Bool := do
  lock (tfsLock fs)
  -- the directory block cannot be read
  if ← test then
    unlock (tfsLock fs)
    return false
  -- the name is in the directory
  else if ← test then
    unlock (tfsLock fs)
    return true
  else
    unlock (tfsLock fs)
    return false

/-- `tfs_close`. -/
def tfsClose (_ : φ) : FileProg φ Unit := return

/-- `tfs_create`. -/
def tfsCreate (fs : φ) : FileProg φ Unit := do
  lock (tfsLock fs)
  -- the file is too large
  if ← test then unlock (tfsLock fs)
  -- the directory block cannot be read
  else if ← test then unlock (tfsLock fs)
  -- the name is in the directory
  else if ← test then unlock (tfsLock fs)
  -- the directory is full
  else if ← test then unlock (tfsLock fs)
  -- the allocation block cannot be read
  else if ← test then unlock (tfsLock fs)
  -- there is no block for the inode
  else if ← test then unlock (tfsLock fs)
  -- there is no block for the contents
  else if ← test then unlock (tfsLock fs)
  -- the allocation block, the directory block, the inode or a block of zeros cannot be written
  else if ← test then unlock (tfsLock fs)
  else if ← test then unlock (tfsLock fs)
  else if ← test then unlock (tfsLock fs)
  else if ← test then unlock (tfsLock fs)
  else unlock (tfsLock fs)

/-- `tfs_remove`. -/
def tfsRemove (fs : φ) : FileProg φ Unit := do
  lock (tfsLock fs)
  -- the directory block cannot be read
  if ← test then unlock (tfsLock fs)
  -- the name is not in the directory
  else if ← test then unlock (tfsLock fs)
  -- the allocation block or the inode cannot be read
  else if ← test then unlock (tfsLock fs)
  else if ← test then unlock (tfsLock fs)
  -- the allocation block or the directory block cannot be written
  else if ← test then unlock (tfsLock fs)
  else if ← test then unlock (tfsLock fs)
  else unlock (tfsLock fs)

/-- `tfs_read`: whether bytes have been read. -/
def tfsRead (fs : φ) : FileProg φ Bool := do
  lock (tfsLock fs)
  -- the number of the inode is wrong
  if ← test then
    unlock (tfsLock fs)
    return false
  -- the inode cannot be read
  else if ← test then
    unlock (tfsLock fs)
    return false
  -- the offset is outside the file
  else if ← test then
    unlock (tfsLock fs)
    return false
  -- there is nothing to read
  else if ← test then
    unlock (tfsLock fs)
    return false
  -- the first block or a further one cannot be read
  else if ← test then
    unlock (tfsLock fs)
    return false
  else if ← test then
    unlock (tfsLock fs)
    return false
  else
    unlock (tfsLock fs)
    return true

/-- `tfs_write`: whether bytes have been written. -/
def tfsWrite (fs : φ) : FileProg φ Bool := do
  lock (tfsLock fs)
  -- the number of the inode is wrong
  if ← test then
    unlock (tfsLock fs)
    return false
  -- the inode cannot be read
  else if ← test then
    unlock (tfsLock fs)
    return false
  -- the offset is outside the file
  else if ← test then
    unlock (tfsLock fs)
    return false
  -- there is nothing to write
  else if ← test then
    unlock (tfsLock fs)
    return false
  -- the first block cannot be read or written
  else if ← test then
    unlock (tfsLock fs)
    return false
  else if ← test then
    unlock (tfsLock fs)
    return false
  -- a further block cannot be read or written
  else if ← test then
    unlock (tfsLock fs)
    return false
  else if ← test then
    unlock (tfsLock fs)
    return false
  else
    unlock (tfsLock fs)
    return true

/-- `tfs_getfree`. -/
def tfsGetfree (fs : φ) : FileProg φ Unit := do
  lock (tfsLock fs)
  -- the allocation block cannot be read
  if ← test then unlock (tfsLock fs)
  else unlock (tfsLock fs)

/-! ### The virtual filesystem -/

/-- `vfs_start_op`: whether the operation can continue. -/
def vfsStartOp : FileProg φ Bool := do
  lock opSem
  let usable ← test
  unlock opSem
  return usable

/-- `vfs_end_op`. -/
def vfsEndOp : FileProg φ Unit := do
  lock opSem
  unlock opSem

/-- An operation after `vfs_start_op`. -/
def startOp (body : FileProg φ Unit) : FileProg φ Unit := do
  if ← vfsStartOp then body

/-- `vfs_get_filesystem`. -/
def vfsGetFilesystem : FileProg φ (Option φ) := pick (Option φ)

/-- The loop of `vfs_deinit` over the rows of the mount table that are left. -/
def unmountRows : ℕ → FileProg φ Unit
  | 0        => return
  | rows + 1 => do
    match ← pick (Option φ) with
    | none    => unmountRows rows
    | some fs => do
      tfsUnmount fs
      unmountRows rows

/-- How `vfs_deinit` waits for pending operations: on `vfs_unmount_sem`, without a lock. -/
def waitForOps : FileProg φ Unit := do
  if ← test then
    unlock opSem
    lock opSem

/-- `vfs_deinit`. -/
def vfsDeinit : FileProg φ Unit := do
  lock opSem
  waitForOps
  lock tableSem
  lock openfileSem
  unmountRows configMaxFilesystems
  unlock openfileSem
  unlock tableSem
  unlock opSem

/-- `vfs_mount`: whether it succeeds. -/
def vfsMount : FileProg φ Bool := do
  if ← vfsStartOp then
    lock tableSem
    -- no row is free
    if ← test then
      unlock tableSem
      vfsEndOp
      return false
    -- the name is in use
    else if ← test then
      unlock tableSem
      vfsEndOp
      return false
    else
      unlock tableSem
      vfsEndOp
      return true
  else
    return false

/-- `vfs_mount_fs`, for a volume that `tfs_init` has found. -/
def vfsMountFs : FileProg φ Unit := do
  match ← pick (Option φ) with
  -- there is no filesystem on the disk
  | none    => return
  | some fs =>
    -- the volume has no name
    if ← test then tfsUnmount fs
    else if ← vfsMount then return
    else tfsUnmount fs

/-- `vfs_unmount`. -/
def vfsUnmount : FileProg φ Unit := startOp do
  lock tableSem
  match ← vfsGetFilesystem with
  | none    =>
    unlock tableSem
    vfsEndOp
  | some fs =>
    lock openfileSem
    -- a file is open
    if ← test then
      unlock openfileSem
      unlock tableSem
      vfsEndOp
    else
      tfsUnmount fs
      unlock openfileSem
      unlock tableSem
      vfsEndOp

/-- `vfs_open`. -/
def vfsOpen : FileProg φ Unit := startOp do
  -- the path name cannot be parsed
  if ← test then vfsEndOp
  else
    lock tableSem
    lock openfileSem
    -- no row is free
    if ← test then
      unlock openfileSem
      unlock tableSem
      vfsEndOp
    else
      match ← vfsGetFilesystem with
      | none    =>
        unlock openfileSem
        unlock tableSem
        vfsEndOp
      | some fs =>
        unlock openfileSem
        unlock tableSem
        if ← tfsOpen fs then vfsEndOp
        else
          lock openfileSem
          unlock openfileSem
          vfsEndOp

/-- The beginning of an operation on an open file: `none` when it is not open. -/
def verifyOpen : FileProg φ (Option φ) := do
  lock openfileSem
  pick (Option φ)

/-- `vfs_close`. -/
def vfsClose : FileProg φ Unit := startOp do
  match ← verifyOpen with
  | none    => unlock openfileSem
  | some fs =>
    tfsClose fs
    unlock openfileSem
    vfsEndOp

/-- `vfs_seek` and `vfs_tell`. -/
def vfsPosition : FileProg φ Unit := startOp do
  match ← verifyOpen with
  | none   => unlock openfileSem
  | some _ =>
    unlock openfileSem
    vfsEndOp

/-- How `vfs_read` and `vfs_write` move the position after a transfer. -/
def advanceFile (transferred : Bool) : FileProg φ Unit := do
  if transferred then
    lock openfileSem
    unlock openfileSem

/-- `vfs_read` and `vfs_write`, which differ in the function of the driver. -/
def transfer (driver : φ → FileProg φ Bool) : FileProg φ Unit := do
  -- the parameters are wrong
  if ← test then return
  else startOp do
    match ← verifyOpen with
    | none    => unlock openfileSem
    | some fs =>
      unlock openfileSem
      let transferred ← driver fs
      advanceFile transferred
      vfsEndOp

/-- `vfs_create`, `vfs_remove` and `vfs_getfree` after the path name has been parsed. -/
def onVolume (driver : φ → FileProg φ Unit) : FileProg φ Unit := do
  lock tableSem
  match ← vfsGetFilesystem with
  | none    =>
    unlock tableSem
    vfsEndOp
  | some fs =>
    driver fs
    unlock tableSem
    vfsEndOp

/-- `vfs_create` and `vfs_remove`. -/
def onPath (driver : φ → FileProg φ Unit) : FileProg φ Unit := startOp do
  if ← test then vfsEndOp
  else onVolume driver

/-- The operations of the file layer. -/
inductive FileOp where
  | deinit
  | mount
  | mountFs
  | unmount
  | open
  | close
  | seek
  | tell
  | read
  | write
  | create
  | remove
  | getfree

/-- The uses of the locks in an operation. -/
def FileOp.prog : FileOp → FileProg φ Unit
  | deinit  => vfsDeinit
  | mount   => do let _ ← vfsMount
  | mountFs => vfsMountFs
  | unmount => vfsUnmount
  | .open   => vfsOpen
  | close   => vfsClose
  | seek    => vfsPosition
  | tell    => vfsPosition
  | read    => transfer tfsRead
  | write   => transfer tfsWrite
  | create  => onPath tfsCreate
  | remove  => onPath tfsRemove
  | getfree => startOp (onVolume tfsGetfree)

/-! ### The order of the locks -/

variable [DecidableEq φ] {fs : φ} {held : List (FileLock φ)}

/-- A function that can be called with the given locks, and returns with the same ones. -/
def Keeps (held : List (FileLock φ)) {α : Type} (p : FileProg φ α) : Prop :=
  ∀ post : α → List (FileLock φ) → Prop, (∀ a, post a held) → p.Respects rank post held

lemma respects_test {post : Bool → List (FileLock φ) → Prop} :
    (test : FileProg φ Bool).Respects rank post held ↔ post false held ∧ post true held :=
  Bool.forall_bool

/-- Both branches of a condition are taken into account. -/
lemma respects_ifTest {α : Type} {p q : FileProg φ α} {post : α → List (FileLock φ) → Prop} :
    (test >>= fun c => if c then p else q).Respects rank post held ↔
      p.Respects rank post held ∧ q.Respects rank post held := by
  rw [respects_bind, respects_test]
  exact and_comm

/-- The locks are below that of a volume. -/
abbrev BelowVolume (fs : φ) (held : List (FileLock φ)) : Prop :=
  ∀ l ∈ held, l.rank < (tfsLock fs).rank

lemma tfsUnmount_keeps (h : BelowVolume fs held) : Keeps held (tfsUnmount fs) := by
  intro post hpost
  simpa [tfsUnmount, hpost] using h

lemma tfsOpen_keeps (h : BelowVolume fs held) : Keeps held (tfsOpen fs) := by
  intro post hpost
  simpa [tfsOpen, respects_test, hpost] using h

lemma tfsCreate_keeps (h : BelowVolume fs held) : Keeps held (tfsCreate fs) := by
  intro post hpost
  simpa [tfsCreate, respects_test, hpost] using h

lemma tfsRemove_keeps (h : BelowVolume fs held) : Keeps held (tfsRemove fs) := by
  intro post hpost
  simpa [tfsRemove, respects_test, hpost] using h

lemma tfsRead_keeps (h : BelowVolume fs held) : Keeps held (tfsRead fs) := by
  intro post hpost
  simpa [tfsRead, respects_test, hpost] using h

lemma tfsWrite_keeps (h : BelowVolume fs held) : Keeps held (tfsWrite fs) := by
  intro post hpost
  simpa [tfsWrite, respects_test, hpost] using h

lemma tfsGetfree_keeps (h : BelowVolume fs held) : Keeps held (tfsGetfree fs) := by
  intro post hpost
  simpa [tfsGetfree, respects_test, hpost] using h

omit [DecidableEq φ] in
lemma belowVolume_nil (fs : φ) : BelowVolume fs [] := fun _ hl => by cases hl

omit [DecidableEq φ] in
lemma belowVolume_table (fs : φ) : BelowVolume fs [tableSem] := by
  simp [BelowVolume, FileLock.rank]

omit [DecidableEq φ] in
lemma belowVolume_tables (fs : φ) : BelowVolume fs [openfileSem, tableSem] := by
  simp [BelowVolume, FileLock.rank]

omit [DecidableEq φ] in
lemma belowVolume_deinit (fs : φ) : BelowVolume fs [openfileSem, tableSem, opSem] := by
  simp [BelowVolume, FileLock.rank]

/-- `vfs_end_op` is called without locks. -/
@[simp] lemma respects_vfsEndOp {post : Unit → List (FileLock φ) → Prop} :
    vfsEndOp.Respects rank post [] ↔ post () [] := by
  simp [vfsEndOp]

@[simp] lemma respects_vfsStartOp {post : Bool → List (FileLock φ) → Prop} :
    vfsStartOp.Respects rank post [] ↔ post false [] ∧ post true [] := by
  simp [vfsStartOp, respects_test]

/-- An operation begins and ends without locks. -/
def ReleasesAll (p : FileProg φ Unit) : Prop := p.Respects rank (fun _ held => held = []) []

lemma startOp_releasesAll {body : FileProg φ Unit} (h : ReleasesAll body) :
    ReleasesAll (startOp body) := by
  rw [startOp, ReleasesAll, respects_bind, respects_vfsStartOp]
  exact ⟨rfl, h⟩

lemma unmountRows_keeps (rows : ℕ) :
    Keeps [openfileSem, tableSem, opSem] (unmountRows rows : FileProg φ Unit) := by
  induction rows with
  | zero => exact fun _ hpost => hpost ()
  | succ rows ih =>
    intro post hpost
    rw [unmountRows, respects_bind, respects_pick]
    intro fs
    cases fs with
    | none => exact ih post hpost
    | some fs =>
      simp only [respects_bind]
      exact tfsUnmount_keeps (belowVolume_deinit fs) _ fun _ => ih post hpost

lemma waitForOps_keeps : Keeps [opSem] (waitForOps : FileProg φ Unit) := by
  intro post hpost
  simp [waitForOps, respects_test, hpost]

lemma vfsDeinit_releasesAll : ReleasesAll (vfsDeinit : FileProg φ Unit) := by
  rw [ReleasesAll, vfsDeinit]
  simp only [respects_bind, respects_lock]
  refine ⟨by simp, waitForOps_keeps _ fun _ => ⟨by simp [FileLock.rank], by simp [FileLock.rank], ?_⟩⟩
  exact unmountRows_keeps _ _ fun _ => by simp

lemma vfsMount_keeps : Keeps [] (vfsMount : FileProg φ Bool) := by
  intro post hpost
  simp [vfsMount, respects_test, hpost]

lemma vfsMountFs_releasesAll : ReleasesAll (vfsMountFs : FileProg φ Unit) := by
  rw [ReleasesAll, vfsMountFs, respects_bind, respects_pick]
  intro fs
  cases fs with
  | none => rfl
  | some fs =>
    have hunmount := tfsUnmount_keeps (belowVolume_nil fs) (fun _ held => held = []) fun _ => rfl
    refine respects_ifTest.mpr ⟨hunmount, ?_⟩
    refine respects_bind.mpr (vfsMount_keeps _ fun mounted => ?_)
    cases mounted with
    | false => exact hunmount
    | true => rfl

lemma vfsUnmount_releasesAll : ReleasesAll (vfsUnmount : FileProg φ Unit) := by
  refine startOp_releasesAll ?_
  simp only [ReleasesAll, vfsGetFilesystem, respects_bind, respects_lock, respects_pick]
  refine ⟨by simp, fun fs => ?_⟩
  cases fs with
  | none => simp
  | some fs =>
    refine respects_bind.mpr ⟨by simp [FileLock.rank], respects_ifTest.mpr ⟨by simp, ?_⟩⟩
    exact respects_bind.mpr (tfsUnmount_keeps (belowVolume_tables fs) _ fun _ => by simp)

lemma vfsOpen_releasesAll : ReleasesAll (vfsOpen : FileProg φ Unit) := by
  refine startOp_releasesAll ?_
  refine respects_ifTest.mpr ⟨by simp, ?_⟩
  refine respects_bind.mpr ⟨by simp, respects_bind.mpr ⟨by simp [FileLock.rank], ?_⟩⟩
  refine respects_ifTest.mpr ⟨by simp, ?_⟩
  rw [respects_bind, vfsGetFilesystem, respects_pick]
  intro fs
  cases fs with
  | none => simp
  | some fs =>
    simp only [respects_bind, respects_unlock]
    refine ⟨by simp, by simp, ?_⟩
    have hnil : List.erase (List.erase [openfileSem, tableSem] openfileSem) tableSem =
        ([] : List (FileLock φ)) := by simp
    rw [hnil]
    refine tfsOpen_keeps (belowVolume_nil fs) _ fun opened => ?_
    cases opened <;> simp

/-- An operation on an open file releases the semaphore of the table when the file is not open. -/
lemma verifyOpen_releasesAll {f : Option φ → FileProg φ Unit}
    (h : ∀ fs, (f fs).Respects rank (fun _ held => held = []) [openfileSem]) :
    ReleasesAll (verifyOpen >>= f) := by
  simp only [ReleasesAll, verifyOpen, respects_bind, respects_lock, respects_pick]
  exact ⟨by simp, h⟩

lemma vfsClose_releasesAll : ReleasesAll (vfsClose : FileProg φ Unit) := by
  refine startOp_releasesAll (verifyOpen_releasesAll fun fs => ?_)
  cases fs with
  | none => simp
  | some fs => simp [tfsClose]

lemma vfsPosition_releasesAll : ReleasesAll (vfsPosition : FileProg φ Unit) := by
  refine startOp_releasesAll (verifyOpen_releasesAll fun fs => ?_)
  cases fs <;> simp

lemma transfer_releasesAll {driver : φ → FileProg φ Bool} (hdriver : ∀ fs, Keeps [] (driver fs)) :
    ReleasesAll (transfer driver) := by
  refine respects_ifTest.mpr ⟨rfl, startOp_releasesAll (verifyOpen_releasesAll fun fs => ?_)⟩
  cases fs with
  | none => simp
  | some fs =>
    simp only [respects_bind, respects_unlock]
    refine ⟨by simp, ?_⟩
    rw [List.erase_cons_head]
    refine hdriver fs _ fun transferred => ?_
    cases transferred <;> simp [advanceFile]

lemma onVolume_releasesAll {driver : φ → FileProg φ Unit}
    (hdriver : ∀ fs, Keeps [tableSem] (driver fs)) : ReleasesAll (onVolume driver) := by
  simp only [ReleasesAll, onVolume, vfsGetFilesystem, respects_bind, respects_lock, respects_pick]
  refine ⟨by simp, fun fs => ?_⟩
  cases fs with
  | none => simp
  | some fs =>
    rw [respects_bind]
    exact hdriver fs _ fun _ => by simp

lemma onPath_releasesAll {driver : φ → FileProg φ Unit}
    (hdriver : ∀ fs, Keeps [tableSem] (driver fs)) : ReleasesAll (onPath driver) := by
  refine startOp_releasesAll ?_
  exact respects_ifTest.mpr ⟨by simp, onVolume_releasesAll hdriver⟩

/-- Every operation takes the locks in their order and releases all of them. -/
lemma FileOp.releasesAll (op : FileOp) : ReleasesAll (op.prog : FileProg φ Unit) := by
  cases op with
  | deinit => exact vfsDeinit_releasesAll
  | mount =>
    rw [FileOp.prog, ReleasesAll, respects_bind]
    exact vfsMount_keeps _ fun _ => rfl
  | mountFs => exact vfsMountFs_releasesAll
  | unmount => exact vfsUnmount_releasesAll
  | «open» => exact vfsOpen_releasesAll
  | close => exact vfsClose_releasesAll
  | seek => exact vfsPosition_releasesAll
  | tell => exact vfsPosition_releasesAll
  | read => exact transfer_releasesAll fun fs => tfsRead_keeps (belowVolume_nil fs)
  | write => exact transfer_releasesAll fun fs => tfsWrite_keeps (belowVolume_nil fs)
  | create => exact onPath_releasesAll fun fs => tfsCreate_keeps (belowVolume_table fs)
  | remove => exact onPath_releasesAll fun fs => tfsRemove_keeps (belowVolume_table fs)
  | getfree =>
    exact startOp_releasesAll (onVolume_releasesAll fun fs => tfsGetfree_keeps (belowVolume_table fs))

/-! ### Threads in the file layer -/

variable {τ : Type} [DecidableEq τ] {s₀ s : LockState τ (FileLock φ)}

/-- In every interleaving of any operations of any threads, no thread waits for itself through
others, and a thread that has returned from its operation has no lock. -/
theorem no_circular_wait (hstart : s₀.Start)
    (hrun : LockRun (fun prog => ∃ op : FileOp, prog = op.prog) s₀ s) :
    (∀ t, ¬ Relation.TransGen s.WaitsFor t t) ∧ ∀ t, s.prog t = .ret () → s.held t = [] := by
  have hordered : s.Ordered rank := by
    refine LockRun.ordered hstart (fun prog hop => ?_) hrun
    obtain ⟨op, rfl⟩ := hop
    exact op.releasesAll
  exact ⟨fun _ => hordered.not_circular, fun _ => hordered.held_eq_nil⟩

/-- Two threads outside the file layer. -/
def outside : LockState Bool (FileLock ℕ) where
  value _ := 1
  held _  := []
  prog _  := .ret ()

/-- A thread waits for the mount table, which another one has taken. -/
theorem no_circular_wait_table : ∃ s, outside.Start ∧
    LockRun (fun prog => ∃ op : FileOp, prog = op.prog) outside s ∧ s.WaitsFor true false ∧
      (∀ t, ¬ Relation.TransGen s.WaitsFor t t) ∧ ∀ t, s.prog t = .ret () → s.held t = [] := by
  have hstart : outside.Start := ⟨fun _ => rfl, fun _ => rfl, fun _ => rfl⟩
  have hcalled : LockRun (fun prog => ∃ op : FileOp, prog = op.prog) outside _ :=
    .single (.start (t := false) rfl ⟨.getfree, rfl⟩)
  have hlocked : LockRun (fun prog => ∃ op : FileOp, prog = op.prog) outside _ :=
    hcalled.tail (@LockStep.take _ _ _ _ _ _ false _ _ rfl (by decide))
  have husable : LockRun (fun prog => ∃ op : FileOp, prog = op.prog) outside _ :=
    hlocked.tail (@LockStep.choose _ _ _ _ _ _ false _ _ true rfl)
  have hunlocked : LockRun (fun prog => ∃ op : FileOp, prog = op.prog) outside _ :=
    husable.tail (@LockStep.release _ _ _ _ _ _ false _ _ rfl)
  have htable : LockRun (fun prog => ∃ op : FileOp, prog = op.prog) outside _ :=
    hunlocked.tail (@LockStep.take _ _ _ _ _ _ false _ _ rfl (by decide))
  have hcalled' : LockRun (fun prog => ∃ op : FileOp, prog = op.prog) outside _ :=
    htable.tail (.start (t := true) rfl ⟨.getfree, rfl⟩)
  have hlocked' : LockRun (fun prog => ∃ op : FileOp, prog = op.prog) outside _ :=
    hcalled'.tail (@LockStep.take _ _ _ _ _ _ true _ _ rfl (by decide))
  have husable' : LockRun (fun prog => ∃ op : FileOp, prog = op.prog) outside _ :=
    hlocked'.tail (@LockStep.choose _ _ _ _ _ _ true _ _ true rfl)
  have hwaiting : LockRun (fun prog => ∃ op : FileOp, prog = op.prog) outside _ :=
    husable'.tail (@LockStep.release _ _ _ _ _ _ true _ _ rfl)
  exact ⟨_, hstart, hwaiting, ⟨_, _, rfl, rfl, List.mem_singleton_self _⟩,
    no_circular_wait hstart hwaiting⟩

end Locks

end Osm.Fs
