import Osm.Fs.Tfs

/-!
# The virtual filesystem

A model of `fs/vfs.c`. The functions are given as they run without another thread in between, so
that all semaphores are passed; the parts of them that a semaphore protects are functions of their
own. What a filesystem driver answers to a call is arbitrary.

A result `none` stands for a failed assertion.
-/

namespace Osm.Fs

/-- `VFS_INVALID_PARAMS`. -/
def vfsInvalidParams : ℤ := -3

/-- `VFS_NOT_OPEN`. -/
def vfsNotOpen : ℤ := -4

/-- `VFS_NO_SUCH_FS`. -/
def vfsNoSuchFs : ℤ := -6

/-- `VFS_LIMIT`. -/
def vfsLimit : ℤ := -7

/-- `VFS_IN_USE`. -/
def vfsInUse : ℤ := -8

/-- `VFS_UNUSABLE`. -/
def vfsUnusable : ℤ := -9

/-- `VFS_NAME_LENGTH`. -/
def vfsNameLength : ℕ := 16

/-- `CONFIG_MAX_FILESYSTEMS`. -/
def configMaxFilesystems : ℕ := 8

/-- `CONFIG_MAX_OPEN_FILES`. -/
def configMaxOpenFiles : ℕ := 512

/-- `vfs_entry_t`, for pointers `φ` to filesystems. -/
structure VfsEntry (φ : Type) where
  filesystem : Option φ
  mountpoint : List UInt8

/-- `openfile_entry_t`. -/
structure OpenfileEntry (φ : Type) where
  filesystem   : Option φ
  fileid       : ℤ
  seekPosition : ℤ

/-- The variables of the module. The counter of the operations wraps around. -/
structure VfsState (φ : Type) where
  filesystems : ℕ → VfsEntry φ
  files       : ℕ → OpenfileEntry φ
  ops         : Int32
  usable      : Bool

/-- A call of a function of a filesystem driver. -/
inductive FsCall (φ : Type) where
  | unmount (fs : φ)
  | open (fs : φ) (filename : List UInt8)
  | close (fs : φ) (fileid : ℤ)
  | read (fs : φ) (fileid bufsize offset : ℤ)
  | write (fs : φ) (fileid datasize offset : ℤ)
  | create (fs : φ) (filename : List UInt8) (size : ℤ)
  | remove (fs : φ) (filename : List UInt8)
  | getfree (fs : φ)

/-! ### Path names -/

/-- The loop of `vfs_parse_pathname` over the volume name, with the number of rounds that are
left. -/
def parseVolume : ℕ → List UInt8 → Except ℤ (List UInt8 × List UInt8)
  | 0, _                   => .error vfsInvalidParams
  | _ + 1, []              => .error vfsError
  | n + 1, c :: pathname   =>
    if c = ']'.toUInt8 then .ok ([], pathname)
    else (parseVolume n pathname).map fun (volume, rest) => (c :: volume, rest)

/-- `vfs_parse_pathname`: the volume name and the file name. -/
def vfsParsePathname (pathname : List UInt8) : Except ℤ (List UInt8 × List UInt8) := do
  let (volume, filename) ←
    match pathname with
    | c :: rest => if c = '['.toUInt8 then parseVolume (vfsNameLength - 1) rest
                   else .ok ([], c :: rest)
    | []        => .ok ([], [])
  if filename.length = 0 ∨ filename.length ≥ vfsNameLength then .error vfsInvalidParams
  else .ok (volume, filename)

/-! ### The tables -/

variable {φ : Type}

namespace VfsState

def setEntry (s : VfsState φ) (row : ℕ) (entry : VfsEntry φ) : VfsState φ :=
  { s with filesystems := Function.update s.filesystems row entry }

def setFile (s : VfsState φ) (file : ℕ) (entry : OpenfileEntry φ) : VfsState φ :=
  { s with files := Function.update s.files file entry }

/-- The first row of the mount table without a filesystem. -/
def freeEntry (s : VfsState φ) : Option ℕ :=
  (List.range configMaxFilesystems).find? fun row => (s.filesystems row).filesystem = none

/-- The first row of the mount table with a name. -/
def entryNamed (s : VfsState φ) (name : List UInt8) : Option ℕ :=
  (List.range configMaxFilesystems).find? fun row => (s.filesystems row).mountpoint = name

/-- The first free row of the table of open files. -/
def freeFile (s : VfsState φ) : Option ℕ :=
  (List.range configMaxOpenFiles).find? fun file => (s.files file).filesystem = none

end VfsState

/-- `vfs_get_filesystem`. -/
def vfsGetFilesystem (s : VfsState φ) (mountpoint : List UInt8) : Option φ :=
  (s.entryNamed mountpoint).bind fun row => (s.filesystems row).filesystem

/-- `vfs_verify_open`: the number of the row and the filesystem. -/
def vfsVerifyOpen (s : VfsState φ) (file : ℤ) : Option (ℕ × φ) :=
  if file < 0 ∨ file ≥ configMaxOpenFiles then none
  else (s.files file.toNat).filesystem.map fun fs => (file.toNat, fs)

/-- How `vfs_open` takes a row: it fails without a free row or a filesystem. -/
def reserveFile (s : VfsState φ) (volumename : List UInt8) : Except ℤ (ℕ × φ × VfsState φ) :=
  match s.freeFile with
  | none      => .error vfsLimit
  | some file =>
    match vfsGetFilesystem s volumename with
    | none    => .error vfsNoSuchFs
    | some fs => .ok (file, fs, s.setFile file { s.files file with filesystem := some fs })

/-- How `vfs_open` gives a row back, and `vfs_close` ends. -/
def releaseFile (s : VfsState φ) (file : ℕ) : VfsState φ :=
  s.setFile file { s.files file with filesystem := none }

/-- How `vfs_open` fills in a row. -/
def fillFile (s : VfsState φ) (file : ℕ) (fileid : ℤ) : VfsState φ :=
  s.setFile file { s.files file with fileid := fileid, seekPosition := 0 }

/-- A sum in the arithmetic of `int`. -/
def addInt (a b : ℤ) : ℤ := (a + b).bmod (2 ^ 32)

/-- How `vfs_read` and `vfs_write` move the position. -/
def advanceFile (s : VfsState φ) (file : ℕ) (ret : ℤ) : VfsState φ :=
  if ret > 0 then
    s.setFile file { s.files file with seekPosition := addInt (s.files file).seekPosition ret }
  else s

/-! ### Operations -/

/-- The result of a function and the variables after it; `none` for a failed assertion. -/
abbrev VfsResult (φ : Type) := Option (ℤ × VfsState φ)

/-- `vfs_start_op`. -/
def vfsStartOp (s : VfsState φ) : ℤ × VfsState φ :=
  if s.usable then (vfsOk, { s with ops := s.ops + 1 }) else (vfsUnusable, s)

/-- `vfs_end_op`. The semaphore on which `vfs_deinit` waits is left out. -/
def vfsEndOp (s : VfsState φ) : Option (VfsState φ) :=
  if s.ops - 1 ≥ 0 then some { s with ops := s.ops - 1 } else none

/-- Begin an operation with `vfs_start_op`. -/
def startOp (s : VfsState φ) (body : VfsState φ → VfsResult φ) : VfsResult φ :=
  let (ret, s) := vfsStartOp s
  if ret ≠ vfsOk then some (vfsUnusable, s) else body s

/-- End an operation with `vfs_end_op`. -/
def endOp (ret : ℤ) (s : VfsState φ) : VfsResult φ := (vfsEndOp s).map fun s => (ret, s)

/-- The beginning of an operation on an open file, which returns at once when the file is not
open. -/
def onOpenFile (s : VfsState φ) (file : ℤ) (body : ℕ → φ → VfsResult φ) : VfsResult φ :=
  match vfsVerifyOpen s file with
  | none            => some (vfsNotOpen, s)
  | some (file, fs) => body file fs

/-- `vfs_mount`. -/
def vfsMount (fs : φ) (name : List UInt8) (s : VfsState φ) : VfsResult φ :=
  if name = [] then none
  else startOp s fun s =>
    match s.freeEntry with
    | none     => endOp vfsLimit s
    | some row =>
      match s.entryNamed name with
      | some _ => endOp vfsError s
      | none   => endOp vfsOk (s.setEntry row ⟨some fs, name.take (vfsNameLength - 1)⟩)

/-- `vfs_unmount`. -/
def vfsUnmount [DecidableEq φ] (name : List UInt8) (s : VfsState φ) : VfsResult φ :=
  startOp s fun s =>
    match s.entryNamed name with
    | none     => endOp vfsNotFound s
    | some row =>
      match (s.filesystems row).filesystem with
      | none    => endOp vfsNotFound s
      | some fs =>
        if ∃ file < configMaxOpenFiles, (s.files file).filesystem = some fs then endOp vfsInUse s
        else endOp vfsOk (s.setEntry row { s.filesystems row with filesystem := none })

/-- `vfs_open`. -/
def vfsOpen (answer : FsCall φ → ℤ) (pathname : List UInt8) (s : VfsState φ) : VfsResult φ :=
  startOp s fun s =>
    match vfsParsePathname pathname with
    | .error _                => endOp vfsInvalidParams s
    | .ok (volume, filename)  =>
      match reserveFile s volume with
      | .error ret          => endOp ret s
      | .ok (file, fs, s)   =>
        let fileid := answer (.open fs filename)
        if fileid < 0 then endOp fileid (releaseFile s file)
        else endOp file (fillFile s file fileid)

/-- `vfs_close`. -/
def vfsClose (answer : FsCall φ → ℤ) (file : ℤ) (s : VfsState φ) : VfsResult φ :=
  startOp s fun s => onOpenFile s file fun file fs =>
    endOp (answer (.close fs (s.files file).fileid)) (releaseFile s file)

/-- `vfs_seek`. -/
def vfsSeek (file seekPosition : ℤ) (s : VfsState φ) : VfsResult φ :=
  startOp s fun s =>
    if seekPosition < 0 then none
    else onOpenFile s file fun file _ =>
      endOp vfsOk (s.setFile file { s.files file with seekPosition })

/-- `vfs_tell`. -/
def vfsTell (file : ℤ) (s : VfsState φ) : VfsResult φ :=
  startOp s fun s => onOpenFile s file fun file _ => endOp (s.files file).seekPosition s

/-- `vfs_read` and `vfs_write`, which differ in the function of the driver. The buffer is given by
its address. -/
def transfer (answer : FsCall φ → ℤ) (request : φ → ℤ → ℤ → ℤ → FsCall φ) (file : ℤ)
    (buffer : ℕ) (size : ℤ) (s : VfsState φ) : VfsResult φ :=
  if size < 0 ∨ buffer = 0 then some (vfsInvalidParams, s)
  else startOp s fun s => onOpenFile s file fun file fs =>
    let ret := answer (request fs (s.files file).fileid size (s.files file).seekPosition)
    endOp ret (advanceFile s file ret)

/-- `vfs_read`. -/
def vfsRead (answer : FsCall φ → ℤ) (file : ℤ) (buffer : ℕ) (bufsize : ℤ) (s : VfsState φ) :
    VfsResult φ :=
  transfer answer .read file buffer bufsize s

/-- `vfs_write`. -/
def vfsWrite (answer : FsCall φ → ℤ) (file : ℤ) (buffer : ℕ) (datasize : ℤ) (s : VfsState φ) :
    VfsResult φ :=
  transfer answer .write file buffer datasize s

/-- The common part of `vfs_create` and `vfs_remove`. -/
def onVolume (answer : FsCall φ → ℤ) (request : φ → List UInt8 → FsCall φ)
    (pathname : List UInt8) (s : VfsState φ) : VfsResult φ :=
  startOp s fun s =>
    match vfsParsePathname pathname with
    | .error _               => endOp vfsInvalidParams s
    | .ok (volume, filename) =>
      match vfsGetFilesystem s volume with
      | none    => endOp vfsNoSuchFs s
      | some fs => endOp (answer (request fs filename)) s

/-- `vfs_create`. -/
def vfsCreate (answer : FsCall φ → ℤ) (pathname : List UInt8) (size : ℤ) (s : VfsState φ) :
    VfsResult φ :=
  if size < 0 then none
  else onVolume answer (fun fs filename => .create fs filename size) pathname s

/-- `vfs_remove`. -/
def vfsRemove (answer : FsCall φ → ℤ) (pathname : List UInt8) (s : VfsState φ) : VfsResult φ :=
  onVolume answer .remove pathname s

/-- `vfs_getfree`. -/
def vfsGetfree (answer : FsCall φ → ℤ) (filesystem : List UInt8) (s : VfsState φ) :
    VfsResult φ :=
  startOp s fun s =>
    match vfsGetFilesystem s filesystem with
    | none    => endOp vfsNoSuchFs s
    | some fs => endOp (answer (.getfree fs)) s

/-! ### Rows -/

variable {s s' : VfsState φ} {file : ℤ} {row : ℕ} {fs : φ}

/-- The row that `vfs_open` takes is the first free one. -/
lemma reserveFile_ok {volume : List UInt8} (h : reserveFile s volume = .ok (row, fs, s')) :
    s.freeFile = some row ∧ s' = s.setFile row { s.files row with filesystem := some fs } := by
  unfold reserveFile at h
  generalize s.freeFile = free at h ⊢
  cases free with
  | none => cases h
  | some file' =>
    generalize vfsGetFilesystem s volume = mounted at h
    cases mounted with
    | none => cases h
    | some fs' =>
      cases h
      exact ⟨rfl, rfl⟩

lemma vfsVerifyOpen_some (h : vfsVerifyOpen s file = some (row, fs)) :
    file = row ∧ (s.files row).filesystem = some fs := by
  rw [vfsVerifyOpen] at h
  split_ifs at h with hfile
  obtain ⟨fs', hfs, heq⟩ := Option.map_eq_some_iff.mp h
  obtain ⟨rfl, rfl⟩ := Prod.mk.inj heq
  exact ⟨by omega, hfs⟩

end Osm.Fs
