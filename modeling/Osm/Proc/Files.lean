import Osm.Fs.Vfs
import Osm.Proc.Process
import Mathlib.Logic.Relation

/-!
# Files of processes

A model of the file handles of processes: `process_add_file`, `process_remove_file` and
`process_has_open_file`, the system calls of `proc/io.c` that use them, and what the other
functions of `proc/process.c` do to the handles. A process is a thread, so that the calls of one
process follow each other; between the calls of different processes every order of steps is
possible. A step goes to the next place where another thread can see or change what is used. The
virtual filesystem is not shut down, so that `vfs_start_op` always succeeds.

The open files are rows of the table of the virtual filesystem. The opens are numbered, and it is
recorded for each row which of them took it and for each handle in a process from which of them it
is.
-/

namespace Osm.Proc

open Osm.Fs (VfsState vfsParsePathname reserveFile releaseFile fillFile vfsVerifyOpen)

instance : NeZero configMaxOpenFiles := ⟨by decide⟩

/-- The array `files` of a process. -/
abbrev Files := Fin configMaxOpenFiles → ℤ

/-- The slot in which `process_add_file` stores a file. -/
def freeSlot (files : Files) : Option (Fin configMaxOpenFiles) :=
  (List.finRange configMaxOpenFiles).find? fun i => files i = -1

/-- The slot that `process_remove_file` clears. -/
def slotOf (files : Files) (file : ℤ) : Option (Fin configMaxOpenFiles) :=
  (List.finRange configMaxOpenFiles).find? fun i => files i = file

/-- `process_add_file`; it does nothing when all slots are taken. -/
def processAddFile (files : Files) (file : ℤ) : Files :=
  match freeSlot files with
  | some i => Function.update files i file
  | none   => files

/-- `process_remove_file`. -/
def processRemoveFile (files : Files) (file : ℤ) : Files :=
  match slotOf files file with
  | some i => Function.update files i (-1)
  | none   => files

/-- `process_has_open_file`. -/
def processHasOpenFile (files : Files) (file : ℤ) : Bool := (slotOf files file).isSome

/-- Where the thread of a process is. A row and the number of the open that took it are kept by
`vfs_open` until it is done, by `io_open` until the handle is stored and by `process_start` while
the executable is read. `io_close` has a file that it already removed from the array. The calls
`io_read`, `io_write`, `io_seek` and `io_tell` have a file that they checked to be in the array,
and then a row that `vfs_verify_open` gave them. -/
inductive IoPc where
  | gone
  | user
  | starting
  | opening (row id : ℕ) (loader : Bool)
  | opened (row id : ℕ)
  | loading (row : ℕ)
  | closing (file : ℤ)
  | acting (file : ℤ)
  | verified (row : ℕ)
  deriving DecidableEq

/-- A call of `io_open`, `io_close` or `process_start` is in progress with a row. -/
def IoPc.Holds : IoPc → ℕ → Prop
  | .opening r _ _, row => r = row
  | .opened r _, row    => r = row
  | .loading r, row     => r = row
  | .closing file, row  => file = row
  | _, _                => False

/-- The process table, the virtual filesystem and the threads, with the history of the opens. -/
structure FilesState (φ : Type) where
  table  : Pid → Pcb
  vfs    : VfsState φ
  pc     : Pid → IoPc
  opens  : ℕ
  opener : ℕ → ℕ
  ids    : Pid → Fin configMaxOpenFiles → ℕ

/-- The slot that `alloc_process_id` reserves. -/
def freeProcess (table : Pid → Pcb) : Option Pid :=
  (List.finRange processMaxProcesses).find? fun i => (table i).state = .free

namespace FilesState

variable {φ : Type}

def setPc (s : FilesState φ) (p : Pid) (pc : IoPc) : FilesState φ :=
  { s with pc := Function.update s.pc p pc }

def setPcb (s : FilesState φ) (p : Pid) (pcb : Pcb) : FilesState φ :=
  { s with table := Function.update s.table p pcb }

def setFiles (s : FilesState φ) (p : Pid) (files : Files) : FilesState φ :=
  s.setPcb p { s.table p with files }

/-- The row of the table of open files is taken by the next open. -/
def takeRow (s : FilesState φ) (row : ℕ) (vfs : VfsState φ) : FilesState φ :=
  { s with vfs := vfs, opens := s.opens + 1, opener := Function.update s.opener row s.opens }

/-- The handle of a file is stored in a process, together with the open that it is from. -/
def addHandle (s : FilesState φ) (p : Pid) (row id : ℕ) : FilesState φ :=
  { s.setFiles p (processAddFile (s.table p).files row) with
    ids := Function.update s.ids p fun i =>
      if freeSlot (s.table p).files = some i then id else s.ids p i }

/-- A row of the table of open files is in use. -/
def InUse (s : FilesState φ) (row : ℕ) : Prop := (s.vfs.files row).filesystem ≠ none

/-- A process that runs has a file in its array. -/
def Lists (s : FilesState φ) (p : Pid) (row : ℕ) : Prop :=
  (s.table p).state = .running ∧ ∃ i, (s.table p).files i = row

/-- The thread of a process is in `io_open`, or in the `vfs_open` of `process_start`, with a row
that it took. -/
def Opens (s : FilesState φ) (p : Pid) (row id : ℕ) : Prop :=
  (∃ loader, s.pc p = .opening row id loader) ∨ s.pc p = .opened row id

/-- The thread of a process is in `io_open`, `io_close` or `process_start` with a row. -/
def Holds (s : FilesState φ) (p : Pid) (row : ℕ) : Prop := (s.pc p).Holds row

end FilesState

/-- A step of the thread of a process. -/
inductive FilesAction where
  | spawn (parent : ℤ) (child : Pid) (executable : List UInt8) (thread : Bool)
  | fork (p child : Pid) (thread : Bool)
  | reserve (p : Pid) (pathname : List UInt8)
  | answer (p : Pid) (fileid : ℤ)
  | add (p : Pid)
  | loaded (p : Pid)
  | remove (p : Pid) (file : ℤ)
  | close (p : Pid)
  | check (p : Pid) (file : ℤ)
  | verify (p : Pid)
  | move (p : Pid) (seekPosition : ℤ)
  | return (p : Pid)
  | finish (p : Pid) (retval : ℤ)
  | join (p child : Pid)

open FilesState in
/-- The steps. A new process has a thread unless the thread table is full. `vfs_open` takes a row,
and gives it back when the filesystem does not find the file; `process_start` panics then. The
calls that return at once with an error are left out. -/
inductive FilesStep {φ : Type} : FilesState φ → FilesAction → FilesState φ → Prop where
  | spawn {s : FilesState φ} {parent : ℤ} {child executable thread}
      (hparent : parent = -1 ∨ ∃ p : Pid, parent = (p : ℕ) ∧ s.pc p = .user)
      (halloc : freeProcess s.table = some child) :
      FilesStep s (.spawn parent child executable thread)
        ((s.setPcb child { s.table child with
            state := .running, parent, executable := executable.take (processMaxFilelength - 1) }).setPc
          child (if thread then .starting else .gone))
  | fork {s : FilesState φ} {p child thread} (hpc : s.pc p = .user)
      (halloc : freeProcess s.table = some child) :
      FilesStep s (.fork p child thread)
        { (s.setPcb child { s.table child with
            state := .running, parent := (p : ℕ), executable := (s.table p).executable
            heapEnd := (s.table p).heapEnd, files := (s.table p).files }).setPc
          child (if thread then .user else .gone) with ids := Function.update s.ids child (s.ids p) }
  | reserve {s : FilesState φ} {p pathname volume filename row fs vfs}
      (hpc : s.pc p = .user ∨ s.pc p = .starting ∧ pathname = (s.table p).executable)
      (hpath : vfsParsePathname pathname = .ok (volume, filename))
      (hreserve : reserveFile s.vfs volume = .ok (row, fs, vfs)) :
      FilesStep s (.reserve p pathname)
        ((s.takeRow row vfs).setPc p (.opening row s.opens (s.pc p = .starting)))
  | openFailed {s : FilesState φ} {p row id fileid} (hpc : s.pc p = .opening row id false)
      (hfailed : fileid < 0) :
      FilesStep s (.answer p fileid)
        (({ s with vfs := releaseFile s.vfs row } : FilesState φ).setPc p .user)
  | openDone {s : FilesState φ} {p row id loader fileid} (hpc : s.pc p = .opening row id loader)
      (hdone : 0 ≤ fileid) :
      FilesStep s (.answer p fileid)
        (({ s with vfs := fillFile s.vfs row fileid } : FilesState φ).setPc p
          (if loader then .loading row else .opened row id))
  | add {s : FilesState φ} {p row id} (hpc : s.pc p = .opened row id) :
      FilesStep s (.add p) ((s.addHandle p row id).setPc p .user)
  | loaded {s : FilesState φ} {p row} (hpc : s.pc p = .loading row) :
      FilesStep s (.loaded p) (s.setPc p .user)
  | remove {s : FilesState φ} {p file} (hpc : s.pc p = .user)
      (hopen : processHasOpenFile (s.table p).files file = true) :
      FilesStep s (.remove p file)
        ((s.setFiles p (processRemoveFile (s.table p).files file)).setPc p (.closing file))
  | close {s : FilesState φ} {p file row fs} (hpc : s.pc p = .closing file)
      (hopen : vfsVerifyOpen s.vfs file = some (row, fs)) :
      FilesStep s (.close p) (({ s with vfs := releaseFile s.vfs row } : FilesState φ).setPc p .user)
  | closeFailed {s : FilesState φ} {p file} (hpc : s.pc p = .closing file)
      (hopen : vfsVerifyOpen s.vfs file = none) :
      FilesStep s (.close p) (s.setPc p .user)
  | check {s : FilesState φ} {p file} (hpc : s.pc p = .user)
      (hopen : processHasOpenFile (s.table p).files file = true) :
      FilesStep s (.check p file) (s.setPc p (.acting file))
  | verify {s : FilesState φ} {p file row fs} (hpc : s.pc p = .acting file)
      (hopen : vfsVerifyOpen s.vfs file = some (row, fs)) :
      FilesStep s (.verify p) (s.setPc p (.verified row))
  | verifyFailed {s : FilesState φ} {p file} (hpc : s.pc p = .acting file)
      (hopen : vfsVerifyOpen s.vfs file = none) :
      FilesStep s (.verify p) (s.setPc p .user)
  | move {s : FilesState φ} {p row seekPosition} (hpc : s.pc p = .verified row) :
      FilesStep s (.move p seekPosition)
        { s with vfs := s.vfs.setFile row { s.vfs.files row with seekPosition } }
  | return {s : FilesState φ} {p row} (hpc : s.pc p = .verified row) :
      FilesStep s (.return p) (s.setPc p .user)
  | finish {s : FilesState φ} {p retval} (hpc : s.pc p = .user) :
      FilesStep s (.finish p retval)
        { s.setPc p .gone with
          table := processOrphan (Function.update s.table p
            { s.table p with retval, state := .zombie }) (p : ℕ) }
  | join {s : FilesState φ} {p child : Pid} (hpc : s.pc p = .user)
      (hparent : (s.table child).parent = (p : ℕ)) (hzombie : (s.table child).state = .zombie) :
      FilesStep s (.join p child) (s.setPcb child { heapEnd := (s.table child).heapEnd })

/-- The runs of steps that meet a condition. -/
def FilesRun {φ : Type} (C : FilesState φ → FilesAction → Prop) :
    FilesState φ → FilesState φ → Prop :=
  Relation.ReflTransGen fun s s' => ∃ a, FilesStep s a s' ∧ C s a

/-- No file is open. Any processes may run; the slots of the others are as `process_reset` left
them. -/
structure NoFiles {φ : Type} (s : FilesState φ) : Prop where
  unused : ∀ row, ¬ s.InUse row
  pc     : ∀ p, s.pc p = .gone ∨ s.pc p = .user ∧ (s.table p).state = .running
  empty  : ∀ p i, (s.table p).files i = -1

/-- The state after the boot, with one filesystem that is mounted as `a`. -/
def FilesState.boot : FilesState Unit where
  table _  := {}
  vfs      := {
    filesystems := fun row => if row = 0 then ⟨some (), ['a'.toUInt8]⟩ else ⟨none, []⟩
    files       := fun _ => ⟨none, 0, 0⟩
    ops         := 0
    usable      := true }
  pc _     := .gone
  opens    := 0
  opener _ := 0
  ids _ _  := 0

lemma FilesState.boot_noFiles : NoFiles boot where
  unused _  := by simp [boot, InUse]
  pc _      := .inl rfl
  empty _ _ := rfl

/-- The name of a file on this filesystem. -/
def bootPath (c : Char) : List UInt8 := ['['.toUInt8, 'a'.toUInt8, ']'.toUInt8, c.toUInt8]

/-! ### Slots and rows -/

section Lemmas

variable {φ : Type} {s s' : FilesState φ} {files : Files} {file : ℤ} {row : ℕ} {p q : Pid}
  {i j : Fin configMaxOpenFiles}

lemma slotOf_some (h : slotOf files file = some i) : files i = file := by
  have hfile := List.find?_some h
  exact of_decide_eq_true hfile

lemma freeSlot_some (h : freeSlot files = some i) : files i = -1 := slotOf_some h

lemma find?_finRange_isSome {n : ℕ} {f : Fin n → Bool} :
    ((List.finRange n).find? f).isSome = true ↔ ∃ i, f i = true := by
  rw [List.find?_isSome]
  simp

lemma slotOf_isSome_iff : (slotOf files file).isSome = true ↔ ∃ i, files i = file := by
  rw [slotOf]
  rw [find?_finRange_isSome]
  simp only [decide_eq_true_eq]

lemma processHasOpenFile_iff : processHasOpenFile files file = true ↔ ∃ i, files i = file :=
  slotOf_isSome_iff

lemma freeSlot_none (h : freeSlot files = none) (i : Fin configMaxOpenFiles) : files i ≠ -1 := by
  intro hi
  have hsome : (slotOf files (-1)).isSome = true := slotOf_isSome_iff.mpr ⟨i, hi⟩
  rw [show slotOf files (-1) = none from h] at hsome
  cases hsome

lemma freeProcess_some {table : Pid → Pcb} (h : freeProcess table = some p) :
    (table p).state = .free := by
  have hfree := List.find?_some h
  exact of_decide_eq_true hfree

lemma processAddFile_some (h : freeSlot files = some i) :
    processAddFile files file = Function.update files i file := by
  unfold processAddFile
  generalize freeSlot files = slot at h
  rw [h]

lemma processAddFile_none (h : freeSlot files = none) : processAddFile files file = files := by
  unfold processAddFile
  generalize freeSlot files = slot at h
  rw [h]

lemma processRemoveFile_some (h : slotOf files file = some i) :
    processRemoveFile files file = Function.update files i (-1) := by
  unfold processRemoveFile
  generalize slotOf files file = slot at h
  rw [h]

lemma processRemoveFile_none (h : slotOf files file = none) :
    processRemoveFile files file = files := by
  unfold processRemoveFile
  generalize slotOf files file = slot at h
  rw [h]

lemma processRemoveFile_slot (files : Files) (file : ℤ) (i : Fin configMaxOpenFiles) :
    processRemoveFile files file i = -1 ∨ processRemoveFile files file i = files i := by
  cases h : slotOf files file with
  | none =>
    rw [processRemoveFile_none h]
    exact .inr rfl
  | some j =>
    rw [processRemoveFile_some h]
    by_cases hij : i = j
    · subst hij
      exact .inl (Function.update_self ..)
    · exact .inr (Function.update_of_ne hij _ _)

/-- The row that `vfs_open` takes was free, and it is in use afterwards. -/
lemma reserveFile_spec {vfs vfs' : VfsState φ} {volume : List UInt8} {fs : φ}
    (h : reserveFile vfs volume = .ok (row, fs, vfs')) :
    row < Fs.configMaxOpenFiles ∧ (vfs.files row).filesystem = none ∧
      (vfs'.files row).filesystem ≠ none ∧
      ∀ r ≠ row, (vfs'.files r).filesystem = (vfs.files r).filesystem := by
  obtain ⟨hfree, rfl⟩ := Fs.reserveFile_ok h
  have hfile := List.find?_some hfree
  have hlt := List.mem_range.mp (List.mem_of_find?_eq_some hfree)
  refine ⟨hlt, of_decide_eq_true hfile, ?_, ?_⟩
  · simp [VfsState.setFile]
  · intro r hr
    simp [VfsState.setFile, hr]

/-- How `vfs_open` takes a row that is the first free one. -/
lemma FilesStep.reserve_first {pathname volume filename : List UInt8} {fs : φ}
    (hpc : s.pc p = .user ∨ s.pc p = .starting ∧ pathname = (s.table p).executable)
    (hpath : vfsParsePathname pathname = .ok (volume, filename))
    (hfree : s.vfs.freeFile = some row) (hfs : Fs.vfsGetFilesystem s.vfs volume = some fs) :
    FilesStep s (.reserve p pathname)
      ((s.takeRow row (s.vfs.setFile row { s.vfs.files row with filesystem := some fs })).setPc p
        (.opening row s.opens (s.pc p = .starting))) := by
  apply FilesStep.reserve hpc hpath
  unfold reserveFile
  rw [hfree, hfs]

lemma releaseFile_self (vfs : VfsState φ) (row : ℕ) :
    ((releaseFile vfs row).files row).filesystem = none := by
  simp [releaseFile, VfsState.setFile]

lemma releaseFile_ne (vfs : VfsState φ) {row r : ℕ} (h : r ≠ row) :
    ((releaseFile vfs row).files r).filesystem = (vfs.files r).filesystem := by
  simp [releaseFile, VfsState.setFile, h]

lemma vfsVerifyOpen_none {vfs : VfsState φ} (h : vfsVerifyOpen vfs file = none)
    (hfile : file = row) (hlt : row < Fs.configMaxOpenFiles) : (vfs.files row).filesystem = none := by
  subst hfile
  rw [vfsVerifyOpen] at h
  rw [if_neg (by omega)] at h
  simpa using h

lemma processOrphan_same (table : Pid → Pcb) (pid : ℤ) (q : Pid) :
    (processOrphan table pid q).state = (table q).state ∧
      (processOrphan table pid q).files = (table q).files := by
  rw [processOrphan]
  split_ifs
  · exact ⟨rfl, rfl⟩
  · exact ⟨rfl, rfl⟩

lemma fillFile_filesystem (vfs : VfsState φ) (row : ℕ) (fileid : ℤ) (r : ℕ) :
    ((fillFile vfs row fileid).files r).filesystem = (vfs.files r).filesystem := by
  by_cases h : r = row
  · simp [fillFile, VfsState.setFile, h]
  · simp [fillFile, VfsState.setFile, h]

lemma setSeek_filesystem (vfs : VfsState φ) (row : ℕ) (seekPosition : ℤ) (r : ℕ) :
    ((vfs.setFile row { vfs.files row with seekPosition }).files r).filesystem =
      (vfs.files r).filesystem := by
  by_cases h : r = row
  · simp [VfsState.setFile, h]
  · simp [VfsState.setFile, h]

end Lemmas

end Osm.Proc
