import Osm.Fs.VfsOps
import Mathlib.Logic.Relation

/-!
# Concurrent calls of the virtual filesystem

The operations of `fs/vfs.c` on files and volumes, run by any number of threads. A step goes from
one use of `vfs_table.sem` or `openfile_table.sem` to the next, or to the call of a function of the
filesystem driver or back from it; the two semaphores are passed only when no thread has taken
them. The counter of the operations, on which only `vfs_deinit` waits, is left out.

For every row of the table of open files the number of its latest opening is kept, from `1` on, and
the log has the bytes that the calls of `vfs_read` have delivered.
-/

namespace Osm.Fs

variable {φ τ : Type}

/-- Where a thread is: outside, in an operation in front of its first semaphore, in `vfs_open` with
`vfs_table.sem` taken, in the `open` of the driver for a row, behind it when it has failed, in the
`read` or `write` of the driver with what has been read from a row, behind it, in the `close` of
the driver, in its `create`, `remove` or `getfree`, or in `vfs_unmount` with one semaphore taken and
in the `unmount` of the driver. -/
inductive VfsPc (φ : Type) where
  | idle
  | called (call : VfsCall φ)
  | volumeFound (volume filename : List UInt8)
  | opening (row : ℕ) (fs : φ) (filename : List UInt8)
  | failed (row : ℕ)
  | reading (row number : ℕ) (fs : φ) (fileid size seekPosition : ℤ)
  | writing (row : ℕ) (fs : φ) (fileid size seekPosition : ℤ)
  | advancing (row number : ℕ) (ret : ℤ)
  | closing (row : ℕ) (fs : φ)
  | onVolume (request : FsCall φ) (fs : φ)
  | mounted (row : ℕ) (fs : φ)
  | unmounting (row : ℕ) (fs : φ)

namespace VfsPc

/-- The thread has taken `vfs_table.sem`. -/
def HasTable : VfsPc φ → Prop
  | volumeFound _ _ | onVolume _ _ | mounted _ _ | unmounting _ _ => True
  | _ => False

/-- The thread has taken `openfile_table.sem`. -/
def HasFiles : VfsPc φ → Prop
  | closing _ _ | unmounting _ _ => True
  | _ => False

/-- The thread is in a function of a filesystem driver other than `unmount`, or about to call
it. -/
def InDriver (fs : φ) : VfsPc φ → Prop
  | opening _ fs' _ | reading _ _ fs' _ _ _ | writing _ fs' _ _ _ | closing _ fs' |
    onVolume _ fs' => fs' = fs
  | _ => False

/-- The thread is in `vfs_open` with a row that it has reserved. -/
def Opens (row : ℕ) : VfsPc φ → Prop
  | opening row' _ _ | failed row' => row' = row
  | _ => False

/-- The thread is in `vfs_read` with the position of a row, or has to move it. -/
def Reads (row : ℕ) : VfsPc φ → Prop
  | reading row' _ _ _ _ _ | advancing row' _ _ => row' = row
  | _ => False

/-- The thread is in the `open`, `read` or `write` of a driver for a row, without a semaphore. -/
def Uses (row : ℕ) : VfsPc φ → Prop
  | opening row' _ _ | reading row' _ _ _ _ _ | writing row' _ _ _ _ => row' = row
  | _ => False

end VfsPc

/-- The tables, the threads that have taken the two semaphores, the threads, the number of the
latest opening of every row, and the bytes delivered: the opening, the offset and the length. -/
structure VfsMachine (τ φ : Type) where
  vfs      : VfsState φ
  table    : Option τ
  files    : Option τ
  pc       : τ → VfsPc φ
  opening  : ℕ → ℕ
  openings : ℕ
  log      : List (ℕ × ℤ × ℤ)

/-- The actions of a thread. -/
inductive VfsAction (φ : Type) where
  | call (call : VfsCall φ)
  | return
  | lockTable
  | reserve (row : ℕ)
  | fill (row : ℕ)
  | fail
  | release (row : ℕ)
  | begin (row : ℕ)
  | deliver (row : ℕ) (ret : ℤ)
  | advance (row : ℕ) (ret : ℤ)
  | close (row : ℕ)
  | unmount (row : ℕ)

namespace VfsMachine

variable [DecidableEq τ]

def setPc (M : VfsMachine τ φ) (t : τ) (pc : VfsPc φ) : VfsMachine τ φ :=
  { M with pc := Function.update M.pc t pc }

lemma setPc_self (M : VfsMachine τ φ) (t : τ) (pc : VfsPc φ) : (M.setPc t pc).pc t = pc :=
  Function.update_self ..

lemma setPc_of_ne (M : VfsMachine τ φ) {t u : τ} (h : u ≠ t) (pc : VfsPc φ) :
    (M.setPc t pc).pc u = M.pc u :=
  Function.update_of_ne h ..

end VfsMachine

/-- The operations that the steps are about. -/
def VfsCall.OnFiles : VfsCall φ → Prop
  | .mount _ _ | .seek _ _ | .tell _ => False
  | _ => True

/-- The file name, if any, that a path name is parsed for at the beginning of an operation. -/
def VfsCall.path : VfsCall φ → Option (List UInt8)
  | .open pathname | .create pathname _ | .remove pathname => some pathname
  | _ => none

/-- The volume of an operation that takes `vfs_table.sem` only, and what it asks of the driver. -/
def VfsCall.onVolume : VfsCall φ → Option (List UInt8 × (φ → FsCall φ))
  | .create pathname size =>
    match vfsParsePathname pathname with
    | .ok (volume, filename) => some (volume, fun fs => .create fs filename size)
    | .error _               => none
  | .remove pathname =>
    match vfsParsePathname pathname with
    | .ok (volume, filename) => some (volume, fun fs => .remove fs filename)
    | .error _               => none
  | .getfree filesystem => some (filesystem, .getfree)
  | _ => none

/-- The open file of an operation. -/
def VfsCall.file : VfsCall φ → Option ℤ
  | .close file | .read file _ _ | .write file _ _ => some file
  | _ => none

open VfsMachine in
/-- The steps. The operations that find wrong parameters before they start are left out. -/
inductive VfsStep [DecidableEq τ] :
    VfsMachine τ φ → τ → VfsAction φ → VfsMachine τ φ → Prop where
  | call {M : VfsMachine τ φ} {t call} (hpc : M.pc t = .idle) (hcall : call.OnFiles) :
      VfsStep M t (.call call) (M.setPc t (.called call))
  | badPath {M : VfsMachine τ φ} {t call pathname ret} (hpc : M.pc t = .called call)
      (hcall : call.path = some pathname) (hpath : vfsParsePathname pathname = .error ret) :
      VfsStep M t .return (M.setPc t .idle)
  | openTable {M : VfsMachine τ φ} {t pathname volume filename}
      (hpc : M.pc t = .called (.open pathname))
      (hpath : vfsParsePathname pathname = .ok (volume, filename)) (htable : M.table = none) :
      VfsStep M t .lockTable
        { M.setPc t (.volumeFound volume filename) with table := some t }
  | notReserved {M : VfsMachine τ φ} {t volume filename ret}
      (hpc : M.pc t = .volumeFound volume filename) (hfiles : M.files = none)
      (hreserve : reserveFile M.vfs volume = .error ret) :
      VfsStep M t .return { M.setPc t .idle with table := none }
  | reserve {M : VfsMachine τ φ} {t volume filename row fs vfs}
      (hpc : M.pc t = .volumeFound volume filename) (hfiles : M.files = none)
      (hreserve : reserveFile M.vfs volume = .ok (row, fs, vfs)) :
      VfsStep M t (.reserve row)
        { M.setPc t (.opening row fs filename) with
          vfs, table := none, opening := Function.update M.opening row M.openings
          openings := M.openings + 1 }
  | fill {M : VfsMachine τ φ} {t row fs filename fileid}
      (hpc : M.pc t = .opening row fs filename) (hret : 0 ≤ fileid) :
      VfsStep M t (.fill row) { M.setPc t .idle with vfs := fillFile M.vfs row fileid }
  | fail {M : VfsMachine τ φ} {t row fs filename} (hpc : M.pc t = .opening row fs filename) :
      VfsStep M t .fail (M.setPc t (.failed row))
  | release {M : VfsMachine τ φ} {t row} (hpc : M.pc t = .failed row) (hfiles : M.files = none) :
      VfsStep M t (.release row) { M.setPc t .idle with vfs := releaseFile M.vfs row }
  | notOpen {M : VfsMachine τ φ} {t call file} (hpc : M.pc t = .called call)
      (hcall : call.file = some file) (hfiles : M.files = none)
      (hopen : vfsVerifyOpen M.vfs file = none) :
      VfsStep M t .return (M.setPc t .idle)
  | read {M : VfsMachine τ φ} {t file buffer bufsize row fs}
      (hpc : M.pc t = .called (.read file buffer bufsize)) (hfiles : M.files = none)
      (hopen : vfsVerifyOpen M.vfs file = some (row, fs)) :
      VfsStep M t (.begin row) (M.setPc t (.reading row (M.opening row) fs
        (M.vfs.files row).fileid bufsize (M.vfs.files row).seekPosition))
  | write {M : VfsMachine τ φ} {t file buffer datasize row fs}
      (hpc : M.pc t = .called (.write file buffer datasize)) (hfiles : M.files = none)
      (hopen : vfsVerifyOpen M.vfs file = some (row, fs)) :
      VfsStep M t (.begin row) (M.setPc t (.writing row fs (M.vfs.files row).fileid datasize
        (M.vfs.files row).seekPosition))
  | readNothing {M : VfsMachine τ φ} {t row number fs fileid size seekPosition ret}
      (hpc : M.pc t = .reading row number fs fileid size seekPosition) (hret : ret ≤ 0) :
      VfsStep M t (.deliver row ret) (M.setPc t .idle)
  | deliver {M : VfsMachine τ φ} {t row number fs fileid size seekPosition ret}
      (hpc : M.pc t = .reading row number fs fileid size seekPosition) (hret : 0 < ret) :
      VfsStep M t (.deliver row ret)
        { M.setPc t (.advancing row number ret) with log := M.log ++ [(number, seekPosition, ret)] }
  | wroteNothing {M : VfsMachine τ φ} {t row fs fileid size seekPosition ret}
      (hpc : M.pc t = .writing row fs fileid size seekPosition) (hret : ret ≤ 0) :
      VfsStep M t .return (M.setPc t .idle)
  | wrote {M : VfsMachine τ φ} {t row fs fileid size seekPosition ret}
      (hpc : M.pc t = .writing row fs fileid size seekPosition) (hret : 0 < ret) :
      VfsStep M t .return (M.setPc t (.advancing row (M.opening row) ret))
  | advance {M : VfsMachine τ φ} {t row number ret} (hpc : M.pc t = .advancing row number ret)
      (hfiles : M.files = none) :
      VfsStep M t (.advance row ret) { M.setPc t .idle with vfs := advanceFile M.vfs row ret }
  | close {M : VfsMachine τ φ} {t file row fs} (hpc : M.pc t = .called (.close file))
      (hfiles : M.files = none) (hopen : vfsVerifyOpen M.vfs file = some (row, fs)) :
      VfsStep M t (.close row) { M.setPc t (.closing row fs) with files := some t }
  | closed {M : VfsMachine τ φ} {t row fs} (hpc : M.pc t = .closing row fs) :
      VfsStep M t (.release row)
        { M.setPc t .idle with vfs := releaseFile M.vfs row, files := none }
  | noVolume {M : VfsMachine τ φ} {t call volume request} (hpc : M.pc t = .called call)
      (hcall : call.onVolume = some (volume, request)) (htable : M.table = none)
      (hfs : vfsGetFilesystem M.vfs volume = none) :
      VfsStep M t .return (M.setPc t .idle)
  | onVolume {M : VfsMachine τ φ} {t call volume request fs} (hpc : M.pc t = .called call)
      (hcall : call.onVolume = some (volume, request)) (htable : M.table = none)
      (hfs : vfsGetFilesystem M.vfs volume = some fs) :
      VfsStep M t .lockTable { M.setPc t (.onVolume (request fs) fs) with table := some t }
  | volumeDone {M : VfsMachine τ φ} {t request fs} (hpc : M.pc t = .onVolume request fs) :
      VfsStep M t .return { M.setPc t .idle with table := none }
  | notFound {M : VfsMachine τ φ} {t name} (hpc : M.pc t = .called (.unmount name))
      (htable : M.table = none) (hfs : vfsGetFilesystem M.vfs name = none) :
      VfsStep M t .return (M.setPc t .idle)
  | unmountTable {M : VfsMachine τ φ} {t name row fs} (hpc : M.pc t = .called (.unmount name))
      (htable : M.table = none) (hrow : M.vfs.entryNamed name = some row)
      (hfs : (M.vfs.filesystems row).filesystem = some fs) :
      VfsStep M t .lockTable { M.setPc t (.mounted row fs) with table := some t }
  | inUse {M : VfsMachine τ φ} {t row fs} (hpc : M.pc t = .mounted row fs)
      (hfiles : M.files = none)
      (hopen : ∃ file < configMaxOpenFiles, (M.vfs.files file).filesystem = some fs) :
      VfsStep M t .return { M.setPc t .idle with table := none }
  | unmount {M : VfsMachine τ φ} {t row fs} (hpc : M.pc t = .mounted row fs)
      (hfiles : M.files = none)
      (hopen : ¬ ∃ file < configMaxOpenFiles, (M.vfs.files file).filesystem = some fs) :
      VfsStep M t (.unmount row) { M.setPc t (.unmounting row fs) with files := some t }
  | unmounted {M : VfsMachine τ φ} {t row fs} (hpc : M.pc t = .unmounting row fs) :
      VfsStep M t .return
        { M.setPc t .idle with
          vfs := M.vfs.setEntry row { M.vfs.filesystems row with filesystem := none }
          table := none, files := none }

/-- The runs whose steps meet a condition. -/
def VfsRun [DecidableEq τ] (C : VfsMachine τ φ → τ → VfsAction φ → Prop) :
    VfsMachine τ φ → VfsMachine τ φ → Prop :=
  Relation.ReflTransGen fun M M' => ∃ t a, VfsStep M t a M' ∧ C M t a

/-- Any filesystems are mounted, each one once, no file is open and no operation in progress. -/
structure VfsMachine.Start (M : VfsMachine τ φ) : Prop where
  distinct : ∀ i j fs, (M.vfs.filesystems i).filesystem = some fs →
    (M.vfs.filesystems j).filesystem = some fs → i = j
  closed   : ∀ file, (M.vfs.files file).filesystem = none
  table    : M.table = none
  files    : M.files = none
  idle     : ∀ t, M.pc t = .idle
  opening  : ∀ row, M.opening row = 0
  openings : M.openings = 1
  log      : M.log = []

/-! ### A volume with an open file -/

/-- A filesystem is mounted as `a`, and two threads are outside. -/
def oneVolume : VfsMachine Bool ℕ where
  vfs      := ⟨fun row => if row = 0 then ⟨some 5, ['a'.toUInt8]⟩ else ⟨none, []⟩,
    fun _ => ⟨none, 0, 0⟩, 0, true⟩
  table    := none
  files    := none
  pc _     := .idle
  opening _ := 0
  openings := 1
  log      := []

lemma oneVolume_start : oneVolume.Start where
  distinct i j fs hi hj := by
    have hrow : ∀ k, (oneVolume.vfs.filesystems k).filesystem = some fs → k = 0 := by
      intro k hk
      by_contra hne
      simp [oneVolume, hne] at hk
    rw [hrow i hi, hrow j hj]
  closed _ := rfl
  table := rfl
  files := rfl
  idle _ := rfl
  opening _ := rfl
  openings := rfl
  log := rfl

/-- A file of the volume is open in the first row. -/
def openedFile : VfsMachine Bool ℕ :=
  { oneVolume with
    vfs      := oneVolume.vfs.setFile 0 ⟨some 5, 7, 0⟩
    opening  := Function.update (fun _ => 0) 0 1
    openings := 2 }

/-- The path of a file on the volume `a`. -/
def oneVolumePath : List UInt8 := ['['.toUInt8, 'a'.toUInt8, ']'.toUInt8, 'f'.toUInt8]

lemma reserveFile_oneVolume : reserveFile oneVolume.vfs ['a'.toUInt8] =
    .ok (0, 5, oneVolume.vfs.setFile 0 ⟨some 5, 0, 0⟩) := by
  have hfree : oneVolume.vfs.freeFile = some 0 := by decide +kernel
  have hfs : vfsGetFilesystem oneVolume.vfs ['a'.toUInt8] = some 5 := by decide
  unfold reserveFile
  rw [hfree, hfs]
  rfl

/-- A thread opens the file. -/
lemma openedFile_run {C : VfsMachine Bool ℕ → Bool → VfsAction ℕ → Prop}
    (hcall : ∀ M, C M false (.call (.open oneVolumePath))) (hlock : ∀ M, C M false .lockTable)
    (hreserve : ∀ M, (∀ u, ¬ (M.pc u).Reads 0) → C M false (.reserve 0))
    (hfill : ∀ M, C M false (.fill 0)) : VfsRun C oneVolume openedFile := by
  refine .head ⟨false, _, @VfsStep.call _ _ _ _ false (.open oneVolumePath) rfl trivial, hcall _⟩ ?_
  refine .head ⟨false, _, @VfsStep.openTable _ _ _ _ _ oneVolumePath ['a'.toUInt8] ['f'.toUInt8]
    rfl rfl rfl, hlock _⟩ ?_
  refine .head ⟨false, _, @VfsStep.reserve _ _ _ _ _ _ _ 0 5
    (oneVolume.vfs.setFile 0 ⟨some 5, 0, 0⟩) rfl rfl reserveFile_oneVolume,
    hreserve _ fun u => ?_⟩ ?_
  · cases u <;> exact id
  refine .head ⟨false, _, @VfsStep.fill _ _ _ _ _ 0 5 _ 7 rfl (by decide),
    hfill _⟩ ?_
  convert Relation.ReflTransGen.refl using 1
  simp only [openedFile, oneVolume, VfsMachine.setPc, fillFile, VfsState.setFile, Function.update_idem,
    Function.update_self, VfsMachine.mk.injEq, true_and, and_true]
  exact (Function.update_eq_self false (fun _ => VfsPc.idle)).symm

end Osm.Fs
