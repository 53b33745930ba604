import Osm.Fs.FailedRequests
import Osm.Fs.Vfs

/-!
# Open files of a volume

The functions of the virtual filesystem that open, close, create, remove and write files, called
in any order by any number of callers on the only volume that is mounted. A call of the trivial
filesystem holds the lock of the volume, so that it is one step; a call of the virtual filesystem
is divided where it waits for a semaphore. It is recorded which blocks belonged to a file when it
was opened.

An open file is the number of a block with an inode, and `tfs_remove` does not know about open
files.
-/

namespace Osm.Fs

open Osm.Core Osm.Lib

/-- What is recorded about a file when it is opened: its name, and the blocks that belong to it. -/
structure OpenRecord where
  name   : List UInt8
  blocks : List ℕ
  deriving DecidableEq

/-- Where a caller is. `vfs_open` has a row before, while and after `tfs_open` is called, and
`vfs_write` what it read from a row, and then the row to move the position in. -/
inductive CallPc where
  | idle
  | opening (row : ℕ) (filename : List UInt8)
  | failed (row : ℕ)
  | opened (row : ℕ) (fileid : ℤ) (record : OpenRecord)
  | writing (row : ℕ) (fileid seekPosition : ℤ) (record : OpenRecord)
  | written (row : ℕ) (ret : ℤ)
  deriving DecidableEq

namespace CallPc

/-- A `vfs_open` is in progress with a row. -/
def Holds : CallPc → ℕ → Prop
  | opening r _, row  => r = row
  | failed r, row     => r = row
  | opened r _ _, row => r = row
  | _, _              => False

/-- The file that a call has, and what was recorded about it. -/
def file : CallPc → Option (ℤ × OpenRecord)
  | opened _ fileid record    => some (fileid, record)
  | writing _ fileid _ record => some (fileid, record)
  | _                         => none

end CallPc

/-- The disk of the volume, the virtual filesystem and its callers, with what was recorded about the
files in the rows. -/
structure HandleState (τ : Type) where
  disk    : Disk
  vfs     : VfsState Unit
  pc      : τ → CallPc
  records : ℕ → OpenRecord

/-- A step of a caller, with the requests to the disk that succeed. -/
inductive HandleAction (τ : Type) where
  | reserve (t : τ) (pathname : List UInt8)
  | lookup (t : τ) (ok : ℕ → Bool)
  | release (t : τ)
  | fill (t : τ)
  | close (t : τ) (file : ℤ)
  | create (t : τ) (pathname : List UInt8) (size : ℤ) (ok : ℕ → Bool)
  | remove (t : τ) (pathname : List UInt8) (ok : ℕ → Bool)
  | seek (t : τ) (file seekPosition : ℤ)
  | begin (t : τ) (file : ℤ)
  | write (t : τ) (buffer : ℕ → UInt8) (datasize : ℕ) (bat : Block) (rest : ℕ → UInt32)
      (ok : ℕ → Bool)
  | advance (t : τ)

variable {τ : Type}

namespace HandleState

def setPc [DecidableEq τ] (s : HandleState τ) (t : τ) (pc : CallPc) : HandleState τ :=
  { s with pc := Function.update s.pc t pc }

lemma setPc_self [DecidableEq τ] (s : HandleState τ) (t : τ) (pc : CallPc) :
    (s.setPc t pc).pc t = pc :=
  Function.update_self ..

lemma setPc_of_ne [DecidableEq τ] (s : HandleState τ) {t u : τ} (h : u ≠ t) (pc : CallPc) :
    (s.setPc t pc).pc u = s.pc u :=
  Function.update_of_ne h ..

/-- A row of the table of open files is in use. -/
def InUse (s : HandleState τ) (row : ℕ) : Prop := (s.vfs.files row).filesystem ≠ none

/-- A file is open, or a call in progress has it. -/
def Refers (s : HandleState τ) (fileid : ℤ) : Prop :=
  (∃ row, s.InUse row ∧ (∀ t, ¬ (s.pc t).Holds row) ∧ (s.vfs.files row).fileid = fileid) ∨
    ∃ t record, (s.pc t).file = some (fileid, record)

end HandleState

/-- The blocks that belong to a file, given by its inode. -/
def inodeBlocks (D : Disk) (number : ℕ) : List ℕ := number :: dataBlocks (D number)

open HandleState in
/-- The steps. The calls that return at once with an error are left out. A row can be used by
`vfs_write` and `vfs_close` as soon as `vfs_open` has reserved it. -/
inductive HandleStep [DecidableEq τ] (totalblocks : ℕ) :
    HandleState τ → HandleAction τ → HandleState τ → Prop where
  | reserve {s : HandleState τ} {t pathname volume filename row vfs} (hpc : s.pc t = .idle)
      (hstring : 0 ∉ pathname) (hpath : vfsParsePathname pathname = .ok (volume, filename))
      (hreserve : reserveFile s.vfs volume = .ok (row, (), vfs)) :
      HandleStep totalblocks s (.reserve t pathname)
        (({ s with vfs } : HandleState τ).setPc t (.opening row filename))
  | notFound {s : HandleState τ} {t row filename ok} (hpc : s.pc t = .opening row filename)
      (hret : ((tfsOpen filename).run ok s.disk).1 < 0) :
      HandleStep totalblocks s (.lookup t ok) (s.setPc t (.failed row))
  | found {s : HandleState τ} {t row filename ok} (hpc : s.pc t = .opening row filename)
      (hret : 0 ≤ ((tfsOpen filename).run ok s.disk).1) :
      HandleStep totalblocks s (.lookup t ok) (s.setPc t (.opened row
        ((tfsOpen filename).run ok s.disk).1
        ⟨filename, inodeBlocks s.disk ((tfsOpen filename).run ok s.disk).1.toNat⟩))
  | release {s : HandleState τ} {t row} (hpc : s.pc t = .failed row) :
      HandleStep totalblocks s (.release t)
        (({ s with vfs := releaseFile s.vfs row } : HandleState τ).setPc t .idle)
  | fill {s : HandleState τ} {t row fileid record} (hpc : s.pc t = .opened row fileid record) :
      HandleStep totalblocks s (.fill t)
        (({ s with
            vfs     := fillFile s.vfs row fileid
            records := Function.update s.records row record } : HandleState τ).setPc t .idle)
  | close {s : HandleState τ} {t file row} (hpc : s.pc t = .idle)
      (hopen : vfsVerifyOpen s.vfs file = some (row, ())) :
      HandleStep totalblocks s (.close t file) { s with vfs := releaseFile s.vfs row }
  | create {s : HandleState τ} {t pathname size ok volume filename} (hpc : s.pc t = .idle)
      (hstring : 0 ∉ pathname) (hpath : vfsParsePathname pathname = .ok (volume, filename))
      (hfs : vfsGetFilesystem s.vfs volume = some ()) (hpos : 0 ≤ size) (hlt : size < 2 ^ 31) :
      HandleStep totalblocks s (.create t pathname size ok)
        { s with disk := ((tfsCreate totalblocks filename size).run ok s.disk).2 }
  | remove {s : HandleState τ} {t pathname ok volume filename} (hpc : s.pc t = .idle)
      (hstring : 0 ∉ pathname) (hpath : vfsParsePathname pathname = .ok (volume, filename))
      (hfs : vfsGetFilesystem s.vfs volume = some ()) :
      HandleStep totalblocks s (.remove t pathname ok)
        { s with disk := ((tfsRemove filename).run ok s.disk).2 }
  | seek {s : HandleState τ} {t file seekPosition row} (hpc : s.pc t = .idle)
      (hpos : 0 ≤ seekPosition) (hopen : vfsVerifyOpen s.vfs file = some (row, ())) :
      HandleStep totalblocks s (.seek t file seekPosition)
        { s with vfs := s.vfs.setFile row { s.vfs.files row with seekPosition } }
  | begin {s : HandleState τ} {t file row} (hpc : s.pc t = .idle)
      (hopen : vfsVerifyOpen s.vfs file = some (row, ())) :
      HandleStep totalblocks s (.begin t file)
        (s.setPc t (.writing row (s.vfs.files row).fileid (s.vfs.files row).seekPosition
          (s.records row)))
  | write {s : HandleState τ} {t row fileid seekPosition record buffer datasize bat rest ok}
      (hpc : s.pc t = .writing row fileid seekPosition record) :
      HandleStep totalblocks s (.write t buffer datasize bat rest ok)
        (({ s with
            disk := ((tfsWrite totalblocks bat rest fileid buffer datasize seekPosition).run ok
              s.disk).2 } : HandleState τ).setPc t (.written row
          ((tfsWrite totalblocks bat rest fileid buffer datasize seekPosition).run ok s.disk).1))
  | advance {s : HandleState τ} {t row ret} (hpc : s.pc t = .written row ret) :
      HandleStep totalblocks s (.advance t)
        (({ s with vfs := advanceFile s.vfs row ret } : HandleState τ).setPc t .idle)

namespace HandleState

/-- No file is removed that is open or that a call has. -/
def KeepsFiles (s : HandleState τ) : HandleAction τ → Prop
  | .remove _ pathname _ => ∀ volume filename i,
      vfsParsePathname pathname = .ok (volume, filename) → Listed s.disk i →
        fileName s.disk i = filename → ¬ s.Refers (inodeNumber s.disk i)
  | _                    => True

/-- `vfs_write` is not called for a row with which a `vfs_open` is in progress. -/
def WaitsForOpen (s : HandleState τ) : HandleAction τ → Prop
  | .begin _ file => ∀ t, ¬ (s.pc t).Holds file.toNat
  | _             => True

end HandleState

/-- The requests succeed that write the inode in `tfs_create` and the directory in `tfs_remove`. -/
def HandleAction.Completes : HandleAction τ → Prop
  | .create _ _ _ ok => ok 4 = true
  | .remove _ _ ok   => ok 4 = true
  | _                => True

/-- All three conditions on a step. -/
def HandleState.Careful (s : HandleState τ) (a : HandleAction τ) : Prop :=
  s.KeepsFiles a ∧ s.WaitsForOpen a ∧ a.Completes

/-- The runs whose steps meet a condition. -/
def HandleRun [DecidableEq τ] (totalblocks : ℕ) (C : HandleState τ → HandleAction τ → Prop) :
    HandleState τ → HandleState τ → Prop :=
  Relation.ReflTransGen fun s s' => ∃ a, HandleStep totalblocks s a s' ∧ C s a

/-- A volume in order, no files open and no calls in progress. -/
structure HandleState.Start (totalblocks : ℕ) (s : HandleState τ) : Prop where
  volume : AllocInv s.disk totalblocks
  unused : ∀ row, ¬ s.InUse row
  idle   : ∀ t, s.pc t = .idle

/-! ### Names -/

lemma parseVolume_suffix {n : ℕ} {pathname volume rest : List UInt8}
    (h : parseVolume n pathname = .ok (volume, rest)) : rest <:+ pathname := by
  induction n generalizing pathname volume with
  | zero => cases h
  | succ n ih =>
    cases pathname with
    | nil => cases h
    | cons c pathname =>
      rw [parseVolume] at h
      split_ifs at h
      · cases h
        exact List.suffix_cons c _
      · cases hrest : parseVolume n pathname with
        | error ret =>
          rw [hrest] at h
          cases h
        | ok names =>
          rw [hrest] at h
          cases h
          exact (ih hrest).trans (List.suffix_cons c _)

/-- The part of `vfs_parse_pathname` before the length of the file name is checked. -/
def splitPathname : List UInt8 → Except ℤ (List UInt8 × List UInt8)
  | c :: rest => if c = '['.toUInt8 then parseVolume (vfsNameLength - 1) rest
                 else .ok ([], c :: rest)
  | []        => .ok ([], [])

lemma vfsParsePathname_eq (pathname : List UInt8) :
    vfsParsePathname pathname = (splitPathname pathname).bind fun names =>
      if names.2.length = 0 ∨ names.2.length ≥ vfsNameLength then .error vfsInvalidParams
      else .ok names := by
  cases pathname with
  | nil => rfl
  | cons c rest =>
    rw [vfsParsePathname, splitPathname]
    by_cases hc : c = '['.toUInt8
    · simp only [if_pos hc]
      rfl
    · simp only [if_neg hc]
      rfl

lemma splitPathname_suffix {pathname volume filename : List UInt8}
    (h : splitPathname pathname = .ok (volume, filename)) : filename <:+ pathname := by
  cases pathname with
  | nil =>
    cases h
    exact List.suffix_rfl
  | cons c rest =>
    rw [splitPathname] at h
    split_ifs at h
    · exact (parseVolume_suffix h).trans (List.suffix_cons c rest)
    · cases h
      exact List.suffix_rfl

/-- The file names that `vfs_parse_pathname` accepts. -/
lemma validName_of_parse {pathname volume filename : List UInt8} (hstring : 0 ∉ pathname)
    (h : vfsParsePathname pathname = .ok (volume, filename)) : ValidName filename := by
  rw [vfsParsePathname_eq] at h
  cases hsplit : splitPathname pathname with
  | error ret =>
    rw [hsplit] at h
    cases h
  | ok names =>
    rw [hsplit, Except.bind] at h
    split_ifs at h with hlength
    cases h
    rw [not_or, not_le] at hlength
    have hsuffix := splitPathname_suffix hsplit
    exact ⟨fun hnil => hlength.1 (by rw [hnil]; rfl), fun hmem => hstring (hsuffix.subset hmem),
      hlength.2⟩

/-! ### The invariant -/

/-- A file on the disk has the given inode, and the name and the blocks that were recorded. -/
def OpenFile (D : Disk) (fileid : ℤ) (record : OpenRecord) : Prop :=
  ∃ i, Listed D i ∧ fileid = inodeNumber D i ∧ record = ⟨fileName D i, fileBlocks D i⟩

/-- The volume is in order, and the files that are open or that a call has are on it, with the
blocks that they had when they were opened. -/
structure HandleInv (totalblocks : ℕ) (s : HandleState τ) : Prop where
  sound : Sound s.disk totalblocks
  names : ∀ t row filename, s.pc t = .opening row filename → ValidName filename
  rows  : ∀ row, s.InUse row → (∀ t, ¬ (s.pc t).Holds row) →
    OpenFile s.disk (s.vfs.files row).fileid (s.records row)
  calls : ∀ t fileid record, (s.pc t).file = some (fileid, record) →
    OpenFile s.disk fileid record

variable {totalblocks : ℕ} {s s' : HandleState τ} {D : Disk}

lemma OpenFile.mono {fileid : ℤ} {record : OpenRecord} (h : OpenFile s.disk fileid record)
    (hsame : ∀ i, Listed s.disk i → fileid = inodeNumber s.disk i → SameInode s.disk D i) :
    OpenFile D fileid record := by
  obtain ⟨i, hlisted, hfileid, hrecord⟩ := h
  have hsame := hsame i hlisted hfileid
  refine ⟨i, hsame.listed_iff.mpr hlisted, ?_, ?_⟩
  · rw [hfileid, hsame.inodeNumber_eq]
  · rw [hrecord, hsame.name, hsame.fileBlocks_eq]

/-- A change of the disk that leaves the inodes of the files alone that are open. -/
lemma HandleInv.setDisk (hinv : HandleInv totalblocks s) (hsound : Sound D totalblocks)
    (hsame : ∀ i, Listed s.disk i → s.Refers (inodeNumber s.disk i) → SameInode s.disk D i) :
    HandleInv totalblocks { s with disk := D } where
  sound := hsound
  names := hinv.names
  rows row huse hholds := by
    apply (hinv.rows row huse hholds).mono
    intro i hlisted hfileid
    exact hsame i hlisted (.inl ⟨row, huse, hholds, hfileid⟩)
  calls t fileid record hfile := by
    apply (hinv.calls t fileid record hfile).mono
    intro i hlisted hfileid
    exact hsame i hlisted (.inr ⟨t, record, hfileid ▸ hfile⟩)

/-- A row keeps its file, or it is given back. -/
lemma HandleInv.setFile (hinv : HandleInv totalblocks s) {row : ℕ} {entry : OpenfileEntry Unit}
    (hentry : entry.filesystem ≠ none → (∀ t, ¬ (s.pc t).Holds row) →
      s.InUse row ∧ entry.fileid = (s.vfs.files row).fileid) :
    HandleInv totalblocks { s with vfs := s.vfs.setFile row entry } where
  sound := hinv.sound
  names := hinv.names
  calls := hinv.calls
  rows r huse hholds := by
    simp only [HandleState.InUse, VfsState.setFile] at huse ⊢
    by_cases hr : r = row
    · subst hr
      rw [Function.update_self] at huse ⊢
      obtain ⟨huse, hfileid⟩ := hentry huse hholds
      rw [hfileid]
      exact hinv.rows r huse hholds
    · rw [Function.update_of_ne hr] at huse ⊢
      exact hinv.rows r huse hholds

/-- Only blocks are changed that the file had when it was opened, and that no other file has. -/
def WritesOwn (record : OpenRecord) (D D' : Disk) : Prop :=
  ∀ b, D' b ≠ D b → b ∈ record.blocks ∧ 3 ≤ b ∧
    ∀ i, Listed D i → fileName D i ≠ record.name → b ∉ fileBlocks D i

/-- What `tfs_write` does to a file that is still there. -/
lemma OpenFile.write {fileid : ℤ} {record : OpenRecord} (h : OpenFile D fileid record)
    (hsound : Sound D totalblocks) (bat : Block) (rest : ℕ → UInt32) (buffer : ℕ → UInt8)
    (datasize : ℕ) (offset : ℤ) (ok : ℕ → Bool) {D' : Disk}
    (hD' : ((tfsWrite totalblocks bat rest fileid buffer datasize offset).run ok D).2 = D') :
    WritesOwn record D D' ∧ Sound D' totalblocks ∧ ∀ i, SameInode D D' i := by
  obtain ⟨i, hlisted, rfl, rfl⟩ := h
  have hframe := @tfsWrite_effect _ _ ok _ hsound hlisted bat rest buffer datasize offset
  rw [hD'] at hframe
  obtain ⟨hbat, hmd, hsame⟩ := hsound.write_sameInode hlisted hframe
  refine ⟨?_, Sound.congr hsound hsame hmd hbat, hsame⟩
  intro b hb
  have hmem : b ∈ fileBlocks D i := by
    rw [fileBlocks_listed hlisted]
    apply List.mem_cons_of_mem
    by_contra hdata
    exact hb (hframe b hdata)
  refine ⟨hmem, ((hsound.file i trivial).range b hmem).1, ?_⟩
  intro j _ hname hother
  apply hsound.disjoint i j trivial trivial _ hmem hother
  rintro rfl
  exact hname rfl

/-! ### The steps -/

namespace HandleInv

section Disk

variable {ok : ℕ → Bool} (hinv : HandleInv totalblocks s)

include hinv

lemma close (row : ℕ) : HandleInv totalblocks { s with vfs := releaseFile s.vfs row } := by
  apply hinv.setFile
  intro huse
  exact absurd rfl huse

lemma create {filename : List UInt8} {size : ℤ} (htotal : totalblocks ≤ 2 ^ 32)
    (hname : ValidName filename) (hpos : 0 ≤ size) (hlt : size < 2 ^ 31) (hok : ok 4 = true) :
    HandleInv totalblocks
      { s with disk := ((tfsCreate totalblocks filename size).run ok s.disk).2 } := by
  have heffect := @tfsCreate_effect _ _ _ ok _ hname hpos hlt htotal hinv.sound
  apply hinv.setDisk ((heffect.survives hinv.sound hname htotal).2 hok)
  intro i hlisted _
  exact (heffect.sameFile hinv.sound hlisted).sameInode

lemma remove {filename : List UInt8} (hname : ValidName filename) (hok : ok 4 = true)
    (hunused : ∀ i, Listed s.disk i → fileName s.disk i = filename →
      ¬ s.Refers (inodeNumber s.disk i)) :
    HandleInv totalblocks { s with disk := ((tfsRemove filename).run ok s.disk).2 } := by
  have heffect := @tfsRemove_effect _ _ _ ok hname hinv.sound
  obtain ⟨hsurvives, hsound⟩ := heffect.survives hinv.sound
  apply hinv.setDisk (hsound hok)
  intro i hlisted hrefers
  apply SameFile.sameInode
  apply hsurvives.sameFile i hlisted
  intro hself
  exact hunused i hlisted hself hrefers

lemma seek (row : ℕ) (seekPosition : ℤ) :
    HandleInv totalblocks
      { s with vfs := s.vfs.setFile row { s.vfs.files row with seekPosition } } := by
  apply hinv.setFile
  intro huse _
  exact ⟨huse, rfl⟩

end Disk

variable [DecidableEq τ]

/-- A caller goes on, and has a row no longer that is given back or has its file. -/
lemma setPc (hinv : HandleInv totalblocks s) {t : τ} {pc : CallPc}
    (hname : ∀ row filename, pc = .opening row filename → ValidName filename)
    (hrow : ∀ row, (s.pc t).Holds row → ¬ pc.Holds row → s.InUse row →
      OpenFile s.disk (s.vfs.files row).fileid (s.records row))
    (hfile : ∀ fileid record, pc.file = some (fileid, record) → OpenFile s.disk fileid record) :
    HandleInv totalblocks (s.setPc t pc) where
  sound := hinv.sound
  names u row filename hu := by
    by_cases hut : u = t
    · subst hut
      rw [HandleState.setPc_self] at hu
      exact hname row filename hu
    · rw [HandleState.setPc_of_ne s hut] at hu
      exact hinv.names u row filename hu
  rows row huse hholds := by
    have hself := hholds t
    rw [HandleState.setPc_self] at hself
    by_cases hold : (s.pc t).Holds row
    · exact hrow row hold hself huse
    · apply hinv.rows row huse
      intro u
      by_cases hut : u = t
      · rwa [hut]
      · have hother := hholds u
        rwa [HandleState.setPc_of_ne s hut] at hother
  calls u fileid record hu := by
    by_cases hut : u = t
    · subst hut
      rw [HandleState.setPc_self] at hu
      exact hfile fileid record hu
    · rw [HandleState.setPc_of_ne s hut] at hu
      exact hinv.calls u fileid record hu

section Callers

variable {t : τ} {row : ℕ} {ok : ℕ → Bool} (hinv : HandleInv totalblocks s)

include hinv

lemma reserve {pathname volume filename : List UInt8} {vfs : VfsState Unit}
    (hpc : s.pc t = .idle) (hstring : 0 ∉ pathname)
    (hpath : vfsParsePathname pathname = .ok (volume, filename))
    (hreserve : reserveFile s.vfs volume = .ok (row, (), vfs)) :
    HandleInv totalblocks (({ s with vfs } : HandleState τ).setPc t (.opening row filename)) := by
  have hopening : HandleInv totalblocks (s.setPc t (.opening row filename)) := by
    apply hinv.setPc
    · rintro _ _ ⟨⟩
      exact validName_of_parse hstring hpath
    · intro r hr
      rw [hpc] at hr
      cases hr
    · rintro _ _ ⟨⟩
  obtain ⟨-, rfl⟩ := reserveFile_ok hreserve
  apply hopening.setFile
  intro _ hholds
  exfalso
  apply hholds t
  rw [HandleState.setPc_self]
  rfl

lemma notFound {filename : List UInt8} (hpc : s.pc t = .opening row filename) :
    HandleInv totalblocks (s.setPc t (.failed row)) := by
  apply hinv.setPc
  · rintro _ _ ⟨⟩
  · intro r hr hfailed
    rw [hpc] at hr
    exact absurd hr hfailed
  · rintro _ _ ⟨⟩

/-- `tfs_open` returns the number of an inode, and what is recorded is read from there. -/
lemma found {filename : List UInt8} (htotal : totalblocks ≤ 2 ^ 31)
    (hpc : s.pc t = .opening row filename) (hret : 0 ≤ ((tfsOpen filename).run ok s.disk).1) :
    HandleInv totalblocks (s.setPc t (.opened row ((tfsOpen filename).run ok s.disk).1
      ⟨filename, inodeBlocks s.disk ((tfsOpen filename).run ok s.disk).1.toNat⟩)) := by
  apply hinv.setPc
  · rintro _ _ ⟨⟩
  · intro r hr hopened
    rw [hpc] at hr
    exact absurd hr hopened
  · rintro _ _ ⟨⟩
    have hends := (@tfsOpen_ends _ _ _ ok (hinv.names t row filename hpc) hinv.sound htotal).run
    obtain ⟨-, hneg | ⟨i, hlisted, hname, hnumber⟩⟩ := hends
    · exact absurd hret (not_le.mpr hneg)
    · refine ⟨i, hlisted, hnumber, ?_⟩
      rw [hnumber, Int.toNat_natCast, hname, fileBlocks_listed hlisted, inodeBlocks]

lemma release (hpc : s.pc t = .failed row) : HandleInv totalblocks
    (({ s with vfs := releaseFile s.vfs row } : HandleState τ).setPc t .idle) := by
  apply (hinv.close row).setPc
  · rintro _ _ ⟨⟩
  · intro r hr _ huse
    have hr : (s.pc t).Holds r := hr
    rw [hpc] at hr
    cases hr
    simp only [HandleState.InUse, releaseFile, VfsState.setFile, Function.update_self] at huse
    exact absurd rfl huse
  · rintro _ _ ⟨⟩

lemma fill {fileid : ℤ} {record : OpenRecord} (hpc : s.pc t = .opened row fileid record) :
    HandleInv totalblocks (({ s with
      vfs     := fillFile s.vfs row fileid
      records := Function.update s.records row record } : HandleState τ).setPc t .idle) := by
  have hopen : OpenFile s.disk fileid record := hinv.calls t fileid record (by rw [hpc]; rfl)
  have hfilled : HandleInv totalblocks ({ s with
      vfs     := fillFile s.vfs row fileid
      records := Function.update s.records row record } : HandleState τ) := by
    refine ⟨hinv.sound, hinv.names, ?_, hinv.calls⟩
    intro r huse hholds
    simp only [HandleState.InUse, fillFile, VfsState.setFile] at huse ⊢
    by_cases hr : r = row
    · subst hr
      rw [Function.update_self, Function.update_self]
      exact hopen
    · rw [Function.update_of_ne hr] at huse
      rw [Function.update_of_ne hr, Function.update_of_ne hr]
      exact hinv.rows r huse hholds
  apply hfilled.setPc
  · rintro _ _ ⟨⟩
  · intro r hr _ _
    have hr : (s.pc t).Holds r := hr
    rw [hpc] at hr
    cases hr
    simp only [fillFile, VfsState.setFile, Function.update_self]
    exact hopen
  · rintro _ _ ⟨⟩

lemma begin {file : ℤ} (hpc : s.pc t = .idle)
    (hopen : vfsVerifyOpen s.vfs file = some (row, ()))
    (hholds : ∀ t, ¬ (s.pc t).Holds file.toNat) :
    HandleInv totalblocks (s.setPc t (.writing row (s.vfs.files row).fileid
      (s.vfs.files row).seekPosition (s.records row))) := by
  obtain ⟨rfl, huse⟩ := vfsVerifyOpen_some hopen
  have huse : s.InUse row := by
    rw [HandleState.InUse, huse]
    exact Option.some_ne_none ()
  apply hinv.setPc
  · rintro _ _ ⟨⟩
  · intro r hr
    rw [hpc] at hr
    cases hr
  · rintro _ _ ⟨⟩
    exact hinv.rows row huse hholds

lemma write {fileid seekPosition : ℤ} {record : OpenRecord}
    (hpc : s.pc t = .writing row fileid seekPosition record) (bat : Block) (rest : ℕ → UInt32)
    (buffer : ℕ → UInt8) (datasize : ℕ) :
    HandleInv totalblocks (({ s with
      disk := ((tfsWrite totalblocks bat rest fileid buffer datasize seekPosition).run ok
        s.disk).2 } : HandleState τ).setPc t (.written row
      ((tfsWrite totalblocks bat rest fileid buffer datasize seekPosition).run ok s.disk).1)) := by
  have hopen : OpenFile s.disk fileid record := hinv.calls t fileid record (by rw [hpc]; rfl)
  obtain ⟨-, hsound, hsame⟩ := hopen.write hinv.sound bat rest buffer datasize seekPosition ok rfl
  apply (hinv.setDisk hsound fun i _ _ => hsame i).setPc
  · rintro _ _ ⟨⟩
  · intro r hr
    have hr : (s.pc t).Holds r := hr
    rw [hpc] at hr
    cases hr
  · rintro _ _ ⟨⟩

lemma advance {ret : ℤ} (hpc : s.pc t = .written row ret) : HandleInv totalblocks
    (({ s with vfs := advanceFile s.vfs row ret } : HandleState τ).setPc t .idle) := by
  have hadvanced : HandleInv totalblocks { s with vfs := advanceFile s.vfs row ret } := by
    rw [advanceFile]
    split_ifs
    · apply hinv.setFile
      intro huse _
      exact ⟨huse, rfl⟩
    · exact hinv
  apply hadvanced.setPc
  · rintro _ _ ⟨⟩
  · intro r hr
    have hr : (s.pc t).Holds r := hr
    rw [hpc] at hr
    cases hr
  · rintro _ _ ⟨⟩

end Callers

lemma step {a : HandleAction τ} (hinv : HandleInv totalblocks s) (htotal : totalblocks ≤ 2 ^ 31)
    (hstep : HandleStep totalblocks s a s') (hcareful : s.Careful a) :
    HandleInv totalblocks s' := by
  obtain ⟨hkeeps, hwaits, hcompletes⟩ := hcareful
  have hle : totalblocks ≤ 2 ^ 32 := le_trans htotal (by decide)
  cases hstep with
  | reserve hpc hstring hpath hreserve => exact hinv.reserve hpc hstring hpath hreserve
  | notFound hpc _ => exact hinv.notFound hpc
  | found hpc hret => exact hinv.found htotal hpc hret
  | release hpc => exact hinv.release hpc
  | fill hpc => exact hinv.fill hpc
  | close hpc hopen => exact hinv.close _
  | create hpc hstring hpath hfs hpos hlt =>
    exact hinv.create hle (validName_of_parse hstring hpath) hpos hlt hcompletes
  | remove hpc hstring hpath hfs =>
    exact hinv.remove (validName_of_parse hstring hpath) hcompletes fun i => hkeeps _ _ i hpath
  | seek hpc hpos hopen => exact hinv.seek _ _
  | begin hpc hopen => exact hinv.begin hpc hopen hwaits
  | write hpc => exact hinv.write hpc _ _ _ _
  | advance hpc => exact hinv.advance hpc

lemma run (hinv : HandleInv totalblocks s) (htotal : totalblocks ≤ 2 ^ 31)
    (hrun : HandleRun totalblocks HandleState.Careful s s') : HandleInv totalblocks s' := by
  induction hrun with
  | refl => exact hinv
  | tail _ hstep ih =>
    obtain ⟨a, hstep, hcareful⟩ := hstep
    exact ih.step htotal hstep hcareful

end HandleInv

lemma HandleState.Start.inv (h : s.Start totalblocks) : HandleInv totalblocks s where
  sound := h.volume.sound
  names t row filename hpc := by
    rw [h.idle t] at hpc
    cases hpc
  rows row huse := absurd huse (h.unused row)
  calls t fileid record hfile := by
    rw [h.idle t] at hfile
    cases hfile

/-- In every run on a volume in order, in which no file is removed that is open or that a call has,
no row is used for writing while it is being opened, and the inodes and the directory reach the
disk: `vfs_write` changes only blocks that the file had when it was opened and that no other file
has, none of them among the first three. -/
theorem write_in_opened_blocks [DecidableEq τ] {size : ℕ} {s₀ s s' : HandleState τ} {t : τ} {row datasize : ℕ}
    {fileid seekPosition : ℤ} {record : OpenRecord} {buffer : ℕ → UInt8} {bat : Block}
    {rest : ℕ → UInt32} {ok : ℕ → Bool} (hstart : s₀.Start (tfsTotalblocks size))
    (hrun : HandleRun (tfsTotalblocks size) HandleState.Careful s₀ s)
    (hpc : s.pc t = .writing row fileid seekPosition record)
    (hstep : HandleStep (tfsTotalblocks size) s (.write t buffer datasize bat rest ok) s') :
    WritesOwn record s.disk s'.disk := by
  have hinv := hstart.inv.run (tfsTotalblocks_le size) hrun
  cases hstep with
  | write hwriting =>
    rw [hpc] at hwriting
    cases hwriting
    have hopen : OpenFile s.disk fileid record := hinv.calls t fileid record (by rw [hpc]; rfl)
    exact (hopen.write hinv.sound bat rest buffer datasize seekPosition ok rfl).1


/-! ### Runs on a small volume -/

lemma HandleStep.reserve_first [DecidableEq τ] {t : τ} {pathname volume filename : List UInt8}
    {row : ℕ} (hpc : s.pc t = .idle) (hstring : 0 ∉ pathname)
    (hpath : vfsParsePathname pathname = .ok (volume, filename))
    (hfree : s.vfs.freeFile = some row) (hfs : vfsGetFilesystem s.vfs volume = some ()) :
    HandleStep totalblocks s (.reserve t pathname)
      (({ s with vfs := s.vfs.setFile row { s.vfs.files row with filesystem := some () } } :
        HandleState τ).setPc t (.opening row filename)) := by
  apply HandleStep.reserve hpc hstring hpath
  unfold reserveFile
  rw [hfree, hfs]

/-- The state after a file was opened in a row, with no other caller in between. -/
def HandleState.afterOpen (s : HandleState τ) (row : ℕ) (filename : List UInt8) : HandleState τ :=
  let fileid := ((tfsOpen filename).run (fun _ => true) s.disk).1
  { s with
    vfs     := fillFile (s.vfs.setFile row { s.vfs.files row with filesystem := some () }) row fileid
    records := Function.update s.records row ⟨filename, inodeBlocks s.disk fileid.toNat⟩ }

lemma HandleRun.open [DecidableEq τ] {t : τ} {pathname volume filename : List UInt8} {row : ℕ}
    (hpc : s.pc t = .idle) (hstring : 0 ∉ pathname)
    (hpath : vfsParsePathname pathname = .ok (volume, filename))
    (hfree : s.vfs.freeFile = some row) (hfs : vfsGetFilesystem s.vfs volume = some ())
    (hret : 0 ≤ ((tfsOpen filename).run (fun _ => true) s.disk).1) :
    HandleRun totalblocks HandleState.Careful s (s.afterOpen row filename) := by
  refine .head ⟨_, .reserve_first hpc hstring hpath hfree hfs, trivial, trivial, trivial⟩ ?_
  refine .head ⟨_, .found (HandleState.setPc_self ..) hret, trivial, trivial, trivial⟩ ?_
  refine .head ⟨_, .fill (HandleState.setPc_self ..), trivial, trivial, trivial⟩ ?_
  convert Relation.ReflTransGen.refl using 1
  -- the caller is idle again
  have hidle : Function.update s.pc t .idle = s.pc := by rw [← hpc, Function.update_eq_self]
  simp only [HandleState.setPc, HandleState.afterOpen, Function.update_idem, hidle]

lemma HandleRun.mono [DecidableEq τ] {C C' : HandleState τ → HandleAction τ → Prop}
    (h : HandleRun totalblocks C s s') (hC : ∀ s a, C s a → C' s a) :
    HandleRun totalblocks C' s s' := by
  induction h with
  | refl => exact .refl
  | tail _ hstep ih =>
    obtain ⟨a, hstep, ha⟩ := hstep
    exact ih.tail ⟨a, hstep, hC _ a ha⟩

/-- A new volume of eight blocks that is mounted as `a`, with two callers. -/
def mounted : HandleState Bool where
  disk    := tfstoolCreatevol 8 (fun _ => 65) fun _ _ => 0
  vfs     := ⟨fun row => if row = 0 then ⟨some (), ['a'.toUInt8]⟩ else ⟨none, []⟩,
    fun _ => ⟨none, 0, 0⟩, 0, true⟩
  pc      := fun _ => .idle
  records := fun _ => ⟨[], []⟩

/-- The path of a file on the volume `a`. -/
def mountedPath (c : Char) : List UInt8 := ['['.toUInt8, 'a'.toUInt8, ']'.toUInt8, c.toUInt8]

lemma mounted_start : mounted.Start (tfsTotalblocks 8) where
  volume := createvol_allocInv 8 _ _
  unused _ huse := huse rfl
  idle _ := rfl

/-- The volume with a file `f` of 512 bytes, which is open. -/
def fileOpen : HandleState Bool :=
  HandleState.afterOpen { mounted with
    disk := ((tfsCreate (tfsTotalblocks 8) ['f'.toUInt8] 512).run (fun _ => true) mounted.disk).2 }
    0 ['f'.toUInt8]

lemma fileOpen_run : HandleRun (tfsTotalblocks 8) HandleState.Careful mounted fileOpen := by
  refine .head ⟨_, @HandleStep.create _ _ _ _ true (mountedPath 'f') 512 (fun _ => true)
    ['a'.toUInt8] ['f'.toUInt8] rfl (by decide) rfl rfl (by decide) (by decide), trivial, trivial,
    rfl⟩ ?_
  exact @HandleRun.open _ _ _ _ true (mountedPath 'f') ['a'.toUInt8] ['f'.toUInt8] 0 rfl
    (by decide) rfl (by decide +kernel) rfl (by decide +kernel)

/-- The first caller begins to write `f`. -/
def fileWriting : HandleState Bool :=
  fileOpen.setPc true (.writing 0 (fileOpen.vfs.files 0).fileid (fileOpen.vfs.files 0).seekPosition
    (fileOpen.records 0))

theorem write_in_opened_blocks_fileWriting :
    mounted.Start (tfsTotalblocks 8) ∧
    HandleRun (tfsTotalblocks 8) HandleState.Careful mounted fileWriting ∧
    fileWriting.pc true = .writing 0 3 0 ⟨['f'.toUInt8], [3, 4]⟩ ∧
    ∃ s', HandleStep (tfsTotalblocks 8) fileWriting
        (.write true (fun _ => 7) 512 (fun _ => 0) (fun _ => 0) fun _ => true) s' ∧
      s'.disk 4 0 ≠ fileWriting.disk 4 0 ∧
      WritesOwn ⟨['f'.toUInt8], [3, 4]⟩ fileWriting.disk s'.disk := by
  have hrun : HandleRun (tfsTotalblocks 8) HandleState.Careful mounted fileWriting := by
    apply fileOpen_run.tail
    exact ⟨_, @HandleStep.begin _ _ _ _ true 0 0 rfl (by decide +kernel), trivial,
      fun _ hholds => hholds, trivial⟩
  have hpc : fileWriting.pc true = .writing 0 3 0 ⟨['f'.toUInt8], [3, 4]⟩ := by decide +kernel
  have hstep := @HandleStep.write _ _ (tfsTotalblocks 8) _ _ _ _ _ _ (fun _ => 7) 512 (fun _ => 0)
    (fun _ => 0) (fun _ => true) hpc
  exact ⟨mounted_start, hrun, hpc, _, hstep, by decide +kernel,
    write_in_opened_blocks mounted_start hrun hpc hstep⟩

/-- A write of 512 bytes succeeds and changes a block that the file did not have when it was opened
or that another file has. -/
def HandleState.WritesOther (s : HandleState Bool) : Prop :=
  ∃ s' row fileid record, s.pc true = .writing row fileid 0 record ∧
    HandleStep (tfsTotalblocks 8) s
      (.write true (fun _ => 7) 512 (fun _ => 0) (fun _ => 0) fun _ => true) s' ∧
    s'.pc true = .written row 512 ∧ ¬ WritesOwn record s.disk s'.disk

lemma HandleState.writesOther {s : HandleState Bool} {row i : ℕ} {fileid : ℤ}
    {record : OpenRecord} (hpc : s.pc true = .writing row fileid 0 record)
    (hret : ((tfsWrite (tfsTotalblocks 8) (fun _ => 0) (fun _ => 0) fileid (fun _ => 7) 512 0).run
      (fun _ => true) s.disk).1 = 512)
    (hchanged : ((tfsWrite (tfsTotalblocks 8) (fun _ => 0) (fun _ => 0) fileid (fun _ => 7) 512
      0).run (fun _ => true) s.disk).2 4 0 ≠ s.disk 4 0)
    (hlisted : Listed s.disk i) (hname : fileName s.disk i ≠ record.name)
    (hother : 4 ∈ fileBlocks s.disk i) : s.WritesOther := by
  refine ⟨_, row, fileid, record, hpc, .write hpc, ?_, ?_⟩
  · rw [HandleState.setPc_self, hret]
  · intro hown
    refine (hown 4 ?_).2.2 i hlisted hname hother
    intro heq
    exact hchanged (congrFun heq 0)

lemma HandleState.not_refers (hunused : ∀ row, ¬ s.InUse row) (hidle : ∀ t, s.pc t = .idle)
    (fileid : ℤ) : ¬ s.Refers fileid := by
  rintro (⟨row, huse, -⟩ | ⟨t, record, hfile⟩)
  · exact hunused row huse
  · rw [hidle t] at hfile
    cases hfile

/-- No row is in use after `f` has been closed. -/
lemma fileOpen_closed (row : ℕ) :
    ¬ HandleState.InUse { fileOpen with vfs := releaseFile fileOpen.vfs 0 } row := by
  rw [HandleState.InUse, not_not]
  simp only [fileOpen, HandleState.afterOpen, releaseFile, fillFile, VfsState.setFile, mounted]
  by_cases hrow : row = 0
  · rw [hrow, Function.update_self]
  · rw [Function.update_of_ne hrow, Function.update_of_ne hrow, Function.update_of_ne hrow]

/-- A write can change a block of another file when the file that is written was removed while it
was open and its blocks were given to a new file; when a row is written that was taken again, and
has the number of an inode from before; and when the inode of a file was never written. Each time,
the other two conditions hold. -/
theorem stale_writes :
    (∃ s, HandleRun (tfsTotalblocks 8) (fun s a => s.WaitsForOpen a ∧ a.Completes) mounted s ∧
      s.WritesOther) ∧
    (∃ s, HandleRun (tfsTotalblocks 8) (fun s a => s.KeepsFiles a ∧ a.Completes) mounted s ∧
      s.WritesOther) ∧
    (∃ s, HandleRun (tfsTotalblocks 8) (fun s a => s.KeepsFiles a ∧ s.WaitsForOpen a) mounted s ∧
      s.WritesOther) ∧
    mounted.Start (tfsTotalblocks 8) := by
  refine ⟨⟨?s₁, ?run₁, ?writes₁⟩, ⟨?s₂, ?run₂, ?writes₂⟩, ⟨?s₃, ?run₃, ?writes₃⟩, mounted_start⟩
  case run₁ =>
    apply (fileOpen_run.mono fun _ _ hcareful => hcareful.2).trans
    refine .head ⟨_, @HandleStep.remove _ _ _ _ false (mountedPath 'f') (fun _ => true)
      ['a'.toUInt8] ['f'.toUInt8] rfl (by decide) rfl rfl, trivial, rfl⟩ ?_
    refine .head ⟨_, @HandleStep.create _ _ _ _ false (mountedPath 'g') 512 (fun _ => true)
      ['a'.toUInt8] ['g'.toUInt8] rfl (by decide) rfl rfl (by decide) (by decide), trivial, rfl⟩ ?_
    refine .head ⟨_, @HandleStep.begin _ _ _ _ true 0 0 rfl (by decide +kernel),
      fun _ hholds => hholds, trivial⟩ ?_
    exact .refl
  case writes₁ =>
    apply @HandleState.writesOther _ 0 24 3 ⟨['f'.toUInt8], [3, 4]⟩
    all_goals decide +kernel
  case run₂ =>
    apply (fileOpen_run.mono fun _ _ hcareful => ⟨hcareful.1, hcareful.2.2⟩).trans
    refine .head ⟨_, @HandleStep.close _ _ _ _ true 0 0 rfl (by decide +kernel), trivial,
      trivial⟩ ?_
    refine .head ⟨_, @HandleStep.remove _ _ _ _ false (mountedPath 'f') (fun _ => true)
      ['a'.toUInt8] ['f'.toUInt8] rfl (by decide) rfl rfl, fun _ _ _ _ _ _ =>
        HandleState.not_refers fileOpen_closed (fun _ => rfl) _, rfl⟩ ?_
    refine .head ⟨_, @HandleStep.create _ _ _ _ false (mountedPath 'g') 512 (fun _ => true)
      ['a'.toUInt8] ['g'.toUInt8] rfl (by decide) rfl rfl (by decide) (by decide), trivial, rfl⟩ ?_
    -- a file that does not exist is being opened
    refine .head ⟨_, @HandleStep.reserve_first _ _ _ _ false (mountedPath 'h') ['a'.toUInt8]
      ['h'.toUInt8] 0 rfl (by decide) rfl (by decide +kernel) rfl, trivial, trivial⟩ ?_
    refine .head ⟨_, @HandleStep.begin _ _ _ _ true 0 0 rfl (by decide +kernel), trivial,
      trivial⟩ ?_
    exact .refl
  case writes₂ =>
    apply @HandleState.writesOther _ 0 24 3 ⟨['f'.toUInt8], [3, 4]⟩
    all_goals decide +kernel
  case run₃ =>
    refine .head ⟨_, @HandleStep.create _ _ _ _ true (mountedPath 'f') 512 (fun _ => true)
      ['a'.toUInt8] ['f'.toUInt8] rfl (by decide) rfl rfl (by decide) (by decide), trivial,
      trivial⟩ ?_
    refine .head ⟨_, @HandleStep.remove _ _ _ _ true (mountedPath 'f') (fun _ => true)
      ['a'.toUInt8] ['f'.toUInt8] rfl (by decide) rfl rfl, fun _ _ _ _ _ _ =>
        HandleState.not_refers (fun _ huse => huse rfl) (fun _ => rfl) _, trivial⟩ ?_
    -- the block of the inode has what is left of `f`
    refine .head ⟨_, @HandleStep.create _ _ _ _ true (mountedPath 'g') 0
      (fun pos => decide (pos ≠ 4)) ['a'.toUInt8] ['g'.toUInt8] rfl (by decide) rfl rfl (by decide)
      (by decide), trivial, trivial⟩ ?_
    refine .head ⟨_, @HandleStep.create _ _ _ _ true (mountedPath 'h') 0 (fun _ => true)
      ['a'.toUInt8] ['h'.toUInt8] rfl (by decide) rfl rfl (by decide) (by decide), trivial,
      trivial⟩ ?_
    apply (HandleRun.mono (@HandleRun.open _ _ _ _ true (mountedPath 'g') ['a'.toUInt8]
      ['g'.toUInt8] 0 rfl (by decide) rfl (by decide +kernel) rfl (by decide +kernel))
      fun _ _ hcareful => ⟨hcareful.1, hcareful.2.1⟩).trans
    refine .head ⟨_, @HandleStep.begin _ _ _ _ true 0 0 rfl (by decide +kernel), trivial,
      fun _ hholds => hholds⟩ ?_
    exact .refl
  case writes₃ =>
    apply @HandleState.writesOther _ 0 23 3 ⟨['g'.toUInt8], [3, 4]⟩
    all_goals decide +kernel

end Osm.Fs
