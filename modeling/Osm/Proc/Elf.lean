import Osm.Core.Memory
import Osm.Proc.Io

/-!
# Executables

A model of `elf_parse_header` in `proc/elf.c`. The virtual filesystem gives a file by its bytes and
its size, which is an `int`; the file has just been opened. A failed assertion of `vfs_seek` is a
missing result.
-/

namespace Osm.Proc

open Osm.Core Osm.Fs Osm.Vm

/-- An open file. -/
structure ByteFile where
  data    : Memory
  size    : ℕ
  size_lt : size < 2 ^ 31

/-- The number of bytes that `vfs_read` reads from a position on. -/
def ByteFile.read (file : ByteFile) (position bufsize : ℕ) : ℕ :=
  min bufsize (file.size - position)

/-- A half word of a file, the most significant byte first. -/
def readHalf (m : Memory) (a : ℕ) : UInt16 :=
  UInt16.ofNat ((m a).toNat * 2 ^ 8 + (m (a + 1)).toNat)

/-- The file header, as far as it is used. -/
structure Elf32Ehdr where
  ident     : ℕ → UInt8
  identI    : UInt32
  type      : UInt16
  machine   : UInt16
  version   : UInt32
  entry     : UInt32
  phoff     : UInt32
  phentsize : UInt16
  phnum     : UInt16

/-- The size of the file header. -/
def ehdrSize : ℕ := 52

/-- The file header at the beginning of a file. -/
def readEhdr (m : Memory) : Elf32Ehdr where
  ident     := m
  identI    := m.readWord 0
  type      := readHalf m 16
  machine   := readHalf m 18
  version   := m.readWord 20
  entry     := m.readWord 24
  phoff     := m.readWord 28
  phentsize := readHalf m 42
  phnum     := readHalf m 44

/-- The file header of a file. -/
def ByteFile.ehdr (file : ByteFile) : Elf32Ehdr := readEhdr file.data

/-- A program header, as far as it is used. -/
structure Elf32Phdr where
  type   : UInt32
  offset : UInt32
  vaddr  : UInt32
  filesz : UInt32
  memsz  : UInt32
  flags  : UInt32

/-- The size of a program header. -/
def phdrSize : ℕ := 32

/-- The program header at a position. -/
def readPhdr (m : Memory) (a : ℕ) : Elf32Phdr where
  type   := m.readWord a
  offset := m.readWord (a + 4)
  vaddr  := m.readWord (a + 8)
  filesz := m.readWord (a + 16)
  memsz  := m.readWord (a + 20)
  flags  := m.readWord (a + 24)

def elfMagic : UInt32 := 0x7f454c46
def eiClass : ℕ := 4
def eiData : ℕ := 5
def eiVersion : ℕ := 6
def elfclass32 : UInt8 := 1
def elfdata2msb : UInt8 := 2
def emMips : UInt16 := 8
def evCurrent : ℕ := 1
def etExec : UInt16 := 2

def ptNull : UInt32 := 0
def ptLoad : UInt32 := 1
def ptNote : UInt32 := 4
def ptPhdr : UInt32 := 6
def pfW : UInt32 := 2

/-- What `elf_info_t` says about one of the two segments. -/
structure ElfSegment where
  location : UInt32 := 0
  size     : UInt32 := 0
  pages    : UInt32 := 0
  vaddr    : UInt32 := 0
  deriving DecidableEq

/-- `elf_info_t`. -/
structure ElfInfo where
  entryPoint : UInt32
  ro         : ElfSegment := {}
  rw         : ElfSegment := {}
  deriving DecidableEq

/-- The segments of which a program header has been found. -/
structure Segs where
  ro : Bool := false
  rw : Bool := false
  deriving DecidableEq

/-- The fields of a segment that are taken from its program header. The memory size is rounded up
to the page boundary. -/
def segmentInfo (hdr : Elf32Phdr) : ElfSegment where
  location := hdr.offset
  size     := hdr.filesz
  pages    := (hdr.memsz + UInt32.ofNat pageSize - 1) / UInt32.ofNat pageSize
  vaddr    := hdr.vaddr

/-- The `switch` over the type of a program header; `none` for a file that is not accepted. -/
def addSegment (hdr : Elf32Phdr) (elf : ElfInfo) (segs : Segs) : Option (ElfInfo × Segs) :=
  if hdr.type = ptNull ∨ hdr.type = ptNote ∨ hdr.type = ptPhdr then some (elf, segs)
  else if hdr.type = ptLoad then
    if hdr.flags &&& pfW ≠ 0 then
      if segs.rw then none
      else some ({ elf with rw := segmentInfo hdr }, { segs with rw := true })
    else
      if segs.ro then none
      else some ({ elf with ro := segmentInfo hdr }, { segs with ro := true })
  else none

/-- The position after `vfs_seek`. -/
def seekFile (seekPosition : ℤ) : Option ℕ :=
  if seekPosition < 0 then none else some seekPosition.toNat

/-- The variables of the loop over the program headers, with the position of the file. -/
structure Parser where
  currentPosition : ℤ
  position        : ℕ
  elf             : ElfInfo
  segs            : Segs := {}

/-- A round of the loop. The outer `none` is a failed assertion, the inner one a file that is not
accepted. -/
def parsePhdr (file : ByteFile) (s : Parser) : Option (Option Parser) :=
  if file.read s.position phdrSize ≠ phdrSize then some none
  else
    match addSegment (readPhdr file.data s.position) s.elf s.segs with
    | none             => some none
    | some (elf, segs) =>
      let currentPosition := addInt s.currentPosition phdrSize
      (seekFile currentPosition).map fun position => some { currentPosition, position, elf, segs }

/-- The loop over the program headers that are left. -/
def parsePhdrs (file : ByteFile) : ℕ → Parser → Option (Option Parser)
  | 0, s     => some (some s)
  | n + 1, s =>
    match parsePhdr file s with
    | some (some s) => parsePhdrs file n s
    | result        => result

/-- The checks of the file header. -/
def acceptsEhdr (hdr : Elf32Ehdr) : Bool :=
  hdr.identI = elfMagic ∧
    (hdr.ident eiClass = elfclass32 ∧ hdr.ident eiData = elfdata2msb ∧ hdr.machine = emMips) ∧
    (hdr.version = UInt32.ofNat evCurrent ∧ hdr.ident eiVersion = UInt8.ofNat evCurrent) ∧
    hdr.type = etExec ∧ hdr.phnum ≠ 0

/-- `elf_parse_header`. -/
def elfParseHeader (file : ByteFile) : Option (Option ElfInfo) :=
  if file.read 0 ehdrSize ≠ ehdrSize then some none
  else
    let hdr := file.ehdr
    if acceptsEhdr hdr then do
      let position ← seekFile (toInt hdr.phoff)
      let result ← parsePhdrs file hdr.phnum.toNat
        { currentPosition := toInt hdr.phoff, position, elf := { entryPoint := hdr.entry } }
      return result.bind fun s => if s.segs.ro ∨ s.segs.rw then some s.elf else none
    else some none

/-! ### The format -/

/-- A program header is for a segment in memory, which is writable or not. -/
def Elf32Phdr.Loads (hdr : Elf32Phdr) (w : Bool) : Prop :=
  hdr.type = ptLoad ∧ (hdr.flags &&& pfW ≠ 0 ↔ w)

namespace ByteFile

/-- A program header, when one begins every so many bytes. -/
def phdr (file : ByteFile) (stride k : ℕ) : Elf32Phdr :=
  readPhdr file.data (file.ehdr.phoff.toNat + k * stride)

/-- One of the program headers is for a segment in memory. -/
def IsLoad (file : ByteFile) (stride : ℕ) (w : Bool) (k : ℕ) : Prop :=
  k < file.ehdr.phnum.toNat ∧ (file.phdr stride k).Loads w

/-- The file begins with the header of an executable, and the table of program headers, of which
one begins every so many bytes, is complete and has one or two segments. -/
structure WellFormed (file : ByteFile) (stride : ℕ) : Prop where
  ehdr     : ehdrSize ≤ file.size ∧ acceptsEhdr file.ehdr
  complete : ∀ k < file.ehdr.phnum.toNat,
    file.ehdr.phoff.toNat + k * stride + phdrSize ≤ file.size
  types    : ∀ k < file.ehdr.phnum.toNat,
    (file.phdr stride k).type ∈ [ptNull, ptNote, ptPhdr, ptLoad]
  once     : ∀ w j k, file.IsLoad stride w j → file.IsLoad stride w k → j = k
  load     : ∃ w k, file.IsLoad stride w k

end ByteFile

/-- The number of pages for so many bytes. -/
def pagesFor (bytes : ℕ) : ℕ := (bytes + pageSize - 1) / pageSize

/-- A segment is the one of a program header. -/
structure ElfSegment.Is (seg : ElfSegment) (hdr : Elf32Phdr) : Prop where
  location : seg.location = hdr.offset
  size     : seg.size = hdr.filesz
  vaddr    : seg.vaddr = hdr.vaddr
  pages    : seg.pages.toNat = pagesFor hdr.memsz.toNat

/-- The segment that is writable, or the other one. -/
def ElfInfo.segment (elf : ElfInfo) (w : Bool) : ElfSegment := if w then elf.rw else elf.ro

/-- The information is that of the headers in the file. -/
structure ElfInfo.Describes (elf : ElfInfo) (file : ByteFile) (stride : ℕ) : Prop where
  entry   : elf.entryPoint = file.ehdr.entry
  present : ∀ w k, file.IsLoad stride w k → (elf.segment w).Is (file.phdr stride k)
  missing : ∀ w, (∀ k, ¬ file.IsLoad stride w k) → elf.segment w = {}

/-! ### The program headers -/

section Phdrs

variable {file : ByteFile} {hdr : Elf32Phdr} {elf elf' : ElfInfo} {segs segs' : Segs} {k n : ℕ}
  {w : Bool}

/-- The header of a segment that is writable, or of the other one, has been found. -/
def Segs.has (segs : Segs) (w : Bool) : Bool := if w then segs.rw else segs.ro

lemma not_loads_of_ne (h : hdr.type ≠ ptLoad) : ¬ hdr.Loads w := fun hloads => h hloads.1

lemma loads_iff (h : hdr.type = ptLoad) : hdr.Loads w ↔ (hdr.flags &&& pfW ≠ 0 ↔ w) :=
  and_iff_right h

/-- What a program header that is accepted changes. -/
lemma addSegment_eq_some (h : addSegment hdr elf segs = some (elf', segs')) :
    hdr.type ∈ [ptNull, ptNote, ptPhdr, ptLoad] ∧ elf'.entryPoint = elf.entryPoint ∧
    ∀ w, (hdr.Loads w → segs.has w = false ∧ segs'.has w = true ∧
        elf'.segment w = segmentInfo hdr) ∧
      (¬ hdr.Loads w → segs'.has w = segs.has w ∧ elf'.segment w = elf.segment w) := by
  rw [addSegment] at h
  split_ifs at h with hother hload hw hrw hro
  · cases h
    have hne : hdr.type ≠ ptLoad := by
      rintro heq
      rw [heq] at hother
      revert hother
      decide
    refine ⟨?_, rfl, fun w => ⟨fun hloads => absurd hloads (not_loads_of_ne hne), ?_⟩⟩
    · rcases hother with hother | hother | hother <;> rw [hother] <;> decide
    · exact fun _ => ⟨rfl, rfl⟩
  · cases h
    refine ⟨by rw [hload]; decide, rfl, fun w => ?_⟩
    rw [loads_iff hload, iff_true_left hw]
    cases w with
    | true => exact ⟨fun _ => ⟨eq_false_of_ne_true hrw, rfl, rfl⟩, fun h => absurd rfl h⟩
    | false => exact ⟨fun h => (by cases h), fun _ => ⟨rfl, rfl⟩⟩
  · cases h
    refine ⟨by rw [hload]; decide, rfl, fun w => ?_⟩
    rw [loads_iff hload, iff_false_left hw]
    cases w with
    | true => exact ⟨fun h => absurd rfl h, fun _ => ⟨rfl, rfl⟩⟩
    | false =>
      exact ⟨fun _ => ⟨eq_false_of_ne_true hro, rfl, rfl⟩, fun h => absurd Bool.false_ne_true h⟩

/-- Why a program header is not accepted. -/
lemma addSegment_eq_none (h : addSegment hdr elf segs = none) :
    hdr.type ∉ [ptNull, ptNote, ptPhdr, ptLoad] ∨ ∃ w, hdr.Loads w ∧ segs.has w = true := by
  rw [addSegment] at h
  split_ifs at h with hother hload hw hrw hro
  · exact .inr ⟨true, (loads_iff hload).mpr (iff_of_true hw rfl), hrw⟩
  · exact .inr ⟨false, (loads_iff hload).mpr (iff_of_false hw Bool.false_ne_true), hro⟩
  · left
    simp only [List.mem_cons, List.not_mem_nil, or_false]
    tauto

lemma toInt_of_small {a : UInt32} (h : a.toNat < 2 ^ 31) : toInt a = a.toNat :=
  Int.bmod_eq_of_le (by omega) (by omega)

lemma toInt_neg_of_large {a : UInt32} (h : 2 ^ 31 ≤ a.toNat) : toInt a < 0 := by
  have hlt := a.toNat_lt
  have hint : toInt a = (a.toNat : ℤ) - (2 ^ 32 : ℕ) :=
    (Int.sub_bmod_right _ _).symm.trans (Int.bmod_eq_of_le (by omega) (by omega))
  omega

lemma seekFile_natCast (position : ℕ) : seekFile position = some position :=
  if_neg (not_lt.mpr (Int.natCast_nonneg position))

/-- A word is a position of a file if it is not negative as an `int`. -/
lemma seekFile_toInt (a : UInt32) :
    seekFile (toInt a) = if a.toNat < 2 ^ 31 then some a.toNat else none := by
  split_ifs with h
  · rw [toInt_of_small h, seekFile_natCast]
  · exact if_pos (toInt_neg_of_large (not_lt.mp h))

/-- The first program headers of the file have been read. -/
structure Parsed (file : ByteFile) (k : ℕ) (elf : ElfInfo) (segs : Segs) : Prop where
  entry    : elf.entryPoint = file.ehdr.entry
  complete : ∀ j < k, file.ehdr.phoff.toNat + j * phdrSize + phdrSize ≤ file.size
  types    : ∀ j < k, (file.phdr phdrSize j).type ∈ [ptNull, ptNote, ptPhdr, ptLoad]
  once     : ∀ w, ∀ i < k, ∀ j < k, (file.phdr phdrSize i).Loads w →
    (file.phdr phdrSize j).Loads w → i = j
  has      : ∀ w, segs.has w = true ↔ ∃ j < k, (file.phdr phdrSize j).Loads w
  present  : ∀ w, ∀ j < k, (file.phdr phdrSize j).Loads w →
    elf.segment w = segmentInfo (file.phdr phdrSize j)
  missing  : ∀ w, segs.has w = false → elf.segment w = {}

/-- The variables when the first program headers have been read. -/
def parserAt (file : ByteFile) (k : ℕ) (elf : ElfInfo) (segs : Segs) : Parser where
  currentPosition := (file.ehdr.phoff.toNat + k * phdrSize : ℕ)
  position        := file.ehdr.phoff.toNat + k * phdrSize
  elf             := elf
  segs            := segs

lemma Parsed.succ (h : Parsed file k elf segs)
    (hcomplete : file.ehdr.phoff.toNat + k * phdrSize + phdrSize ≤ file.size)
    (hadd : addSegment (file.phdr phdrSize k) elf segs = some (elf', segs')) :
    Parsed file (k + 1) elf' segs' := by
  obtain ⟨htype, hentry, hsegment⟩ := addSegment_eq_some hadd
  have hnone : ∀ w, (file.phdr phdrSize k).Loads w → ∀ j < k,
      ¬ (file.phdr phdrSize j).Loads w := by
    intro w hw j hj hloads
    have hhas := (h.has w).mpr ⟨j, hj, hloads⟩
    cases hhas.symm.trans ((hsegment w).1 hw).1
  exact {
    entry    := hentry.trans h.entry
    complete := Nat.forall_lt_succ_right.mpr ⟨h.complete, hcomplete⟩
    types    := Nat.forall_lt_succ_right.mpr ⟨h.types, htype⟩
    once     := by
      intro w i hi j hj hwi hwj
      rcases Nat.lt_succ_iff_lt_or_eq.mp hi with hi | rfl
      · rcases Nat.lt_succ_iff_lt_or_eq.mp hj with hj | rfl
        · exact h.once w i hi j hj hwi hwj
        · exact absurd hwi (hnone w hwj i hi)
      · rcases Nat.lt_succ_iff_lt_or_eq.mp hj with hj | rfl
        · exact absurd hwj (hnone w hwi j hj)
        · rfl
    has      := by
      intro w
      rw [Nat.exists_lt_succ_right]
      by_cases hw : (file.phdr phdrSize k).Loads w
      · exact iff_of_true ((hsegment w).1 hw).2.1 (.inr hw)
      · rw [((hsegment w).2 hw).1, h.has w]
        exact (or_iff_left hw).symm
    present  := by
      intro w j hj hw
      rcases Nat.lt_succ_iff_lt_or_eq.mp hj with hj | rfl
      · have hk : ¬ (file.phdr phdrSize k).Loads w := fun hk => hnone w hk j hj hw
        rw [((hsegment w).2 hk).2]
        exact h.present w j hj hw
      · exact ((hsegment w).1 hw).2.2
    missing  := by
      intro w hw
      have hk : ¬ (file.phdr phdrSize k).Loads w := by
        intro hk
        cases ((hsegment w).1 hk).2.1.symm.trans hw
      rw [((hsegment w).2 hk).1] at hw
      rw [((hsegment w).2 hk).2]
      exact h.missing w hw }

/-- A round reads a program header, or it finds that the file is not as it should be. -/
lemma parsePhdr_spec (h : Parsed file k elf segs) (hk : k < file.ehdr.phnum.toNat) :
    parsePhdr file (parserAt file k elf segs) = some none ∧ ¬ file.WellFormed phdrSize ∨
    ∃ elf' segs', parsePhdr file (parserAt file k elf segs) =
      some (some (parserAt file (k + 1) elf' segs')) ∧ Parsed file (k + 1) elf' segs' := by
  have hread : file.read (parserAt file k elf segs).position phdrSize = phdrSize ↔
      file.ehdr.phoff.toNat + k * phdrSize + phdrSize ≤ file.size := by
    change min phdrSize (file.size - (file.ehdr.phoff.toNat + k * phdrSize)) = phdrSize ↔ _
    rw [phdrSize]
    omega
  rw [parsePhdr]
  by_cases hshort : file.read (parserAt file k elf segs).position phdrSize = phdrSize
  · have hcomplete := hread.mp hshort
    rw [if_neg (not_not.mpr hshort)]
    cases hadd : addSegment (readPhdr file.data (parserAt file k elf segs).position)
      (parserAt file k elf segs).elf (parserAt file k elf segs).segs with
    | none =>
      refine .inl ⟨rfl, fun hwf => ?_⟩
      rcases addSegment_eq_none hadd with htype | ⟨w, hw, hhas⟩
      · exact htype (hwf.types k hk)
      · obtain ⟨j, hj, hloads⟩ := (h.has w).mp hhas
        exact hj.ne (hwf.once w j k ⟨hj.trans hk, hloads⟩ ⟨hk, hw⟩)
    | some r =>
      obtain ⟨elf', segs'⟩ := r
      have hsize := file.size_lt
      have hnext : addInt (parserAt file k elf segs).currentPosition phdrSize =
          (file.ehdr.phoff.toNat + (k + 1) * phdrSize : ℕ) := by
        change addInt (file.ehdr.phoff.toNat + k * phdrSize : ℕ) phdrSize = _
        rw [phdrSize] at hcomplete ⊢
        rw [addInt, Int.bmod_eq_of_le (by omega) (by omega)]
        omega
      refine .inr ⟨elf', segs', ?_, h.succ hcomplete hadd⟩
      dsimp only
      rw [hnext, seekFile_natCast]
      rfl
  · rw [if_pos hshort]
    exact .inl ⟨rfl, fun hwf => hshort (hread.mpr (hwf.complete k hk))⟩

/-- The loop goes through all program headers, or it finds that the file is not as it should be. -/
lemma parsePhdrs_spec (h : Parsed file k elf segs) (hn : k + n = file.ehdr.phnum.toNat) :
    parsePhdrs file n (parserAt file k elf segs) = some none ∧ ¬ file.WellFormed phdrSize ∨
    ∃ elf' segs', parsePhdrs file n (parserAt file k elf segs) =
      some (some (parserAt file file.ehdr.phnum.toNat elf' segs')) ∧
        Parsed file file.ehdr.phnum.toNat elf' segs' := by
  induction n generalizing k elf segs with
  | zero => exact .inr ⟨elf, segs, hn ▸ rfl, hn ▸ h⟩
  | succ n ih =>
    rw [parsePhdrs]
    rcases parsePhdr_spec h (by omega) with ⟨hround, hwf⟩ | ⟨elf', segs', hround, hsucc⟩
    · rw [hround]
      exact .inl ⟨rfl, hwf⟩
    · rw [hround]
      exact ih hsucc (by omega)

lemma parsed_zero : Parsed file 0 { entryPoint := file.ehdr.entry } {} where
  entry            := rfl
  complete _ h     := absurd h (Nat.not_lt_zero _)
  types _ h        := absurd h (Nat.not_lt_zero _)
  once _ _ h       := absurd h (Nat.not_lt_zero _)
  has w            := by cases w <;> exact iff_of_false Bool.false_ne_true (by simp)
  present _ _ h    := absurd h (Nat.not_lt_zero _)
  missing w _      := by cases w <;> rfl

/-- The file header is followed by the loop. -/
lemma elfParseHeader_eq (hsize : ehdrSize ≤ file.size) (haccepts : acceptsEhdr file.ehdr)
    (hphoff : file.ehdr.phoff.toNat < 2 ^ 31) :
    elfParseHeader file =
      (parsePhdrs file file.ehdr.phnum.toNat
        (parserAt file 0 { entryPoint := file.ehdr.entry } {})).map fun result =>
          result.bind fun s => if s.segs.ro ∨ s.segs.rw then some s.elf else none := by
  have hread : file.read 0 ehdrSize = ehdrSize := min_eq_left hsize
  have hposition : toInt file.ehdr.phoff = file.ehdr.phoff.toNat := toInt_of_small hphoff
  have hzero : file.ehdr.phoff.toNat + 0 * phdrSize = file.ehdr.phoff.toNat := by
    rw [Nat.zero_mul, Nat.add_zero]
  rw [elfParseHeader, if_neg (not_not.mpr hread), if_pos haccepts, hposition, seekFile_natCast,
    parserAt, hzero]
  exact Option.map_eq_bind.symm

lemma elfParseHeader_of_not (h : ¬ (ehdrSize ≤ file.size ∧ acceptsEhdr file.ehdr)) :
    elfParseHeader file = some none := by
  rw [elfParseHeader]
  by_cases hsize : ehdrSize ≤ file.size
  · have hread : file.read 0 ehdrSize = ehdrSize := min_eq_left hsize
    rw [if_neg (not_not.mpr hread)]
    exact if_neg fun haccepts => h ⟨hsize, haccepts⟩
  · have hshort : file.read 0 ehdrSize ≠ ehdrSize := by
      rw [ByteFile.read]
      omega
    exact if_pos hshort

/-- The program headers are read one behind the other. -/
lemma elfParseHeader_spec
    (hphoff : ehdrSize ≤ file.size → file.ehdr.phoff.toNat < 2 ^ 31) :
    elfParseHeader file = some none ∧ ¬ file.WellFormed phdrSize ∨
    ∃ elf segs, elfParseHeader file = some (some elf) ∧ file.WellFormed phdrSize ∧
      Parsed file file.ehdr.phnum.toNat elf segs := by
  by_cases hehdr : ehdrSize ≤ file.size ∧ acceptsEhdr file.ehdr
  swap
  · exact .inl ⟨elfParseHeader_of_not hehdr, fun hwf => hehdr hwf.ehdr⟩
  obtain ⟨hsize, haccepts⟩ := hehdr
  rw [elfParseHeader_eq hsize haccepts (hphoff hsize)]
  rcases parsePhdrs_spec parsed_zero (Nat.zero_add _) with ⟨hloop, hwf⟩ | ⟨elf, segs, hloop, hparsed⟩
  · rw [hloop]
    exact .inl ⟨rfl, hwf⟩
  · rw [hloop]
    have hload : (∃ w k, file.IsLoad phdrSize w k) ↔ segs.ro ∨ segs.rw := by
      constructor
      · rintro ⟨w, k, hk, hw⟩
        have hhas := (hparsed.has w).mpr ⟨k, hk, hw⟩
        cases w with
        | true => exact .inr hhas
        | false => exact .inl hhas
      · rintro (hro | hrw)
        · obtain ⟨k, hk⟩ := (hparsed.has false).mp hro
          exact ⟨false, k, hk⟩
        · obtain ⟨k, hk⟩ := (hparsed.has true).mp hrw
          exact ⟨true, k, hk⟩
    rw [Option.map_some, Option.bind_some]
    change some (if segs.ro ∨ segs.rw then some elf else none) = some none ∧ _ ∨
      ∃ elf' segs', some (if segs.ro ∨ segs.rw then some elf else none) = _ ∧ _
    by_cases hsegs : segs.ro ∨ segs.rw
    · rw [if_pos hsegs]
      refine .inr ⟨elf, segs, rfl, ?_, hparsed⟩
      exact {
        ehdr     := ⟨hsize, haccepts⟩
        complete := hparsed.complete
        types    := hparsed.types
        once     := fun w i j hi hj => hparsed.once w i hi.1 j hj.1 hi.2 hj.2
        load     := hload.mpr hsegs }
    · rw [if_neg hsegs]
      exact .inl ⟨rfl, fun hwf => hsegs (hload.mp hwf.load)⟩

end Phdrs

end Osm.Proc
