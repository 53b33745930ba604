import Osm.Proc.Elf

/-!
# The table of program headers

The format says in the file header how many bytes a program header takes; `elf_parse_header` always
goes on by the size of the structure. It also rounds the memory size up in 32 bits. Both are right
for the usual files, and the tables of the others have to agree by accident.
-/

namespace Osm.Proc

open Osm.Core Osm.Fs Osm.Vm

namespace ByteFile

/-- The distance of two program headers according to the format. -/
def stride (file : ByteFile) : ℕ := file.ehdr.phentsize.toNat

/-- `elf_parse_header` accepts exactly the well-formed files, and describes them. -/
def MeetsFormat (file : ByteFile) : Prop :=
  ∃ result, elfParseHeader file = some result ∧
    (result.isSome ↔ file.WellFormed file.stride) ∧
    ∀ elf, result = some elf → elf.Describes file file.stride

end ByteFile

instance (hdr : Elf32Phdr) : DecidablePred hdr.Loads :=
  fun _ => inferInstanceAs (Decidable (_ ∧ _))

/-- Zero for a missing header. -/
def Elf32Phdr.zero : Elf32Phdr := ⟨0, 0, 0, 0, 0, 0⟩

/-- The header of a segment in the table. -/
def ByteFile.loadHdr (file : ByteFile) (stride : ℕ) (w : Bool) : Elf32Phdr :=
  match (List.range file.ehdr.phnum.toNat).find? fun k => (file.phdr stride k).Loads w with
  | some k => file.phdr stride k
  | none   => Elf32Phdr.zero

/-- What is taken from one header is right for the other one; the number of pages is computed in 32
bits. -/
structure Elf32Phdr.Agrees (hdr hdr' : Elf32Phdr) : Prop where
  offset : hdr.offset = hdr'.offset
  filesz : hdr.filesz = hdr'.filesz
  vaddr  : hdr.vaddr = hdr'.vaddr
  pages  : (segmentInfo hdr).pages.toNat = pagesFor hdr'.memsz.toNat

/-- The table that is read and the one of the format are both malformed, or they have the same
segments. -/
structure ByteFile.TablesAgree (file : ByteFile) : Prop where
  wellFormed : file.WellFormed phdrSize ↔ file.WellFormed file.stride
  segments   : file.WellFormed file.stride →
    ∀ w, (file.loadHdr phdrSize w).Agrees (file.loadHdr file.stride w)

variable {file : ByteFile} {stride k : ℕ} {w : Bool} {elf : ElfInfo} {hdr hdr' : Elf32Phdr}
  {seg : ElfSegment}

/-! ### Segments -/

lemma is_segmentInfo_iff : (segmentInfo hdr).Is hdr' ↔ hdr.Agrees hdr' :=
  ⟨fun h => ⟨h.location, h.size, h.vaddr, h.pages⟩, fun h => ⟨h.offset, h.filesz, h.vaddr, h.pages⟩⟩

/-- The last page is lost when the sum wraps. -/
lemma pages_eq_iff : (segmentInfo hdr).pages.toNat = pagesFor hdr.memsz.toNat ↔
    hdr.memsz.toNat ≤ 2 ^ 32 - pageSize := by
  have hlt := hdr.memsz.toNat_lt
  rw [segmentInfo, UInt32.toNat_div, UInt32.toNat_sub, UInt32.toNat_add, pagesFor, pageSize]
  change ((2 ^ 32 - 1 + (hdr.memsz.toNat + 4096) % 2 ^ 32) % 2 ^ 32) / 4096 = _ ↔ _
  omega

lemma is_zero_iff : seg.Is Elf32Phdr.zero ↔ seg = {} := by
  constructor
  · rintro ⟨hlocation, hsize, hvaddr, hpages⟩
    have hpages : seg.pages = 0 := UInt32.toNat_inj.mp hpages
    cases seg
    cases hlocation
    cases hsize
    cases hvaddr
    cases hpages
    rfl
  · rintro rfl
    exact ⟨rfl, rfl, rfl, rfl⟩

lemma segmentInfo_zero : segmentInfo Elf32Phdr.zero = {} := by decide

lemma loadHdr_of_isLoad (hwf : file.WellFormed stride) (hk : file.IsLoad stride w k) :
    file.loadHdr stride w = file.phdr stride k := by
  rw [ByteFile.loadHdr]
  cases hfind : (List.range file.ehdr.phnum.toNat).find?
      fun k => decide ((file.phdr stride k).Loads w) with
  | none =>
    have hnot := List.find?_eq_none.mp hfind k (List.mem_range.mpr hk.1)
    exact absurd hk.2 (by simpa using hnot)
  | some j =>
    have hfound := List.find?_some hfind
    have hj : file.IsLoad stride w j :=
      ⟨List.mem_range.mp (List.mem_of_find?_eq_some hfind), of_decide_eq_true hfound⟩
    rw [hwf.once w j k hj hk]

lemma loadHdr_of_none (h : ∀ k, ¬ file.IsLoad stride w k) :
    file.loadHdr stride w = Elf32Phdr.zero := by
  have hfind : (List.range file.ehdr.phnum.toNat).find?
      (fun k => decide ((file.phdr stride k).Loads w)) = none := by
    rw [List.find?_eq_none]
    intro k hk hloads
    exact h k ⟨List.mem_range.mp hk, of_decide_eq_true hloads⟩
  rw [ByteFile.loadHdr, hfind]

/-- With a well-formed table, there is one header for each of the segments. -/
lemma describes_iff (hwf : file.WellFormed stride) : elf.Describes file stride ↔
    elf.entryPoint = file.ehdr.entry ∧ ∀ w, (elf.segment w).Is (file.loadHdr stride w) := by
  constructor
  · rintro ⟨hentry, hpresent, hmissing⟩
    refine ⟨hentry, fun w => ?_⟩
    by_cases hload : ∃ k, file.IsLoad stride w k
    · obtain ⟨k, hk⟩ := hload
      rw [loadHdr_of_isLoad hwf hk]
      exact hpresent w k hk
    · rw [loadHdr_of_none (not_exists.mp hload), is_zero_iff]
      exact hmissing w (not_exists.mp hload)
  · rintro ⟨hentry, hsegment⟩
    refine ⟨hentry, fun w k hk => ?_, fun w hnone => ?_⟩
    · rw [← loadHdr_of_isLoad hwf hk]
      exact hsegment w
    · have hzero := hsegment w
      rw [loadHdr_of_none hnone, is_zero_iff] at hzero
      exact hzero

lemma Parsed.segment_eq {segs : Segs} (hwf : file.WellFormed phdrSize)
    (h : Parsed file file.ehdr.phnum.toNat elf segs) (w : Bool) :
    elf.segment w = segmentInfo (file.loadHdr phdrSize w) := by
  by_cases hload : ∃ k, file.IsLoad phdrSize w k
  · obtain ⟨k, hk⟩ := hload
    rw [loadHdr_of_isLoad hwf hk]
    exact h.present w k hk.1 hk.2
  · rw [loadHdr_of_none (not_exists.mp hload), segmentInfo_zero]
    apply h.missing
    rw [Bool.eq_false_iff, Ne, h.has w]
    exact hload

lemma meetsFormat_iff (hphoff : ehdrSize ≤ file.size → file.ehdr.phoff.toNat < 2 ^ 31) :
    file.MeetsFormat ↔ file.TablesAgree := by
  rcases elfParseHeader_spec hphoff with ⟨hparse, hwf⟩ | ⟨elf, segs, hparse, hwf, hparsed⟩
  · constructor
    · rintro ⟨result, hresult, hiff, -⟩
      cases hparse.symm.trans hresult
      have hnot : ¬ file.WellFormed file.stride := fun h => by cases hiff.mpr h
      exact ⟨iff_of_false hwf hnot, fun h => absurd h hnot⟩
    · rintro ⟨hiff, -⟩
      refine ⟨none, hparse, iff_of_false Bool.false_ne_true (mt hiff.mpr hwf), ?_⟩
      exact fun elf h => by cases h
  · constructor
    · rintro ⟨result, hresult, hiff, hdescribes⟩
      cases hparse.symm.trans hresult
      have hwf' := hiff.mp rfl
      refine ⟨iff_of_true hwf hwf', fun _ w => ?_⟩
      rw [← is_segmentInfo_iff, ← hparsed.segment_eq hwf]
      exact ((describes_iff hwf').mp (hdescribes elf rfl)).2 w
    · rintro ⟨hiff, hsegments⟩
      have hwf' := hiff.mp hwf
      refine ⟨some elf, hparse, iff_of_true rfl hwf', fun elf' h => ?_⟩
      cases h
      refine (describes_iff hwf').mpr ⟨hparsed.entry, fun w => ?_⟩
      rw [hparsed.segment_eq hwf, is_segmentInfo_iff]
      exact hsegments hwf' w

/-! ### One table -/

section OneTable

variable {stride' : ℕ} (h : ∀ k < file.ehdr.phnum.toNat, k * stride = k * stride')
include h

lemma phdr_congr (hk : k < file.ehdr.phnum.toNat) :
    file.phdr stride k = file.phdr stride' k := by
  rw [ByteFile.phdr, ByteFile.phdr, h k hk]

lemma isLoad_congr : file.IsLoad stride w k ↔ file.IsLoad stride' w k := by
  apply and_congr_right
  intro hk
  rw [phdr_congr h hk]

lemma wellFormed_congr (hwf : file.WellFormed stride) : file.WellFormed stride' where
  ehdr           := hwf.ehdr
  complete k hk  := h k hk ▸ hwf.complete k hk
  types k hk     := phdr_congr h hk ▸ hwf.types k hk
  once w j k hj hk := hwf.once w j k ((isLoad_congr h).mpr hj) ((isLoad_congr h).mpr hk)
  load := by
    obtain ⟨w, k, hk⟩ := hwf.load
    exact ⟨w, k, (isLoad_congr h).mp hk⟩

lemma loadHdr_congr (hwf : file.WellFormed stride) :
    file.loadHdr stride w = file.loadHdr stride' w := by
  by_cases hload : ∃ k, file.IsLoad stride w k
  · obtain ⟨k, hk⟩ := hload
    rw [loadHdr_of_isLoad hwf hk, phdr_congr h hk.1]
    exact (loadHdr_of_isLoad (wellFormed_congr h hwf) ((isLoad_congr h).mp hk)).symm
  · have hload' : ∀ k, ¬ file.IsLoad stride' w k :=
      fun k hk => hload ⟨k, (isLoad_congr h).mpr hk⟩
    rw [loadHdr_of_none (not_exists.mp hload), loadHdr_of_none hload']

end OneTable

lemma agrees_self_iff : hdr.Agrees hdr ↔ hdr.memsz.toNat ≤ 2 ^ 32 - pageSize :=
  ⟨fun h => pages_eq_iff.mp h.pages, fun h => ⟨rfl, rfl, rfl, pages_eq_iff.mpr h⟩⟩

/-- With the usual size of a program header, or with one of them, it is enough that the sizes of
the segments can be rounded up. -/
lemma tablesAgree_iff (h : file.stride = phdrSize ∨ file.ehdr.phnum = 1) : file.TablesAgree ↔
    (file.WellFormed file.stride → ∀ w k, file.IsLoad file.stride w k →
      (file.phdr file.stride k).memsz.toNat ≤ 2 ^ 32 - pageSize) := by
  have hsame : ∀ k < file.ehdr.phnum.toNat, k * file.stride = k * phdrSize := by
    intro k hk
    rcases h with h | h
    · rw [h]
    · rw [h] at hk
      rw [Nat.lt_one_iff.mp hk, Nat.zero_mul, Nat.zero_mul]
  have hsame' : ∀ k < file.ehdr.phnum.toNat, k * phdrSize = k * file.stride :=
    fun k hk => (hsame k hk).symm
  constructor
  · rintro ⟨-, hsegments⟩ hwf w k hk
    have hagrees := hsegments hwf w
    rw [← loadHdr_congr hsame hwf, agrees_self_iff, loadHdr_of_isLoad hwf hk] at hagrees
    exact hagrees
  · intro hsize
    refine ⟨⟨wellFormed_congr hsame', wellFormed_congr hsame⟩, fun hwf w => ?_⟩
    rw [← loadHdr_congr hsame hwf, agrees_self_iff]
    by_cases hload : ∃ k, file.IsLoad file.stride w k
    · obtain ⟨k, hk⟩ := hload
      rw [loadHdr_of_isLoad hwf hk]
      exact hsize hwf w k hk
    · rw [loadHdr_of_none (not_exists.mp hload)]
      decide

theorem elfParseHeader_meets_format_iff
    (hphoff : ehdrSize ≤ file.size → file.ehdr.phoff.toNat < 2 ^ 31) :
    (file.MeetsFormat ↔ file.TablesAgree) ∧
    (file.stride = phdrSize ∨ file.ehdr.phnum = 1 →
      (file.MeetsFormat ↔ (file.WellFormed file.stride → ∀ w k, file.IsLoad file.stride w k →
        (file.phdr file.stride k).memsz.toNat ≤ 2 ^ 32 - pageSize))) :=
  ⟨meetsFormat_iff hphoff, fun h => (meetsFormat_iff hphoff).trans (tablesAgree_iff h)⟩

/-- A file with these bytes. -/
def ByteFile.ofBytes (bytes : List UInt8) (h : bytes.length < 2 ^ 31) : ByteFile where
  data a  := bytes.getD a 0
  size    := bytes.length
  size_lt := h

/-- The bytes of the header of a segment of one page. -/
def loadBytes (vaddr flags : UInt8) : List UInt8 :=
  [0, 0, 0, 1, 0, 0, 0, 0, 0, 0, vaddr, 0, 0, 0, vaddr, 0,
    0, 0, 16, 0, 0, 0, 16, 0, 0, 0, 0, flags, 0, 0, 16, 0]

/-- The bytes of an executable with both segments. -/
def executableBytes (phentsize : UInt8) (padding : List UInt8) : List UInt8 :=
  [0x7f, 0x45, 0x4c, 0x46, 1, 2, 1, 0, 0, 0, 0, 0, 0, 0, 0, 0, 0, 2, 0, 8, 0, 0, 0, 1,
    0, 0, 16, 0, 0, 0, 0, 52, 0, 0, 0, 0, 0, 0, 0, 0, 0, 52, 0, phentsize, 0, 2, 0, 0, 0, 0, 0, 0] ++
  loadBytes 16 5 ++ padding ++ loadBytes 32 6

/-- An executable with program headers of the usual size. -/
def usualFile : ByteFile := .ofBytes (executableBytes 32 []) (by decide +kernel)

/-- An executable with program headers of forty bytes. -/
def paddedFile : ByteFile :=
  .ofBytes (executableBytes 40 [0, 0, 0, 0, 0, 0, 0, 0]) (by decide +kernel)

theorem elfParseHeader_meets_format_usual : usualFile.MeetsFormat := by
  have hphoff : ehdrSize ≤ usualFile.size → usualFile.ehdr.phoff.toNat < 2 ^ 31 := by decide +kernel
  have hsize : ∀ k < usualFile.ehdr.phnum.toNat,
      (usualFile.phdr usualFile.stride k).memsz.toNat ≤ 2 ^ 32 - pageSize := by decide +kernel
  exact ((elfParseHeader_meets_format_iff hphoff).2 (.inl rfl)).mpr fun _ _ k hk => hsize k hk.1

/-- The second segment of the padded file is not found. -/
theorem padded_not_meets_format : ∃ file : ByteFile,
    file.ehdr.phoff.toNat < 2 ^ 31 ∧ ¬ file.MeetsFormat := by
  refine ⟨paddedFile, by decide +kernel, ?_⟩
  rintro ⟨result, hresult, -, hdescribes⟩
  have hparse : elfParseHeader paddedFile =
      some (some { entryPoint := 4096, ro := ⟨0, 4096, 1, 4096⟩ }) := by decide +kernel
  cases hparse.symm.trans hresult
  have hload : paddedFile.IsLoad paddedFile.stride true 1 :=
    ⟨by decide +kernel, by decide +kernel⟩
  have hvaddr := ((hdescribes _ rfl).present true 1 hload).vaddr
  revert hvaddr
  decide +kernel

end Osm.Proc
