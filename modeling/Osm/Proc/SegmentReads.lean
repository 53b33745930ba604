import Osm.Proc.Start

/-!
# Arbitrary files

What a file can do to the kernel that loads it. `elf_parse_header` goes to a position that the file
gives without looking at its sign, and it does not compare the size of a segment in the file with
its size in memory, for which `process_start` maps pages. How the segments are copied there is
modelled by the addresses that are stored to, up to the first failed assertion.
-/

namespace Osm.Proc

open Osm.Core Osm.Fs Osm.Vm

/-- What `vfs_read` returns at a position of the file. -/
def ByteFile.vfsRead (file : ByteFile) (position : ℕ) (bufsize : ℤ) : ℤ :=
  if bufsize < 0 then vfsInvalidParams else file.read position bufsize.toNat

/-- The copy of a segment in `process_start`: the addresses that are stored to, and whether the
assertions hold. -/
def copySegment (file : ByteFile) (seg : ElfSegment) : List UInt32 × Bool :=
  if seg.size > 0 then
    if seg.vaddr ≥ UInt32.ofNat pageSize then
      match seekFile (toInt seg.location) with
      | none => ([], false)
      | some position =>
        let read := file.vfsRead position (toInt seg.size)
        ((List.range read.toNat).map fun j => seg.vaddr + UInt32.ofNat j, read = toInt seg.size)
    else ([], false)
  else ([], true)

/-- The addresses to which the copies of the two segments store, of which the writable one is the
second one. -/
def copySegments (file : ByteFile) (elf : ElfInfo) (w : Bool) : List UInt32 :=
  let ro := copySegment file elf.ro
  if w then if ro.2 then (copySegment file elf.rw).1 else [] else ro.1

/-- Loading the file is contained: the parser returns, and if it accepts the file, then the
segments are not larger than their pages, and the copies store into them only. -/
def ByteFile.Contained (file : ByteFile) : Prop :=
  ∃ result, elfParseHeader file = some result ∧ ∀ elf, result = some elf → ∀ w,
    (elf.segment w).size.toNat ≤ pageSize * (elf.segment w).pages.toNat ∧
    ∀ a ∈ copySegments file elf w,
      pageOf a ∈ pagesOf (elf.segment w).addr (toInt (elf.segment w).pages).toNat

variable {file : ByteFile} {hdr : Elf32Phdr} {elf : ElfInfo} {n : ℕ}

/-! ### The pages of a segment -/

end Osm.Proc
