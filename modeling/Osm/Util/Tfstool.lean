import Osm.Fs.Tfs
import Osm.Util.Bitmap

/-!
# Volumes on the host

A model of `tfstool_write`, `tfstool_read` and `tfstool_delete` of `util/tfstool.c`. An image is a
file with the blocks of a volume; it is read and written without errors. The host keeps a word in
its own byte order and converts what it reads from the image and writes to it.
-/

namespace Osm.Util

open Osm.Core Osm.Lib Osm.Fs

/-- `TFS_MAX_FILESIZE`. -/
def tfsMaxFilesize : UInt32 := 65024

/-! ### The library of the host -/

/-- What is left of a file of the host, and whether a read has met its end (`feof`). -/
structure HostFile where
  rest : List UInt8
  eof  : Bool

/-- `fread` of at most `n` bytes: the buffer, the number of bytes, and what is left of the file. -/
def fread (data : Block) (n : ℕ) (file : HostFile) : Block × ℕ × HostFile :=
  (fun x => if x < n then file.rest.getD x (data x) else data x, min n file.rest.length,
    ⟨file.rest.drop n, file.eof || decide (file.rest.length < n)⟩)

/-- `strncmp` for a string in memory and one that was passed. -/
def strncmp (m : Memory) (str1 : ℕ) : List UInt8 → ℕ → ℤ
  | _, 0             => 0
  | [], _ + 1        => (m str1).toNat
  | c :: str2, n + 1 =>
    if m str1 ≠ c then (m str1).toNat - c.toNat
    else if c = 0 then 0
    else strncmp m (str1 + 1) str2 n

/-- `strncpy`, which fills the target with zeros. -/
def strncpy (m : Memory) (target : ℕ) (source : List UInt8) (n : ℕ) : Memory := fun x =>
  if target ≤ x ∧ x < target + n then source.getD (x - target) 0 else m x

variable (order : ByteOrder)

/-! ### Writing a file -/

/-- The loop of `tfstool_write` over the first entries of the directory: `none` if one of them has
the name, and otherwise the first one that is free. -/
def hostFreeEntry (md : Block) (target : List UInt8) : ℕ → Option (Option ℕ)
  | 0     => some none
  | i + 1 => do
    let index ← hostFreeEntry md target i
    let index := if hostRead order md (sizeofDirentry * i) = 0 ∧ index = none then some i else index
    if strncmp md (entryNameAddr i) target tfsFilenameMax = 0 then none else some index

/-- The variables of the loop of `tfstool_write` over the blocks of a file. -/
structure WriteState where
  disk     : Disk
  bat      : Block
  inode    : Block
  data     : Block
  source   : HostFile
  filesize : UInt32

/-- A round of the loop, with the block that has been found for it. -/
def writeRound (i bnum : ℕ) (bat : Block) (st : WriteState) : WriteState :=
  let (data, bytes, source) := fread st.data tfsBlockSize st.source
  { disk     := Function.update st.disk bnum data
    bat      := bat
    inode    := hostWrite order st.inode (4 + 4 * i) (ntohl order (UInt32.ofNat bnum))
    data     := data
    source   := source
    filesize := st.filesize + UInt32.ofNat bytes }

/-- The loop from the block `i` on, with the number of rounds that are left, and `writeok` after
it. -/
def writeBlocks (numBlocks : ℕ) : ℕ → ℕ → WriteState → WriteState × Bool
  | 0, _, st     => (st, true)
  | n + 1, i, st =>
    if ¬ st.filesize < tfsMaxFilesize then (st, true)
    else
      let found := hostBitmapFindnset order st.bat numBlocks
      let bnum := (UInt32.ofInt found.2).toNat
      if 2 < bnum ∧ bnum < numBlocks then
        let st := writeRound order i bnum found.1 st
        if st.source.eof then (st, true) else writeBlocks numBlocks n (i + 1) st
      else ({ st with bat := found.1 }, false)

/-- The end of `tfstool_write`, where the inode, the directory and the allocation block are
written. -/
def writeEnd (st : WriteState) (md : Block) (index inodeBnum : ℕ) (target : List UInt8) : Disk :=
  let inode := hostWrite order st.inode 0 (ntohl order st.filesize)
  let md := hostWrite order md (sizeofDirentry * index) (ntohl order (UInt32.ofNat inodeBnum))
  let md := strncpy md (entryNameAddr index) target tfsFilenameMax
  let disk := Function.update st.disk inodeBnum inode
  Function.update (Function.update disk tfsDirectoryBlock md) tfsAllocationBlock st.bat

/-- `tfstool_write` of a file `source` under the name `target`, on an image of `numBlocks` blocks,
and with what is in the buffer `data` at first: the image, and whether success is reported. -/
def tfstoolWrite (numBlocks : ℕ) (data : Block) (source target : List UInt8) (disk : Disk) :
    Disk × Bool :=
  let md := disk tfsDirectoryBlock
  match hostFreeEntry order md target tfsMaxFiles with
  | none              => (disk, false)
  | some none         => (disk, false)
  | some (some index) =>
    let found := hostBitmapFindnset order (disk tfsAllocationBlock) numBlocks
    let inodeBnum := (UInt32.ofInt found.2).toNat
    if 2 < inodeBnum ∧ inodeBnum < numBlocks then
      let (st, writeok) := writeBlocks order numBlocks numBlocks 0
        ⟨disk, found.1, fun _ => 0, data, ⟨source, false⟩, 0⟩
      if st.filesize.toNat ≠ source.length then (st.disk, false)
      else if writeok then (writeEnd order st md index inodeBnum target, true)
      else (st.disk, false)
    else (disk, false)

/-! ### Reading a file -/

/-- The loop of `tfstool_read` from the block `i` on, with the number of rounds that are left and
what has been written to the file of the host. -/
def readBlocks (disk : Disk) (inode : Block) (filesize : UInt32) :
    ℕ → ℕ → UInt32 → List UInt8 → List UInt8
  | 0, _, _, target         => target
  | n + 1, i, count, target =>
    let bnum := ntohl order (hostRead order inode (4 + 4 * i))
    if bnum = 0 then target
    else
      let size := filesize - count
      let size := if size > 512 then 512 else size
      readBlocks disk inode filesize n (i + 1) (count + size)
        (target ++ bytesOf (disk bnum.toNat) 0 size.toNat)

/-- `tfstool_read`: what is written to the file of the host, if there is a file with the name. -/
def tfstoolRead (source : List UInt8) (disk : Disk) : Option (List UInt8) :=
  let md := disk tfsDirectoryBlock
  match (List.range tfsMaxFiles).find? fun i =>
      strncmp md (entryNameAddr i) source tfsFilenameMax = 0 with
  | none       => none
  | some index =>
    let inode := disk (ntohl order (hostRead order md (sizeofDirentry * index))).toNat
    let filesize := ntohl order (hostRead order inode 0)
    some (readBlocks order disk inode filesize tfsBlocksMax 0 0 [])

/-! ### Deleting a file -/

/-- The first entry with a name. -/
def hostFindEntry (md : Block) (filename : List UInt8) : Option ℕ :=
  (List.range tfsMaxFiles).find? fun i => strncmp md (entryNameAddr i) filename tfsFilenameMax = 0

/-- The block in a slot of an inode. -/
def hostInodeBlock (inode : Block) (i : ℕ) : ℕ :=
  (ntohl order (hostRead order inode (4 + 4 * i))).toNat

/-- The slots of an inode over which the loop of `tfstool_delete` runs. -/
def hostSlots (inode : Block) : List ℕ :=
  (List.range tfsBlocksMax).takeWhile fun i => hostInodeBlock order inode i ≠ 0

/-- `tfstool_delete`. -/
def tfstoolDelete (filename : List UInt8) (disk : Disk) : Disk :=
  let md := disk tfsDirectoryBlock
  match hostFindEntry md filename with
  | none       => disk
  | some index =>
    let inodeBn := (ntohl order (hostRead order md (sizeofDirentry * index))).toNat
    let inode := disk inodeBn
    let bat := (hostSlots order inode).foldl
      (fun bat i => hostBitmapSet order bat (hostInodeBlock order inode i) false)
      (disk tfsAllocationBlock)
    let bat := hostBitmapSet order bat inodeBn false
    let md := hostWrite order md (sizeofDirentry * index) 0
    let md := Function.update md (entryNameAddr index) 0
    Function.update (Function.update disk tfsAllocationBlock bat) tfsDirectoryBlock md

/-! ### The strings -/

section Strings

variable {m : Memory} {a n : ℕ} {s : List UInt8}

/-- Strings that compare equal are equal. -/
lemma strncmp_eq_zero_iff (hs : 0 ∉ s) (hlen : s.length ≤ n) :
    strncmp m a s n = 0 ↔ stringAt m a n = s := by
  induction s generalizing a n with
  | nil =>
    rcases n with _ | n
    · exact iff_of_true rfl rfl
    rw [strncmp, stringAt]
    by_cases hzero : m a = 0
    · simp [hzero]
    · have hne : (m a).toNat ≠ 0 := fun h => hzero (UInt8.toNat_inj.mp h)
      simp only [if_neg hzero, reduceCtorEq, iff_false]
      exact_mod_cast hne
  | cons c s ih =>
    obtain ⟨n, rfl⟩ := Nat.exists_eq_add_one_of_ne_zero (Nat.ne_of_gt (Nat.zero_lt_of_lt hlen))
    rw [List.mem_cons, not_or] at hs
    have hc : c ≠ 0 := fun h => hs.1 h.symm
    rw [strncmp, stringAt]
    by_cases hmc : m a = c
    · have hzero : m a ≠ 0 := fun h => hc (hmc.symm.trans h)
      rw [if_neg (not_not.mpr hmc), if_neg hc, if_neg hzero, hmc, List.cons.injEq,
        ih hs.2 (Nat.le_of_succ_le_succ hlen)]
      exact (and_iff_right rfl).symm
    · rw [if_pos hmc]
      have hne : ((m a).toNat : ℤ) - c.toNat ≠ 0 := fun h =>
        hmc (UInt8.toNat_inj.mp (by omega))
      refine iff_of_false hne ?_
      split
      · exact List.cons_ne_nil _ _ ∘ Eq.symm
      · rw [List.cons.injEq]
        exact fun h => hmc h.1

/-- `strncpy` stays in its target. -/
lemma strncpy_of_outside {target x : ℕ} (hx : x < target ∨ target + n ≤ x) :
    strncpy m target s n x = m x :=
  if_neg (by omega)

/-- The string that was copied is found in the target. -/
lemma stringAt_strncpy {target : ℕ} (hs : 0 ∉ s) (hlen : s.length < n) :
    stringAt (strncpy m target s n) target n = s := by
  have hshift : ∀ (l : List UInt8) (k : ℕ), s.drop k = l → k + l.length < n →
      stringAt (strncpy m target s n) (target + k) (n - k) = l := by
    intro l
    induction l with
    | nil =>
      intro k hk hkn
      obtain ⟨d, hd⟩ : ∃ d, n - k = d + 1 := ⟨n - k - 1, by simp at hkn; omega⟩
      have hend : s.length ≤ k := List.drop_eq_nil_iff.mp hk
      have hzero : strncpy m target s n (target + k) = 0 := by
        rw [strncpy, if_pos (by omega), Nat.add_sub_cancel_left, List.getD_eq_default _ _ hend]
      rw [hd, stringAt, if_pos hzero]
    | cons c l ih =>
      intro k hk hkn
      rw [List.length_cons] at hkn
      obtain ⟨d, hd⟩ : ∃ d, n - k = d + 1 := ⟨n - k - 1, by omega⟩
      have hget : s[k]? = some c := by
        rw [← List.head?_drop, hk]
        rfl
      have hbyte : strncpy m target s n (target + k) = c := by
        rw [strncpy, if_pos (by omega), Nat.add_sub_cancel_left, List.getD_eq_getElem?_getD, hget]
        rfl
      have hc : c ≠ 0 := by
        rintro rfl
        exact hs (List.mem_of_getElem? hget)
      have hrest : s.drop (k + 1) = l := by
        rw [← List.drop_drop, hk]
        rfl
      have htail := ih (k + 1) hrest (by omega)
      have hsub : n - (k + 1) = d := by omega
      rw [hsub, ← Nat.add_assoc] at htail
      rw [hd, stringAt, hbyte, if_neg hc, htail]
  exact hshift s 0 rfl (by omega)

end Strings

end Osm.Util
