import Osm.Fs.Tfs
import Mathlib.Data.List.Nodup

/-!
# Volumes

What is on the disk of a volume, and when it is in order. A file is an entry of the directory
with an inode; it owns the block of the inode and the blocks of its data. In a volume in order
the names identify the files, no block has two owners and every block with an owner is marked in
the allocation block. In addition, the blocks that are marked may be exactly those with an owner
and the first three.

Some results need a volume in order for some of its files only, which are given by a predicate
on the entries.
-/

namespace Osm.Fs

open Osm.Core Osm.Lib

/-! ### Files -/

/-- The number of data blocks of a file. -/
def dataCount (inode : Block) : ℕ := ((filesize inode).toNat + 511) / 512

/-- The blocks in the first slots of an inode. -/
def firstBlocks (inode : Block) (n : ℕ) : List ℕ :=
  (List.range n).map fun k => (inodeBlock inode k).toNat

/-- The data blocks of a file. -/
def dataBlocks (inode : Block) : List ℕ := firstBlocks inode (dataCount inode)

variable (D D' : Disk) (i : ℕ)

/-- The number of the block with the inode of an entry. -/
def inodeNumber : ℕ := (entryInode (D tfsDirectoryBlock) i).toNat

/-- The entry is in use. -/
def Listed : Prop := i < tfsMaxFiles ∧ entryInode (D tfsDirectoryBlock) i ≠ 0

instance : Decidable (Listed D i) := inferInstanceAs (Decidable (_ ∧ _))

/-- The name of the file in an entry. -/
def fileName : List UInt8 := entryName (D tfsDirectoryBlock) i

/-- The blocks that the file in an entry owns. -/
def fileBlocks : List ℕ :=
  if Listed D i then inodeNumber D i :: dataBlocks (D (inodeNumber D i)) else []

/-- The inode has room for the blocks of the file, and they are in its first slots. -/
structure InodeOk (inode : Block) : Prop where
  count : dataCount inode ≤ tfsBlocksMax
  slots : ∀ k < tfsBlocksMax, inodeBlock inode k ≠ 0 ↔ k < dataCount inode

/-- Files have different names, which are not empty; free entries have an empty name. -/
structure DirectoryOk (md : Block) : Prop where
  nonempty : ∀ i < tfsMaxFiles, entryInode md i ≠ 0 → entryName md i ≠ []
  distinct : ∀ i < tfsMaxFiles, ∀ j < tfsMaxFiles, entryInode md i ≠ 0 → entryInode md j ≠ 0 →
    entryName md i = entryName md j → i = j
  free     : ∀ i < tfsMaxFiles, entryInode md i = 0 → entryName md i = []

/-- What a file needs on its own. -/
structure FileOk (totalblocks : ℕ) : Prop where
  inode  : Listed D i → InodeOk (D (inodeNumber D i))
  nodup  : (fileBlocks D i).Nodup
  range  : ∀ b ∈ fileBlocks D i, 3 ≤ b ∧ b < totalblocks
  marked : ∀ b ∈ fileBlocks D i, bitmapGet (D tfsAllocationBlock) b = 1

/-- The volume is in order for the files in the entries of which `P` holds. -/
structure SoundOn (P : ℕ → Prop) (totalblocks : ℕ) : Prop where
  directory : DirectoryOk (D tfsDirectoryBlock)
  system    : ∀ b < 3, bitmapGet (D tfsAllocationBlock) b = 1
  file      : ∀ i, P i → FileOk D i totalblocks
  disjoint  : ∀ i j, P i → P j → i ≠ j → (fileBlocks D i).Disjoint (fileBlocks D j)

/-- The volume is in order. -/
abbrev Sound (totalblocks : ℕ) : Prop := SoundOn D (fun _ => True) totalblocks

/-- The volume is in order, and the blocks without an owner are not marked. -/
structure AllocInv (totalblocks : ℕ) : Prop where
  sound : Sound D totalblocks
  owned : ∀ b < totalblocks, bitmapGet (D tfsAllocationBlock) b = 1 → b < 3 ∨ ∃ i, b ∈ fileBlocks D i

/-! ### What two disks have in common -/

/-- The entry and the inode of a file are the same on two disks. -/
structure SameInode : Prop where
  inode : entryInode (D' tfsDirectoryBlock) i = entryInode (D tfsDirectoryBlock) i
  name  : fileName D' i = fileName D i
  block : Listed D i → D' (inodeNumber D i) = D (inodeNumber D i)

/-- The entry, the inode and the contents of a file are the same on two disks. -/
structure SameFile : Prop where
  inode  : entryInode (D' tfsDirectoryBlock) i = entryInode (D tfsDirectoryBlock) i
  name   : fileName D' i = fileName D i
  blocks : ∀ b ∈ fileBlocks D i, D' b = D b

variable {D D' i} {totalblocks : ℕ} {P Q : ℕ → Prop}

lemma fileBlocks_listed (h : Listed D i) :
    fileBlocks D i = inodeNumber D i :: dataBlocks (D (inodeNumber D i)) := if_pos h

lemma fileBlocks_free (h : ¬Listed D i) : fileBlocks D i = [] := if_neg h

lemma listed_of_mem_fileBlocks {b : ℕ} (h : b ∈ fileBlocks D i) : Listed D i := by
  by_contra hfree
  rw [fileBlocks_free hfree] at h
  cases h

lemma inodeNumber_mem_fileBlocks (h : Listed D i) : inodeNumber D i ∈ fileBlocks D i := by
  rw [fileBlocks_listed h]
  exact List.mem_cons_self

namespace SameInode

lemma inodeNumber_eq (h : SameInode D D' i) : inodeNumber D' i = inodeNumber D i := by
  rw [inodeNumber, h.inode, inodeNumber]

lemma listed_iff (h : SameInode D D' i) : Listed D' i ↔ Listed D i := by
  rw [Listed, h.inode, Listed]

lemma fileBlocks_eq (h : SameInode D D' i) : fileBlocks D' i = fileBlocks D i := by
  by_cases hlisted : Listed D i
  · rw [fileBlocks_listed hlisted, fileBlocks_listed (h.listed_iff.mpr hlisted), h.inodeNumber_eq,
      h.block hlisted]
  · rw [fileBlocks_free hlisted, fileBlocks_free (mt h.listed_iff.mp hlisted)]

/-- A file is still in order if its blocks are still marked. -/
lemma fileOk (h : SameInode D D' i) (hok : FileOk D i totalblocks)
    (hmarked : ∀ b ∈ fileBlocks D i, bitmapGet (D' tfsAllocationBlock) b = 1) :
    FileOk D' i totalblocks where
  inode hlisted := by
    have hold := h.listed_iff.mp hlisted
    rw [h.inodeNumber_eq, h.block hold]
    exact hok.inode hold
  nodup := by
    rw [h.fileBlocks_eq]
    exact hok.nodup
  range := by
    rw [h.fileBlocks_eq]
    exact hok.range
  marked := by
    rw [h.fileBlocks_eq]
    exact hmarked

end SameInode

lemma SameFile.sameInode (h : SameFile D D' i) : SameInode D D' i where
  inode := h.inode
  name := h.name
  block hlisted := h.blocks _ (inodeNumber_mem_fileBlocks hlisted)

lemma SameFile.refl (D : Disk) (i : ℕ) : SameFile D D i := ⟨rfl, rfl, fun _ _ => rfl⟩

/-! ### Volumes in order -/

lemma SoundOn.mono (h : SoundOn D P totalblocks) (hPQ : ∀ i, Q i → P i) :
    SoundOn D Q totalblocks :=
  ⟨h.directory, h.system, fun i hi => h.file i (hPQ i hi),
    fun i j hi hj => h.disjoint i j (hPQ i hi) (hPQ j hj)⟩

lemma FileOk.free (h : ¬Listed D i) : FileOk D i totalblocks := by
  have hnil := fileBlocks_free h
  exact ⟨fun hlisted => absurd hlisted h, by simp [hnil], by simp [hnil], by simp [hnil]⟩

/-- A change outside an entry leaves a volume in order for the other files. -/
lemma SoundOn.change (h : SoundOn D P totalblocks) (hPQ : ∀ i, Q i → P i)
    (hdir : DirectoryOk (D' tfsDirectoryBlock)) (hsame : ∀ i, Q i → SameInode D D' i)
    (hmarked : ∀ b, bitmapGet (D tfsAllocationBlock) b = 1 →
      (b < 3 ∨ ∃ i, Q i ∧ b ∈ fileBlocks D i) → bitmapGet (D' tfsAllocationBlock) b = 1) :
    SoundOn D' Q totalblocks where
  directory := hdir
  system b hb := hmarked b (h.system b hb) (Or.inl hb)
  file i hi := (hsame i hi).fileOk (h.file i (hPQ i hi)) fun b hb =>
    hmarked b ((h.file i (hPQ i hi)).marked b hb) (Or.inr ⟨i, hi, hb⟩)
  disjoint i j hi hj hij := by
    rw [(hsame i hi).fileBlocks_eq, (hsame j hj).fileBlocks_eq]
    exact h.disjoint i j (hPQ i hi) (hPQ j hj) hij

/-- A volume that is in order for the other files is in order if one file is, too. -/
lemma SoundOn.insert {index : ℕ} (h : SoundOn D (· ≠ index) totalblocks)
    (hfile : FileOk D index totalblocks)
    (hdisjoint : ∀ i, i ≠ index → (fileBlocks D index).Disjoint (fileBlocks D i)) :
    Sound D totalblocks where
  directory := h.directory
  system := h.system
  file i _ := by
    by_cases hi : i = index
    · exact hi ▸ hfile
    · exact h.file i hi
  disjoint i j _ _ hij := by
    by_cases hi : i = index
    · subst hi
      exact hdisjoint j hij.symm
    · by_cases hj : j = index
      · subst hj
        exact List.disjoint_symm (hdisjoint i hi)
      · exact h.disjoint i j hi hj hij

lemma Sound.congr (h : Sound D totalblocks) (hsame : ∀ i, SameInode D D' i)
    (hmd : D' tfsDirectoryBlock = D tfsDirectoryBlock)
    (hbat : D' tfsAllocationBlock = D tfsAllocationBlock) : Sound D' totalblocks := by
  refine h.change (fun _ _ => trivial) ?_ (fun i _ => hsame i) fun b hb _ => ?_
  · rw [hmd]
    exact h.directory
  · rwa [hbat]

lemma AllocInv.congr (h : AllocInv D totalblocks) (hsame : ∀ i, SameInode D D' i)
    (hmd : D' tfsDirectoryBlock = D tfsDirectoryBlock)
    (hbat : D' tfsAllocationBlock = D tfsAllocationBlock) : AllocInv D' totalblocks where
  sound := Sound.congr h.sound hsame hmd hbat
  owned b hb hget := by
    rw [hbat] at hget
    refine (h.owned b hb hget).imp_right fun ⟨i, hi⟩ => ⟨i, ?_⟩
    rwa [(hsame i).fileBlocks_eq]

/-- Blocks that are marked differ from those that are not. -/
lemma FileOk.ne_of_unmarked (h : FileOk D i totalblocks) {b c : ℕ} (hb : b ∈ fileBlocks D i)
    (hc : bitmapGet (D tfsAllocationBlock) c = 0) : b ≠ c := by
  rintro rfl
  rw [h.marked b hb] at hc
  cases hc

end Osm.Fs
