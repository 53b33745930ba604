import Osm.Fs.Contents
import Osm.Util.Tfstool

/-!
# Images

What is in the files of an image, and when an image is in order. The host may give a file one block
more than its size needs, so that the blocks of a file are those in the slots of its inode up to the
first empty one. The kernel and the host find the same bytes in a file.
-/

namespace Osm.Util

open Osm.Core Osm.Lib Osm.Fs

/-- The number of slots of an inode that are in use. -/
def slotCount (inode : Block) : ℕ :=
  ((List.range tfsBlocksMax).takeWhile fun k => inodeBlock inode k ≠ 0).length

/-- The blocks that the file in an entry owns: the one with the inode and those in its slots. -/
def ownBlocks (D : Disk) (i : ℕ) : List ℕ :=
  if Listed D i then
    inodeNumber D i :: firstBlocks (D (inodeNumber D i)) (slotCount (D (inodeNumber D i)))
  else []

/-- The slots in use are the first ones, and they are as many as the size of the file needs, or one
more. -/
structure SlotsOk (inode : Block) : Prop where
  needed : dataCount inode ≤ slotCount inode
  spare  : slotCount inode ≤ dataCount inode + 1
  slots  : ∀ k < tfsBlocksMax, inodeBlock inode k ≠ 0 ↔ k < slotCount inode

/-- The image is in order: the names identify the files, no block has two owners, and the blocks
that are marked in the allocation block are the first three and those with an owner. -/
structure ImageInv (D : Disk) (totalblocks : ℕ) : Prop where
  directory : DirectoryOk (D tfsDirectoryBlock)
  system    : ∀ b < 3, bitmapGet (D tfsAllocationBlock) b = 1
  inode     : ∀ i, Listed D i → SlotsOk (D (inodeNumber D i))
  nodup     : ∀ i, (ownBlocks D i).Nodup
  range     : ∀ i, ∀ b ∈ ownBlocks D i, 3 ≤ b ∧ b < totalblocks
  marked    : ∀ i, ∀ b ∈ ownBlocks D i, bitmapGet (D tfsAllocationBlock) b = 1
  disjoint  : ∀ i j, i ≠ j → (ownBlocks D i).Disjoint (ownBlocks D j)
  owned     : ∀ b < totalblocks, bitmapGet (D tfsAllocationBlock) b = 1 →
    b < 3 ∨ ∃ i, b ∈ ownBlocks D i

variable {D D' : Disk} {i : ℕ} {inode : Block} {totalblocks : ℕ}

/-! ### The blocks of a file -/

lemma slotCount_eq {n : ℕ} (hn : n ≤ tfsBlocksMax)
    (hslots : ∀ k < tfsBlocksMax, inodeBlock inode k ≠ 0 ↔ k < n) : slotCount inode = n := by
  obtain ⟨m, hm⟩ := Nat.exists_eq_add_of_le hn
  have hfirst : ∀ k ∈ List.range n, decide (inodeBlock inode k ≠ 0) = true := by
    intro k hk
    have hlt := List.mem_range.mp hk
    exact decide_eq_true ((hslots k (by omega)).mpr hlt)
  rw [slotCount, hm, List.range_add, List.takeWhile_append_of_pos hfirst, List.length_append,
    List.length_range]
  cases m with
  | zero => simp
  | succ m =>
    have hzero : ¬inodeBlock inode n ≠ 0 := by
      rw [hslots n (by omega)]
      exact Nat.lt_irrefl _
    simp [List.range_succ_eq_map, hzero]

lemma slotCount_le (inode : Block) : slotCount inode ≤ tfsBlocksMax :=
  (List.takeWhile_prefix _).length_le.trans_eq List.length_range

/-- The data blocks are among those in the slots in use. -/
lemma SlotsOk.dataBlocks_subset (h : SlotsOk inode) {b : ℕ} (hb : b ∈ dataBlocks inode) :
    b ∈ firstBlocks inode (slotCount inode) := by
  obtain ⟨k, hk, rfl⟩ := List.mem_map.mp hb
  exact List.mem_map_of_mem
    (List.mem_range.mpr (lt_of_lt_of_le (List.mem_range.mp hk) h.needed))

lemma SlotsOk.dataCount_le (h : SlotsOk inode) : dataCount inode ≤ tfsBlocksMax :=
  h.needed.trans (slotCount_le inode)

lemma ownBlocks_listed (h : Listed D i) : ownBlocks D i =
    inodeNumber D i :: firstBlocks (D (inodeNumber D i)) (slotCount (D (inodeNumber D i))) :=
  if_pos h

lemma ownBlocks_free (h : ¬Listed D i) : ownBlocks D i = [] := if_neg h

lemma inodeNumber_mem_ownBlocks (h : Listed D i) : inodeNumber D i ∈ ownBlocks D i := by
  rw [ownBlocks_listed h]
  exact List.mem_cons_self

lemma ownBlocks_congr (h : SameInode D D' i) : ownBlocks D' i = ownBlocks D i := by
  by_cases hlisted : Listed D i
  · rw [ownBlocks_listed hlisted, ownBlocks_listed (h.listed_iff.mpr hlisted), h.inodeNumber_eq,
      h.block hlisted]
  · rw [ownBlocks_free hlisted, ownBlocks_free (mt h.listed_iff.mp hlisted)]

/-- A volume in order is an image in order. -/
lemma imageInv_of_allocInv (h : AllocInv D totalblocks) : ImageInv D totalblocks := by
  have hfile := fun i => h.sound.file i trivial
  have hcount : ∀ i, Listed D i → slotCount (D (inodeNumber D i)) = dataCount (D (inodeNumber D i)) :=
    fun i hlisted => slotCount_eq ((hfile i).inode hlisted).count ((hfile i).inode hlisted).slots
  have hown : ∀ i, ownBlocks D i = fileBlocks D i := by
    intro i
    by_cases hlisted : Listed D i
    · rw [ownBlocks_listed hlisted, fileBlocks_listed hlisted, hcount i hlisted]
      rfl
    · rw [ownBlocks_free hlisted, fileBlocks_free hlisted]
  refine ⟨h.sound.directory, h.sound.system, fun i hlisted => ?_, fun i => ?_, fun i => ?_,
    fun i => ?_, fun i j hij => ?_, fun b hb hget => ?_⟩
  · have hslots := ((hfile i).inode hlisted).slots
    exact ⟨(hcount i hlisted).ge, (hcount i hlisted).le.trans (Nat.le_succ _), by
      rw [hcount i hlisted]; exact hslots⟩
  · rw [hown]
    exact (hfile i).nodup
  · rw [hown]
    exact (hfile i).range
  · rw [hown]
    exact (hfile i).marked
  · rw [hown, hown]
    exact h.sound.disjoint i j trivial trivial hij
  · simp only [hown]
    exact h.owned b hb hget

/-! ### The bytes of a file -/

/-- The number of bytes that a round of `tfstool_read` copies, and how many there are after it. -/
lemma size_of_round {filesize count size : UInt32} {i : ℕ}
    (hcount : count.toNat = min (512 * i) filesize.toNat)
    (hsize : size = if filesize - count > 512 then 512 else filesize - count) :
    size.toNat = min 512 (filesize.toNat - count.toNat) ∧
      (count + size).toNat = count.toNat + size.toNat := by
  have hsub : (filesize - count).toNat = filesize.toNat - count.toNat :=
    UInt32.toNat_sub_of_le _ _ (UInt32.le_iff_toNat_le.mpr (by omega))
  have hbig : filesize - count > 512 ↔ 512 < (filesize - count).toNat := UInt32.lt_iff_toNat_lt
  have hsizeNat : size.toNat = min 512 (filesize.toNat - count.toNat) := by
    by_cases hlt : 512 < (filesize - count).toNat
    · have hle : 512 ≤ filesize.toNat - count.toNat := by omega
      rw [hsize, if_pos (hbig.mpr hlt), Nat.min_eq_left hle]
      rfl
    · have hle : filesize.toNat - count.toNat ≤ 512 := by omega
      rw [hsize, if_neg (mt hbig.mp hlt), Nat.min_eq_right hle, hsub]
  have hlt := filesize.toNat_lt
  have hsmall : count.toNat + size.toNat < 2 ^ 32 := by omega
  refine ⟨hsizeNat, ?_⟩
  rw [UInt32.toNat_add]
  exact Nat.mod_eq_of_lt hsmall

/-- The loop of `tfstool_read` copies the bytes of the file. -/
lemma readBlocks_contents (order : ByteOrder) (hslots : SlotsOk inode) {n i : ℕ} {count : UInt32}
    {target : List UInt8} (hn : i + n = tfsBlocksMax)
    (hcount : count.toNat = min (512 * i) (filesize inode).toNat)
    (htarget : target = (List.range count.toNat).map (byteAt D inode)) :
    readBlocks order D inode (filesize inode) n i count target = contents D inode := by
  have hneeded := hslots.needed
  have hmax := slotCount_le inode
  have h127 : tfsBlocksMax = 127 := rfl
  rw [dataCount] at hneeded
  rw [contents]
  generalize filesize inode = filesize at hcount hneeded ⊢
  have hend : slotCount inode ≤ i → count.toNat = filesize.toNat := by omega
  induction n generalizing i count target with
  | zero => rw [readBlocks, htarget, hend (by omega)]
  | succ n ih =>
    rw [readBlocks]
    have hbnum : ntohl order (hostRead order inode (4 + 4 * i)) = inodeBlock inode i :=
      ntohl_hostRead ..
    simp only [hbnum]
    by_cases hzero : inodeBlock inode i = 0
    · have hle : slotCount inode ≤ i := by
        by_contra hlt
        exact (hslots.slots i (by omega)).mpr (not_le.mp hlt) hzero
      rw [if_pos hzero, htarget, hend hle]
    · rw [if_neg hzero]
      obtain ⟨size, hsize⟩ : ∃ size, size =
          if filesize - count > 512 then 512 else filesize - count := ⟨_, rfl⟩
      rw [← hsize]
      obtain ⟨hsizeNat, hadd⟩ := size_of_round hcount hsize
      have hcount' : (count + size).toNat = min (512 * (i + 1)) filesize.toNat := by omega
      refine ih (by omega) ?_ hcount' (by omega)
      rw [hadd, htarget, bytesOf_eq (by omega), ← map_range_append, Nat.add_zero]
      refine congrArg _ (List.map_congr_left fun x hx => ?_)
      have hx' := List.mem_range.mp hx
      have hpos : count.toNat = 512 * i := by omega
      rw [hpos]

/-! ### Finding a file -/

section Lookup

variable {index : ℕ}

variable (hlisted : Listed D index)
include hlisted

/-- `tfstool_read` finds a file by its name and copies its bytes. -/
lemma tfstoolRead_listed (order : ByteOrder) (h : ImageInv D totalblocks)
    (hname : ValidName (fileName D index)) :
    tfstoolRead order (fileName D index) D = some (fileContents D index) := by
  have hfind : ((List.range tfsMaxFiles).find? fun i =>
      strncmp (D tfsDirectoryBlock) (entryNameAddr i) (fileName D index) tfsFilenameMax = 0) =
        some index := by
    refine find?_index hlisted.1 fun i hi => ?_
    rw [decide_eq_true_eq, strncmp_eq_zero_iff hname.noNul hname.short.le]
    exact h.directory.entryName_eq_iff hname hlisted.1 hlisted.2 rfl hi
  have hinode : (ntohl order (hostRead order (D tfsDirectoryBlock) (sizeofDirentry * index))).toNat =
      inodeNumber D index := by
    rw [ntohl_hostRead]
    rfl
  have hsize : ntohl order (hostRead order (D (inodeNumber D index)) 0) =
      filesize (D (inodeNumber D index)) := ntohl_hostRead ..
  rw [tfstoolRead, hfind]
  dsimp only
  rw [hinode, hsize, fileContents]
  have hcount : (0 : UInt32).toNat = min (512 * 0) (filesize (D (inodeNumber D index))).toNat := by
    rw [Nat.mul_zero, Nat.zero_min, UInt32.toNat_zero]
  exact congrArg some
    (readBlocks_contents order (h.inode index hlisted) (Nat.zero_add _) hcount rfl)

/-- `tfs_open` finds a file by its name. -/
lemma tfsOpen_listed (h : ImageInv D totalblocks) (htotal : totalblocks ≤ 2 ^ 31)
    (hname : ValidName (fileName D index)) :
    (tfsOpen (fileName D index)).run (fun _ => true) D = (↑(inodeNumber D index), D) := by
  have hfind := h.directory.findEntry_eq hname hlisted.1 hlisted.2 rfl
  have hrange := (h.range index _ (inodeNumber_mem_ownBlocks hlisted)).2
  have hint : (entryInode (D tfsDirectoryBlock) index).toBitVec.toInt = inodeNumber D index :=
    toInt_of_lt (lt_of_lt_of_le hrange htotal)
  have hends : (tfsOpen (fileName D index)).Ends (fun _ => true) 0 D
      fun r _ D' => r = ↑(inodeNumber D index) ∧ D' = D := by
    rw [tfsOpen]
    refine Request.ends_bind (Request.ends_readCell_true ?_)
    dsimp only
    rw [hfind]
    exact Request.ends_pure ⟨hint, rfl⟩
  exact Prod.ext hends.run.1 hends.run.2

end Lookup

end Osm.Util
