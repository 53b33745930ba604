import Osm.Fs.Space

/-!
# Files of bytes

On a volume in order, `tfs_read` and `tfs_write` are reading and writing at a position of a string
of bytes, which is the contents of the file and keeps its length.
-/

namespace Osm.Fs

open Osm.Core Osm.Lib

/-- What `tfs_write` changes on a volume: the contents of one file. -/
structure WritesFile (D : Disk) (i : ℕ) (bytes : List UInt8) (D' : Disk) : Prop where
  contents   : fileContents D' i = bytes
  others     : ∀ j, Listed D j → j ≠ i → fileContents D' j = fileContents D j
  inodes     : ∀ j, Listed D j → D' (inodeNumber D j) = D (inodeNumber D j)
  directory  : D' tfsDirectoryBlock = D tfsDirectoryBlock
  allocation : D' tfsAllocationBlock = D tfsAllocationBlock

/-- The files on the disk `D` are strings of bytes, all requests succeeding. The buffers of the
caller and those of the filesystem may have anything in them. -/
structure ByteFiles (totalblocks : ℕ) (D : Disk) : Prop where
  /-- Writing puts the bytes for which there is room at the position. -/
  write : ∀ i, Listed D i → ∀ (bat : Block) (rest : ℕ → UInt32) (data : ℕ → UInt8) (n : ℕ)
    (offset : ℤ), 0 ≤ offset → offset ≤ (fileContents D i).length →
    ∃ D', (tfsWrite totalblocks bat rest (inodeNumber D i) data n offset).run (fun _ => true) D =
        (min (n : ℤ) ((fileContents D i).length - offset), D') ∧
      WritesFile D i (splice (fileContents D i) offset.toNat
        ((List.range (min n ((fileContents D i).length - offset.toNat))).map data)) D'
  /-- Reading gives the bytes that are at the position. -/
  read : ∀ i, Listed D i → ∀ (bat : Block) (rest : ℕ → UInt32) (n : ℕ) (offset : ℤ),
    0 ≤ offset → offset ≤ (fileContents D i).length →
    (tfsRead totalblocks bat rest (inodeNumber D i) n offset).run (fun _ => true) D =
      ((min (n : ℤ) ((fileContents D i).length - offset), slice (fileContents D i) offset.toNat
        (min n ((fileContents D i).length - offset.toNat))), D)
  /-- Positions outside the file are refused. -/
  refused : ∀ i, Listed D i → ∀ (bat : Block) (rest : ℕ → UInt32) (data : ℕ → UInt8) (n : ℕ)
    (offset : ℤ), offset < 0 ∨ (fileContents D i).length < offset →
    (tfsWrite totalblocks bat rest (inodeNumber D i) data n offset).run (fun _ => true) D =
        (vfsError, D) ∧
      (tfsRead totalblocks bat rest (inodeNumber D i) n offset).run (fun _ => true) D =
        ((vfsError, []), D)
  /-- A new file is filled with zeros. -/
  created : ∀ filename, ValidName filename → ∀ (size : ℤ) (D' : Disk), 0 ≤ size → size < 2 ^ 31 →
    (tfsCreate totalblocks filename size).run (fun _ => true) D = (vfsOk, D') →
    ∃ i, Listed D' i ∧ fileName D' i = filename ∧
      fileContents D' i = List.replicate size.toNat 0

variable {D D' : Disk} {totalblocks i : ℕ}

lemma length_fileContents (D : Disk) (i : ℕ) :
    (fileContents D i).length = (filesize (D (inodeNumber D i))).toNat := by
  rw [fileContents, contents, List.length_map, List.length_range]

lemma natCast_min_sub {n start size : ℕ} (h : start ≤ size) :
    ((min n (size - start) : ℕ) : ℤ) = min (n : ℤ) (size - start) := by
  omega

lemma add_min_sub_le {n start size : ℕ} (h : start ≤ size) :
    start + min n (size - start) ≤ size := by
  omega

/-- Other files, inodes, the directory and the allocation block are not in the data blocks of a
file. -/
lemma Overwritten.writesFile {start written : ℕ} {buffer : ℕ → UInt8} (hsound : Sound D totalblocks)
    (hlisted : Listed D i)
    (h : Overwritten D (D (inodeNumber D i)) start written buffer D')
    (hroom : start + written ≤ (filesize (D (inodeNumber D i))).toNat) :
    WritesFile D i (splice (fileContents D i) start ((List.range written).map buffer)) D' := by
  obtain ⟨hbat, hmd, hsame⟩ := hsound.write_sameInode hlisted h.frame
  refine ⟨?_, fun j hj hji => ?_, fun j hj => (hsame j).block hj, hmd, hbat⟩
  · rw [fileContents, (hsame i).inodeNumber_eq, (hsame i).block hlisted, h.contents_eq hroom]
    rfl
  · refine SameFile.fileContents_eq ⟨(hsame j).inode, (hsame j).name, fun b hb => ?_⟩ hj
    refine h.frame b fun hmem => ?_
    refine hsound.disjoint j i trivial trivial hji hb ?_
    rw [fileBlocks_listed hlisted]
    exact List.mem_cons_of_mem _ hmem

/-- Positions outside the file are refused. -/
lemma refused_of_outside {number n : ℕ} {offset : ℤ} (hcount : dataCount (D number) ≤ tfsBlocksMax)
    (hnumber : 3 ≤ number ∧ number < totalblocks)
    (houtside : offset < 0 ∨ (filesize (D number)).toNat < offset) (bat : Block)
    (rest : ℕ → UInt32) (data : ℕ → UInt8) :
    (tfsWrite totalblocks bat rest number data n offset).run (fun _ => true) D = (vfsError, D) ∧
      (tfsRead totalblocks bat rest number n offset).run (fun _ => true) D =
        ((vfsError, []), D) := by
  have hsize := filesize_toInt hcount
  have hwrite : (tfsWrite totalblocks bat rest number data n offset).Ends (fun _ => true) 0 D
      fun r _ D' => r = vfsError ∧ D' = D := by
    rw [tfsWrite, if_neg (by omega)]
    refine Request.ends_bind (Request.ends_readCell_true ?_)
    dsimp only
    rw [Int.toNat_natCast, hsize, if_pos houtside]
    exact Request.ends_pure ⟨rfl, rfl⟩
  have hread : (tfsRead totalblocks bat rest number n offset).Ends (fun _ => true) 0 D
      fun r _ D' => r = (vfsError, []) ∧ D' = D := by
    rw [tfsRead, if_neg (by omega)]
    refine Request.ends_bind (Request.ends_readCell_true ?_)
    dsimp only
    rw [Int.toNat_natCast, hsize, if_pos houtside]
    exact Request.ends_pure ⟨rfl, rfl⟩
  exact ⟨Prod.ext hwrite.run.1 hwrite.run.2, Prod.ext hread.run.1 hread.run.2⟩

/-- The contents of a file that has just been created. -/
lemma CreatedDisk.fileContents_eq {filename : List UInt8} {size : ℤ} {index number : ℕ}
    {bat inode : Block} (h : CreatedDisk filename D index number bat inode D')
    (hcreated : Created totalblocks filename size D index number bat inode)
    (hnumber : inodeNumber D' index = number) (hpos : 0 ≤ size) (hlt : size < 2 ^ 31) :
    fileContents D' index = List.replicate size.toNat 0 := by
  have hsize : (filesize inode).toNat = size.toNat := by
    rw [hcreated.filesize_eq, UInt32.ofInt, UInt32.toNat_ofNat']
    omega
  rw [fileContents, hnumber, h.node, contents, hsize]
  refine List.eq_replicate_iff.mpr ⟨by rw [List.length_map, List.length_range], fun b hb => ?_⟩
  obtain ⟨x, hx, rfl⟩ := List.mem_map.mp hb
  have hslot := slot_lt_dataCount (hsize ▸ List.mem_range.mp hx)
  rw [byteAt, h.zero _ (List.mem_map_of_mem (List.mem_range.mpr hslot))]

/-- Every volume in order has files of bytes. -/
theorem allocInv_byteFiles {blocks : ℕ} (h : AllocInv D (tfsTotalblocks blocks)) :
    ByteFiles (tfsTotalblocks blocks) D := by
  have hfile := fun i => h.sound.file i trivial
  have hrange : ∀ i, Listed D i → 3 ≤ inodeNumber D i ∧ inodeNumber D i < tfsTotalblocks blocks :=
    fun i hi => (hfile i).range _ (inodeNumber_mem_fileBlocks hi)
  have hcount := fun i hi => ((hfile i).inode hi).count
  refine ⟨fun i hi bat rest data n offset hpos hle => ?_, fun i hi bat rest n offset hpos hle => ?_,
    fun i hi bat rest data n offset houtside => ?_, fun filename hname size D' hpos hlt hok => ?_⟩
  · obtain ⟨start, rfl⟩ := Int.eq_ofNat_of_zero_le hpos
    rw [length_fileContents] at hle ⊢
    have hstart : start ≤ (filesize (D (inodeNumber D i))).toNat := Int.ofNat_le.mp hle
    have hnodup := (hfile i).nodup
    rw [fileBlocks_listed hi] at hnodup
    have hwrite := (tfsWrite_contents rfl (hcount i hi) (List.nodup_cons.mp hnodup).2 (hrange i hi)
      bat rest data n hstart).run
    generalize (tfsWrite (tfsTotalblocks blocks) bat rest (inodeNumber D i) data n start).run
      (fun _ => true) D = result at hwrite ⊢
    obtain ⟨r, D'⟩ := result
    obtain ⟨hret, hbytes⟩ := hwrite
    have hwrites := hbytes.writesFile h.sound hi (add_min_sub_le hstart)
    rw [Int.toNat_natCast, ← natCast_min_sub hstart]
    exact ⟨D', congrArg (·, D') hret, hwrites⟩
  · obtain ⟨start, rfl⟩ := Int.eq_ofNat_of_zero_le hpos
    rw [length_fileContents] at hle ⊢
    have hstart : start ≤ (filesize (D (inodeNumber D i))).toNat := Int.ofNat_le.mp hle
    rw [Int.toNat_natCast, ← natCast_min_sub hstart, fileContents]
    exact tfsRead_contents rfl (hcount i hi) (hrange i hi) bat rest n hstart
  · rw [length_fileContents] at houtside
    exact refused_of_outside (hcount i hi) (hrange i hi) houtside bat rest data
  · have htotal : tfsTotalblocks blocks ≤ 2 ^ 32 := (tfsTotalblocks_le blocks).trans (by decide)
    have hrun := (tfsCreate_createdDisk hname hpos hlt htotal h.sound.directory h.sound.system).run
    rw [hok] at hrun
    rcases hrun with ⟨hfail, -⟩ | ⟨-, -, index, number, bat, inode, hcreated, -, hD'⟩
    · have hne : vfsOk ≠ vfsError := by decide
      exact absurd hfail hne
    · replace hD' : CreatedDisk filename D index number bat inode D' := hD'
      have hblocks := hcreated.fileBlocks_eq h.sound htotal hD'.directory hD'.node
      have hlisted : Listed D' index :=
        listed_of_mem_fileBlocks (by rw [hblocks]; exact List.mem_cons_self)
      have hnumber : inodeNumber D' index = number := by
        rw [inodeNumber, hD'.directory, createdDirectory, entryInode_addEntry,
          (hcreated.number_toNat h.sound htotal).1]
      refine ⟨index, hlisted, ?_, hD'.fileContents_eq hcreated hnumber hpos hlt⟩
      rw [fileName, hD'.directory, createdDirectory, entryName_addEntry hname]

/-- A volume with a file of 600 bytes. -/
theorem allocInv_byteFiles_oneFile : Listed oneFile 24 ∧ ByteFiles (tfsTotalblocks 8) oneFile :=
  ⟨by decide +kernel, allocInv_byteFiles oneFile_reachable.allocInv⟩

end Osm.Fs
