import Osm.Core.FileStore
import Osm.Fs.ByteFiles
import Mathlib.Order.Interval.Finset.Nat

/-!
# A volume is a store of files

What the calls of the trivial filesystem return does not depend on where a file is in the directory,
nor on the blocks that it has, but only on the calls before: it is what a store of files answers
that has room for as many files as the directory has entries and for as many blocks as the volume
has behind the first three.
-/

namespace Osm.Fs

open Osm.Core Osm.Lib

/-! ### Calls -/

/-- What a volume has room for. -/
def volumeQuota (totalblocks : ℕ) : Quota where
  files   := tfsMaxFiles
  space   := totalblocks - 3
  longest := tfsBlocksMax * tfsBlockSize
  cost n  := 1 + (n + 511) / 512

/-- What a volume stores. -/
abbrev VolumeStore (totalblocks : ℕ) := FileStore (volumeQuota totalblocks) (List UInt8) UInt8

/-- What is in memory when a call begins: the buffer for the allocation block and what follows
it. -/
structure Buffers where
  bat  : Block
  rest : ℕ → UInt32

/-- A call on the file with a name, with its result and the bytes that were read. A file is opened
before it is read or written, and `vfs_open` passes on what `tfs_open` returns if it is negative. -/
def storeCall (totalblocks : ℕ) (buffers : Buffers) :
    FileCall (List UInt8) UInt8 → TfsCall (ℤ × List UInt8)
  | .create name size => do return (← tfsCreate totalblocks name size, [])
  | .remove name => do return (← tfsRemove name, [])
  | .read name offset n => do
    let fileid ← tfsOpen name
    if fileid < 0 then return (fileid, [])
    tfsRead totalblocks buffers.bat buffers.rest fileid n offset
  | .write name offset data => do
    let fileid ← tfsOpen name
    if fileid < 0 then return (fileid, [])
    return (← tfsWrite totalblocks buffers.bat buffers.rest fileid (fun x => data.getD x 0)
      data.length offset, [])
  | .getfree => do return (← tfsGetfree totalblocks, [])

/-- A call with what is in memory, all of whose requests succeed. -/
def storeStep (totalblocks : ℕ) (call : FileCall (List UInt8) UInt8 × Buffers) (D : Disk) :
    (ℤ × List UInt8) × Disk :=
  (storeCall totalblocks call.2 call.1).run (fun _ => true) D

/-- The results that stand for an answer. -/
def resultOf : FileAnswer UInt8 → ℤ × List UInt8
  | .done       => (vfsOk, [])
  | .refused    => (vfsError, [])
  | .missing    => (vfsNotFound, [])
  | .count n    => (n, [])
  | .bytes data => (data.length, data)

/-- What the store does, with results. -/
def modelStep (totalblocks : ℕ) (call : FileCall (List UInt8) UInt8 × Buffers)
    (S : VolumeStore totalblocks) : (ℤ × List UInt8) × VolumeStore totalblocks :=
  let next := S.exec 0 tfsBlockSize call.1
  (resultOf next.1, next.2)

/-- The calls that the virtual filesystem passes on. -/
def AllowedCall : FileCall (List UInt8) UInt8 → Prop
  | .create name size => ValidName name ∧ size < 2 ^ 31
  | .remove name      => ValidName name
  | .read name _ _    => ValidName name
  | .write name _ _   => ValidName name
  | .getfree          => True

/-- The volume is in order, and has the files of the store. -/
structure Represents (totalblocks : ℕ) (D : Disk) (S : VolumeStore totalblocks) : Prop where
  inv      : AllocInv D totalblocks
  listed   : ∀ i, Listed D i → fileName D i ∈ S.names
  entry    : ∀ name ∈ S.names, ∃ i, Listed D i ∧ fileName D i = name
  contents : ∀ i, Listed D i → S.contents (fileName D i) = fileContents D i

/-- A call has the same result on a volume and on a store, and leaves a volume that has the files
of the store. -/
def Agree (totalblocks : ℕ) (call : FileCall (List UInt8) UInt8 × Buffers) (D : Disk)
    (S : VolumeStore totalblocks) : Prop :=
  (storeStep totalblocks call D).1 = (modelStep totalblocks call S).1 ∧
    Represents totalblocks (storeStep totalblocks call D).2 (modelStep totalblocks call S).2

variable {totalblocks : ℕ} {D D' : Disk} {S : VolumeStore totalblocks} {filename : List UInt8}

/-! ### The entries in use and their blocks -/

/-- The entries in use. -/
def listedEntries (D : Disk) : Finset ℕ := (Finset.range tfsMaxFiles).filter (Listed D)

lemma mem_listedEntries {i : ℕ} : i ∈ listedEntries D ↔ Listed D i := by
  rw [listedEntries, Finset.mem_filter, Finset.mem_range, and_iff_right_iff_imp]
  exact And.left

lemma Sound.fileName_injective (h : Sound D totalblocks) {i j : ℕ} (hi : Listed D i)
    (hj : Listed D j) (heq : fileName D i = fileName D j) : i = j :=
  h.directory.distinct i hi.1 j hj.1 hi.2 hj.2 heq

/-- The number of blocks that a file has. -/
lemma length_fileBlocks {i : ℕ} (h : Listed D i) :
    (fileBlocks D i).length = (volumeQuota totalblocks).cost (fileContents D i).length := by
  rw [fileBlocks_listed h, List.length_cons, dataBlocks, firstBlocks, List.length_map,
    List.length_range, length_fileContents, dataCount, Nat.add_comm]
  rfl

/-- The blocks that are not marked are those behind the first three that no file has. -/
lemma AllocInv.freeSet_eq (h : AllocInv D totalblocks) :
    freeSet totalblocks (D tfsAllocationBlock) = Finset.Ico 3 totalblocks \
      (listedEntries D).biUnion fun i => (fileBlocks D i).toFinset := by
  ext b
  simp only [mem_freeSet, Finset.mem_sdiff, Finset.mem_Ico, Finset.mem_biUnion, mem_listedEntries,
    List.mem_toFinset, not_exists, not_and]
  constructor
  · rintro ⟨hlt, hzero⟩
    have hone : bitmapGet (D tfsAllocationBlock) b ≠ 1 := by
      rw [hzero]
      decide
    refine ⟨⟨Nat.le_of_not_lt fun hsystem => hone (h.sound.system b hsystem), hlt⟩, ?_⟩
    exact fun i _ hb => hone ((h.sound.file i trivial).marked b hb)
  · rintro ⟨⟨hle, hlt⟩, hfree⟩
    refine ⟨hlt, by_contra fun hmarked => ?_⟩
    rcases h.owned b hlt (not_not.mp (mt bitmapGet_eq_zero_iff.mpr hmarked)) with hsystem | ⟨i, hi⟩
    · exact Nat.not_lt.mpr hle hsystem
    · exact hfree i (listed_of_mem_fileBlocks hi) hi

/-- Every block behind the first three is free or belongs to one file. -/
lemma AllocInv.freeCount_eq (h : AllocInv D totalblocks) :
    freeCount totalblocks (D tfsAllocationBlock) =
      totalblocks - 3 - ∑ i ∈ listedEntries D, (fileBlocks D i).length := by
  have hsub : ((listedEntries D).biUnion fun i => (fileBlocks D i).toFinset) ⊆
      Finset.Ico 3 totalblocks := by
    intro b hb
    obtain ⟨i, -, hi⟩ := Finset.mem_biUnion.mp hb
    exact Finset.mem_Ico.mpr ((h.sound.file i trivial).range b (List.mem_toFinset.mp hi))
  have hdisjoint : (listedEntries D : Set ℕ).PairwiseDisjoint fun i => (fileBlocks D i).toFinset :=
    fun i _ j _ hij => List.disjoint_toFinset_iff_disjoint.mpr
      (h.sound.disjoint i j trivial trivial hij)
  rw [freeCount, h.freeSet_eq, Finset.card_sdiff_of_subset hsub, Nat.card_Ico,
    Finset.card_biUnion hdisjoint]
  refine congrArg _ (Finset.sum_congr rfl fun i _ => ?_)
  exact List.toFinset_card_of_nodup (h.sound.file i trivial).nodup

namespace Represents

lemma names_eq (h : Represents totalblocks D S) :
    S.names = (listedEntries D).image (fileName D) := by
  ext name
  rw [Finset.mem_image]
  constructor
  · intro hname
    obtain ⟨i, hi, hfile⟩ := h.entry name hname
    exact ⟨i, mem_listedEntries.mpr hi, hfile⟩
  · rintro ⟨i, hi, rfl⟩
    exact h.listed i (mem_listedEntries.mp hi)

lemma injOn (h : Represents totalblocks D S) : Set.InjOn (fileName D) (listedEntries D) :=
  fun _ hi _ hj heq => h.inv.sound.fileName_injective (mem_listedEntries.mp hi)
    (mem_listedEntries.mp hj) heq

lemma card_names (h : Represents totalblocks D S) : S.names.card = (listedEntries D).card := by
  rw [h.names_eq, Finset.card_image_of_injOn h.injOn]

/-- The space left in the store is the number of free blocks. -/
lemma left_eq (h : Represents totalblocks D S) :
    S.left = freeCount totalblocks (D tfsAllocationBlock) := by
  have hused : S.used = ∑ i ∈ listedEntries D, (fileBlocks D i).length := by
    rw [FileStore.used, h.names_eq, Finset.sum_image h.injOn]
    refine Finset.sum_congr rfl fun i hi => ?_
    have hlisted := mem_listedEntries.mp hi
    rw [h.contents i hlisted, length_fileBlocks hlisted]
  rw [h.inv.freeCount_eq, FileStore.left, hused]
  rfl

/-- There is an entry for another file if the store has room for one. -/
lemma entry_iff (h : Represents totalblocks D S) :
    S.names.card < tfsMaxFiles ↔ ∃ i < tfsMaxFiles, ¬Listed D i := by
  have hle : (listedEntries D).card ≤ tfsMaxFiles :=
    (Finset.card_filter_le _ _).trans_eq (Finset.card_range _)
  have hall : (listedEntries D).card = tfsMaxFiles ↔ ∀ i < tfsMaxFiles, Listed D i := by
    simpa [listedEntries] using
      Finset.card_filter_eq_iff (p := Listed D) (s := Finset.range tfsMaxFiles)
  rw [h.card_names, hle.lt_iff_ne, ne_eq, hall]
  simp

lemma new_iff (h : Represents totalblocks D S) (name : List UInt8) :
    name ∉ S.names ↔ ∀ i, Listed D i → fileName D i ≠ name := by
  constructor
  · rintro hnew i hi rfl
    exact hnew (h.listed i hi)
  · intro hno hname
    obtain ⟨i, hi, hfile⟩ := h.entry name hname
    exact hno i hi hfile

lemma room_iff (h : Represents totalblocks D S) (name : List UInt8) (size : ℕ) :
    S.Room name size ↔ CanCreate totalblocks name size D := by
  have hlongest : size ≤ (volumeQuota totalblocks).longest ↔ ceilBlocks size ≤ tfsBlocksMax := by
    have hquota : (volumeQuota totalblocks).longest = 65024 := rfl
    have hmax : tfsBlocksMax = 127 := rfl
    rw [hquota, hmax, ceilBlocks, Int.toNat_natCast]
    omega
  have hcost : (volumeQuota totalblocks).cost size = 1 + ceilBlocks size := by
    rw [ceilBlocks, Int.toNat_natCast]
    rfl
  constructor
  · rintro ⟨hnew, hentry, hlong, hspace⟩
    rw [hcost, h.left_eq] at hspace
    exact ⟨(h.new_iff name).mp hnew, h.entry_iff.mp hentry, hlongest.mp hlong, hspace⟩
  · rintro ⟨hnew, hentry, hblocks, hspace⟩
    rw [← hcost, ← h.left_eq] at hspace
    exact ⟨(h.new_iff name).mpr hnew, h.entry_iff.mpr hentry, hlongest.mpr hblocks, hspace⟩

end Represents

/-! ### One call -/

lemma findEntry_of_new (hname : ValidName filename) (hdir : DirectoryOk (D tfsDirectoryBlock))
    (hnew : ∀ i, Listed D i → fileName D i ≠ filename) :
    findEntry (D tfsDirectoryBlock) filename = none := by
  cases hentry : findEntry (D tfsDirectoryBlock) filename with
  | none => rfl
  | some i =>
    obtain ⟨hlisted, hfile⟩ := findEntry_listed hname hdir hentry
    exact absurd hfile (hnew i hlisted)

lemma tfsOpen_run_missing (hname : ValidName filename) (hdir : DirectoryOk (D tfsDirectoryBlock))
    (hnew : ∀ i, Listed D i → fileName D i ≠ filename) :
    (tfsOpen filename).run (fun _ => true) D = (vfsNotFound, D) := by
  have hends : (tfsOpen filename).Ends (fun _ => true) 0 D fun r _ D' =>
      r = vfsNotFound ∧ D' = D := by
    rw [tfsOpen]
    apply Request.ends_bind
    apply Request.ends_readCell_true
    dsimp only
    rw [findEntry_of_new hname hdir hnew]
    exact Request.ends_pure ⟨rfl, rfl⟩
  exact Prod.ext hends.run.1 hends.run.2

lemma tfsOpen_run_listed {i : ℕ} (hname : ValidName filename) (hsound : Sound D totalblocks)
    (htotal : totalblocks ≤ 2 ^ 31) (hlisted : Listed D i) (hfile : fileName D i = filename) :
    (tfsOpen filename).run (fun _ => true) D = ((inodeNumber D i : ℤ), D) := by
  have hends : (tfsOpen filename).Ends (fun _ => true) 0 D fun r _ D' =>
      r = inodeNumber D i ∧ D' = D := by
    rw [tfsOpen]
    apply Request.ends_bind
    apply Request.ends_readCell_true
    dsimp only
    rw [hsound.directory.findEntry_eq hname hlisted.1 hlisted.2 hfile]
    have hrange := (hsound.file i trivial).range _ (inodeNumber_mem_fileBlocks hlisted)
    exact Request.ends_pure ⟨toInt_of_lt (lt_of_lt_of_le hrange.2 htotal), rfl⟩
  exact Prod.ext hends.run.1 hends.run.2

lemma tfsRemove_run_missing (hname : ValidName filename) (hdir : DirectoryOk (D tfsDirectoryBlock))
    (hnew : ∀ i, Listed D i → fileName D i ≠ filename) :
    (tfsRemove filename).run (fun _ => true) D = (vfsNotFound, D) := by
  have hends : (tfsRemove filename).Ends (fun _ => true) 0 D fun r _ D' =>
      r = vfsNotFound ∧ D' = D := by
    rw [tfsRemove]
    apply Request.ends_bind
    apply Request.ends_readCell_true
    dsimp only
    rw [findEntry_of_new hname hdir hnew]
    exact Request.ends_pure ⟨rfl, rfl⟩
  exact Prod.ext hends.run.1 hends.run.2

/-- A volume with other files in one entry only, whose name is new in the store. -/
lemma Represents.insert {index : ℕ} {data : List UInt8} (h : Represents totalblocks D S)
    (hinv : AllocInv D' totalblocks) (hsame : ∀ i, i ≠ index → SameFile D D' i)
    (hfree : ¬Listed D index) (hlisted : Listed D' index) (hfile : fileName D' index = filename)
    (hcontents : fileContents D' index = data) (hroom : S.Room filename data.length) :
    Represents totalblocks D' (S.insert filename data hroom) := by
  have hold : ∀ i, i ≠ index → Listed D' i → fileName D' i ∈ S.names := by
    intro i hi hlisted'
    rw [(hsame i hi).name]
    exact h.listed i ((hsame i hi).sameInode.listed_iff.mp hlisted')
  refine ⟨hinv, fun i hi => ?_, fun name hname => ?_, fun i hi => ?_⟩
  · by_cases hindex : i = index
    · rw [hindex, hfile]
      exact Finset.mem_insert_self _ _
    · exact Finset.mem_insert_of_mem (hold i hindex hi)
  · rcases Finset.mem_insert.mp hname with rfl | hname
    · exact ⟨index, hlisted, hfile⟩
    · obtain ⟨i, hi, rfl⟩ := h.entry name hname
      have hindex : i ≠ index := by
        rintro rfl
        exact hfree hi
      exact ⟨i, (hsame i hindex).sameInode.listed_iff.mpr hi, (hsame i hindex).name⟩
  · by_cases hindex : i = index
    · rw [hindex, hfile, hcontents]
      exact Function.update_self _ _ _
    · have hi' := (hsame i hindex).sameInode.listed_iff.mp hi
      have hne : fileName D' i ≠ filename := ne_of_mem_of_not_mem (hold i hindex hi) hroom.new
      rw [(hsame i hindex).fileContents_eq hi', ← h.contents i hi', ← (hsame i hindex).name]
      exact Function.update_of_ne hne _ _

lemma Represents.erase {index : ℕ} (h : Represents totalblocks D S)
    (hinv : AllocInv D' totalblocks) (hsame : ∀ i, i ≠ index → SameFile D D' i)
    (hlisted : Listed D index) (hfile : fileName D index = filename) (hfree : ¬Listed D' index) :
    Represents totalblocks D' (S.erase filename) := by
  have hindex : ∀ i, Listed D' i → i ≠ index := by
    rintro i hi rfl
    exact hfree hi
  have hold : ∀ i, Listed D' i → Listed D i := fun i hi =>
    (hsame i (hindex i hi)).sameInode.listed_iff.mp hi
  refine ⟨hinv, fun i hi => ?_, fun name hname => ?_, fun i hi => ?_⟩
  · rw [(hsame i (hindex i hi)).name]
    refine Finset.mem_erase_of_ne_of_mem (fun heq => hindex i hi ?_) (h.listed i (hold i hi))
    exact h.inv.sound.fileName_injective (hold i hi) hlisted (heq.trans hfile.symm)
  · obtain ⟨hne, hmem⟩ := Finset.mem_erase.mp hname
    obtain ⟨i, hi, rfl⟩ := h.entry name hmem
    have hi' : i ≠ index := by
      rintro rfl
      exact hne hfile
    exact ⟨i, (hsame i hi').sameInode.listed_iff.mpr hi, (hsame i hi').name⟩
  · rw [(hsame i (hindex i hi)).fileContents_eq (hold i hi), (hsame i (hindex i hi)).name]
    exact h.contents i (hold i hi)

lemma Represents.overwrite {index : ℕ} {data : List UInt8} (h : Represents totalblocks D S)
    (hlisted : Listed D index) (hfile : fileName D index = filename)
    (hwrites : WritesFile D index data D') (hinv : AllocInv D' totalblocks)
    (hlength : data.length = (S.contents filename).length) :
    Represents totalblocks D' (S.overwrite filename data hlength) := by
  have hname : ∀ i, fileName D' i = fileName D i := fun i => by
    rw [fileName, hwrites.directory, fileName]
  have hold : ∀ i, Listed D' i ↔ Listed D i := fun i => by
    rw [Listed, hwrites.directory, Listed]
  refine ⟨hinv, fun i hi => ?_, fun name hmem => ?_, fun i hi => ?_⟩
  · rw [hname]
    exact h.listed i ((hold i).mp hi)
  · obtain ⟨i, hi, hentry⟩ := h.entry name hmem
    exact ⟨i, (hold i).mpr hi, (hname i).trans hentry⟩
  · rw [hname]
    by_cases hindex : i = index
    · rw [hindex, hfile, hwrites.contents]
      exact Function.update_self _ _ _
    · have hi' := (hold i).mp hi
      have hne : fileName D i ≠ filename := fun heq =>
        hindex (h.inv.sound.fileName_injective hi' hlisted (heq.trans hfile.symm))
      rw [hwrites.others i hi' hindex, ← h.contents i hi']
      exact Function.update_of_ne hne _ _

section Step

variable {blocks : ℕ} {S : VolumeStore (tfsTotalblocks blocks)} (buffers : Buffers)
  (h : Represents (tfsTotalblocks blocks) D S)
include h

lemma agree_create (hname : ValidName filename) {size : ℕ} (hsize : size < 2 ^ 31) :
    Agree (tfsTotalblocks blocks) (.create filename size, buffers) D S := by
  have htotal : tfsTotalblocks blocks ≤ 2 ^ 32 := (tfsTotalblocks_le blocks).trans (by decide)
  have hsound := h.inv.sound
  have hrun := (tfsCreate_createdDisk hname (Int.natCast_nonneg size) (by exact_mod_cast hsize)
    htotal hsound.directory hsound.system).run
  rw [Agree, storeStep, storeCall, Request.run_bind_true, modelStep, FileStore.exec]
  generalize (tfsCreate (tfsTotalblocks blocks) filename size).run (fun _ => true) D = result
    at hrun ⊢
  obtain ⟨r, D'⟩ := result
  rcases hrun with ⟨rfl, rfl, hno⟩ | ⟨rfl, hcan, index, number, bat, inode, hcreated, -, hD'⟩
  · rw [dif_neg (mt (h.room_iff filename size).mp hno)]
    exact ⟨rfl, h⟩
  · replace hD' : CreatedDisk filename D index number bat inode D' := hD'
    have hroom := (h.room_iff filename size).mpr hcan
    have hblocks := hcreated.fileBlocks_eq hsound htotal hD'.directory hD'.node
    have hnumber : inodeNumber D' index = number := by
      rw [inodeNumber, hD'.directory, createdDirectory, entryInode_addEntry,
        (hcreated.number_toNat hsound htotal).1]
    have hfile : fileName D' index = filename := by
      rw [fileName, hD'.directory, createdDirectory, entryName_addEntry hname]
    have hzeros : fileContents D' index = List.replicate size 0 :=
      hD'.fileContents_eq hcreated hnumber (Int.natCast_nonneg size) (by exact_mod_cast hsize)
    have hinv := hcreated.allocInv hname htotal hD'.bat hD'.directory hD'.frame h.inv hD'.node
    have hlisted : Listed D' index :=
      listed_of_mem_fileBlocks (by rw [hblocks]; exact List.mem_cons_self)
    have hsame := fun i hi => hcreated.sameFile (i := i) hsound hD'.directory hD'.frame hi
    rw [dif_pos hroom]
    exact ⟨rfl, h.insert hinv hsame hcreated.free hlisted hfile hzeros
      (by rwa [List.length_replicate])⟩

lemma agree_remove (hname : ValidName filename) :
    Agree (tfsTotalblocks blocks) (.remove filename, buffers) D S := by
  have hsound := h.inv.sound
  rw [Agree, storeStep, storeCall, Request.run_bind_true, modelStep, FileStore.exec]
  by_cases hmem : filename ∈ S.names
  · obtain ⟨index, hlisted, hfile⟩ := h.entry filename hmem
    have hrun := (tfsRemove_removed hname hsound.directory hlisted hfile).run
    generalize (tfsRemove filename).run (fun _ => true) D = result at hrun ⊢
    obtain ⟨r, D'⟩ := result
    obtain ⟨rfl, hbat, hmd, hframe⟩ := hrun
    rw [if_pos hmem]
    refine ⟨rfl, h.erase ?_ (fun i hi => ?_) hlisted hfile (removed_not_listed hmd)⟩
    · exact removed_allocInv hlisted hbat hframe hmd h.inv
    · exact removed_sameFile hsound hframe (.inr hmd) hi
  · rw [tfsRemove_run_missing hname hsound.directory ((h.new_iff filename).mp hmem), if_neg hmem]
    exact ⟨rfl, h⟩

lemma agree_read (hname : ValidName filename) (offset : ℤ) (n : ℕ) :
    Agree (tfsTotalblocks blocks) (.read filename offset n, buffers) D S := by
  have hsound := h.inv.sound
  rw [Agree, storeStep, storeCall, Request.run_bind_true, modelStep, FileStore.exec]
  by_cases hmem : filename ∈ S.names
  · obtain ⟨i, hlisted, hfile⟩ := h.entry filename hmem
    have hok := hsound.file i trivial
    have hcount := (hok.inode hlisted).count
    have hrange := hok.range _ (inodeNumber_mem_fileBlocks hlisted)
    have hcontents : S.contents filename = fileContents D i := hfile ▸ h.contents i hlisted
    rw [tfsOpen_run_listed hname hsound (tfsTotalblocks_le blocks) hlisted hfile,
      if_neg (not_not.mpr hmem)]
    dsimp only
    rw [if_neg (by omega), hcontents]
    by_cases houtside : Outside (fileContents D i) offset
    · rw [if_pos houtside]
      rw [Outside, length_fileContents] at houtside
      rw [(refused_of_outside (n := n) hcount hrange houtside buffers.bat buffers.rest
        fun _ => 0).2]
      exact ⟨rfl, h⟩
    · rw [if_neg houtside]
      rw [Outside, not_or, length_fileContents] at houtside
      obtain ⟨start, rfl⟩ := Int.eq_ofNat_of_zero_le (not_lt.mp houtside.1)
      rw [tfsRead_contents rfl hcount hrange buffers.bat buffers.rest n (by omega)]
      refine ⟨?_, h⟩
      rw [resultOf, length_readAt, readAt, roomAt, length_fileContents, Int.toNat_natCast]
      rfl
  · rw [tfsOpen_run_missing hname hsound.directory ((h.new_iff filename).mp hmem), if_pos hmem]
    exact ⟨rfl, h⟩

lemma agree_write (hname : ValidName filename) (offset : ℤ) (data : List UInt8) :
    Agree (tfsTotalblocks blocks) (.write filename offset data, buffers) D S := by
  have hsound := h.inv.sound
  rw [Agree, storeStep, storeCall, Request.run_bind_true, modelStep, FileStore.exec]
  by_cases hmem : filename ∈ S.names
  · obtain ⟨i, hlisted, hfile⟩ := h.entry filename hmem
    have hok := hsound.file i trivial
    have hcount := (hok.inode hlisted).count
    have hrange := hok.range _ (inodeNumber_mem_fileBlocks hlisted)
    have hcontents : S.contents filename = fileContents D i := hfile ▸ h.contents i hlisted
    rw [tfsOpen_run_listed hname hsound (tfsTotalblocks_le blocks) hlisted hfile,
      if_neg (not_not.mpr hmem)]
    dsimp only
    rw [if_neg (by omega), Request.run_bind_true]
    by_cases houtside : Outside (S.contents filename) offset
    · rw [dif_pos houtside]
      rw [Outside, hcontents, length_fileContents] at houtside
      rw [(refused_of_outside (n := data.length) hcount hrange houtside buffers.bat buffers.rest
        _).1]
      exact ⟨rfl, h⟩
    · rw [dif_neg houtside]
      have hin := houtside
      rw [Outside, not_or, hcontents, length_fileContents] at hin
      obtain ⟨start, rfl⟩ := Int.eq_ofNat_of_zero_le (not_lt.mp hin.1)
      have hstart : start ≤ (filesize (D (inodeNumber D i))).toNat := by omega
      have hnodup := hok.nodup
      rw [fileBlocks_listed hlisted] at hnodup
      have hwrite := (tfsWrite_contents rfl hcount (List.nodup_cons.mp hnodup).2 hrange
        buffers.bat buffers.rest (fun x => data.getD x 0) data.length hstart).run
      generalize (tfsWrite (tfsTotalblocks blocks) buffers.bat buffers.rest (inodeNumber D i)
        (fun x => data.getD x 0) data.length start).run (fun _ => true) D = result at hwrite ⊢
      obtain ⟨r, D'⟩ := result
      obtain ⟨rfl, hbytes⟩ := hwrite
      replace hbytes : Overwritten D (D (inodeNumber D i)) start
        (min data.length ((filesize (D (inodeNumber D i))).toNat - start)) (fun x => data.getD x 0)
        D' := hbytes
      have hroom : roomAt (S.contents filename).length data.length start =
          min data.length ((filesize (D (inodeNumber D i))).toNat - start) := by
        rw [roomAt, hcontents, length_fileContents, Int.toNat_natCast]
      have htake : ∀ count, count ≤ data.length →
          (List.range count).map (fun x => data.getD x 0) = data.take count := by
        intro count hcount
        refine List.ext_getElem (by simpa using hcount) fun x hx hx' => ?_
        have hlt : x < data.length := by
          rw [List.length_map, List.length_range] at hx
          omega
        simp [hlt]
      have hwrites := hbytes.writesFile hsound hlisted (add_min_sub_le hstart)
      rw [htake _ (min_le_left ..)] at hwrites
      obtain ⟨hbat, hmd, hsame⟩ := hsound.write_sameInode hlisted hbytes.frame
      have hdata : WritesFile D i (writeAt (S.contents filename) start data) D' := by
        rw [writeAt, hroom, hcontents]
        exact hwrites
      have hinv := h.inv.congr hsame hmd hbat
      exact ⟨by rw [hroom]; rfl,
        h.overwrite hlisted hfile hdata hinv (length_writeAt data houtside)⟩
  · rw [tfsOpen_run_missing hname hsound.directory ((h.new_iff filename).mp hmem), if_pos hmem]
    exact ⟨rfl, h⟩

lemma agree_getfree :
    Agree (tfsTotalblocks blocks) (.getfree, buffers) D S := by
  rw [Agree, storeStep, storeCall, Request.run_bind_true, tfsGetfree_run, modelStep, FileStore.exec,
    h.left_eq]
  refine ⟨?_, h⟩
  rw [resultOf]
  push_cast
  rfl

end Step

/-- The calls on a volume refine those on a store. -/
lemma storeStep_refines (blocks : ℕ) :
    Refines (storeStep (tfsTotalblocks blocks)) (modelStep (tfsTotalblocks blocks))
      (fun call => AllowedCall call.1) (Represents (tfsTotalblocks blocks)) := by
  rintro ⟨call, buffers⟩ D S hallowed h
  cases call with
  | create name size => exact agree_create buffers h hallowed.1 hallowed.2
  | remove name => exact agree_remove buffers h hallowed
  | read name offset n => exact agree_read buffers h hallowed offset n
  | write name offset data => exact agree_write buffers h hallowed offset data
  | getfree => exact agree_getfree buffers h

/-! ### Whole runs -/

lemma createvol_represents (size : ℕ) (volumename : ℕ → UInt8) (disk : Disk) :
    Represents (tfsTotalblocks size) (tfstoolCreatevol size volumename disk)
      (FileStore.empty (volumeQuota (tfsTotalblocks size)) (List UInt8) UInt8) := by
  have hfree : ∀ i, ¬Listed (tfstoolCreatevol size volumename disk) i := by
    rintro i ⟨-, hused⟩
    rw [createvol_directory] at hused
    exact hused (Memory.readWord_zero _)
  exact ⟨createvol_allocInv size volumename disk, fun i hi => absurd hi (hfree i),
    fun name hname => absurd hname (Finset.notMem_empty name), fun i hi => absurd hi (hfree i)⟩

/-- The calls on a new volume return what a store answers that is empty in the beginning, whatever
is in memory before each of them, and the volume has the files of the store in the end. -/
theorem volume_refines_store (size : ℕ) (volumename : ℕ → UInt8) (disk : Disk)
    (calls : List (FileCall (List UInt8) UInt8 × Buffers))
    (hallowed : ∀ call ∈ calls, AllowedCall call.1) :
    let volume := runAll (storeStep (tfsTotalblocks size)) calls
      (tfstoolCreatevol size volumename disk)
    let store := runAll (modelStep (tfsTotalblocks size)) calls
      (FileStore.empty (volumeQuota (tfsTotalblocks size)) (List UInt8) UInt8)
    volume.1 = store.1 ∧ Represents (tfsTotalblocks size) volume.2 store.2 :=
  (storeStep_refines size).runAll hallowed (createvol_represents size volumename disk)

/-- Nothing but zeros is in memory. -/
def zeros : Buffers := ⟨fun _ => 0, fun _ => 0⟩

/-- A file is created, written across the end of its first block, read and removed. -/
theorem volume_refines_store_sample :
    (runAll (storeStep (tfsTotalblocks 8))
      [(.create [102] 600, zeros), (.write [102] 510 [1, 2, 3], zeros),
        (.read [102] 509 5, zeros), (.remove [102], zeros),
        (.getfree, zeros)] (tfstoolCreatevol 8 (fun _ => 65) fun _ _ => 0)).1 =
      [(0, []), (3, []), (5, [0, 1, 2, 3, 0]), (0, []), (2560, [])] := by
  refine (volume_refines_store 8 (fun _ => 65) (fun _ _ => 0) _ ?_).1.trans (by decide +kernel)
  have hname := validName_f
  simp [AllowedCall, hname]

/-- What is written to a file is read back, as much of it as there was room for, after any calls
that do not create, remove or write this file. -/
theorem volume_read_after_write (size : ℕ) (volumename : ℕ → UInt8) (disk : Disk)
    (calls others : List (FileCall (List UInt8) UInt8 × Buffers))
    (hcalls : ∀ call ∈ calls, AllowedCall call.1) (hothers : ∀ call ∈ others, AllowedCall call.1)
    (hname : ValidName filename) (hkeep : ∀ call ∈ others, call.1.target ≠ some filename)
    (offset : ℤ) (data : List UInt8) (buffers buffers' : Buffers) :
    let before := (runAll (storeStep (tfsTotalblocks size)) calls
      (tfstoolCreatevol size volumename disk)).2
    let written := storeStep (tfsTotalblocks size) (.write filename offset data, buffers) before
    let after := (runAll (storeStep (tfsTotalblocks size)) others written.2).2
    0 ≤ written.1.1 →
      (storeStep (tfsTotalblocks size) (.read filename offset data.length, buffers') after).1 =
        (written.1.1, data.take written.1.1.toNat) := by
  intro before written after hwritten
  have hnew := createvol_represents size volumename disk
  obtain ⟨S, hbefore⟩ : ∃ S, Represents (tfsTotalblocks size) before S :=
    ⟨_, ((storeStep_refines size).runAll hcalls hnew).2⟩
  obtain ⟨hresult, hstore⟩ := agree_write buffers hbefore hname offset data
  replace hresult : written.1 =
    resultOf (S.exec 0 tfsBlockSize (.write filename offset data)).1 := hresult
  rcases S.exec_write 0 tfsBlockSize filename offset data with
    hanswer | hanswer | ⟨hanswer, hin, hhas⟩
  · rw [hresult, hanswer] at hwritten
    exact absurd hwritten (by decide)
  · rw [hresult, hanswer] at hwritten
    exact absurd hwritten (by decide)
  · have hafter := ((storeStep_refines size).runAll hothers hstore).2
    have hread := (agree_read buffers' hafter hname offset data.length).1
    let bytes := writeAt (S.contents filename) offset data
    have hkeeps : ∀ (call : FileCall (List UInt8) UInt8 × Buffers)
        (S' : VolumeStore (tfsTotalblocks size)), call.1.target ≠ some filename →
        S'.Has filename bytes → (modelStep (tfsTotalblocks size) call S').2.Has filename bytes :=
      fun call S' hother h => h.exec hother
    have hkept := runAll_invariant (modelStep (tfsTotalblocks size)) hkeeps hkeep hhas
    have houtside : ¬Outside (writeAt (S.contents filename) offset data) offset := by
      rwa [Outside, length_writeAt data hin]
    have hanswer' := congrArg (fun next => resultOf next.1)
      (hkept.exec_read 0 tfsBlockSize houtside data.length)
    rw [readAt_writeAt hin] at hanswer'
    rw [hread, hresult, hanswer]
    refine hanswer'.trans ?_
    have hle : roomAt (S.contents filename).length data.length offset ≤ data.length :=
      min_le_left ..
    simp only [resultOf, Int.toNat_natCast, List.length_take, min_eq_left hle]

/-- Another file is created between writing and reading. -/
theorem volume_read_after_write_sample :
    let before := (runAll (storeStep (tfsTotalblocks 8)) [(.create [102] 600, zeros)]
      (tfstoolCreatevol 8 (fun _ => 65) fun _ _ => 0)).2
    let written := storeStep (tfsTotalblocks 8) (.write [102] 599 [1, 2, 3], zeros) before
    let after := (runAll (storeStep (tfsTotalblocks 8)) [(.create [103] 5, zeros)] written.2).2
    (storeStep (tfsTotalblocks 8) (.read [102] 599 3, zeros) after).1 = (1, [1]) := by
  have hname := validName_f
  have hother : ValidName [103] := ⟨by decide, by decide, by decide⟩
  have hwritten : (storeStep (tfsTotalblocks 8) (.write [102] 599 [1, 2, 3], zeros)
      (runAll (storeStep (tfsTotalblocks 8)) [(.create [102] 600, zeros)]
        (tfstoolCreatevol 8 (fun _ => 65) fun _ _ => 0)).2).1.1 = 1 := by decide +kernel
  have hread := volume_read_after_write 8 (fun _ => 65) (fun _ _ => 0)
    [(.create [102] 600, zeros)] [(.create [103] 5, zeros)] (by simp [AllowedCall, hname])
    (by simp [AllowedCall, hother]) hname (by simp [FileCall.target]) 599 [1, 2, 3] zeros zeros
    (by rw [hwritten]; decide)
  rw [hwritten] at hread
  exact hread

end Osm.Fs
