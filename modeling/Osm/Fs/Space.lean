import Osm.Fs.Contents
import Osm.Fs.VolumeRuns
import Mathlib.Data.Finset.Card

/-!
# The space that files take

A file takes a block for its inode and as many blocks as its size needs. `tfs_create` succeeds if
and only if there is an entry for the file and there are that many blocks, and takes exactly these;
`tfs_remove` gives them back.
-/

namespace Osm.Fs

open Osm.Core Osm.Lib

/-- The blocks that are not marked. -/
def freeSet (totalblocks : ℕ) (bat : Block) : Finset ℕ :=
  (Finset.range totalblocks).filter fun b => bitmapGet bat b = 0

/-- The number of blocks of a volume that are not marked. -/
def freeCount (totalblocks : ℕ) (bat : Block) : ℕ := (freeSet totalblocks bat).card

/-- The number of blocks for `size` bytes, rounded up. -/
def ceilBlocks (size : ℤ) : ℕ := (size.toNat + 511) / 512

variable {totalblocks : ℕ} {filename : List UInt8} {D D' : Disk} {bat bat' : Block} {size : ℤ}

/-! ### Counting free blocks -/

lemma mem_freeSet {b : ℕ} :
    b ∈ freeSet totalblocks bat ↔ b < totalblocks ∧ bitmapGet bat b = 0 := by
  rw [freeSet, Finset.mem_filter, Finset.mem_range]

/-- The blocks that have been marked were free. -/
lemma Allocated.freeCount {bs : List ℕ} (h : Allocated totalblocks bat bat' bs) :
    freeCount totalblocks bat' + bs.length = freeCount totalblocks bat := by
  have hsub : bs.toFinset ⊆ freeSet totalblocks bat := fun b hb =>
    mem_freeSet.mpr (h.fresh b (List.mem_toFinset.mp hb))
  have hset : freeSet totalblocks bat' = freeSet totalblocks bat \ bs.toFinset := by
    ext b
    rw [Finset.mem_sdiff, mem_freeSet, mem_freeSet, List.mem_toFinset, h.get]
    by_cases hb : b ∈ bs <;> simp [hb]
  rw [Fs.freeCount, hset, ← List.toFinset_card_of_nodup h.nodup,
    Finset.card_sdiff_add_card_eq_card hsub, Fs.freeCount]

lemma bitmapFindnset_eq_none (h : bitmapFindnset bat totalblocks = none) :
    freeCount totalblocks bat = 0 := by
  refine Finset.card_eq_zero.mpr (Finset.eq_empty_of_forall_notMem fun b hb => ?_)
  obtain ⟨hlt, hzero⟩ := mem_freeSet.mp hb
  obtain ⟨bat', p, hfind⟩ := bitmapFindnset_of_zero hlt hzero
  rw [h] at hfind
  cases hfind

/-- The loop that allocates blocks fails only if there are not enough. -/
lemma allocBlocks_eq_none {inode : Block} {n : ℕ} (htotal : totalblocks ≤ 2 ^ 32)
    (h : allocBlocks totalblocks bat inode n = none) : freeCount totalblocks bat < n := by
  induction n with
  | zero => cases h
  | succ n ih =>
    cases hrec : allocBlocks totalblocks bat inode n with
    | none => exact Nat.lt_succ_of_lt (ih hrec)
    | some allocated =>
      obtain ⟨bat₁, inode₁⟩ := allocated
      have hcount := ((Allocated.nil totalblocks bat).allocBlocks htotal hrec).1.freeCount
      rw [List.nil_append, firstBlocks, List.length_map, List.length_range] at hcount
      have hnone : bitmapFindnset bat₁ totalblocks = none := by
        cases hfind : bitmapFindnset bat₁ totalblocks with
        | none => rfl
        | some found => simp [allocBlocks, hrec, hfind] at h
      have hzero := bitmapFindnset_eq_none hnone
      omega

lemma countAllocated_eq (bat : Block) (n : ℕ) : countAllocated bat n = n - freeCount n bat := by
  induction n with
  | zero => rfl
  | succ n ih =>
    have hfilter : freeSet (n + 1) bat =
        if bitmapGet bat n = 0 then insert n (freeSet n bat) else freeSet n bat := by
      rw [freeSet, Finset.range_add_one, Finset.filter_insert, freeSet]
    have hnew : n ∉ freeSet n bat := fun h => Nat.lt_irrefl n (mem_freeSet.mp h).1
    rw [countAllocated, ih, freeCount, freeCount, hfilter]
    by_cases hzero : bitmapGet bat n = 0
    · rw [if_pos hzero, Finset.card_insert_of_notMem hnew, hzero]
      have hint : (0 : UInt32).toBitVec.toInt = 0 := by decide
      rw [hint]
      push_cast
      omega
    · have hone := not_not.mp (mt bitmapGet_eq_zero_iff.mpr hzero)
      have hint : (1 : UInt32).toBitVec.toInt = 1 := by decide
      rw [if_neg hzero, hone, hint]
      push_cast
      omega

/-- `tfs_getfree` counts the free bytes. -/
lemma tfsGetfree_run (blocks : ℕ) (D : Disk) :
    (tfsGetfree (tfsTotalblocks blocks)).run (fun _ => true) D =
      ((512 * (freeCount (tfsTotalblocks blocks) (D tfsAllocationBlock) : ℤ)), D) := by
  have hends : (tfsGetfree (tfsTotalblocks blocks)).Ends (fun _ => true) 0 D fun r _ D' =>
      r = 512 * (freeCount (tfsTotalblocks blocks) (D tfsAllocationBlock) : ℤ) ∧ D' = D := by
    rw [tfsGetfree]
    refine Request.ends_bind (Request.ends_readCell_true ?_)
    refine Request.ends_pure ⟨?_, rfl⟩
    have hle : freeCount (tfsTotalblocks blocks) (D tfsAllocationBlock) ≤ tfsTotalblocks blocks :=
      (Finset.card_filter_le _ _).trans_eq (Finset.card_range _)
    have htotal : tfsTotalblocks blocks ≤ 4096 := Nat.min_le_right _ _
    rw [countAllocated_eq, sub_sub_cancel, tfsBlockSize, Int.bmod_eq_of_le (by omega) (by omega)]
    push_cast
    omega
  exact Prod.ext hends.run.1 hends.run.2

/-! ### Creating a file -/

/-- The file can be created: the name is new, there is a free entry, the inode has room for the
blocks, and there are enough of them. -/
structure CanCreate (totalblocks : ℕ) (filename : List UInt8) (size : ℤ) (D : Disk) : Prop where
  newName : ∀ i, Listed D i → fileName D i ≠ filename
  entry   : ∃ i < tfsMaxFiles, ¬Listed D i
  blocks  : ceilBlocks size ≤ tfsBlocksMax
  space   : 1 + ceilBlocks size ≤ freeCount totalblocks (D tfsAllocationBlock)

/-- The disk that `tfs_create` leaves when all its requests succeed. -/
structure CreatedDisk (filename : List UInt8) (D : Disk) (index number : ℕ) (bat inode : Block)
    (D' : Disk) : Prop where
  bat       : D' tfsAllocationBlock = bat
  directory : D' tfsDirectoryBlock = createdDirectory D index number filename
  node      : D' number = inode
  zero      : ∀ b ∈ dataBlocks inode, D' b = fun _ => 0
  frame     : ∀ b, b ≠ tfsAllocationBlock → b ≠ tfsDirectoryBlock →
    b ∉ number :: dataBlocks inode → D' b = D b

lemma numBlocks_eq (hpos : 0 ≤ size) (h : ceilBlocks size ≤ tfsBlocksMax) :
    numBlocks size = ceilBlocks size := by
  have hmax : tfsBlocksMax = 127 := rfl
  rw [ceilBlocks] at h ⊢
  have hmod : (size + 512 - 1).bmod (2 ^ 32) = size + 512 - 1 :=
    Int.bmod_eq_of_le (by omega) (by omega)
  have hdiv : (size + 512 - 1).tdiv 512 = (size + 512 - 1) / 512 :=
    Int.tdiv_eq_ediv_of_nonneg (by omega)
  rw [numBlocks, hmod, hdiv]
  omega

lemma findFreeEntry_eq_none {md : Block} (hname : ValidName filename) {n : ℕ}
    (h : findFreeEntry md filename n = none) : ∃ i < n, entryName md i = filename := by
  induction n with
  | zero => cases h
  | succ n ih =>
    cases hrec : findFreeEntry md filename n with
    | none =>
      obtain ⟨i, hi, heq⟩ := ih hrec
      exact ⟨i, Nat.lt_succ_of_lt hi, heq⟩
    | some index =>
      rw [findFreeEntry, hrec] at h
      by_cases hcmp : stringcmp md (entryNameAddr n) filename = 0
      · exact ⟨n, Nat.lt_succ_self n, (stringcmp_entry hname).mp hcmp⟩
      · by_cases hzero : entryInode md n = 0 <;> simp [hcmp, hzero] at h

lemma findFreeEntry_eq_some_none {md : Block} {n : ℕ}
    (h : findFreeEntry md filename n = some none) : ∀ i < n, entryInode md i ≠ 0 := by
  induction n with
  | zero => exact fun i hi => absurd hi (Nat.not_lt_zero i)
  | succ n ih =>
    simp only [findFreeEntry, Option.bind_eq_bind, Option.bind_eq_some_iff] at h
    obtain ⟨index, hrec, hstep⟩ := h
    by_cases hcmp : stringcmp md (entryNameAddr n) filename = 0
    · rw [if_pos hcmp] at hstep
      cases hstep
    · rw [if_neg hcmp] at hstep
      by_cases hzero : entryInode md n = 0
      · rw [if_pos hzero] at hstep
        cases hstep
      · rw [if_neg hzero, Option.some.injEq] at hstep
        subst hstep
        intro i hi
        rcases Nat.lt_succ_iff_lt_or_eq.mp hi with hlt | rfl
        · exact ih hrec i hlt
        · exact hzero

/-- The loop that writes zeros to the blocks of a file. -/
lemma zeroBlocks_zero (inode : Block) (n pos : ℕ) (D : Disk) :
    (zeroBlocks inode n).Ends (fun _ => true) pos D fun r _ D' => r = true ∧
      (∀ b ∈ firstBlocks inode n, D' b = fun _ => 0) ∧ ∀ b, b ∉ firstBlocks inode n → D' b = D b := by
  induction n with
  | zero => exact Request.ends_pure ⟨rfl, fun b hb => (by cases hb), fun b _ => rfl⟩
  | succ n ih =>
    refine Request.ends_bind (ih.mono fun r pos' D₁ hD₁ => ?_)
    obtain ⟨rfl, hzero, hframe⟩ := hD₁
    rw [firstBlocks_succ]
    refine Request.ends_writeCell_true ⟨rfl, fun b hb => ?_, ?_⟩
    · by_cases hlast : b = (inodeBlock inode n).toNat
      · rw [hlast, Function.update_self]
      · rw [Function.update_of_ne hlast]
        exact hzero b ((List.mem_append.mp hb).resolve_right (mt List.mem_singleton.mp hlast))
    · intro b hb
      rw [List.mem_append, not_or, List.mem_singleton] at hb
      rw [Function.update_of_ne hb.2, hframe b hb.1]

/-- The end of `tfs_create`. -/
lemma createWrite_createdDisk {index number : ℕ} {inode : Block}
    (hcreated : Created totalblocks filename size D index number bat inode)
    (htotal : totalblocks ≤ 2 ^ 32) (hsystem : ∀ b < 3, bitmapGet (D tfsAllocationBlock) b = 1) :
    (createWrite bat (createdDirectory D index number filename) inode index
      (dataCount inode)).Ends (fun _ => true) 2 D fun r _ D' =>
        r = vfsOk ∧ CreatedDisk filename D index number bat inode D' := by
  have hall := hcreated.allocated
  have hthree : ∀ b ∈ number :: dataBlocks inode, 3 ≤ b := fun b => hall.three_le hsystem
  have hnumber := hthree number List.mem_cons_self
  have hinode : (entryInode (createdDirectory D index number filename) index).toNat = number := by
    rw [createdDirectory, entryInode_addEntry]
    exact UInt32.toNat_ofNat_of_lt'
      (lt_of_lt_of_le (hall.fresh number List.mem_cons_self).1 htotal)
  have hbat : tfsAllocationBlock ≠ number := ne_of_lt (lt_of_lt_of_le (by decide) hnumber)
  have hmd : tfsDirectoryBlock ≠ number := ne_of_lt (lt_of_lt_of_le (by decide) hnumber)
  have hdata : ∀ b < 3, b ∉ dataBlocks inode := fun b hb hmem =>
    absurd (hthree b (List.mem_cons_of_mem _ hmem)) (Nat.not_le.mpr hb)
  rw [createWrite, hinode]
  refine Request.ends_bind (Request.ends_writeCell_true ?_)
  refine Request.ends_bind (Request.ends_writeCell_true ?_)
  refine Request.ends_bind (Request.ends_writeCell_true ?_)
  refine Request.ends_bind ((zeroBlocks_zero _ _ _ _).mono fun r _ D' hD' => ?_)
  obtain ⟨rfl, hzero, hframe⟩ := hD'
  refine Request.ends_pure ⟨rfl, ?_, ?_, ?_, hzero, fun b h₁ h₂ hb => ?_⟩
  · rw [hframe _ (hdata _ (by decide)), Function.update_of_ne hbat,
      Function.update_of_ne (by decide), Function.update_self]
  · rw [hframe _ (hdata _ (by decide)), Function.update_of_ne hmd, Function.update_self]
  · rw [hframe number (List.nodup_cons.mp hall.nodup).1, Function.update_self]
  · rw [List.mem_cons, not_or] at hb
    rw [hframe b hb.2, Function.update_of_ne hb.1, Function.update_of_ne h₂,
      Function.update_of_ne h₁]

/-- `tfs_create` succeeds if the file can be created, and leaves the disk as it is otherwise. -/
lemma tfsCreate_createdDisk (hname : ValidName filename) (hpos : 0 ≤ size) (hlt : size < 2 ^ 31)
    (htotal : totalblocks ≤ 2 ^ 32) (hdir : DirectoryOk (D tfsDirectoryBlock))
    (hsystem : ∀ b < 3, bitmapGet (D tfsAllocationBlock) b = 1) :
    (tfsCreate totalblocks filename size).Ends (fun _ => true) 0 D fun r _ D' =>
      (r = vfsError ∧ D' = D ∧ ¬CanCreate totalblocks filename size D) ∨
      r = vfsOk ∧ CanCreate totalblocks filename size D ∧ ∃ index number bat inode,
        Created totalblocks filename size D index number bat inode ∧
        dataCount inode = ceilBlocks size ∧ CreatedDisk filename D index number bat inode D' := by
  have hstay : ∀ pos, ¬CanCreate totalblocks filename size D →
      (pure vfsError : TfsCall ℤ).Ends (fun _ => true) pos D fun r _ D' =>
        (r = vfsError ∧ D' = D ∧ ¬CanCreate totalblocks filename size D) ∨
        r = vfsOk ∧ CanCreate totalblocks filename size D ∧ ∃ index number bat inode,
          Created totalblocks filename size D index number bat inode ∧
          dataCount inode = ceilBlocks size ∧ CreatedDisk filename D index number bat inode D' :=
    fun _ hno => Request.ends_pure (.inl ⟨rfl, rfl, hno⟩)
  rw [tfsCreate]
  by_cases hcount : numBlocks size > tfsBlocksMax
  · rw [if_pos hcount]
    refine hstay _ fun hcan => ?_
    rw [numBlocks_eq hpos hcan.blocks] at hcount
    exact absurd hcan.blocks (Nat.not_le.mpr hcount)
  rw [if_neg hcount]
  have hceil : ceilBlocks size = numBlocks size :=
    (numBlocks_spec hpos hlt (Nat.not_lt.mp hcount)).2.symm
  refine Request.ends_bind (Request.ends_readCell_true ?_)
  dsimp only
  cases hentry : findFreeEntry (D tfsDirectoryBlock) filename tfsMaxFiles with
  | none =>
    refine hstay _ fun hcan => ?_
    obtain ⟨i, hi, heq⟩ := findFreeEntry_eq_none hname hentry
    refine hcan.newName i ⟨hi, fun hfree => hname.nonempty ?_⟩ heq
    exact heq.symm.trans (hdir.free i hi hfree)
  | some entry =>
  cases entry with
  | none =>
    refine hstay _ fun hcan => ?_
    obtain ⟨i, hi, hfree⟩ := hcan.entry
    exact hfree ⟨hi, findFreeEntry_eq_some_none hentry i hi⟩
  | some index =>
  refine Request.ends_bind (Request.ends_readCell_true ?_)
  dsimp only
  cases hnumber : bitmapFindnset (D tfsAllocationBlock) totalblocks with
  | none =>
    refine hstay _ fun hcan => ?_
    have hspace := hcan.space
    rw [bitmapFindnset_eq_none hnumber] at hspace
    omega
  | some found =>
  obtain ⟨bat₁, number⟩ := found
  have hfirst := ((Allocated.nil totalblocks _).findnset hnumber).freeCount
  rw [List.nil_append, List.length_singleton] at hfirst
  dsimp only
  cases halloc : allocBlocks totalblocks bat₁ (Memory.writeWord (fun _ => 0) 0 (UInt32.ofInt size))
      (numBlocks size) with
  | none =>
    refine hstay _ fun hcan => ?_
    have hspace := hcan.space
    have hless := allocBlocks_eq_none htotal halloc
    omega
  | some allocated =>
  obtain ⟨bat, inode⟩ := allocated
  obtain ⟨hcreated, hdata⟩ := created_of_alloc hname hpos hlt htotal hsystem
    (Nat.not_lt.mp hcount) hentry hnumber halloc
  have hwrite := createWrite_createdDisk hcreated htotal hsystem
  rw [hdata] at hwrite
  refine hwrite.mono fun r _ D' hD' => .inr ⟨hD'.1, ⟨fun i hi => ?_, ?_, ?_, ?_⟩, _, _, _, _,
    hcreated, hdata.trans hceil.symm, hD'.2⟩
  · exact hcreated.newName i hi.1
  · exact ⟨index, hcreated.index_lt, hcreated.free⟩
  · rw [hceil]
    exact Nat.not_lt.mp hcount
  · have htaken := hcreated.allocated.freeCount
    rw [List.length_cons, dataBlocks, firstBlocks, List.length_map, List.length_range, hdata] at htaken
    omega

/-! ### Removing a file -/

/-- `tfs_remove` of a file, when all its requests succeed. -/
lemma tfsRemove_removed {index : ℕ} (hname : ValidName filename)
    (hdir : DirectoryOk (D tfsDirectoryBlock)) (hlisted : Listed D index)
    (hfile : fileName D index = filename) :
    (tfsRemove filename).Ends (fun _ => true) 0 D fun r _ D' => r = vfsOk ∧
      D' tfsAllocationBlock = removedBat D index ∧
      D' tfsDirectoryBlock = dropEntry (D tfsDirectoryBlock) index ∧
      ∀ b, b ≠ tfsAllocationBlock → b ≠ tfsDirectoryBlock → D' b = D b := by
  rw [tfsRemove]
  refine Request.ends_bind (Request.ends_readCell_true ?_)
  dsimp only
  rw [hdir.findEntry_eq hname hlisted.1 hlisted.2 hfile]
  refine Request.ends_bind (Request.ends_readCell_true ?_)
  refine Request.ends_bind (Request.ends_readCell_true ?_)
  refine Request.ends_bind (Request.ends_writeCell_true ?_)
  refine Request.ends_bind (Request.ends_writeCell_true ?_)
  refine Request.ends_pure ⟨rfl, ?_, Function.update_self _ _ _, fun b h₁ h₂ => ?_⟩
  · rw [Function.update_of_ne (by decide), Function.update_self]
    rfl
  · rw [Function.update_of_ne h₂, Function.update_of_ne h₁]

/-- The result of `tfs_getfree`. -/
def getfree (totalblocks : ℕ) (D : Disk) : ℤ :=
  ((tfsGetfree totalblocks).run (fun _ => true) D).1

/-- How `tfs_create` of a file on the disk `D` accounts for space, all requests succeeding. -/
structure CreationAccounts (totalblocks : ℕ) (filename : List UInt8) (size : ℤ) (D : Disk) :
    Prop where
  /-- It succeeds exactly if the name is new and there is room in the directory, in the inode and
  on the disk. -/
  succeeds : ((tfsCreate totalblocks filename size).run (fun _ => true) D).1 = vfsOk ↔
    (∀ i, Listed D i → fileName D i ≠ filename) ∧ (∃ i < tfsMaxFiles, ¬Listed D i) ∧
      ceilBlocks size ≤ 127 ∧ 512 * (1 + ceilBlocks size : ℤ) ≤ getfree totalblocks D
  fails    : ((tfsCreate totalblocks filename size).run (fun _ => true) D).1 ≠ vfsOk →
    (tfsCreate totalblocks filename size).run (fun _ => true) D = (vfsError, D)
  takes    : ∀ D', (tfsCreate totalblocks filename size).run (fun _ => true) D = (vfsOk, D') →
    getfree totalblocks D' = getfree totalblocks D - 512 * (1 + ceilBlocks size)
  /-- `tfs_remove` of the new file undoes it. -/
  undone   : ∀ D', (tfsCreate totalblocks filename size).run (fun _ => true) D = (vfsOk, D') →
    ∃ D'', (tfsRemove filename).run (fun _ => true) D' = (vfsOk, D'') ∧
      D'' tfsAllocationBlock = D tfsAllocationBlock ∧ (∀ i, Listed D'' i ↔ Listed D i) ∧
      ∀ i, Listed D i → fileName D'' i = fileName D i ∧ fileContents D'' i = fileContents D i

lemma getfree_eq (blocks : ℕ) (D : Disk) : getfree (tfsTotalblocks blocks) D =
    512 * (freeCount (tfsTotalblocks blocks) (D tfsAllocationBlock) : ℤ) := by
  rw [getfree, tfsGetfree_run]

section Undo

variable {index number : ℕ} {inode : Block}
  (h : Created totalblocks filename size D index number bat inode)
  (hD' : CreatedDisk filename D index number bat inode D')
include h hD'

/-- A file that was just created is removed, and the disk is as before. -/
lemma created_removed (hname : ValidName filename) (htotal : totalblocks ≤ 2 ^ 32)
    (hsound : Sound D totalblocks) :
    ∃ D'', (tfsRemove filename).run (fun _ => true) D' = (vfsOk, D'') ∧
      D'' tfsAllocationBlock = D tfsAllocationBlock ∧ (∀ i, Listed D'' i ↔ Listed D i) ∧
      ∀ i, Listed D i → fileName D'' i = fileName D i ∧ fileContents D'' i = fileContents D i := by
  have hsound' := h.sound hsound hname htotal hD'.bat hD'.directory hD'.frame hD'.node
  have hblocks := h.fileBlocks_eq hsound htotal hD'.directory hD'.node
  have hlisted : Listed D' index :=
    listed_of_mem_fileBlocks (by rw [hblocks]; exact List.mem_cons_self)
  have hfile : fileName D' index = filename := by
    rw [fileName, hD'.directory, createdDirectory, entryName_addEntry hname]
  have hremove := (tfsRemove_removed hname hsound'.directory hlisted hfile).run
  generalize (tfsRemove filename).run (fun _ => true) D' = result at hremove ⊢
  obtain ⟨r, D''⟩ := result
  obtain ⟨rfl, hbat, hmd, hframe⟩ := hremove
  dsimp only at hbat hmd hframe
  have hsame : ∀ i, i ≠ index → SameFile D' D'' i ∧ SameFile D D' i := fun i hi =>
    ⟨removed_sameFile hsound' hframe (.inr hmd) hi, h.sameFile hsound hD'.directory hD'.frame hi⟩
  refine ⟨D'', rfl, bitmap_ext fun p => ?_, fun i => ?_, fun i hi => ?_⟩
  · have hinode := (hsound'.file index trivial).inode hlisted
    rw [hbat, bitmapGet_removedBat hlisted hinode, hblocks, hD'.bat, h.allocated.get]
    by_cases hp : p ∈ number :: dataBlocks inode
    · rw [if_pos hp, (h.allocated.fresh p hp).2]
    · rw [if_neg hp, if_neg hp]
  · by_cases hi : i = index
    · rw [hi]
      exact iff_of_false (removed_not_listed hmd) h.free
    · obtain ⟨hremoved, hcreated⟩ := hsame i hi
      exact hremoved.sameInode.listed_iff.trans hcreated.sameInode.listed_iff
  · have hindex : i ≠ index := by
      rintro rfl
      exact h.free hi
    obtain ⟨hremoved, hcreated⟩ := hsame i hindex
    have hi' := hcreated.sameInode.listed_iff.mpr hi
    exact ⟨hremoved.name.trans hcreated.name,
      (hremoved.fileContents_eq hi').trans (hcreated.fileContents_eq hi)⟩

end Undo

/-- The accounting of `tfs_create` on every volume in order. -/
theorem tfsCreate_accounts {blocks : ℕ} (h : AllocInv D (tfsTotalblocks blocks))
    (hname : ValidName filename) (hpos : 0 ≤ size) (hlt : size < 2 ^ 31) :
    CreationAccounts (tfsTotalblocks blocks) filename size D := by
  have htotal : tfsTotalblocks blocks ≤ 2 ^ 32 := (tfsTotalblocks_le blocks).trans (by decide)
  have hne : vfsError ≠ vfsOk := by decide
  have hcan : CanCreate (tfsTotalblocks blocks) filename size D ↔
      (∀ i, Listed D i → fileName D i ≠ filename) ∧ (∃ i < tfsMaxFiles, ¬Listed D i) ∧
        ceilBlocks size ≤ 127 ∧
          512 * (1 + ceilBlocks size : ℤ) ≤ getfree (tfsTotalblocks blocks) D := by
    rw [getfree_eq]
    exact ⟨fun h => ⟨h.newName, h.entry, h.blocks, by have hspace := h.space; omega⟩,
      fun ⟨hnew, hentry, hblocks, hspace⟩ => ⟨hnew, hentry, hblocks, by omega⟩⟩
  have hrun := (tfsCreate_createdDisk hname hpos hlt htotal h.sound.directory h.sound.system).run
  generalize hresult : (tfsCreate (tfsTotalblocks blocks) filename size).run (fun _ => true) D =
    result at hrun
  obtain ⟨r, D'⟩ := result
  rcases hrun with ⟨rfl, rfl, hno⟩ | ⟨rfl, hyes, index, number, bat, inode, hcreated, hdata, hD'⟩
  · refine ⟨?_, fun _ => hresult, fun D' heq => ?_, fun D' heq => ?_⟩
    · rw [hresult]
      exact iff_of_false hne (mt hcan.mpr hno)
    · rw [hresult, Prod.mk.injEq] at heq
      exact absurd heq.1 hne
    · rw [hresult, Prod.mk.injEq] at heq
      exact absurd heq.1 hne
  · replace hD' : CreatedDisk filename D index number bat inode D' := hD'
    refine ⟨?_, fun hfail => absurd (by rw [hresult]) hfail, fun D₁ heq => ?_, fun D₁ heq => ?_⟩
    · rw [hresult]
      exact iff_of_true rfl (hcan.mp hyes)
    · rw [hresult, Prod.mk.injEq] at heq
      obtain ⟨-, rfl⟩ := heq
      have htaken := hcreated.allocated.freeCount
      rw [List.length_cons, dataBlocks, firstBlocks, List.length_map, List.length_range,
        hdata] at htaken
      rw [getfree_eq, getfree_eq, hD'.bat]
      omega
    · rw [hresult, Prod.mk.injEq] at heq
      obtain ⟨-, rfl⟩ := heq
      exact created_removed hcreated hD' hname htotal h.sound

/-- A file of 600 bytes on a new volume of eight blocks. -/
theorem tfsCreate_accounts_new : CreationAccounts (tfsTotalblocks 8) [102] 600
    (tfstoolCreatevol 8 (fun _ => 65) fun _ _ => 0) :=
  tfsCreate_accounts (createvol_allocInv 8 _ _) validName_f (by decide) (by decide)

end Osm.Fs
