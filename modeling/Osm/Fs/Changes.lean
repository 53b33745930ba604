import Osm.Fs.Layout

/-!
# What the calls do to a volume

For each call of the trivial filesystem, the disks that it can leave behind when any of its
requests may fail: a failed request ends the call, so that the disk has the blocks that were
written up to there.
-/

namespace Osm.Fs

open Osm.Core Osm.Lib

variable {totalblocks : ℕ} {filename : List UInt8} {D D' : Disk} {ok : ℕ → Bool}

/-! ### Creating a file -/

/-- What `tfs_create` has found when it starts to write: a free entry, a block for the inode, the
new allocation block and the inode. -/
structure Created (totalblocks : ℕ) (filename : List UInt8) (size : ℤ) (D : Disk)
    (index number : ℕ) (bat inode : Block) : Prop where
  index_lt : index < tfsMaxFiles
  index_free : entryInode (D tfsDirectoryBlock) index = 0
  newName : ∀ i < tfsMaxFiles, fileName D i ≠ filename
  filesize_eq : filesize inode = UInt32.ofInt size
  inodeOk : InodeOk inode
  allocated : Allocated totalblocks (D tfsAllocationBlock) bat (number :: dataBlocks inode)

/-- The directory that `tfs_create` writes. -/
def createdDirectory (D : Disk) (index number : ℕ) (filename : List UInt8) : Block :=
  addEntry (D tfsDirectoryBlock) index filename (UInt32.ofNat number)

/-- The disks after `tfs_create` has started to write: after the first, the second, or at least
three of its blocks. -/
def CreateWrites (ok : ℕ → Bool) (filename : List UInt8) (D : Disk) (index number : ℕ)
    (bat inode : Block) (D' : Disk) : Prop :=
  ok 3 = false ∧ D' = Function.update D tfsAllocationBlock bat ∨
  (D' tfsAllocationBlock = bat ∧ D' tfsDirectoryBlock = createdDirectory D index number filename ∧
    ∀ b, b ≠ tfsAllocationBlock → b ≠ tfsDirectoryBlock → b ∉ number :: dataBlocks inode →
      D' b = D b) ∧ (ok 4 = false ∨ D' number = inode)

/-- The loop that writes zeros changes the blocks of the file only. -/
lemma zeroBlocks_ends (inode : Block) (n pos : ℕ) (D : Disk) :
    Request.Ends ok (zeroBlocks inode n) pos D fun _ _ D' =>
      ∀ b, b ∉ firstBlocks inode n → D' b = D b := by
  induction n with
  | zero => exact Request.ends_pure fun b _ => rfl
  | succ n ih =>
    refine Request.ends_bind (ih.mono fun r pos' D₁ hD₁ => ?_)
    rw [firstBlocks_succ]
    have hprefix : ∀ b, b ∉ firstBlocks inode n ++ [(inodeBlock inode n).toNat] → D₁ b = D b :=
      fun b hb => hD₁ b fun hmem => hb (List.mem_append_left _ hmem)
    cases r with
    | false => exact Request.ends_pure hprefix
    | true =>
      refine Request.ends_writeCell (fun _ => hprefix) (fun _ b hb => ?_)
      rw [Function.update_of_ne, hprefix b hb]
      rintro rfl
      exact hb (List.mem_append_right _ (List.mem_singleton_self _))

lemma Allocated.three_le {bat bat' : Block} {bs : List ℕ} (h : Allocated totalblocks bat bat' bs)
    (hsystem : ∀ b < 3, bitmapGet bat b = 1) {b : ℕ} (hb : b ∈ bs) : 3 ≤ b := by
  by_contra hlt
  have hzero := (h.fresh b hb).2
  rw [hsystem b (by omega)] at hzero
  cases hzero

/-- The inode that `tfs_create` has in its buffer after the loops. -/
lemma created_of_alloc {size : ℤ} {index number : ℕ} {bat₁ bat inode : Block}
    (hname : ValidName filename) (hpos : 0 ≤ size) (hlt : size < 2 ^ 31)
    (htotal : totalblocks ≤ 2 ^ 32) (hsystem : ∀ b < 3, bitmapGet (D tfsAllocationBlock) b = 1)
    (hcount : numBlocks size ≤ tfsBlocksMax)
    (hentry : findFreeEntry (D tfsDirectoryBlock) filename tfsMaxFiles = some (some index))
    (hnumber : bitmapFindnset (D tfsAllocationBlock) totalblocks = some (bat₁, number))
    (halloc : allocBlocks totalblocks bat₁ (Memory.writeWord (fun _ => 0) 0 (UInt32.ofInt size))
      (numBlocks size) = some (bat, inode)) :
    Created totalblocks filename size D index number bat (clearBlocks inode (numBlocks size)) ∧
      dataCount (clearBlocks inode (numBlocks size)) = numBlocks size := by
  obtain ⟨hnames, hfree⟩ := findFreeEntry_spec hname hentry
  obtain ⟨hindex, hzero⟩ := hfree index rfl
  obtain ⟨hle, hblocks⟩ := numBlocks_spec hpos hlt hcount
  have hfirst := (Allocated.nil totalblocks (D tfsAllocationBlock)).findnset hnumber
  obtain ⟨hall, hsize⟩ := hfirst.allocBlocks htotal halloc
  obtain ⟨hsize', hslots⟩ := clearBlocks_spec inode hcount
  have hword : filesize (Memory.writeWord (fun _ => 0) 0 (UInt32.ofInt size)) = UInt32.ofInt size :=
    Memory.readWord_writeWord_self _ _ _
  have hfilesize : filesize (clearBlocks inode (numBlocks size)) = UInt32.ofInt size := by
    rw [hsize', hsize, hword]
  have htoNat : (UInt32.ofInt size).toNat = size.toNat := by
    rw [UInt32.ofInt, UInt32.toNat_ofNat']
    omega
  have hdata : dataCount (clearBlocks inode (numBlocks size)) = numBlocks size := by
    rw [dataCount, hfilesize, htoNat, hblocks]
  have hkeep : dataBlocks (clearBlocks inode (numBlocks size)) =
      firstBlocks inode (numBlocks size) := by
    rw [dataBlocks, hdata]
    exact firstBlocks_congr fun k hk => by rw [hslots k (by omega), if_pos hk]
  rw [List.nil_append, List.singleton_append] at hall
  rw [← hkeep] at hall
  have hdataLe : dataCount (clearBlocks inode (numBlocks size)) ≤ tfsBlocksMax := by rwa [hdata]
  refine ⟨⟨hindex, hzero, hnames, hfilesize, ⟨hdataLe, fun k hk => ?_⟩, hall⟩, hdata⟩
  rw [hslots k hk, hdata]
  by_cases hkn : k < numBlocks size
  · rw [if_pos hkn]
    refine iff_of_true (fun hno => ?_) hkn
    have hmem : (inodeBlock inode k).toNat ∈
        number :: dataBlocks (clearBlocks inode (numBlocks size)) := by
      rw [hkeep]
      exact List.mem_cons_of_mem _ (List.mem_map.mpr ⟨k, List.mem_range.mpr hkn, rfl⟩)
    have hthree := hall.three_le hsystem hmem
    rw [hno] at hthree
    exact absurd hthree (by decide)
  · rw [if_neg hkn]
    exact iff_of_false (fun h => h rfl) hkn

/-- The disks that `tfs_create` leaves behind. -/
def CreateEffect (ok : ℕ → Bool) (totalblocks : ℕ) (filename : List UInt8) (size : ℤ)
    (D D' : Disk) : Prop :=
  D' = D ∨ ∃ index number bat inode, Created totalblocks filename size D index number bat inode ∧
    CreateWrites ok filename D index number bat inode D'

/-- The end of `tfs_create`. -/
lemma createWrite_ends {size : ℤ} {index number : ℕ} {bat inode : Block}
    (hcreated : Created totalblocks filename size D index number bat inode)
    (htotal : totalblocks ≤ 2 ^ 32) (hsystem : ∀ b < 3, bitmapGet (D tfsAllocationBlock) b = 1) :
    Request.Ends ok (createWrite bat (createdDirectory D index number filename) inode index
      (dataCount inode)) 2 D fun _ _ => CreateEffect ok totalblocks filename size D := by
  have hall := hcreated.allocated
  have hthree : ∀ b ∈ number :: dataBlocks inode, 3 ≤ b := fun b => hall.three_le hsystem
  have hnumber : number < totalblocks ∧ 3 ≤ number :=
    ⟨(hall.fresh number List.mem_cons_self).1, hthree number List.mem_cons_self⟩
  have hinode : (entryInode (createdDirectory D index number filename) index).toNat = number := by
    rw [createdDirectory, entryInode_addEntry]
    exact UInt32.toNat_ofNat_of_lt' (lt_of_lt_of_le hnumber.1 htotal)
  have hwrites : ∀ D', CreateWrites ok filename D index number bat inode D' →
      CreateEffect ok totalblocks filename size D D' :=
    fun D' h => Or.inr ⟨index, number, bat, inode, hcreated, h⟩
  have hbat : tfsAllocationBlock ≠ number := ne_of_lt (lt_of_lt_of_le (by decide) hnumber.2)
  have hmd : tfsDirectoryBlock ≠ number := ne_of_lt (lt_of_lt_of_le (by decide) hnumber.2)
  rw [createWrite, hinode]
  refine Request.ends_bind (Request.ends_writeCell (fun _ => Or.inl rfl) fun _ => ?_)
  refine Request.ends_bind (Request.ends_writeCell (fun hfail => ?_) fun _ => ?_)
  · exact hwrites _ (Or.inl ⟨hfail, rfl⟩)
  refine Request.ends_bind (Request.ends_writeCell (fun hfail => ?_) fun _ => ?_)
  · refine Request.ends_pure (hwrites _ (Or.inr
      ⟨⟨?_, Function.update_self _ _ _, fun b h₁ h₂ _ => ?_⟩, Or.inl hfail⟩))
    · rw [Function.update_of_ne (by decide), Function.update_self]
    · rw [Function.update_of_ne h₂, Function.update_of_ne h₁]
  refine Request.ends_bind ((zeroBlocks_ends _ _ _ _).mono fun r _ D' hD' => ?_)
  have heffect : CreateEffect ok totalblocks filename size D D' := by
    have hdata : ∀ b < 3, b ∉ dataBlocks inode := fun b hb hmem =>
      absurd (hthree b (List.mem_cons_of_mem _ hmem)) (Nat.not_le.mpr hb)
    refine hwrites D' (Or.inr ⟨⟨?_, ?_, fun b h₁ h₂ hb => ?_⟩, Or.inr ?_⟩)
    · rw [hD' _ (hdata _ (by decide)), Function.update_of_ne hbat, Function.update_of_ne (by decide),
        Function.update_self]
    · rw [hD' _ (hdata _ (by decide)), Function.update_of_ne hmd, Function.update_self]
    · rw [List.mem_cons, not_or] at hb
      rw [hD' b hb.2, Function.update_of_ne hb.1, Function.update_of_ne h₂,
        Function.update_of_ne h₁]
    · rw [hD' number (List.nodup_cons.mp hall.nodup).1, Function.update_self]
  cases r with
  | false => exact heffect
  | true => exact heffect

lemma tfsCreate_ends {size : ℤ} (hname : ValidName filename) (hpos : 0 ≤ size)
    (hlt : size < 2 ^ 31) (htotal : totalblocks ≤ 2 ^ 32)
    (hsystem : ∀ b < 3, bitmapGet (D tfsAllocationBlock) b = 1) :
    Request.Ends ok (tfsCreate totalblocks filename size) 0 D fun _ _ =>
      CreateEffect ok totalblocks filename size D := by
  have hstay : ∀ pos, Request.Ends ok (pure vfsError : TfsCall ℤ) pos D fun _ _ =>
    CreateEffect ok totalblocks filename size D := fun _ => Or.inl rfl
  rw [tfsCreate]
  by_cases hcount : numBlocks size > tfsBlocksMax
  · rw [if_pos hcount]
    exact hstay _
  rw [if_neg hcount]
  refine Request.ends_bind (Request.ends_readCell (fun _ => hstay _) fun _ => ?_)
  dsimp only
  cases hentry : findFreeEntry (D tfsDirectoryBlock) filename tfsMaxFiles with
  | none => exact hstay _
  | some entry =>
  cases entry with
  | none => exact hstay _
  | some index =>
  refine Request.ends_bind (Request.ends_readCell (fun _ => hstay _) fun _ => ?_)
  dsimp only
  cases hnumber : bitmapFindnset (D tfsAllocationBlock) totalblocks with
  | none => exact hstay _
  | some found =>
  obtain ⟨bat₁, number⟩ := found
  dsimp only
  cases halloc : allocBlocks totalblocks bat₁ (Memory.writeWord (fun _ => 0) 0 (UInt32.ofInt size))
      (numBlocks size) with
  | none => exact hstay _
  | some allocated =>
  obtain ⟨bat, inode⟩ := allocated
  obtain ⟨hcreated, hdata⟩ := created_of_alloc hname hpos hlt htotal hsystem (Nat.not_lt.mp hcount)
    hentry hnumber halloc
  have hwrite := @createWrite_ends _ _ _ ok _ _ _ _ _ hcreated htotal hsystem
  rw [hdata] at hwrite
  exact hwrite

lemma tfsCreate_effect {size : ℤ} (hname : ValidName filename) (hpos : 0 ≤ size)
    (hlt : size < 2 ^ 31) (htotal : totalblocks ≤ 2 ^ 32) (hsound : Sound D totalblocks) :
    CreateEffect ok totalblocks filename size D
      ((tfsCreate totalblocks filename size).run ok D).2 :=
  (tfsCreate_ends hname hpos hlt htotal hsound.system).run

namespace Created

variable {size : ℤ} {index number : ℕ} {bat inode : Block}

/-- After the allocation block has been written, some blocks are marked that nobody owns. -/
lemma marked (h : Created totalblocks filename size D index number bat inode) {b : ℕ}
    (hb : bitmapGet (D tfsAllocationBlock) b = 1) : bitmapGet bat b = 1 := by
  rw [h.allocated.get]
  split
  · rfl
  · exact hb

lemma free (h : Created totalblocks filename size D index number bat inode) : ¬Listed D index :=
  fun hlisted => hlisted.2 h.index_free

/-- The new blocks belong to no file. -/
lemma not_owned (h : Created totalblocks filename size D index number bat inode)
    (hsound : Sound D totalblocks) {b i : ℕ} (hb : b ∈ number :: dataBlocks inode) :
    b ∉ fileBlocks D i :=
  fun hmem => (hsound.file i trivial).ne_of_unmarked hmem (h.allocated.fresh b hb).2 rfl

/-- The disk with the new allocation block only. -/
lemma sound_bat (h : Created totalblocks filename size D index number bat inode)
    (hsound : Sound D totalblocks) :
    Sound (Function.update D tfsAllocationBlock bat) totalblocks ∧
      ∀ i, SameFile D (Function.update D tfsAllocationBlock bat) i := by
  have hmd : Function.update D tfsAllocationBlock bat tfsDirectoryBlock = D tfsDirectoryBlock :=
    Function.update_of_ne (by decide) _ _
  have hsame : ∀ i, SameFile D (Function.update D tfsAllocationBlock bat) i := by
    refine fun i => ⟨by rw [hmd], by rw [fileName, hmd, fileName], fun b hb => ?_⟩
    refine Function.update_of_ne ?_ _ _
    have hrange := ((hsound.file i trivial).range b hb).1
    exact ne_of_gt (lt_of_lt_of_le (by decide) hrange)
  refine ⟨hsound.change (fun _ _ => trivial) ?_ (fun i _ => (hsame i).sameInode) fun b hb _ => ?_, hsame⟩
  · rw [hmd]
    exact hsound.directory
  · rw [Function.update_self]
    exact h.marked hb

variable (h : Created totalblocks filename size D index number bat inode)
  (hsound : Sound D totalblocks) (hname : ValidName filename) (htotal : totalblocks ≤ 2 ^ 32)
  (hbat : D' tfsAllocationBlock = bat)
  (hmd : D' tfsDirectoryBlock = createdDirectory D index number filename)
  (hframe : ∀ b, b ≠ tfsAllocationBlock → b ≠ tfsDirectoryBlock → b ∉ number :: dataBlocks inode →
    D' b = D b)

include h hsound hmd hframe in
/-- The other files stay as they are. -/
lemma sameFile {i : ℕ} (hi : i ≠ index) : SameFile D D' i := by
  refine ⟨?_, ?_, fun b hb => hframe b ?_ ?_ fun hnew => h.not_owned hsound hnew hb⟩
  · rw [hmd, createdDirectory, entryInode_addEntry_of_ne hi]
  · rw [fileName, hmd, createdDirectory, entryName_addEntry_of_ne hi, fileName]
  all_goals
    have hrange := ((hsound.file i trivial).range b hb).1
    exact ne_of_gt (lt_of_lt_of_le (by decide) hrange)

include h hsound htotal in
lemma number_toNat : (UInt32.ofNat number).toNat = number ∧ 3 ≤ number := by
  have hmem : number ∈ number :: dataBlocks inode := List.mem_cons_self
  have hlt := (h.allocated.fresh number hmem).1
  exact ⟨UInt32.toNat_ofNat_of_lt' (lt_of_lt_of_le hlt htotal),
    h.allocated.three_le hsound.system hmem⟩

include h hsound hname htotal hbat hmd hframe in
/-- The disk with the new directory, whatever is in the block of the new inode. -/
lemma soundOn : SoundOn D' (· ≠ index) totalblocks := by
  obtain ⟨hnumber, hthree⟩ := h.number_toNat hsound htotal
  refine hsound.change (fun _ _ => trivial) ?_ (fun i hi =>
    (h.sameFile hsound hmd hframe hi).sameInode) fun b hb _ => ?_
  · rw [hmd]
    refine hsound.directory.addEntry hname h.newName fun hzero => ?_
    rw [hzero] at hnumber
    rw [← hnumber] at hthree
    exact absurd hthree (by decide)
  · rw [hbat]
    exact h.marked hb

include h hsound htotal hmd in
lemma fileBlocks_eq (hinode : D' number = inode) :
    fileBlocks D' index = number :: dataBlocks inode := by
  obtain ⟨hnumber, hthree⟩ := h.number_toNat hsound htotal
  have hentry : entryInode (D' tfsDirectoryBlock) index = UInt32.ofNat number := by
    rw [hmd, createdDirectory, entryInode_addEntry]
  have hlisted : Listed D' index := by
    refine ⟨h.index_lt, fun hzero => ?_⟩
    rw [hentry] at hzero
    rw [hzero] at hnumber
    rw [← hnumber] at hthree
    exact absurd hthree (by decide)
  have hin : inodeNumber D' index = number := by rw [inodeNumber, hentry, hnumber]
  rw [fileBlocks_listed hlisted, hin, hinode]

include h hsound hname htotal hbat hmd hframe in
/-- The disk with the new inode. -/
lemma sound (hinode : D' number = inode) : Sound D' totalblocks := by
  have hblocks := h.fileBlocks_eq hsound htotal hmd hinode
  obtain ⟨hnumber, -⟩ := h.number_toNat hsound htotal
  have hin : inodeNumber D' index = number := by
    rw [inodeNumber, hmd, createdDirectory, entryInode_addEntry, hnumber]
  refine (h.soundOn hsound hname htotal hbat hmd hframe).insert ⟨fun _ => ?_, ?_, ?_, ?_⟩ ?_
  · rw [hin, hinode]
    exact h.inodeOk
  · rw [hblocks]
    exact h.allocated.nodup
  · rw [hblocks]
    exact fun b hb => ⟨h.allocated.three_le hsound.system hb, (h.allocated.fresh b hb).1⟩
  · rw [hblocks, hbat]
    exact fun b hb => by rw [h.allocated.get, if_pos hb]
  · intro i hi b hb
    rw [(h.sameFile hsound hmd hframe hi).sameInode.fileBlocks_eq]
    rw [hblocks] at hb
    exact h.not_owned hsound hb

include h hname htotal hbat hmd hframe in
lemma allocInv (hinv : AllocInv D totalblocks) (hinode : D' number = inode) :
    AllocInv D' totalblocks := by
  have hsound := hinv.sound
  refine ⟨h.sound hsound hname htotal hbat hmd hframe hinode, fun b hb hget => ?_⟩
  rw [hbat, h.allocated.get] at hget
  by_cases hnew : b ∈ number :: dataBlocks inode
  · exact Or.inr ⟨index, by rwa [h.fileBlocks_eq hsound htotal hmd hinode]⟩
  · rw [if_neg hnew] at hget
    refine (hinv.owned b hb hget).imp_right fun ⟨i, hi⟩ => ⟨i, ?_⟩
    have hindex : i ≠ index := by
      rintro rfl
      exact h.free (listed_of_mem_fileBlocks hi)
    rwa [(h.sameFile hsound hmd hframe hindex).sameInode.fileBlocks_eq]

end Created

/-! ### Removing a file -/

/-- The allocation block that `tfs_remove` writes. -/
def removedBat (D : Disk) (index : ℕ) : Block :=
  freeBlocks (bitmapSet (D tfsAllocationBlock) (inodeNumber D index) false)
    (D (inodeNumber D index))

/-- The disks that `tfs_remove` leaves behind: the old one, or one with the new allocation block
and the old or the new directory. -/
def RemoveEffect (ok : ℕ → Bool) (filename : List UInt8) (D D' : Disk) : Prop :=
  D' = D ∨ ∃ index, Listed D index ∧ fileName D index = filename ∧
    D' tfsAllocationBlock = removedBat D index ∧
    (∀ b, b ≠ tfsAllocationBlock → b ≠ tfsDirectoryBlock → D' b = D b) ∧
    (ok 4 = false ∧ D' tfsDirectoryBlock = D tfsDirectoryBlock ∨
      D' tfsDirectoryBlock = dropEntry (D tfsDirectoryBlock) index)

lemma findEntry_listed {index : ℕ} (hname : ValidName filename)
    (hdir : DirectoryOk (D tfsDirectoryBlock))
    (h : findEntry (D tfsDirectoryBlock) filename = some index) :
    Listed D index ∧ fileName D index = filename := by
  obtain ⟨hlt, hentry⟩ := findEntry_eq_some hname h
  refine ⟨⟨hlt, fun hzero => hname.nonempty ?_⟩, hentry⟩
  rw [← hentry, hdir.free index hlt hzero]

lemma tfsRemove_ends (hname : ValidName filename) (hdir : DirectoryOk (D tfsDirectoryBlock)) :
    Request.Ends ok (tfsRemove filename) 0 D fun _ _ => RemoveEffect ok filename D := by
  have hstay : ∀ (r : ℤ) pos, Request.Ends ok (pure r : TfsCall ℤ) pos D fun _ _ =>
    RemoveEffect ok filename D := fun _ _ => Or.inl rfl
  rw [tfsRemove]
  refine Request.ends_bind (Request.ends_readCell (fun _ => hstay _ _) fun _ => ?_)
  dsimp only
  cases hentry : findEntry (D tfsDirectoryBlock) filename with
  | none => exact hstay _ _
  | some index =>
  obtain ⟨hlisted, hfile⟩ := findEntry_listed hname hdir hentry
  refine Request.ends_bind (Request.ends_readCell (fun _ => hstay _ _) fun _ => ?_)
  refine Request.ends_bind (Request.ends_readCell (fun _ => hstay _ _) fun _ => ?_)
  refine Request.ends_bind (Request.ends_writeCell (fun _ => hstay _ _) fun _ => ?_)
  refine Request.ends_bind (Request.ends_writeCell (fun hfail => ?_) fun _ => ?_)
  · refine Request.ends_pure (Or.inr ⟨index, hlisted, hfile, Function.update_self _ _ _,
      fun b h₁ _ => Function.update_of_ne h₁ _ _,
      Or.inl ⟨hfail, Function.update_of_ne (by decide) _ _⟩⟩)
  · refine Request.ends_pure (Or.inr ⟨index, hlisted, hfile, ?_, fun b h₁ h₂ => ?_,
      Or.inr (Function.update_self _ _ _)⟩)
    · rw [Function.update_of_ne (by decide), Function.update_self]
      rfl
    · rw [Function.update_of_ne h₂, Function.update_of_ne h₁]

lemma tfsRemove_effect (hname : ValidName filename) (hsound : Sound D totalblocks) :
    RemoveEffect ok filename D ((tfsRemove filename).run ok D).2 :=
  (tfsRemove_ends hname hsound.directory).run

section Removed

variable {index : ℕ} (hlisted : Listed D index)

include hlisted in
/-- The blocks of the file are no longer marked. -/
lemma bitmapGet_removedBat (hinode : InodeOk (D (inodeNumber D index))) (p : ℕ) :
    bitmapGet (removedBat D index) p =
      if p ∈ fileBlocks D index then 0 else bitmapGet (D tfsAllocationBlock) p := by
  rw [removedBat, bitmapGet_freeBlocks hinode, bitmapGet_bitmapSet, fileBlocks_listed hlisted]
  by_cases hdata : p ∈ dataBlocks (D (inodeNumber D index))
  · rw [if_pos hdata, if_pos (List.mem_cons_of_mem _ hdata)]
  · by_cases hself : p = inodeNumber D index <;> simp [hdata, hself]

variable (hsound : Sound D totalblocks) (hbat : D' tfsAllocationBlock = removedBat D index)
  (hframe : ∀ b, b ≠ tfsAllocationBlock → b ≠ tfsDirectoryBlock → D' b = D b)
  (hmd : D' tfsDirectoryBlock = D tfsDirectoryBlock ∨
    D' tfsDirectoryBlock = dropEntry (D tfsDirectoryBlock) index)

include hsound hframe hmd in
/-- The other files stay as they are. -/
lemma removed_sameFile {i : ℕ} (hi : i ≠ index) : SameFile D D' i := by
  have hblocks : ∀ b ∈ fileBlocks D i, D' b = D b := by
    intro b hb
    have hrange := ((hsound.file i trivial).range b hb).1
    exact hframe b (ne_of_gt (lt_of_lt_of_le (by decide) hrange))
      (ne_of_gt (lt_of_lt_of_le (by decide) hrange))
  rcases hmd with hmd | hmd
  · exact ⟨by rw [hmd], by rw [fileName, hmd, fileName], hblocks⟩
  · refine ⟨?_, ?_, hblocks⟩
    · rw [hmd, entryInode_dropEntry_of_ne hi]
    · rw [fileName, hmd, entryName_dropEntry_of_ne hi, fileName]

include hlisted hsound hbat hframe hmd in
lemma removed_soundOn : SoundOn D' (· ≠ index) totalblocks := by
  refine hsound.change (fun _ _ => trivial) ?_ (fun i hi =>
    (removed_sameFile hsound hframe hmd hi).sameInode) fun b hb howner => ?_
  · rcases hmd with hmd | hmd
    · rw [hmd]
      exact hsound.directory
    · rw [hmd]
      exact hsound.directory.dropEntry
  · have hfile := hsound.file index trivial
    have hother : b ∉ fileBlocks D index := by
      intro hmem
      rcases howner with hlt | ⟨i, hi, howned⟩
      · exact absurd (hfile.range b hmem).1 (Nat.not_le.mpr hlt)
      · exact hsound.disjoint i index trivial trivial hi howned hmem
    rw [hbat, bitmapGet_removedBat hlisted (hfile.inode hlisted), if_neg hother]
    exact hb

variable (hdrop : D' tfsDirectoryBlock = dropEntry (D tfsDirectoryBlock) index)

include hdrop in
lemma removed_not_listed : ¬Listed D' index := by
  rintro ⟨-, hused⟩
  rw [hdrop, entryInode_dropEntry] at hused
  exact hused rfl

include hlisted hsound hbat hframe hdrop in
lemma removed_sound : Sound D' totalblocks := by
  have hfree := removed_not_listed hdrop
  refine (removed_soundOn hlisted hsound hbat hframe (Or.inr hdrop)).insert (FileOk.free hfree) ?_
  intro i _
  rw [fileBlocks_free hfree]
  exact List.disjoint_nil_left _

include hlisted hbat hframe hdrop in
lemma removed_allocInv (hinv : AllocInv D totalblocks) : AllocInv D' totalblocks := by
  refine ⟨removed_sound hlisted hinv.sound hbat hframe hdrop, fun b hb hget => ?_⟩
  have hfile := hinv.sound.file index trivial
  rw [hbat, bitmapGet_removedBat hlisted (hfile.inode hlisted)] at hget
  by_cases howned : b ∈ fileBlocks D index
  · rw [if_pos howned] at hget
    cases hget
  · rw [if_neg howned] at hget
    refine (hinv.owned b hb hget).imp_right fun ⟨i, hi⟩ => ⟨i, ?_⟩
    have hindex : i ≠ index := by
      rintro rfl
      exact howned hi
    rwa [(removed_sameFile hinv.sound hframe (Or.inr hdrop) hindex).sameInode.fileBlocks_eq]

end Removed

/-! ### Opening, reading and writing -/

lemma tfsOpen_ends (hname : ValidName filename) (hsound : Sound D totalblocks)
    (htotal : totalblocks ≤ 2 ^ 31) :
    Request.Ends ok (tfsOpen filename) 0 D fun r _ D' => D' = D ∧
      (r < 0 ∨ ∃ i, Listed D i ∧ fileName D i = filename ∧ r = inodeNumber D i) := by
  rw [tfsOpen]
  refine Request.ends_bind (Request.ends_readCell
    (fun _ => Request.ends_pure ⟨rfl, Or.inl (by decide)⟩) fun _ => ?_)
  dsimp only
  cases hentry : findEntry (D tfsDirectoryBlock) filename with
  | none => exact Request.ends_pure ⟨rfl, Or.inl (by decide)⟩
  | some i =>
    obtain ⟨hlisted, hfile⟩ := findEntry_listed hname hsound.directory hentry
    refine Request.ends_pure ⟨rfl, Or.inr ⟨i, hlisted, hfile, ?_⟩⟩
    have hrange := (hsound.file i trivial).range _ (inodeNumber_mem_fileBlocks hlisted)
    exact toInt_of_lt (lt_of_lt_of_le hrange.2 htotal)

lemma tfsReadLoop_ends (inode : Block) (rest : ℕ → UInt32) (b2 bufsize n b1 read : ℕ) (bat : Block)
    (buffer : List UInt8) (pos : ℕ) :
    Request.Ends ok (tfsReadLoop inode rest b2 bufsize n b1 read bat buffer) pos D
      fun _ _ D' => D' = D := by
  induction n generalizing b1 read bat buffer pos with
  | zero => exact Request.ends_pure rfl
  | succ n ih =>
    rw [tfsReadLoop]
    refine Request.ends_bind (Request.ends_readCell (fun _ => Request.ends_pure rfl) fun _ => ?_)
    dsimp only
    split
    · exact ih _ _ _ _ _
    · exact ih _ _ _ _ _

/-- Reading leaves the disk as it is. -/
lemma tfsRead_ends (bat : Block) (rest : ℕ → UInt32) (fileid : ℤ) (bufsize : ℕ) (offset : ℤ) :
    Request.Ends ok (tfsRead totalblocks bat rest fileid bufsize offset) 0 D
      fun _ _ D' => D' = D := by
  have hstay : ∀ (r : ℤ × List UInt8) pos, Request.Ends ok (pure r : TfsCall _) pos D
    fun _ _ D' => D' = D := fun _ _ => rfl
  rw [tfsRead]
  split
  · exact hstay _ _
  refine Request.ends_bind (Request.ends_readCell (fun _ => hstay _ _) fun _ => ?_)
  dsimp only
  split
  · exact hstay _ _
  split
  · exact hstay _ _
  refine Request.ends_bind (Request.ends_readCell (fun _ => hstay _ _) fun _ => ?_)
  exact tfsReadLoop_ends _ _ _ _ _ _ _ _ _ _

lemma tfsRead_effect (bat : Block) (rest : ℕ → UInt32) (fileid : ℤ) (bufsize : ℕ) (offset : ℤ) :
    ((tfsRead totalblocks bat rest fileid bufsize offset).run ok D).2 = D :=
  (tfsRead_ends bat rest fileid bufsize offset).run

section Write

variable {inode : Block} {rest : ℕ → UInt32} {buffer : ℕ → UInt8}

lemma InodeOk.blockNumber_mem (h : InodeOk inode) (bat : Block) (rest : ℕ → UInt32) {k : ℕ}
    (hk : k < dataCount inode) : blockNumber inode bat rest k ∈ dataBlocks inode := by
  rw [blockNumber, if_pos (lt_of_lt_of_le hk h.count)]
  exact List.mem_map.mpr ⟨k, List.mem_range.mpr hk, rfl⟩

/-- Blocks are read before they are written in part. -/
lemma readIf_ends {c : Prop} [Decidable c] (block : ℕ) (bat : Block) (pos : ℕ) (D : Disk) :
    Request.Ends ok (if c then readBlock block else return some bat) pos D
      fun _ _ D' => D' = D := by
  split
  · exact Request.ends_readCell (fun _ => rfl) fun _ => rfl
  · exact Request.ends_pure rfl

/-- The loop of `tfs_write` writes to blocks of the file. -/
lemma tfsWriteLoop_ends (hinode : InodeOk inode) (rest : ℕ → UInt32) (buffer : ℕ → UInt8)
    (b2 datasize : ℕ) (n b1 written : ℕ) (bat : Block) (pos : ℕ) (D : Disk)
    (hle : b1 + n ≤ dataCount inode) :
    Request.Ends ok (tfsWriteLoop inode rest buffer b2 datasize n b1 written bat) pos D
      fun _ _ D' => ∀ b, b ∉ dataBlocks inode → D' b = D b := by
  induction n generalizing b1 written bat pos D with
  | zero => exact Request.ends_pure fun _ _ => rfl
  | succ n ih =>
    rw [tfsWriteLoop]
    refine Request.ends_bind ((readIf_ends _ _ _ _).mono fun r _ D₁ hD₁ => ?_)
    subst hD₁
    cases r with
    | none => exact Request.ends_pure fun _ _ => rfl
    | some bat =>
      refine Request.ends_bind (Request.ends_writeCell
        (fun _ => Request.ends_pure fun _ _ => rfl) fun _ => ?_)
      refine (ih _ _ _ _ _ (by omega)).mono fun _ _ D' hD' b hb => ?_
      rw [hD' b hb, Function.update_of_ne]
      rintro rfl
      exact hb (hinode.blockNumber_mem _ _ (by omega))

lemma InodeOk.filesize_toInt (h : InodeOk inode) :
    (filesize inode).toBitVec.toInt = (filesize inode).toNat := by
  have hcount := h.count
  rw [dataCount, tfsBlocksMax, tfsBlockSize] at hcount
  exact toInt_of_lt (by omega)

/-- `tfs_write` changes the data blocks of the file only. -/
lemma tfsWrite_ends (bat : Block) (rest : ℕ → UInt32) (fileid : ℕ) (buffer : ℕ → UInt8)
    (datasize : ℕ) (offset : ℤ) (hinode : InodeOk (D fileid)) :
    Request.Ends ok (tfsWrite totalblocks bat rest fileid buffer datasize offset) 0 D
      fun _ _ D' => ∀ b, b ∉ dataBlocks (D fileid) → D' b = D b := by
  have hstay : ∀ (r : ℤ) pos, Request.Ends ok (pure r : TfsCall ℤ) pos D
    fun _ _ D' => ∀ b, b ∉ dataBlocks (D fileid) → D' b = D b := fun _ _ _ _ => rfl
  rw [tfsWrite]
  split
  · exact hstay _ _
  refine Request.ends_bind (Request.ends_readCell (fun _ => hstay _ _) fun _ => ?_)
  dsimp only
  rw [Int.toNat_natCast, hinode.filesize_toInt]
  split
  · exact hstay _ _
  next hoffset =>
  generalize hsize : min datasize (((filesize (D fileid)).toNat : ℤ) - offset).toNat = size
  split
  · exact hstay _ _
  next hzero =>
  -- the last byte that is written is inside the file, and so are the blocks
  have hlast : (offset.toNat + size - 1) / tfsBlockSize < dataCount (D fileid) := by
    rw [dataCount, tfsBlockSize]
    omega
  have hfirst : offset.toNat / tfsBlockSize ≤ (offset.toNat + size - 1) / tfsBlockSize :=
    Nat.div_le_div_right (by omega)
  refine Request.ends_bind ((readIf_ends _ _ _ _).mono fun r _ D₁ hD₁ => ?_)
  subst hD₁
  cases r with
  | none => exact hstay _ _
  | some bat =>
    refine Request.ends_bind (Request.ends_writeCell (fun _ => hstay _ _) fun _ => ?_)
    refine (tfsWriteLoop_ends hinode _ _ _ _ _ _ _ _ _ _ (by omega)).mono fun _ _ D' hD' b hb => ?_
    rw [hD' b hb, Function.update_of_ne]
    rintro rfl
    exact hb (hinode.blockNumber_mem _ _ (by omega))

lemma tfsWrite_effect {i : ℕ} (hsound : Sound D totalblocks) (hlisted : Listed D i) (bat : Block)
    (rest : ℕ → UInt32) (buffer : ℕ → UInt8) (datasize : ℕ) (offset : ℤ) :
    ∀ b, b ∉ dataBlocks (D (inodeNumber D i)) →
      ((tfsWrite totalblocks bat rest (inodeNumber D i) buffer datasize offset).run ok D).2 b =
        D b :=
  (tfsWrite_ends bat rest _ buffer datasize offset ((hsound.file i trivial).inode hlisted)).run

end Write

end Osm.Fs
