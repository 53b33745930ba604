import Osm.Fs.Changes
import Mathlib.Logic.Relation

/-!
# Runs on a volume

A volume as `util/tfstool.c` creates it, and the calls of the trivial filesystem on it, in any
order. As long as all requests to the disk succeed, the volume stays in order and the marked
blocks are those in use.
-/

namespace Osm.Fs

open Osm.Core Osm.Lib

/-- The first three blocks that `tfstool_createvol` writes. The words of the allocation block are
converted to the byte order of the disk. -/
def tfstoolSystemBlocks (volumename : ℕ → UInt8) (disk : Disk) : Disk :=
  let header := memcopy tfsVolumenameMax (Memory.writeWord (fun _ => 0) 0 tfsMagic) 4 volumename
  let allocation := bitmapSet (fun _ => 0) tfsHeaderBlock true
  let allocation := bitmapSet allocation tfsAllocationBlock true
  let allocation := bitmapSet allocation tfsDirectoryBlock true
  let disk := Function.update disk tfsHeaderBlock header
  let disk := Function.update disk tfsAllocationBlock allocation
  Function.update disk tfsDirectoryBlock fun _ => 0

/-- `tfstool_createvol`, on a disk with the given number of blocks. -/
def tfstoolCreatevol (size : ℕ) (volumename : ℕ → UInt8) (disk : Disk) : Disk :=
  (List.range' 3 (size - 3)).foldl (fun disk i => Function.update disk i fun _ => 0)
    (tfstoolSystemBlocks volumename disk)

/-- A call of the trivial filesystem all of whose requests succeed. -/
inductive VolumeStep (totalblocks : ℕ) : Disk → Disk → Prop
  | create {D : Disk} (filename : List UInt8) (size : ℤ) (hname : ValidName filename)
      (hpos : 0 ≤ size) (hlt : size < 2 ^ 31) :
      VolumeStep totalblocks D ((tfsCreate totalblocks filename size).run (fun _ => true) D).2
  | remove {D : Disk} (filename : List UInt8) (hname : ValidName filename) :
      VolumeStep totalblocks D ((tfsRemove filename).run (fun _ => true) D).2
  | read {D : Disk} {i : ℕ} (hlisted : Listed D i) (bat : Block) (rest : ℕ → UInt32) (bufsize : ℕ)
      (offset : ℤ) : VolumeStep totalblocks D
        ((tfsRead totalblocks bat rest (inodeNumber D i) bufsize offset).run (fun _ => true) D).2
  | write {D : Disk} {i : ℕ} (hlisted : Listed D i) (bat : Block) (rest : ℕ → UInt32)
      (buffer : ℕ → UInt8) (datasize : ℕ) (offset : ℤ) : VolumeStep totalblocks D
        ((tfsWrite totalblocks bat rest (inodeNumber D i) buffer datasize offset).run
          (fun _ => true) D).2

/-- The disks of a volume after any calls. -/
def VolumeReachable (size : ℕ) (volumename : ℕ → UInt8) (disk D : Disk) : Prop :=
  Relation.ReflTransGen (VolumeStep (tfsTotalblocks size)) (tfstoolCreatevol size volumename disk) D

/-! ### The first disk -/

lemma tfstoolCreatevol_of_lt (size : ℕ) (volumename : ℕ → UInt8) (disk : Disk) {b : ℕ} (hb : b < 3) :
    tfstoolCreatevol size volumename disk b = tfstoolSystemBlocks volumename disk b := by
  have hfold : ∀ (l : List ℕ) (D : Disk), (∀ i ∈ l, b ≠ i) →
      (l.foldl (fun disk i => Function.update disk i fun _ => 0) D) b = D b := by
    intro l
    induction l with
    | nil => exact fun D _ => rfl
    | cons i l ih =>
      intro D hl
      rw [List.foldl_cons, ih _ fun j hj => hl j (List.mem_cons_of_mem i hj)]
      exact Function.update_of_ne (hl i List.mem_cons_self) _ _
  refine hfold _ _ fun i hi => ?_
  have hle := (List.mem_range'_1.mp hi).1
  omega

lemma createvol_directory (size : ℕ) (volumename : ℕ → UInt8) (disk : Disk) :
    tfstoolCreatevol size volumename disk tfsDirectoryBlock = fun _ => 0 := by
  rw [tfstoolCreatevol_of_lt size volumename disk (by decide), tfstoolSystemBlocks,
    Function.update_self]

lemma createvol_marked (size : ℕ) (volumename : ℕ → UInt8) (disk : Disk) (b : ℕ) :
    bitmapGet (tfstoolCreatevol size volumename disk tfsAllocationBlock) b = 1 ↔ b < 3 := by
  have hbat : tfstoolCreatevol size volumename disk tfsAllocationBlock =
      bitmapSet (bitmapSet (bitmapSet (fun _ => 0) tfsHeaderBlock true) tfsAllocationBlock true)
        tfsDirectoryBlock true := by
    rw [tfstoolCreatevol_of_lt size volumename disk (by decide)]
    have hne : tfsAllocationBlock ≠ tfsDirectoryBlock := by decide
    rw [tfstoolSystemBlocks, Function.update_of_ne hne, Function.update_self]
  have hzero : bitmapGet (fun _ => 0) b = 0 := by simp [bitmapGet, bitmapWord]
  rw [hbat, bitmapGet_bitmapSet, bitmapGet_bitmapSet, bitmapGet_bitmapSet, hzero, tfsHeaderBlock,
    tfsAllocationBlock, tfsDirectoryBlock]
  by_cases h₂ : b = 2
  · simp [h₂]
  · by_cases h₁ : b = 1
    · simp [h₁]
    · by_cases h₀ : b = 0
      · simp [h₀]
      · simp only [h₀, h₁, h₂, if_false]
        exact iff_of_false (by decide) (by omega)

lemma createvol_allocInv (size : ℕ) (volumename : ℕ → UInt8) (disk : Disk) :
    AllocInv (tfstoolCreatevol size volumename disk) (tfsTotalblocks size) := by
  have hdir := createvol_directory size volumename disk
  have hmarked := createvol_marked size volumename disk
  have hinode : ∀ i, entryInode (fun _ => 0) i = 0 := fun i => Memory.readWord_zero _
  have hfree : ∀ i, ¬Listed (tfstoolCreatevol size volumename disk) i := by
    rintro i ⟨-, hused⟩
    rw [hdir, hinode] at hused
    exact hused rfl
  refine ⟨⟨?_, fun b hb => (hmarked b).mpr hb, fun i _ => FileOk.free (hfree i), fun i j _ _ _ => ?_⟩,
    fun b _ hget => Or.inl ((hmarked b).mp hget)⟩
  · rw [hdir]
    exact ⟨fun i _ hused => absurd (hinode i) hused, fun i _ j _ hused => absurd (hinode i) hused,
      fun i _ _ => rfl⟩
  · rw [fileBlocks_free (hfree i)]
    exact List.disjoint_nil_left _

/-! ### Whole runs -/

lemma tfsTotalblocks_le (size : ℕ) : tfsTotalblocks size ≤ 2 ^ 31 :=
  le_trans (Nat.min_le_right _ _) (by decide)

/-- A file is written in its data blocks, so that every file keeps its inode. -/
lemma Sound.write_sameInode {D D' : Disk} {i totalblocks : ℕ} (h : Sound D totalblocks)
    (hlisted : Listed D i) (hframe : ∀ b, b ∉ dataBlocks (D (inodeNumber D i)) → D' b = D b) :
    D' tfsAllocationBlock = D tfsAllocationBlock ∧ D' tfsDirectoryBlock = D tfsDirectoryBlock ∧
      ∀ j, SameInode D D' j := by
  have hblocks := fileBlocks_listed hlisted
  have hfile := h.file i trivial
  have hsystem : ∀ b < 3, D' b = D b := by
    refine fun b hb => hframe b fun hmem => ?_
    have hrange := (hfile.range b (by rw [hblocks]; exact List.mem_cons_of_mem _ hmem)).1
    omega
  have hmd := hsystem tfsDirectoryBlock (by decide)
  refine ⟨hsystem _ (by decide), hmd, fun j => ⟨by rw [hmd], by rw [fileName, hmd, fileName], fun hj => ?_⟩⟩
  refine hframe _ fun hmem => ?_
  by_cases hji : j = i
  · subst hji
    have hnodup := hfile.nodup
    rw [hblocks] at hnodup
    exact (List.nodup_cons.mp hnodup).1 hmem
  · refine h.disjoint j i trivial trivial hji (inodeNumber_mem_fileBlocks hj) ?_
    rw [hblocks]
    exact List.mem_cons_of_mem _ hmem

lemma AllocInv.step {D D' : Disk} {totalblocks : ℕ} (h : AllocInv D totalblocks)
    (htotal : totalblocks ≤ 2 ^ 31) (hstep : VolumeStep totalblocks D D') :
    AllocInv D' totalblocks := by
  have hle : totalblocks ≤ 2 ^ 32 := le_trans htotal (by decide)
  cases hstep with
  | create filename size hname hpos hlt =>
    have heffect := @tfsCreate_effect _ _ _ (fun _ => true) _ hname hpos hlt hle h.sound
    generalize ((tfsCreate totalblocks filename size).run (fun _ => true) D).2 = D' at heffect ⊢
    rcases heffect with rfl | ⟨_, _, _, _, hcreated, ⟨hfail, -⟩ | ⟨⟨hbat, hmd, hframe⟩, hinode⟩⟩
    · exact h
    · cases hfail
    · rcases hinode with hfail | hinode
      · cases hfail
      · exact hcreated.allocInv hname hle hbat hmd hframe h hinode
  | remove filename hname =>
    have heffect := @tfsRemove_effect _ _ _ (fun _ => true) hname h.sound
    generalize ((tfsRemove filename).run (fun _ => true) D).2 = D' at heffect ⊢
    rcases heffect with rfl | ⟨index, hlisted, -, hbat, hframe, ⟨hfail, -⟩ | hmd⟩
    · exact h
    · cases hfail
    · exact removed_allocInv hlisted hbat hframe hmd h
  | read hlisted bat rest bufsize offset =>
    rw [tfsRead_effect]
    exact h
  | write hlisted bat rest buffer datasize offset =>
    have hframe := @tfsWrite_effect _ _ (fun _ => true) _ h.sound hlisted bat rest buffer datasize
      offset
    obtain ⟨hbat, hmd, hsame⟩ := h.sound.write_sameInode hlisted hframe
    exact h.congr hsame hmd hbat

lemma VolumeReachable.allocInv {size : ℕ} {volumename : ℕ → UInt8} {disk D : Disk}
    (h : VolumeReachable size volumename disk D) : AllocInv D (tfsTotalblocks size) := by
  induction h with
  | refl => exact createvol_allocInv size volumename disk
  | tail _ hstep ih => exact ih.step (tfsTotalblocks_le size) hstep

/-- After any calls on a volume: files have different names, which are not empty, and free entries
have none; the blocks of files are different from each other and inside the volume; an inode has
the blocks that the size of the file asks for, in its first slots; and a block is marked if and
only if it is one of the first three or belongs to a file. -/
theorem volume_invariant {size : ℕ} {volumename : ℕ → UInt8} {disk D : Disk}
    (h : VolumeReachable size volumename disk D) :
    DirectoryOk (D tfsDirectoryBlock) ∧
    (∀ i, (fileBlocks D i).Nodup ∧ ∀ j, j ≠ i → (fileBlocks D i).Disjoint (fileBlocks D j)) ∧
    (∀ i, ∀ b ∈ fileBlocks D i, 3 ≤ b ∧ b < tfsTotalblocks size) ∧
    (∀ i, Listed D i → InodeOk (D (inodeNumber D i))) ∧
    ∀ b < tfsTotalblocks size, bitmapGet (D tfsAllocationBlock) b = 1 ↔
      b < 3 ∨ ∃ i, b ∈ fileBlocks D i := by
  have hinv := h.allocInv
  have hfile := fun i => hinv.sound.file i trivial
  refine ⟨hinv.sound.directory, fun i => ⟨(hfile i).nodup, fun j hj => ?_⟩,
    fun i => (hfile i).range, fun i => (hfile i).inode, fun b hb => ⟨hinv.owned b hb, ?_⟩⟩
  · exact hinv.sound.disjoint i j trivial trivial hj.symm
  · rintro (hlt | ⟨i, hi⟩)
    · exact hinv.sound.system b hlt
    · exact (hfile i).marked b hi

/-- A volume of eight blocks with one file of 600 bytes. -/
def oneFile : Disk :=
  ((tfsCreate (tfsTotalblocks 8) [102] 600).run (fun _ => true)
    (tfstoolCreatevol 8 (fun _ => 65) fun _ _ => 0)).2

lemma validName_f : ValidName [102] := ⟨by decide, by decide, by decide⟩

lemma oneFile_reachable : VolumeReachable 8 (fun _ => 65) (fun _ _ => 0) oneFile :=
  Relation.ReflTransGen.single (VolumeStep.create [102] 600 validName_f (by decide) (by decide))

theorem volume_invariant_oneFile : VolumeReachable 8 (fun _ => 65) (fun _ _ => 0) oneFile ∧
    fileName oneFile 24 = [102] ∧ fileBlocks oneFile 24 = [3, 4, 5] ∧
    ∀ b < tfsTotalblocks 8, bitmapGet (oneFile tfsAllocationBlock) b = 1 ↔
      b < 3 ∨ ∃ i, b ∈ fileBlocks oneFile i :=
  ⟨oneFile_reachable, by decide +kernel, by decide +kernel,
    (volume_invariant oneFile_reachable).2.2.2.2⟩

end Osm.Fs
