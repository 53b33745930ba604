import Osm.Fs.Space
import Osm.Util.RoundTrip

/-!
# Files that fit

When `tfstool_write` succeeds. It takes blocks until it meets the end of the file, and it meets the
end of a file of whole blocks only with the block after the last one, unless the file has the
greatest size. `tfs_create` of the kernel computes the number of blocks from the size.
-/

namespace Osm.Util

open Osm.Core Osm.Lib Osm.Fs

/-- There is an entry for a file of `n` bytes, and there are blocks for it and its inode. -/
structure Fits (numBlocks n : ℕ) (D : Disk) : Prop where
  entry : ∃ i < tfsMaxFiles, ¬Listed D i
  space : 1 + ceilBlocks n ≤ freeCount numBlocks (D tfsAllocationBlock)

/-- `tfstool_write` of the bytes `s` succeeds exactly if the file fits, and so does `tfs_create`
for as many bytes. -/
structure StoresWhatFits (order : ByteOrder) (numBlocks : ℕ) (data : Block) (s target : List UInt8)
    (D : Disk) : Prop where
  host   : (tfstoolWrite order numBlocks data s target D).2 = true ↔ Fits numBlocks s.length D
  kernel : ((tfsCreate (tfsTotalblocks numBlocks) target s.length).run (fun _ => true) D).1 = vfsOk ↔
    Fits numBlocks s.length D

/-- The number of blocks that the loop of `tfstool_write` takes for `n` bytes. -/
def blocksTaken (n : ℕ) : ℕ := min (n / 512 + 1) tfsBlocksMax

variable {order : ByteOrder} {numBlocks number i : ℕ} {D : Disk} {bat : Block} {st : WriteState}
  {s target : List UInt8}

/-! ### The loop over the blocks -/

/-- `bitmap_findnset` finds a block that is not one of the first three unless there is none. -/
lemma findsBlock_iff (hN : numBlocks ≤ 4096) (hsystem : ∀ b < 3, bitmapGet bat b = 1) :
    FindsBlock order numBlocks bat ↔ 0 < freeCount numBlocks bat := by
  constructor
  · rintro ⟨-, hlt⟩
    have hcount := ((Allocated.nil numBlocks bat).findnset
      (hostBitmapFindnset_some hN hlt)).freeCount
    rw [List.nil_append, List.length_singleton] at hcount
    omega
  · intro hpos
    cases hfind : bitmapFindnset bat numBlocks with
    | none => exact absurd (bitmapFindnset_eq_none hfind) hpos.ne'
    | some found =>
      obtain ⟨bat', b⟩ := found
      obtain ⟨hlt, hzero, -⟩ := bitmapFindnset_spec hfind
      have hthree : ¬ b < 3 := by
        intro hb
        rw [hsystem b hb] at hzero
        cases hzero
      have hnat := (@hostBitmapFindnset_of_some order _ _ _ _ hN hfind).2
      rw [FindsBlock, hnat]
      omega

lemma Filling.freeCount (h : Filling numBlocks D s number i st) :
    freeCount numBlocks st.bat + (i + 1) = Fs.freeCount numBlocks (D tfsAllocationBlock) := by
  have hfree := h.allocated.freeCount
  rwa [List.length_cons, firstBlocks, List.length_map, List.length_range] at hfree

/-- The loop succeeds exactly if there are free blocks for all of its rounds. -/
lemma writeBlocks_ok_iff (hN : numBlocks ≤ 4096)
    (hsystem : ∀ b < 3, bitmapGet (D tfsAllocationBlock) b = 1) (hlen : s.length ≤ 65024) {n : ℕ}
    (h : Filling numBlocks D s number i st) (hgoing : Going s i st)
    (hn : freeCount numBlocks (D tfsAllocationBlock) ≤ n + i) :
    ((writeBlocks order numBlocks n i st).1.filesize.toNat = s.length ∧
      (writeBlocks order numBlocks n i st).2 = true) ↔
    1 + blocksTaken s.length ≤ freeCount numBlocks (D tfsAllocationBlock) := by
  have hmax : tfsBlocksMax = 127 := rfl
  induction n generalizing i st with
  | zero =>
    have hfree := h.freeCount
    omega
  | succ n ih =>
    have hfree := h.freeCount
    have hsize := h.size
    have hroom := hgoing.room
    rcases @writeBlocks_cases order _ _ _ _ _ _ hN h hgoing n with
      ⟨hfull, hloop⟩ | ⟨hmore, hnone, hloop⟩ | ⟨hmore, next, hnext, ⟨heof, hloop⟩ | ⟨hgo, hloop⟩⟩
    · have hmaxsize : tfsMaxFilesize.toNat = 65024 := rfl
      have hge : tfsMaxFilesize.toNat ≤ st.filesize.toNat :=
        not_lt.mp fun hlt => hfull (UInt32.lt_iff_toNat_lt.mpr hlt)
      rw [hloop]
      refine iff_of_true ⟨?_, rfl⟩ ?_
      · dsimp only
        omega
      · rw [blocksTaken, hmax]
        omega
    · have hsystem' : ∀ b < 3, bitmapGet st.bat b = 1 := by
        intro b hb
        rw [h.allocated.get, hsystem b hb, ite_self]
      have hzero := mt (@findsBlock_iff order _ _ hN hsystem').mpr hnone
      rw [hloop]
      refine iff_of_false (fun hok => nomatch hok.2) ?_
      rw [blocksTaken, hmax]
      omega
    · have hnextFree := hnext.freeCount
      rw [hloop]
      refine iff_of_true ⟨?_, rfl⟩ ?_
      · rw [hnext.size]
        omega
      · rw [blocksTaken, hmax]
        omega
    · rw [hloop]
      exact ih hnext hgo (by omega)

/-! ### The directory -/

lemma hostFreeEntry_eq_none {md : Block} (hname : ValidName target) {n : ℕ}
    (h : hostFreeEntry order md target n = none) : ∃ i < n, entryName md i = target := by
  induction n with
  | zero => cases h
  | succ n ih =>
    cases hrec : hostFreeEntry order md target n with
    | none =>
      obtain ⟨i, hi, heq⟩ := ih hrec
      exact ⟨i, Nat.lt_succ_of_lt hi, heq⟩
    | some index =>
      rw [hostFreeEntry, hrec, Option.bind_eq_bind, Option.bind_some] at h
      by_cases hcmp : strncmp md (entryNameAddr n) target tfsFilenameMax = 0
      · exact ⟨n, Nat.lt_succ_self n, (strncmp_eq_zero_iff hname.noNul hname.short.le).mp hcmp⟩
      · rw [if_neg hcmp] at h
        cases h

lemma hostFreeEntry_eq_some_none {md : Block} {n : ℕ}
    (h : hostFreeEntry order md target n = some none) : ∀ i < n, entryInode md i ≠ 0 := by
  induction n with
  | zero => exact fun i hi => absurd hi (Nat.not_lt_zero i)
  | succ n ih =>
    simp only [hostFreeEntry, Option.bind_eq_bind, Option.bind_eq_some_iff] at h
    obtain ⟨index, hrec, hstep⟩ := h
    by_cases hcmp : strncmp md (entryNameAddr n) target tfsFilenameMax = 0
    · rw [if_pos hcmp] at hstep
      cases hstep
    · rw [if_neg hcmp, Option.some.injEq] at hstep
      by_cases hzero : hostRead order md (sizeofDirentry * n) = 0 ∧ index = none
      · rw [if_pos hzero] at hstep
        cases hstep
      · rw [if_neg hzero] at hstep
        subst hstep
        have hused : hostRead order md (sizeofDirentry * n) ≠ 0 := fun hread => hzero ⟨hread, rfl⟩
        intro i hi
        rcases Nat.lt_succ_iff_lt_or_eq.mp hi with hlt | rfl
        · exact ih hrec i hlt
        · rw [entryInode, ← ntohl_hostRead order, Ne, ntohl_eq_zero_iff]
          exact hused

/-- For a new name, the loop over the directory finds an entry exactly if one is free. -/
lemma hostFreeEntry_iff (hname : ValidName target) (hdir : DirectoryOk (D tfsDirectoryBlock))
    (hnew : ∀ i, Listed D i → fileName D i ≠ target) :
    (∃ index, hostFreeEntry order (D tfsDirectoryBlock) target tfsMaxFiles = some (some index)) ↔
      ∃ i < tfsMaxFiles, ¬Listed D i := by
  constructor
  · rintro ⟨index, hentry⟩
    obtain ⟨hlt, hzero⟩ := (hostFreeEntry_spec hname.noNul hname.short hentry).2 index rfl
    exact ⟨index, hlt, fun hlisted => hlisted.2 hzero⟩
  · rintro ⟨i, hi, hfree⟩
    cases hentry : hostFreeEntry order (D tfsDirectoryBlock) target tfsMaxFiles with
    | none =>
      obtain ⟨j, hj, heq⟩ := hostFreeEntry_eq_none hname hentry
      have hlisted : Listed D j := by
        refine ⟨hj, fun hzero => hname.nonempty ?_⟩
        exact heq.symm.trans (hdir.free j hj hzero)
      exact absurd heq (hnew j hlisted)
    | some found =>
      cases found with
      | none => exact absurd ⟨hi, hostFreeEntry_eq_some_none hentry i hi⟩ hfree
      | some index => exact ⟨index, rfl⟩

/-! ### The two programs -/

section Programs

variable (hN : numBlocks ≤ 4096) (hlen : s.length ≤ 65024) (htarget : ValidName target)
  (hinv : ImageInv D numBlocks) (hnew : ∀ i, Listed D i → fileName D i ≠ target)
include hN hlen htarget hinv hnew

/-- `tfstool_write` succeeds if there is an entry, a block for the inode and as many blocks as the
loop takes. -/
lemma tfstoolWrite_ok_iff (order : ByteOrder) (data : Block) :
    (tfstoolWrite order numBlocks data s target D).2 = true ↔
      (∃ i < tfsMaxFiles, ¬Listed D i) ∧
        1 + blocksTaken s.length ≤ freeCount numBlocks (D tfsAllocationBlock) := by
  rw [← @hostFreeEntry_iff order _ _ htarget hinv.directory hnew]
  obtain ⟨entry, hentry⟩ : ∃ entry,
      hostFreeEntry order (D tfsDirectoryBlock) target tfsMaxFiles = entry := ⟨_, rfl⟩
  by_cases hfull : ∀ index, entry ≠ some (some index)
  · rw [tfstoolWrite_full data s hentry hfull, hentry]
    exact iff_of_false Bool.false_ne_true fun h => h.1.elim hfull
  push Not at hfull
  obtain ⟨index, rfl⟩ := hfull
  rw [tfstoolWrite_free data s hentry, and_iff_right ⟨index, hentry⟩, writeFile]
  dsimp only
  have hfound := @findsBlock_iff order _ _ hN hinv.system
  by_cases hpos : 0 < freeCount numBlocks (D tfsAllocationBlock)
  · have hinode := hfound.mpr hpos
    have hfind := hostBitmapFindnset_some hN hinode.2
    have hfilling := @Filling.start _ _ _ s _ data hfind
    have hle : freeCount numBlocks (D tfsAllocationBlock) ≤ numBlocks :=
      (Finset.card_filter_le _ _).trans_eq (Finset.card_range _)
    have hloop := @writeBlocks_ok_iff order _ _ _ _ _ _ hN hinv.system hlen numBlocks hfilling
      ⟨rfl, Nat.zero_le _⟩ hle
    rw [if_pos hinode, ← hloop]
    generalize writeBlocks order numBlocks numBlocks 0 _ = result
    by_cases hsize : result.1.filesize.toNat = s.length
    · rw [if_neg (not_not.mpr hsize), and_iff_right hsize]
      by_cases hok : result.2 = true
      · rw [if_pos hok]
        exact iff_of_true rfl hok
      · rw [if_neg hok]
        exact iff_of_false Bool.false_ne_true hok
    · rw [if_pos hsize]
      exact iff_of_false Bool.false_ne_true fun h => hsize h.1
  · rw [if_neg (mt hfound.mp hpos)]
    exact iff_of_false Bool.false_ne_true (by omega)

/-- `tfs_create` succeeds if the file fits. -/
lemma tfsCreate_ok_iff :
    ((tfsCreate (tfsTotalblocks numBlocks) target s.length).run (fun _ => true) D).1 = vfsOk ↔
      Fits numBlocks s.length D := by
  have htotal : tfsTotalblocks numBlocks = numBlocks := min_eq_left hN
  have hblocks : ceilBlocks s.length ≤ tfsBlocksMax := by
    have hmax : tfsBlocksMax = 127 := rfl
    rw [ceilBlocks, Int.toNat_natCast]
    omega
  have hcan : CanCreate numBlocks target s.length D ↔ Fits numBlocks s.length D :=
    ⟨fun h => ⟨h.entry, h.space⟩, fun h => ⟨hnew, h.entry, hblocks, h.space⟩⟩
  have hrun := (@tfsCreate_createdDisk numBlocks target D s.length htarget (Int.natCast_nonneg _)
    (by omega) (by omega) hinv.directory hinv.system).run
  rw [htotal, ← hcan]
  rcases hrun with ⟨hfail, -, hnot⟩ | ⟨hok, hyes, -⟩
  · rw [hfail]
    exact iff_of_false (by decide) hnot
  · exact iff_of_true hok hyes

end Programs

/-- `tfstool_write` stores what fits, unless there is no block to spare for a file of whole blocks
that has not the greatest size. -/
theorem storesWhatFits_iff (order : ByteOrder) (hN : numBlocks ≤ 4096) (data : Block)
    (hlen : s.length ≤ 65024) (htarget : ValidName target) (hinv : ImageInv D numBlocks)
    (hnew : ∀ i, Listed D i → fileName D i ≠ target) :
    StoresWhatFits order numBlocks data s target D ↔
      ¬ (512 ∣ s.length ∧ s.length < 65024 ∧ (∃ i < tfsMaxFiles, ¬Listed D i) ∧
        freeCount numBlocks (D tfsAllocationBlock) = 1 + s.length / 512) := by
  have hhost := tfstoolWrite_ok_iff hN hlen htarget hinv hnew order data
  have hkernel := tfsCreate_ok_iff hN hlen htarget hinv hnew
  have hceil : ceilBlocks s.length = (s.length + 511) / 512 := by
    rw [ceilBlocks, Int.toNat_natCast]
  have hmax : tfsBlocksMax = 127 := rfl
  have hfits : Fits numBlocks s.length D ↔ (∃ i < tfsMaxFiles, ¬Listed D i) ∧
      1 + ceilBlocks s.length ≤ freeCount numBlocks (D tfsAllocationBlock) :=
    ⟨fun h => ⟨h.entry, h.space⟩, fun h => ⟨h.1, h.2⟩⟩
  have hstores : StoresWhatFits order numBlocks data s target D ↔
      ((∃ i < tfsMaxFiles, ¬Listed D i) →
        (1 + blocksTaken s.length ≤ freeCount numBlocks (D tfsAllocationBlock) ↔
          1 + ceilBlocks s.length ≤ freeCount numBlocks (D tfsAllocationBlock))) := by
    rw [← and_congr_right_iff, ← hhost, ← hfits]
    exact ⟨fun h => h.host, fun h => ⟨h, hkernel⟩⟩
  rw [hstores, blocksTaken, hceil, hmax]
  by_cases hentry : ∃ i < tfsMaxFiles, ¬Listed D i
  · rw [imp_iff_right hentry, and_iff_right hentry]
    omega
  · exact iff_of_true (fun h => absurd h hentry) fun h => hentry h.2.2.1

lemma createvol_unlisted (size : ℕ) (volumename : ℕ → UInt8) (disk : Disk) (i : ℕ) :
    ¬Listed (tfstoolCreatevol size volumename disk) i := by
  rintro ⟨-, hentry⟩
  rw [createvol_directory] at hentry
  exact hentry (Memory.readWord_zero _)

/-- A file of two bytes on a new image of eight blocks. -/
theorem storesWhatFits_iff_hi :
    StoresWhatFits .little 8 (fun _ => 0) [104, 105] [102]
        (tfstoolCreatevol 8 (fun _ => 65) fun _ _ => 0) ↔
      ¬ (512 ∣ [104, 105].length ∧ [104, 105].length < 65024 ∧
        (∃ i < tfsMaxFiles, ¬Listed (tfstoolCreatevol 8 (fun _ => 65) fun _ _ => 0) i) ∧
        freeCount 8 (tfstoolCreatevol 8 (fun _ => 65) (fun _ _ => 0) tfsAllocationBlock) =
          1 + [104, 105].length / 512) :=
  storesWhatFits_iff .little (by decide) _ (by decide) validName_f
    (imageInv_of_allocInv (createvol_allocInv 8 _ _)) fun i hi => absurd hi (createvol_unlisted _ _ _ i)

/-- On a new image of four blocks there is a block for the inode of an empty file. -/
theorem empty_not_stored :
    ImageInv (tfstoolCreatevol 4 (fun _ => 65) fun _ _ => 0) 4 ∧
    (∀ i, Listed (tfstoolCreatevol 4 (fun _ => 65) fun _ _ => 0) i →
      fileName (tfstoolCreatevol 4 (fun _ => 65) fun _ _ => 0) i ≠ [102]) ∧
    ¬ StoresWhatFits .little 4 (fun _ => 0) [] [102]
      (tfstoolCreatevol 4 (fun _ => 65) fun _ _ => 0) := by
  refine ⟨imageInv_of_allocInv (createvol_allocInv 4 _ _),
    fun i hi => absurd hi (createvol_unlisted _ _ _ i), fun h => ?_⟩
  have hfits : Fits 4 0 (tfstoolCreatevol 4 (fun _ => 65) fun _ _ => 0) :=
    ⟨⟨0, by decide, createvol_unlisted _ _ _ 0⟩, by decide +kernel⟩
  have hhost := h.host.mpr hfits
  revert hhost
  decide +kernel

end Osm.Util
