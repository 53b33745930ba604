import Osm.Util.DiskFull
import Mathlib.Algebra.Order.BigOperators.Group.Finset

/-!
# Runs of the tool

Any calls of `tfstool_write` and `tfstool_delete` on an image that `tfstool_createvol` has made. The
bitmap has one block, however large the image is, and `bitmap_findnset` searches as many bits as the
image has blocks. It finds a bit in the bitmap all the same: the directory has room for 25 files,
and a file takes at most 128 blocks, so that there is always a free block among the first 4096.
`tfstool_delete` however takes a free entry for a file with the empty name, whose inode is the
header of the volume.
-/

namespace Osm.Util

open Osm.Core Osm.Lib Osm.Fs

section Bits

variable (order : ByteOrder)

/-! ### The bits that are used -/

/-- The bits that `bitmap_findnset` reads, the last one of which it sets if it is not set. -/
def findnsetBits (bitmap : Memory) (l : ℕ) : List ℕ :=
  match (List.range l).find? fun i => hostBitmapGet order bitmap i = 0 with
  | some i => List.range (i + 1)
  | none   => List.range l

/-- The allocation blocks that the loop of `tfstool_write` searches. -/
def writeBlocksSearches (numBlocks : ℕ) : ℕ → ℕ → WriteState → List Block
  | 0, _, _      => []
  | n + 1, i, st =>
    if ¬ st.filesize < tfsMaxFilesize then []
    else
      let found := hostBitmapFindnset order st.bat numBlocks
      let bnum := (UInt32.ofInt found.2).toNat
      if 2 < bnum ∧ bnum < numBlocks then
        let next := writeRound order i bnum found.1 st
        if next.source.eof then [st.bat]
        else st.bat :: writeBlocksSearches numBlocks n (i + 1) next
      else [st.bat]

/-- The allocation blocks that `tfstool_write` searches. -/
def writeSearches (numBlocks : ℕ) (data : Block) (source target : List UInt8) (disk : Disk) :
    List Block :=
  match hostFreeEntry order (disk tfsDirectoryBlock) target tfsMaxFiles with
  | some (some _) =>
    let found := hostBitmapFindnset order (disk tfsAllocationBlock) numBlocks
    let inodeBnum := (UInt32.ofInt found.2).toNat
    if 2 < inodeBnum ∧ inodeBnum < numBlocks then
      disk tfsAllocationBlock :: writeBlocksSearches order numBlocks numBlocks 0
        ⟨disk, found.1, fun _ => 0, data, ⟨source, false⟩, 0⟩
    else [disk tfsAllocationBlock]
  | _             => []

/-- The bits that `tfstool_delete` clears. -/
def deleteBits (filename : List UInt8) (disk : Disk) : List ℕ :=
  let md := disk tfsDirectoryBlock
  match hostFindEntry md filename with
  | none       => []
  | some index =>
    let inodeBn := (ntohl order (hostRead order md (sizeofDirentry * index))).toNat
    (hostSlots order (disk inodeBn)).map (hostInodeBlock order (disk inodeBn)) ++ [inodeBn]

end Bits

/-! ### The runs -/

/-- A call of the tool on an image; `data` is what is in the buffer for the blocks at first. -/
inductive ToolCall
  | write (data : Block) (source target : List UInt8)
  | delete (filename : List UInt8)

namespace ToolCall

/-- The names are those of `main`, which ends the one of a new file with a zero byte. -/
def Valid : ToolCall → Prop
  | write _ _ target => 0 ∉ target ∧ target.length < tfsFilenameMax
  | delete filename  => 0 ∉ filename ∧ filename.length ≤ tfsFilenameMax

/-- The image after a call. -/
def run (order : ByteOrder) (numBlocks : ℕ) (D : Disk) : ToolCall → Disk
  | write data source target => (tfstoolWrite order numBlocks data source target D).1
  | delete filename          => tfstoolDelete order filename D

/-- The bits of the bitmap that a call uses. -/
def bits (order : ByteOrder) (numBlocks : ℕ) (D : Disk) : ToolCall → List ℕ
  | write data source target =>
    (writeSearches order numBlocks data source target D).flatMap (findnsetBits order · numBlocks)
  | delete filename          => deleteBits order filename D

/-- The call deletes the file with the empty name, which a free entry has. -/
def DeletesFree (D : Disk) : ToolCall → Prop
  | write ..        => False
  | delete filename => filename = [] ∧ ∃ i < tfsMaxFiles, ¬Listed D i

end ToolCall

/-- The images after any calls, none of which deletes a free entry. -/
inductive ToolReachable (order : ByteOrder) (size : ℕ) (D₀ : Disk) : Disk → Prop
  | start : ToolReachable order size D₀ D₀
  | call {D : Disk} (call : ToolCall) (h : ToolReachable order size D₀ D) (hvalid : call.Valid)
      (hused : ¬ call.DeletesFree D) : ToolReachable order size D₀ (call.run order size D)

/-- Every block number in an inode or in the directory is one of a block that the kernel uses, after
the first three, and no block is in two files. -/
structure OwnBlocksOk (size : ℕ) (D : Disk) : Prop where
  inode : ∀ i, Listed D i → 3 ≤ inodeNumber D i ∧ inodeNumber D i < tfsTotalblocks size
  slot  : ∀ i, Listed D i → ∀ k < tfsBlocksMax, inodeBlock (D (inodeNumber D i)) k ≠ 0 →
    3 ≤ (inodeBlock (D (inodeNumber D i)) k).toNat ∧
      (inodeBlock (D (inodeNumber D i)) k).toNat < tfsTotalblocks size
  apart : ∀ i j, i ≠ j → (ownBlocks D i).Disjoint (ownBlocks D j)

variable {order : ByteOrder} {size numBlocks total index number i : ℕ} {D D' : Disk} {bat : Block}
  {st : WriteState} {s target filename : List UInt8}

/-! ### Searches -/

/-- A search through the image finds the block that a search through the bitmap finds. -/
lemma find?_range_of_le {p : ℕ → Bool} (hle : total ≤ numBlocks)
    (hsome : ((List.range total).find? p).isSome) :
    (List.range numBlocks).find? p = (List.range total).find? p := by
  obtain ⟨m, rfl⟩ := Nat.exists_eq_add_of_le hle
  obtain ⟨b, hb⟩ := Option.isSome_iff_exists.mp hsome
  rw [List.range_add, List.find?_append, hb]
  rfl

lemma findnset_isSome (hpos : 0 < freeCount total bat) :
    ((List.range total).find? fun i => hostBitmapGet order bat i = 0).isSome := by
  obtain ⟨b, hb⟩ := Finset.card_pos.mp hpos
  obtain ⟨hlt, hzero⟩ := mem_freeSet.mp hb
  rw [List.find?_isSome]
  refine ⟨b, List.mem_range.mpr hlt, ?_⟩
  rw [hostBitmapGet_eq, hzero]
  rfl

/-- A search for a free block stays in the bitmap, and it finds the same with and without the rest of
the image. -/
structure SearchInside (order : ByteOrder) (numBlocks : ℕ) (bat : Block) : Prop where
  findnset : hostBitmapFindnset order bat numBlocks =
    hostBitmapFindnset order bat (tfsTotalblocks numBlocks)
  found    : (UInt32.ofInt (hostBitmapFindnset order bat (tfsTotalblocks numBlocks)).2).toNat <
    numBlocks ↔ (UInt32.ofInt (hostBitmapFindnset order bat (tfsTotalblocks numBlocks)).2).toNat <
      tfsTotalblocks numBlocks
  bits     : ∀ p ∈ findnsetBits order bat numBlocks, p / 32 < 128

lemma searchInside (hfree : numBlocks ≤ 4096 ∨ 0 < freeCount (tfsTotalblocks numBlocks) bat) :
    SearchInside order numBlocks bat := by
  have hle : tfsTotalblocks numBlocks ≤ numBlocks := Nat.min_le_left _ _
  have hmax : tfsTotalblocks numBlocks ≤ 4096 := Nat.min_le_right _ _
  by_cases hN : numBlocks ≤ 4096
  · have htotal : tfsTotalblocks numBlocks = numBlocks := min_eq_left hN
    refine ⟨by rw [htotal], by rw [htotal], fun p hp => ?_⟩
    have hlt : p < numBlocks := by
      unfold findnsetBits at hp
      split at hp
      · rename_i b hb
        have hrange := List.mem_range.mp hp
        have hbound := List.mem_range.mp (List.mem_of_find?_eq_some hb)
        omega
      · exact List.mem_range.mp hp
    omega
  · have hsome := @findnset_isSome order _ _ (hfree.resolve_left hN)
    have hfind := find?_range_of_le hle hsome
    obtain ⟨b, hb⟩ := Option.isSome_iff_exists.mp hsome
    have hbound := List.mem_range.mp (List.mem_of_find?_eq_some hb)
    have hresult : hostBitmapFindnset order bat (tfsTotalblocks numBlocks) =
        (hostBitmapSet order bat b true, (b : ℤ)) := by rw [hostBitmapFindnset, hb]
    have hnat : (UInt32.ofInt (b : ℤ)).toNat = b := toNat_ofInt_natCast (by omega)
    refine ⟨?_, ?_, fun p hp => ?_⟩
    · rw [hostBitmapFindnset, hfind, ← hostBitmapFindnset]
    · rw [hresult, hnat]
      exact iff_of_true (by omega) hbound
    · rw [findnsetBits, hfind, hb] at hp
      have hrange := List.mem_range.mp hp
      omega

/-- The image is not longer than the bitmap, or there are free blocks for the greatest file. -/
def Roomy (numBlocks : ℕ) (D : Disk) : Prop :=
  numBlocks ≤ 4096 ∨ 1 + tfsBlocksMax ≤ freeCount (tfsTotalblocks numBlocks) (D tfsAllocationBlock)

/-- The loop of `tfstool_write` stays in the bitmap. -/
lemma writeBlocks_inside (hroom : Roomy numBlocks D) {n : ℕ}
    (h : Filling (tfsTotalblocks numBlocks) D s number i st) (hgoing : Going s i st) :
    writeBlocks order numBlocks n i st = writeBlocks order (tfsTotalblocks numBlocks) n i st ∧
      ∀ bat ∈ writeBlocksSearches order numBlocks n i st,
        ∀ p ∈ findnsetBits order bat numBlocks, p / 32 < 128 := by
  have htotal : tfsTotalblocks numBlocks ≤ 4096 := Nat.min_le_right _ _
  induction n generalizing i st with
  | zero => exact ⟨rfl, fun bat hbat => absurd hbat List.not_mem_nil⟩
  | succ n ih =>
    simp only [writeBlocks, writeBlocksSearches]
    by_cases hfull : ¬st.filesize < tfsMaxFilesize
    · rw [if_pos hfull, if_pos hfull, if_pos hfull]
      exact ⟨rfl, fun bat hbat => absurd hbat List.not_mem_nil⟩
    rw [if_neg hfull, if_neg hfull, if_neg hfull]
    have hmore := h.lt_blocksMax hgoing (not_not.mp hfull)
    have hsearch : SearchInside order numBlocks st.bat := by
      refine searchInside (hroom.imp_right fun hmax => ?_)
      have hfree := h.freeCount
      omega
    rw [hsearch.findnset]
    simp only [hsearch.found]
    by_cases hfound : FindsBlock order (tfsTotalblocks numBlocks) st.bat
    · have hround := h.round order hgoing (hostBitmapFindnset_some htotal hfound.2) hfound.1 htotal
        hmore
      have hsource := hgoing.source_writeRound order
        (UInt32.ofInt (hostBitmapFindnset order st.bat (tfsTotalblocks numBlocks)).2).toNat
        (hostBitmapFindnset order st.bat (tfsTotalblocks numBlocks)).1
      rw [if_pos hfound, if_pos hfound, if_pos hfound]
      by_cases heof : s.length < 512 * (i + 1)
      · rw [hsource, if_pos (decide_eq_true heof), if_pos (decide_eq_true heof),
          if_pos (decide_eq_true heof)]
        exact ⟨rfl, List.forall_mem_singleton.mpr hsearch.bits⟩
      · have hgo : ¬decide (s.length < 512 * (i + 1)) = true := by simpa using heof
        rw [hsource, if_neg hgo, if_neg hgo, if_neg hgo]
        rw [decide_eq_false heof] at hsource
        obtain ⟨hsame, hbits⟩ := ih hround ⟨hsource, not_lt.mp heof⟩
        exact ⟨hsame, List.forall_mem_cons.mpr ⟨hsearch.bits, hbits⟩⟩
    · rw [if_neg hfound, if_neg hfound, if_neg hfound]
      exact ⟨rfl, List.forall_mem_singleton.mpr hsearch.bits⟩

lemma writeSearches_free (data : Block) (source : List UInt8)
    (hentry : hostFreeEntry order (D tfsDirectoryBlock) target tfsMaxFiles = some (some index)) :
    writeSearches order numBlocks data source target D =
      let found := hostBitmapFindnset order (D tfsAllocationBlock) numBlocks
      if 2 < (UInt32.ofInt found.2).toNat ∧ (UInt32.ofInt found.2).toNat < numBlocks then
        D tfsAllocationBlock :: writeBlocksSearches order numBlocks numBlocks 0
          ⟨D, found.1, fun _ => 0, data, ⟨source, false⟩, 0⟩
      else [D tfsAllocationBlock] := by
  unfold writeSearches
  rw [hentry]

/-- With a free entry for the file `tfstool_write` stays in the bitmap. -/
lemma writeFile_inside (hroom : Roomy numBlocks D) (data : Block) (source : List UInt8)
    (hentry : hostFreeEntry order (D tfsDirectoryBlock) target tfsMaxFiles = some (some index)) :
    writeFile order numBlocks numBlocks data source target index D =
        writeFile order (tfsTotalblocks numBlocks) numBlocks data source target index D ∧
      ∀ bat ∈ writeSearches order numBlocks data source target D,
        ∀ p ∈ findnsetBits order bat numBlocks, p / 32 < 128 := by
  have htotal : tfsTotalblocks numBlocks ≤ 4096 := Nat.min_le_right _ _
  have hsearch : SearchInside order numBlocks (D tfsAllocationBlock) :=
    searchInside (hroom.imp_right fun hmax => by omega)
  rw [writeSearches_free data source hentry, writeFile, writeFile, hsearch.findnset]
  simp only [hsearch.found]
  by_cases hfound : FindsBlock order (tfsTotalblocks numBlocks) (D tfsAllocationBlock)
  · have hfind := @hostBitmapFindnset_some order _ _ htotal hfound.2
    have hfilling := @Filling.start _ _ _ source _ data hfind
    obtain ⟨hsame, hbits⟩ := @writeBlocks_inside order _ _ _ _ _ _ hroom numBlocks hfilling
      ⟨rfl, Nat.zero_le _⟩
    rw [if_pos hfound, if_pos hfound, if_pos hfound, hsame]
    exact ⟨rfl, List.forall_mem_cons.mpr ⟨hsearch.bits, hbits⟩⟩
  · rw [if_neg hfound, if_neg hfound, if_neg hfound]
    exact ⟨rfl, List.forall_mem_singleton.mpr hsearch.bits⟩

/-! ### The free blocks -/

lemma ownBlocks_length_le (D : Disk) (i : ℕ) : (ownBlocks D i).length ≤ 1 + tfsBlocksMax := by
  by_cases hlisted : Listed D i
  · have hle := slotCount_le (D (inodeNumber D i))
    rw [ownBlocks_listed hlisted, List.length_cons, firstBlocks, List.length_map,
      List.length_range]
    omega
  · rw [ownBlocks_free hlisted]
    exact Nat.zero_le _

/-- All files together leave a part of the bitmap free. -/
lemma le_freeCount (hinv : ImageInv D total) :
    total ≤ freeCount total (D tfsAllocationBlock) + (3 + tfsMaxFiles * (1 + tfsBlocksMax)) := by
  classical
  have hsub : (Finset.range total).filter (fun b => ¬bitmapGet (D tfsAllocationBlock) b = 0) ⊆
      Finset.range 3 ∪ (Finset.range tfsMaxFiles).biUnion fun i => (ownBlocks D i).toFinset := by
    intro b hb
    obtain ⟨hlt, hmarked⟩ := Finset.mem_filter.mp hb
    have hone := not_not.mp (mt bitmapGet_eq_zero_iff.mpr hmarked)
    rw [Finset.mem_union, Finset.mem_range, Finset.mem_biUnion]
    refine (hinv.owned b (Finset.mem_range.mp hlt) hone).imp_right fun ⟨i, hi⟩ => ⟨i, ?_, ?_⟩
    · have hlisted : Listed D i := by
        by_contra hfree
        rw [ownBlocks_free hfree] at hi
        cases hi
      exact Finset.mem_range.mpr hlisted.1
    · exact List.mem_toFinset.mpr hi
  have hfiles := Finset.card_biUnion_le_card_mul (Finset.range tfsMaxFiles)
    (fun i => (ownBlocks D i).toFinset) (1 + tfsBlocksMax)
    fun i _ => (List.toFinset_card_le _).trans (ownBlocks_length_le D i)
  have hmarked := (Finset.card_le_card hsub).trans (Finset.card_union_le _ _)
  have hsplit := Finset.card_filter_add_card_filter_not (s := Finset.range total)
    fun b => bitmapGet (D tfsAllocationBlock) b = 0
  rw [Finset.card_range] at hfiles hmarked hsplit
  have hcount : ((Finset.range total).filter fun b => bitmapGet (D tfsAllocationBlock) b = 0).card =
    freeCount total (D tfsAllocationBlock) := rfl
  omega

lemma ImageInv.roomy (hinv : ImageInv D (tfsTotalblocks numBlocks)) : Roomy numBlocks D := by
  by_cases hN : numBlocks ≤ 4096
  · exact .inl hN
  · have hfree := le_freeCount hinv
    have htotal : tfsTotalblocks numBlocks = 4096 := min_eq_right (not_le.mp hN).le
    have hconst : 3 + tfsMaxFiles * (1 + tfsBlocksMax) = 3203 ∧ tfsBlocksMax = 127 := by decide
    exact .inr (by omega)

/-! ### Writing -/

/-- An image in order stays in order if the blocks in use stay as they are. -/
lemma ImageInv.of_marked (hinv : ImageInv D total)
    (h : ∀ b, bitmapGet (D tfsAllocationBlock) b = 1 → D' b = D b) : ImageInv D' total := by
  have hdir : D' tfsDirectoryBlock = D tfsDirectoryBlock := h _ (hinv.system _ (by decide))
  have hbat : D' tfsAllocationBlock = D tfsAllocationBlock := h _ (hinv.system _ (by decide))
  have hsame : ∀ i, SameInode D D' i := fun i =>
    { inode := by rw [hdir]
      name := by rw [fileName, hdir, fileName]
      block := fun hlisted => h _ (hinv.marked i _ (inodeNumber_mem_ownBlocks hlisted)) }
  have hown : ∀ i, ownBlocks D' i = ownBlocks D i := fun i => ownBlocks_congr (hsame i)
  refine ⟨by rw [hdir]; exact hinv.directory, by rw [hbat]; exact hinv.system, fun i hi => ?_,
    fun i => ?_, fun i => ?_, fun i => ?_, fun i j hij => ?_, fun b hb hget => ?_⟩
  · have hlisted := (hsame i).listed_iff.mp hi
    rw [(hsame i).inodeNumber_eq, (hsame i).block hlisted]
    exact hinv.inode i hlisted
  · rw [hown]
    exact hinv.nodup i
  · rw [hown]
    exact hinv.range i
  · rw [hown, hbat]
    exact hinv.marked i
  · rw [hown, hown]
    exact hinv.disjoint i j hij
  · rw [hbat] at hget
    simp only [hown]
    exact hinv.owned b hb hget

/-- Without a free entry nothing is searched. -/
lemma writeSearches_full {entry : Option (Option ℕ)} (data : Block) (source : List UInt8)
    (hentry : hostFreeEntry order (D tfsDirectoryBlock) target tfsMaxFiles = entry)
    (hfull : ∀ index, entry ≠ some (some index)) :
    writeSearches order numBlocks data source target D = [] := by
  unfold writeSearches
  rw [hentry]
  cases entry with
  | none => rfl
  | some found =>
    cases found with
    | none => rfl
    | some index => exact absurd rfl (hfull index)

/-- `tfstool_write` stays in the bitmap and keeps the image in order. -/
lemma write_step (hinv : ImageInv D (tfsTotalblocks numBlocks)) (data : Block)
    (source : List UInt8) (hvalid : (ToolCall.write data source target).Valid) :
    ImageInv ((ToolCall.write data source target).run order numBlocks D) (tfsTotalblocks numBlocks) ∧
      ∀ p ∈ (ToolCall.write data source target).bits order numBlocks D, p / 32 < 128 := by
  obtain ⟨hnul, hshort⟩ := hvalid
  obtain ⟨entry, hentry⟩ : ∃ entry,
      hostFreeEntry order (D tfsDirectoryBlock) target tfsMaxFiles = entry := ⟨_, rfl⟩
  rw [ToolCall.run, ToolCall.bits]
  by_cases hfull : ∀ index, entry ≠ some (some index)
  · rw [tfstoolWrite_full data source hentry hfull, writeSearches_full data source hentry hfull]
    exact ⟨hinv, fun p hp => nomatch hp⟩
  push Not at hfull
  obtain ⟨index, rfl⟩ := hfull
  obtain ⟨hsame, hbits⟩ := writeFile_inside hinv.roomy data source hentry
  -- a free entry has the empty name
  have htarget : ValidName target := by
    obtain ⟨hnames, hfree⟩ := hostFreeEntry_spec hnul hshort hentry
    obtain ⟨hbound, hunused⟩ := hfree index rfl
    refine ⟨?_, hnul, hshort⟩
    rintro rfl
    exact hnames index hbound (hinv.directory.free index hbound hunused)
  obtain ⟨hadded, hkept⟩ := writeFile_spec (Nat.min_le_right _ _) hinv data source htarget hentry
    numBlocks rfl
  rw [tfstoolWrite_free data source hentry, hsame]
  refine ⟨?_, fun p hp => ?_⟩
  · cases hok : (writeFile order (tfsTotalblocks numBlocks) numBlocks data source target index D).2 with
    | true =>
      obtain ⟨number, hnew, -⟩ := hadded hok
      exact hnew.imageInv hinv (Nat.min_le_right _ _) htarget
    | false => exact hinv.of_marked (hkept hok)
  · obtain ⟨bat, hbat, hmem⟩ := List.mem_flatMap.mp hp
    exact hbits bat hbat p hmem

/-! ### Deleting -/

/-- The image `D'` is `D` without the file in an entry, whose blocks are not marked any more. -/
structure Dropped (D D' : Disk) (index : ℕ) : Prop where
  directory : D' tfsDirectoryBlock = dropEntry (D tfsDirectoryBlock) index
  get       : ∀ p, bitmapGet (D' tfsAllocationBlock) p =
    if p ∈ ownBlocks D index then 0 else bitmapGet (D tfsAllocationBlock) p
  blocks    : ∀ b, 3 ≤ b → D' b = D b

namespace Dropped

variable (h : Dropped D D' index) (hinv : ImageInv D total)
include h

lemma sameInode (hinv : ImageInv D total) {i : ℕ} (hi : i ≠ index) : SameInode D D' i where
  inode := by rw [h.directory, entryInode_dropEntry_of_ne hi]
  name := by rw [fileName, h.directory, entryName_dropEntry_of_ne hi, fileName]
  block hlisted := h.blocks _ (hinv.range i _ (inodeNumber_mem_ownBlocks hlisted)).1

lemma not_listed : ¬Listed D' index := by
  rintro ⟨-, hused⟩
  rw [h.directory, entryInode_dropEntry] at hused
  exact hused rfl

include hinv

/-- An image in order is still in order without the file. -/
lemma imageInv : ImageInv D' total := by
  have hself : ownBlocks D' index = [] := ownBlocks_free h.not_listed
  have hown : ∀ i, i ≠ index → ownBlocks D' i = ownBlocks D i :=
    fun i hi => ownBlocks_congr (h.sameInode hinv hi)
  have hkeep : ∀ b, b ∉ ownBlocks D index → bitmapGet (D tfsAllocationBlock) b = 1 →
      bitmapGet (D' tfsAllocationBlock) b = 1 := by
    intro b hb hget
    rw [h.get, if_neg hb, hget]
  have hdir : DirectoryOk (D' tfsDirectoryBlock) := by
    rw [h.directory]
    exact hinv.directory.dropEntry
  refine ⟨hdir, fun b hb => ?_, fun i hi => ?_, fun i => ?_, fun i b hb => ?_, fun i b hb => ?_,
    fun i j hij => ?_, fun b hb hget => ?_⟩
  · refine hkeep b (fun hmem => ?_) (hinv.system b hb)
    exact absurd (hinv.range index b hmem).1 (Nat.not_le.mpr hb)
  · have hindex : i ≠ index := by
      rintro rfl
      exact h.not_listed hi
    have hsame := h.sameInode hinv hindex
    have hlisted := hsame.listed_iff.mp hi
    rw [hsame.inodeNumber_eq, hsame.block hlisted]
    exact hinv.inode i hlisted
  · by_cases hindex : i = index
    · rw [hindex, hself]
      exact List.nodup_nil
    · rw [hown i hindex]
      exact hinv.nodup i
  · by_cases hindex : i = index
    · rw [hindex, hself] at hb
      cases hb
    · rw [hown i hindex] at hb
      exact hinv.range i b hb
  · by_cases hindex : i = index
    · rw [hindex, hself] at hb
      cases hb
    · rw [hown i hindex] at hb
      exact hkeep b (hinv.disjoint i index hindex hb) (hinv.marked i b hb)
  · by_cases hi : i = index
    · rw [hi, hself]
      exact List.disjoint_nil_left _
    · by_cases hj : j = index
      · rw [hj, hself]
        exact List.disjoint_nil_right _
      · rw [hown i hi, hown j hj]
        exact hinv.disjoint i j hij
  · rw [h.get] at hget
    by_cases hmem : b ∈ ownBlocks D index
    · rw [if_pos hmem] at hget
      cases hget
    · rw [if_neg hmem] at hget
      refine (hinv.owned b hb hget).imp_right fun ⟨i, hi⟩ => ⟨i, ?_⟩
      have hindex : i ≠ index := by
        rintro rfl
        exact hmem hi
      rw [hown i hindex]
      exact hi

end Dropped

lemma hostInodeBlock_eq (order : ByteOrder) (inode : Block) (k : ℕ) :
    hostInodeBlock order inode k = (inodeBlock inode k).toNat := by
  rw [hostInodeBlock, ntohl_hostRead]
  rfl

/-- The loop of `tfstool_delete` runs over the slots in use. -/
lemma hostSlots_eq (order : ByteOrder) (inode : Block) :
    hostSlots order inode = List.range (slotCount inode) := by
  have hsame : hostSlots order inode =
      (List.range tfsBlocksMax).takeWhile fun k => inodeBlock inode k ≠ 0 := by
    rw [hostSlots]
    congr 1
    funext k
    rw [hostInodeBlock_eq, decide_eq_decide, ← UInt32.toNat_zero, Ne, UInt32.toNat_inj]
  have hprefix := List.prefix_iff_eq_take.mp
    (List.takeWhile_prefix (fun k => decide (inodeBlock inode k ≠ 0)) (l := List.range tfsBlocksMax))
  rw [hsame, hprefix, List.take_range, ← slotCount, min_eq_left (slotCount_le inode)]

lemma hostSlots_map (order : ByteOrder) (inode : Block) :
    (hostSlots order inode).map (hostInodeBlock order inode) =
      firstBlocks inode (slotCount inode) := by
  rw [hostSlots_eq, firstBlocks]
  exact List.map_congr_left fun k _ => hostInodeBlock_eq order inode k

lemma hostFindEntry_spec {md : Block} (hnul : 0 ∉ filename)
    (hshort : filename.length ≤ tfsFilenameMax) (h : hostFindEntry md filename = some index) :
    index < tfsMaxFiles ∧ entryName md index = filename := by
  rw [hostFindEntry] at h
  have hcmp := List.find?_some h
  rw [decide_eq_true_eq, strncmp_eq_zero_iff hnul hshort] at hcmp
  exact ⟨List.mem_range.mp (List.mem_of_find?_eq_some h), hcmp⟩

/-- The entry of a file is found, its inode and the blocks in its slots are given back. -/
lemma tfstoolDelete_listed (order : ByteOrder) (hlisted : Listed D index)
    (hfind : hostFindEntry (D tfsDirectoryBlock) filename = some index) :
    Dropped D (tfstoolDelete order filename D) index ∧
      ∀ p ∈ deleteBits order filename D, p ∈ ownBlocks D index := by
  have hinode : (ntohl order (hostRead order (D tfsDirectoryBlock)
      (sizeofDirentry * index))).toNat = inodeNumber D index := by
    rw [ntohl_hostRead]
    rfl
  have hmap := hostSlots_map order (D (inodeNumber D index))
  have hzero : ntohl order 0 = 0 := (ntohl_eq_zero_iff order 0).mpr rfl
  have hdrop : hostWrite order (D tfsDirectoryBlock) (sizeofDirentry * index) 0 =
      setEntryInode (D tfsDirectoryBlock) index 0 := by
    have hwrite := hostWrite_ntohl order (D tfsDirectoryBlock) (sizeofDirentry * index) 0
    rwa [hzero] at hwrite
  have hne : tfsAllocationBlock ≠ tfsDirectoryBlock := by decide
  unfold tfstoolDelete deleteBits
  dsimp only
  rw [hfind]
  dsimp only
  rw [hinode, hmap, hdrop]
  refine ⟨⟨?_, fun p => ?_, fun b hb => ?_⟩, fun p hp => ?_⟩
  · rw [Function.update_self]
    rfl
  · rw [Function.update_of_ne hne, Function.update_self, hostBitmapSet_eq, bitmapGet_bitmapSet]
    simp only [hostBitmapSet_eq]
    rw [bitmapGet_foldl_clear, hmap, ownBlocks_listed hlisted]
    by_cases hself : p = inodeNumber D index <;> simp [hself]
  · have hdirectory : b ≠ tfsDirectoryBlock := by
      rw [tfsDirectoryBlock]
      omega
    have hallocation : b ≠ tfsAllocationBlock := by
      rw [tfsAllocationBlock]
      omega
    rw [Function.update_of_ne hdirectory, Function.update_of_ne hallocation]
  · rw [List.mem_append, List.mem_singleton] at hp
    rw [ownBlocks_listed hlisted, List.mem_cons]
    exact hp.symm

/-- `tfstool_delete` stays in the bitmap and keeps the image in order, unless it deletes a free
entry. -/
lemma delete_step (order : ByteOrder) (hinv : ImageInv D (tfsTotalblocks numBlocks))
    (hvalid : (ToolCall.delete filename).Valid) (hused : ¬(ToolCall.delete filename).DeletesFree D) :
    ImageInv ((ToolCall.delete filename).run order numBlocks D) (tfsTotalblocks numBlocks) ∧
      ∀ p ∈ (ToolCall.delete filename).bits order numBlocks D, p / 32 < 128 := by
  obtain ⟨hnul, hshort⟩ := hvalid
  rw [ToolCall.run, ToolCall.bits]
  cases hfind : hostFindEntry (D tfsDirectoryBlock) filename with
  | none =>
    unfold tfstoolDelete deleteBits
    dsimp only
    rw [hfind]
    exact ⟨hinv, fun p hp => nomatch hp⟩
  | some index =>
    obtain ⟨hbound, hname⟩ := hostFindEntry_spec hnul hshort hfind
    have hlisted : Listed D index := by
      by_contra hfree
      have hzero := not_not.mp fun hne => hfree ⟨hbound, hne⟩
      exact hused ⟨hname.symm.trans (hinv.directory.free index hbound hzero), index, hbound, hfree⟩
    obtain ⟨hdropped, hbits⟩ := tfstoolDelete_listed order hlisted hfind
    have htotal : tfsTotalblocks numBlocks ≤ 4096 := Nat.min_le_right _ _
    refine ⟨hdropped.imageInv hinv, fun p hp => ?_⟩
    have hlt := (hinv.range index p (hbits p hp)).2
    omega

/-! ### Whole runs -/

lemma call_step (hinv : ImageInv D (tfsTotalblocks size)) (call : ToolCall) (hvalid : call.Valid)
    (hused : ¬call.DeletesFree D) :
    ImageInv (call.run order size D) (tfsTotalblocks size) ∧
      ∀ p ∈ call.bits order size D, p / 32 < 128 := by
  cases call with
  | write data source target => exact write_step hinv data source hvalid
  | delete filename => exact delete_step order hinv hvalid hused

lemma ToolReachable.imageInv {D₀ : Disk} (h : ToolReachable order size D₀ D)
    (hstart : ImageInv D₀ (tfsTotalblocks size)) : ImageInv D (tfsTotalblocks size) := by
  induction h with
  | start => exact hstart
  | call call _ hvalid hused ih => exact (call_step ih call hvalid hused).1

lemma ImageInv.ownBlocksOk (hinv : ImageInv D (tfsTotalblocks size)) : OwnBlocksOk size D where
  inode i hi := hinv.range i _ (inodeNumber_mem_ownBlocks hi)
  slot i hi k hk hne := by
    have hslot := ((hinv.inode i hi).slots k hk).mp hne
    refine hinv.range i _ ?_
    rw [ownBlocks_listed hi]
    exact List.mem_cons_of_mem _ (List.mem_map_of_mem (List.mem_range.mpr hslot))
  apart := hinv.disjoint

/-- After any calls on a new image, none of which deletes a free entry, the blocks of the files are
ones that the kernel uses, no block has two owners, and the next call stays in the bitmap. -/
theorem toolReachable_inside {volumename : ℕ → UInt8} {disk : Disk}
    (h : ToolReachable order size (tfstoolCreatevol size volumename disk) D) :
    OwnBlocksOk size D ∧ ∀ call : ToolCall, call.Valid → ¬call.DeletesFree D →
      ∀ p ∈ call.bits order size D, p / 32 < 128 := by
  have hinv := h.imageInv (imageInv_of_allocInv (createvol_allocInv size volumename disk))
  exact ⟨hinv.ownBlocksOk, fun call hvalid hused => (call_step hinv call hvalid hused).2⟩

/-- A new image of eight blocks after a file of two bytes has been written. -/
def imageWithFile : Disk :=
  (ToolCall.write (fun _ => 0) [104, 105] [102]).run .little 8
    (tfstoolCreatevol 8 (fun _ => 65) fun _ _ => 0)

lemma imageWithFile_reachable :
    ToolReachable .little 8 (tfstoolCreatevol 8 (fun _ => 65) fun _ _ => 0) imageWithFile :=
  .call _ .start ⟨by decide, by decide⟩ id

theorem toolReachable_inside_file :
    ownBlocks imageWithFile 0 = [3, 4] ∧ OwnBlocksOk 8 imageWithFile ∧
      ∀ call : ToolCall, call.Valid → ¬call.DeletesFree imageWithFile →
        ∀ p ∈ call.bits .little 8 imageWithFile, p / 32 < 128 :=
  ⟨by decide +kernel, toolReachable_inside imageWithFile_reachable⟩

/-- On a new image `tfstool_delete` takes the header for the inode of the file with the empty name,
and clears bits that are not in the bitmap. -/
theorem not_inside_emptyName :
    ToolReachable .little 8 (tfstoolCreatevol 8 (fun _ => 65) fun _ _ => 0)
        (tfstoolCreatevol 8 (fun _ => 65) fun _ _ => 0) ∧
      (ToolCall.delete []).Valid ∧
      ¬ ∀ p ∈ (ToolCall.delete []).bits .little 8
        (tfstoolCreatevol 8 (fun _ => 65) fun _ _ => 0), p / 32 < 128 :=
  ⟨.start, ⟨by decide, by decide⟩, by decide +kernel⟩

end Osm.Util
