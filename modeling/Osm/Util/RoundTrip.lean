import Osm.Fs.VolumeRuns
import Osm.Util.WriteBlocks

/-!
# What the host writes is read back

If `tfstool_write` reports success, the image is still in order, the other files are as they were,
and both `tfstool_read` and the kernel find the new file with its bytes. If it reports failure,
nothing that is in use has changed.
-/

namespace Osm.Util

open Osm.Core Osm.Lib Osm.Fs

/-- The image `D'` is `D` with a new file: it is in order, the other files are as they were, and
both programs read the bytes `s` under the name. -/
structure Stored (numBlocks : ℕ) (D : Disk) (filename s : List UInt8) (D' : Disk) : Prop where
  image  : ImageInv D' numBlocks
  others : ∀ i, Listed D i →
    Listed D' i ∧ fileName D' i = fileName D i ∧ fileContents D' i = fileContents D i
  files  : ∀ i, Listed D' i → Listed D i ∨ fileName D' i = filename
  host   : ∀ order, tfstoolRead order filename D' = some s
  kernel : ∃ fileid, (tfsOpen filename).run (fun _ => true) D' = (fileid, D') ∧
    ∀ bat rest bufsize, s.length ≤ bufsize →
      (tfsRead (tfsTotalblocks numBlocks) bat rest fileid bufsize 0).run (fun _ => true) D' =
        ((↑s.length, s), D')

/-- What is in use on the image `D` is the same on `D'`. -/
structure Untouched (D D' : Disk) : Prop where
  directory  : D' tfsDirectoryBlock = D tfsDirectoryBlock
  allocation : D' tfsAllocationBlock = D tfsAllocationBlock
  files      : ∀ i, Listed D i → ∀ b ∈ ownBlocks D i, D' b = D b

/-- The image `D'` is `D` with a new file in a free entry, whose inode and blocks were not in
use. -/
structure Added (numBlocks : ℕ) (D D' : Disk) (index : ℕ) (filename : List UInt8) (number : ℕ) :
    Prop where
  bound     : index < tfsMaxFiles
  free      : entryInode (D tfsDirectoryBlock) index = 0
  newName   : ∀ i < tfsMaxFiles, entryName (D tfsDirectoryBlock) i ≠ filename
  entry     : NewEntry (D tfsDirectoryBlock) (D' tfsDirectoryBlock) index filename
    (UInt32.ofNat number)
  allocated : Allocated numBlocks (D tfsAllocationBlock) (D' tfsAllocationBlock)
    (number :: firstBlocks (D' number) (slotCount (D' number)))
  slots     : SlotsOk (D' number)
  blocks    : ∀ b, bitmapGet (D tfsAllocationBlock) b = 1 → 3 ≤ b → D' b = D b

variable {order : ByteOrder} {numBlocks index number : ℕ} {D D' : Disk} {filename s : List UInt8}

/-- A block that is not marked is not one of the first three. -/
lemma ImageInv.three_le (h : ImageInv D numBlocks) {b : ℕ}
    (hb : bitmapGet (D tfsAllocationBlock) b = 0) : 3 ≤ b := by
  refine not_lt.mp fun hlt => ?_
  rw [h.system b hlt] at hb
  cases hb

namespace Added

variable (h : Added numBlocks D D' index filename number) (hinv : ImageInv D numBlocks)
  (hN : numBlocks ≤ 4096)
include h hinv

lemma sameInode {i : ℕ} (hi : i ≠ index) : SameInode D D' i where
  inode := h.entry.entryInode_of_ne hi
  name := h.entry.entryName_of_ne hi
  block hlisted := by
    have hmem := inodeNumber_mem_ownBlocks hlisted
    exact h.blocks _ (hinv.marked i _ hmem) (hinv.range i _ hmem).1

lemma number_range : 3 ≤ number ∧ number < numBlocks := by
  have hfresh := h.allocated.fresh number List.mem_cons_self
  exact ⟨hinv.three_le hfresh.2, hfresh.1⟩

include hN

omit hinv in
lemma number_toNat : (UInt32.ofNat number).toNat = number := by
  have hlt := (h.allocated.fresh number List.mem_cons_self).1
  exact UInt32.toNat_ofNat_of_lt' (by rw [UInt32.size]; omega)

omit hinv in
lemma inodeNumber_eq : inodeNumber D' index = number := by
  rw [inodeNumber, h.entry.inode, h.number_toNat hN]

lemma listed : Listed D' index := by
  refine ⟨h.bound, fun hzero => ?_⟩
  have hrange := h.number_range hinv
  have hnat := h.number_toNat hN
  rw [← h.entry.inode, hzero, UInt32.toNat_zero] at hnat
  omega

lemma ownBlocks_eq :
    ownBlocks D' index = number :: firstBlocks (D' number) (slotCount (D' number)) := by
  rw [ownBlocks_listed (h.listed hinv hN), h.inodeNumber_eq hN]

/-- An image in order is still in order with a new file. -/
lemma imageInv (hname : ValidName filename) : ImageInv D' numBlocks := by
  have hown := h.ownBlocks_eq hinv hN
  have hlisted := h.listed hinv hN
  have hsame : ∀ i, i ≠ index → ownBlocks D' i = ownBlocks D i :=
    fun i hi => ownBlocks_congr (h.sameInode hinv hi)
  have hget := h.allocated.get
  have hkeep : ∀ b, bitmapGet (D tfsAllocationBlock) b = 1 →
      bitmapGet (D' tfsAllocationBlock) b = 1 := by
    intro b hb
    rw [hget, hb, ite_self]
  have hnew : ∀ i, i ≠ index → (ownBlocks D' index).Disjoint (ownBlocks D' i) := by
    intro i hi b hb hb'
    rw [hown] at hb
    rw [hsame i hi] at hb'
    have hzero := (h.allocated.fresh b hb).2
    rw [hinv.marked i b hb'] at hzero
    cases hzero
  refine ⟨?_, fun b hb => hkeep b (hinv.system b hb), fun i hi => ?_, fun i => ?_, fun i b hb => ?_,
    fun i b hb => ?_, fun i j hij => ?_, fun b hb hmarked => ?_⟩
  · refine h.entry.directoryOk hinv.directory hname h.newName fun hzero => ?_
    rw [← h.entry.inode] at hzero
    exact hlisted.2 hzero
  · by_cases hindex : i = index
    · rw [hindex, h.inodeNumber_eq hN]
      exact h.slots
    · have hsameInode := h.sameInode hinv hindex
      have hold := hsameInode.listed_iff.mp hi
      rw [hsameInode.inodeNumber_eq, hsameInode.block hold]
      exact hinv.inode i hold
  · by_cases hindex : i = index
    · rw [hindex, hown]
      exact h.allocated.nodup
    · rw [hsame i hindex]
      exact hinv.nodup i
  · by_cases hindex : i = index
    · rw [hindex, hown] at hb
      have hfresh := h.allocated.fresh b hb
      exact ⟨hinv.three_le hfresh.2, hfresh.1⟩
    · rw [hsame i hindex] at hb
      exact hinv.range i b hb
  · by_cases hindex : i = index
    · rw [hindex, hown] at hb
      rw [hget, if_pos hb]
    · rw [hsame i hindex] at hb
      exact hkeep b (hinv.marked i b hb)
  · by_cases hi : i = index
    · subst hi
      exact hnew j (Ne.symm hij)
    · by_cases hj : j = index
      · subst hj
        exact List.disjoint_symm (hnew i hi)
      · rw [hsame i hi, hsame j hj]
        exact hinv.disjoint i j hij
  · rw [hget] at hmarked
    by_cases hmem : b ∈ number :: firstBlocks (D' number) (slotCount (D' number))
    · exact .inr ⟨index, hown ▸ hmem⟩
    · rw [if_neg hmem] at hmarked
      refine (hinv.owned b hb hmarked).imp_right fun ⟨i, hi⟩ => ⟨i, ?_⟩
      have hindex : i ≠ index := by
        rintro rfl
        rw [ownBlocks_free fun hold => hold.2 h.free] at hi
        cases hi
      rw [hsame i hindex]
      exact hi

omit hN in
/-- The other files have the bytes they had. -/
lemma fileContents_eq {i : ℕ} (hlisted : Listed D i) (hi : i ≠ index) :
    fileContents D' i = fileContents D i := by
  have hsame := h.sameInode hinv hi
  rw [fileContents, fileContents, hsame.inodeNumber_eq, hsame.block hlisted]
  refine contents_congr fun b hb => ?_
  have hmem : b ∈ ownBlocks D i := by
    rw [ownBlocks_listed hlisted]
    exact List.mem_cons_of_mem _ ((hinv.inode i hlisted).dataBlocks_subset hb)
  exact h.blocks b (hinv.marked i b hmem) (hinv.range i b hmem).1

/-- Both programs read the new file. -/
lemma stored (hname : ValidName filename) (hcontents : contents D' (D' number) = s)
    (hsize : (filesize (D' number)).toNat = s.length) : Stored numBlocks D filename s D' := by
  have himage := h.imageInv hinv hN hname
  have hlisted := h.listed hinv hN
  have hnumber := h.inodeNumber_eq hN
  have hfile : fileName D' index = filename := h.entry.name
  have hbytes : fileContents D' index = s := by rw [fileContents, hnumber, hcontents]
  have hother : ∀ i, Listed D i → i ≠ index := by
    rintro i hold rfl
    exact hold.2 h.free
  refine ⟨himage, fun i hi => ?_, fun i hi => ?_, fun order => ?_, number, ?_, ?_⟩
  · have hsame := h.sameInode hinv (hother i hi)
    exact ⟨hsame.listed_iff.mpr hi, hsame.name, h.fileContents_eq hinv hi (hother i hi)⟩
  · by_cases hindex : i = index
    · exact .inr (hindex ▸ hfile)
    · exact .inl ((h.sameInode hinv hindex).listed_iff.mp hi)
  · have hread := tfstoolRead_listed hlisted order himage (by rw [hfile]; exact hname)
    rwa [hfile, hbytes] at hread
  · have hopen := tfsOpen_listed hlisted himage (by omega) (by rw [hfile]; exact hname)
    rwa [hfile, hnumber] at hopen
  · intro bat rest bufsize hroom
    have htotal : tfsTotalblocks numBlocks = numBlocks := min_eq_left hN
    have hrange := h.number_range hinv
    have hread := tfsRead_contents rfl h.slots.dataCount_le hrange bat rest bufsize (Nat.zero_le _)
    have hall : slice s 0 s.length = s := List.take_length
    rw [hsize, Nat.sub_zero, min_eq_right hroom, hcontents, hall, Nat.cast_zero] at hread
    rw [htotal]
    exact hread

end Added

/-! ### The end of the call -/

/-- The loop over the directory finds the first free entry if no entry has the name. -/
lemma hostFreeEntry_spec {md : Block} (hnul : 0 ∉ filename)
    (hshort : filename.length < tfsFilenameMax) {n : ℕ} {found : Option ℕ}
    (h : hostFreeEntry order md filename n = some found) :
    (∀ i < n, entryName md i ≠ filename) ∧ ∀ i ∈ found, i < n ∧ entryInode md i = 0 := by
  induction n generalizing found with
  | zero =>
    obtain rfl := Option.some.inj h
    simp
  | succ n ih =>
    simp only [hostFreeEntry, Option.bind_eq_bind, Option.bind_eq_some_iff] at h
    obtain ⟨found', hrec, hstep⟩ := h
    obtain ⟨hnames, hfree⟩ := ih hrec
    by_cases hcmp : strncmp md (entryNameAddr n) filename tfsFilenameMax = 0
    · rw [if_pos hcmp] at hstep
      cases hstep
    · rw [if_neg hcmp, Option.some.injEq] at hstep
      rw [strncmp_eq_zero_iff hnul hshort.le] at hcmp
      refine ⟨fun i hi => ?_, fun i hi => ?_⟩
      · rcases Nat.lt_succ_iff_lt_or_eq.mp hi with hlt | rfl
        · exact hnames i hlt
        · exact hcmp
      · subst hstep
        by_cases hzero : hostRead order md (sizeofDirentry * n) = 0 ∧ found' = none
        · rw [if_pos hzero] at hi
          obtain rfl := Option.some.inj hi
          refine ⟨Nat.lt_succ_self _, ?_⟩
          rw [entryInode, ← ntohl_hostRead order, hzero.1, (ntohl_eq_zero_iff order 0).mpr rfl]
        · rw [if_neg hzero] at hi
          exact ⟨Nat.lt_succ_of_lt (hfree i hi).1, (hfree i hi).2⟩

/-- The directory that is written has a new entry. -/
lemma newEntry_strncpy (order : ByteOrder) (md : Block) (index : ℕ) (inode : UInt32)
    (hname : ValidName filename) :
    NewEntry md (strncpy (hostWrite order md (sizeofDirentry * index) (ntohl order inode))
      (entryNameAddr index) filename tfsFilenameMax) index filename inode where
  inode := by
    rw [hostWrite_ntohl]
    have hword : ∀ x, sizeofDirentry * index ≤ x → x < sizeofDirentry * index + 4 →
        strncpy (Memory.writeWord md (sizeofDirentry * index) inode) (entryNameAddr index) filename
          tfsFilenameMax x = Memory.writeWord md (sizeofDirentry * index) inode x :=
      fun x _ hx => strncpy_of_outside (.inl hx)
    rw [entryInode, Memory.readWord_congr hword]
    exact Memory.readWord_writeWord_self _ _ _
  name := stringAt_strncpy hname.noNul hname.short
  other x hx := by
    rw [strncpy_of_outside, hostWrite_ntohl, Memory.writeWord_of_outside]
    all_goals
      simp only [entryNameAddr, sizeofDirentry, tfsFilenameMax]
      omega

section WriteEnd

variable {st : WriteState} {md : Block} {b : ℕ}

lemma writeEnd_allocation (order : ByteOrder) (st : WriteState) (md : Block) (index number : ℕ)
    (filename : List UInt8) :
    writeEnd order st md index number filename tfsAllocationBlock = st.bat := by
  rw [writeEnd, Function.update_self]

lemma writeEnd_directory (order : ByteOrder) (st : WriteState) (md : Block) (index number : ℕ)
    (filename : List UInt8) :
    writeEnd order st md index number filename tfsDirectoryBlock =
      strncpy (hostWrite order md (sizeofDirentry * index) (ntohl order (UInt32.ofNat number)))
        (entryNameAddr index) filename tfsFilenameMax := by
  have hne : tfsDirectoryBlock ≠ tfsAllocationBlock := by decide
  rw [writeEnd, Function.update_of_ne hne, Function.update_self]

lemma writeEnd_of_three_le (hb : 3 ≤ b) :
    writeEnd order st md index number filename b =
      Function.update st.disk number (Memory.writeWord st.inode 0 st.filesize) b := by
  have hallocation : b ≠ tfsAllocationBlock := by
    rw [tfsAllocationBlock]
    omega
  have hdirectory : b ≠ tfsDirectoryBlock := by
    rw [tfsDirectoryBlock]
    omega
  rw [writeEnd, Function.update_of_ne hallocation, Function.update_of_ne hdirectory, hostWrite_ntohl]

lemma writeEnd_inode (hnumber : 3 ≤ number) :
    writeEnd order st md index number filename number =
      Memory.writeWord st.inode 0 st.filesize := by
  rw [writeEnd_of_three_le hnumber, Function.update_self]

lemma writeEnd_of_ne (hb : 3 ≤ b) (hne : b ≠ number) :
    writeEnd order st md index number filename b = st.disk b := by
  rw [writeEnd_of_three_le hb, Function.update_of_ne hne]

end WriteEnd

/-- What `tfstool_write` leaves at the end. -/
lemma writeEnd_added {i : ℕ} {st : WriteState} (hinv : ImageInv D numBlocks)
    (h : Filling numBlocks D s number i st) (hsize : st.filesize.toNat = s.length)
    (hname : ValidName filename) (hbound : index < tfsMaxFiles)
    (hfree : entryInode (D tfsDirectoryBlock) index = 0)
    (hnewName : ∀ i < tfsMaxFiles, entryName (D tfsDirectoryBlock) i ≠ filename) :
    let D' := writeEnd order st (D tfsDirectoryBlock) index number filename
    Added numBlocks D D' index filename number ∧ contents D' (D' number) = s ∧
      (filesize (D' number)).toNat = s.length := by
  intro D'
  have hnumber := hinv.three_le (h.allocated.fresh number List.mem_cons_self).2
  have hlen : s.length = min (512 * i) s.length := hsize.symm.trans h.size
  have hspare := h.spare
  have hbat : D' tfsAllocationBlock = st.bat := writeEnd_allocation ..
  have hmd : D' tfsDirectoryBlock = strncpy (hostWrite order (D tfsDirectoryBlock)
      (sizeofDirentry * index) (ntohl order (UInt32.ofNat number))) (entryNameAddr index) filename
        tfsFilenameMax := writeEnd_directory ..
  have hnode : D' number = Memory.writeWord st.inode 0 st.filesize := writeEnd_inode hnumber
  have hframe : ∀ b, 3 ≤ b → b ≠ number → D' b = st.disk b := fun b hb hne => writeEnd_of_ne hb hne
  -- the new inode
  have hfilesize : filesize (D' number) = st.filesize := by
    rw [hnode]
    exact Memory.readWord_writeWord_self _ _ _
  have hslot : ∀ k, inodeBlock (D' number) k = inodeBlock st.inode k := by
    intro k
    rw [hnode]
    exact Memory.readWord_writeWord_of_ne (by omega)
  have hslots : ∀ k < tfsBlocksMax, inodeBlock (D' number) k ≠ 0 ↔ k < i := by
    intro k hk
    rw [hslot]
    exact h.slots k hk
  have hcount : slotCount (D' number) = i := slotCount_eq h.count hslots
  have hdata : dataCount (D' number) = (s.length + 511) / 512 := by
    rw [dataCount, hfilesize, hsize]
  have hfirst : firstBlocks (D' number) i = firstBlocks st.inode i :=
    firstBlocks_congr fun k _ => hslot k
  have hslotsOk : SlotsOk (D' number) :=
    ⟨by rw [hdata, hcount]; omega, by rw [hdata, hcount]; omega, by rw [hcount]; exact hslots⟩
  refine ⟨⟨hbound, hfree, hnewName, ?_, ?_, hslotsOk, fun b hb hle => ?_⟩, ?_, ?_⟩
  · rw [hmd]
    exact newEntry_strncpy order _ index _ hname
  · rw [hbat, hcount, hfirst]
    exact h.allocated
  · have hne : b ≠ number := by
      rintro rfl
      have hzero := (h.allocated.fresh b List.mem_cons_self).2
      rw [hb] at hzero
      cases hzero
    rw [hframe b hle hne]
    exact h.disk_of_marked hb
  · rw [contents, hfilesize, hsize]
    refine List.ext_getElem (by simp) fun x hx hx' => ?_
    have hbyte := h.bytes x (by omega)
    have hmem : (inodeBlock st.inode (x / tfsBlockSize)).toNat ∈ firstBlocks st.inode i :=
      List.mem_map_of_mem (List.mem_range.mpr (by rw [tfsBlockSize]; omega))
    have hne : (inodeBlock st.inode (x / tfsBlockSize)).toNat ≠ number := fun heq =>
      (List.nodup_cons.mp h.allocated.nodup).1 (heq ▸ hmem)
    have hsame := hframe _ (hinv.three_le (h.fresh hmem).2) hne
    rw [List.getElem_map, List.getElem_range, byteAt, hslot, hsame]
    rw [byteAt, List.getD_eq_getElem _ _ hx'] at hbyte
    exact hbyte
  · rw [hfilesize, hsize]

/-! ### The whole call -/

lemma Untouched.of_marked (hinv : ImageInv D numBlocks)
    (h : ∀ b, bitmapGet (D tfsAllocationBlock) b = 1 → D' b = D b) : Untouched D D' where
  directory := h _ (hinv.system _ (by decide))
  allocation := h _ (hinv.system _ (by decide))
  files i _ b hb := h b (hinv.marked i b hb)

/-- Before the first round. -/
lemma Filling.start {bat data : Block}
    (hfind : bitmapFindnset (D tfsAllocationBlock) numBlocks = some (bat, number)) :
    Filling numBlocks D s number 0 ⟨D, bat, fun _ => 0, data, ⟨s, false⟩, 0⟩ where
  allocated := (Allocated.nil numBlocks _).findnset hfind
  slots k _ := iff_of_false (not_not.mpr (Memory.readWord_zero _)) (Nat.not_lt_zero k)
  count := Nat.zero_le _
  spare := by omega
  disk _ _ := rfl
  bytes x hx := by omega
  size := by
    rw [Nat.mul_zero, Nat.zero_min]
    rfl

/-- Without a free entry, or with the name in the directory, nothing is written. -/
lemma tfstoolWrite_full {entry : Option (Option ℕ)} {target : List UInt8} (data : Block)
    (source : List UInt8)
    (hentry : hostFreeEntry order (D tfsDirectoryBlock) target tfsMaxFiles = entry)
    (hfull : ∀ index, entry ≠ some (some index)) :
    tfstoolWrite order numBlocks data source target D = (D, false) := by
  unfold tfstoolWrite
  extract_lets md
  change hostFreeEntry order md target tfsMaxFiles = entry at hentry
  rw [hentry]
  cases entry with
  | none => rfl
  | some found =>
    cases found with
    | none => rfl
    | some index => exact absurd rfl (hfull index)

/-- What `tfstool_write` does when it has found the first free entry, with a bound on the number of
rounds of its loop. -/
def writeFile (order : ByteOrder) (numBlocks rounds : ℕ) (data : Block) (source target : List UInt8)
    (index : ℕ) (D : Disk) : Disk × Bool :=
  let found := hostBitmapFindnset order (D tfsAllocationBlock) numBlocks
  let inodeBnum := (UInt32.ofInt found.2).toNat
  if 2 < inodeBnum ∧ inodeBnum < numBlocks then
    let result := writeBlocks order numBlocks rounds 0
      ⟨D, found.1, fun _ => 0, data, ⟨source, false⟩, 0⟩
    if result.1.filesize.toNat ≠ source.length then (result.1.disk, false)
    else if result.2 then
      (writeEnd order result.1 (D tfsDirectoryBlock) index inodeBnum target, true)
    else (result.1.disk, false)
  else (D, false)

/-- With a free entry, the blocks are written first, and what refers to them afterwards. -/
lemma tfstoolWrite_free {target : List UInt8} (data : Block) (source : List UInt8)
    (hentry : hostFreeEntry order (D tfsDirectoryBlock) target tfsMaxFiles = some (some index)) :
    tfstoolWrite order numBlocks data source target D =
      writeFile order numBlocks numBlocks data source target index D := by
  unfold tfstoolWrite
  extract_lets md
  change hostFreeEntry order md target tfsMaxFiles = some (some index) at hentry
  rw [hentry]
  rfl

/-- Either a new file is added to the image, or the blocks that are in use stay as they were. -/
lemma writeFile_spec (hN : numBlocks ≤ 4096) (hinv : ImageInv D numBlocks) (data : Block)
    (source : List UInt8) {target : List UInt8} (htarget : ValidName target)
    (hentry : hostFreeEntry order (D tfsDirectoryBlock) target tfsMaxFiles = some (some index))
    (rounds : ℕ) {D' : Disk} {ok : Bool}
    (hresult : writeFile order numBlocks rounds data source target index D = (D', ok)) :
    (ok = true → ∃ number, Added numBlocks D D' index target number ∧
      contents D' (D' number) = source ∧ (filesize (D' number)).toNat = source.length) ∧
    (ok = false → ∀ b, bitmapGet (D tfsAllocationBlock) b = 1 → D' b = D b) := by
  obtain ⟨hnewName, hfree⟩ := hostFreeEntry_spec htarget.noNul htarget.short hentry
  obtain ⟨hbound, hunused⟩ := hfree index rfl
  obtain ⟨found, hfound⟩ : ∃ found,
      found = hostBitmapFindnset order (D tfsAllocationBlock) numBlocks := ⟨_, rfl⟩
  rw [writeFile, ← hfound] at hresult
  dsimp only at hresult
  by_cases hinode : 2 < (UInt32.ofInt found.2).toNat ∧ (UInt32.ofInt found.2).toNat < numBlocks
  · have hfind := hostBitmapFindnset_some hN (hfound ▸ hinode.2)
    rw [← hfound] at hfind
    obtain ⟨hdisk, hfilled⟩ := @writeBlocks_filling order _ _ _ _ _ _ hN rounds
      (@Filling.start _ _ _ source _ data hfind) ⟨rfl, Nat.zero_le _⟩
    rw [if_pos hinode] at hresult
    generalize writeBlocks order numBlocks rounds 0
      ⟨D, found.1, fun _ => 0, data, ⟨source, false⟩, 0⟩ = result at hdisk hfilled hresult
    by_cases hsize : result.1.filesize.toNat = source.length
    · rw [if_neg (not_not.mpr hsize)] at hresult
      by_cases hok : result.2 = true
      · obtain ⟨i, hfilling⟩ := hfilled hok
        have hadded := @writeEnd_added order _ _ _ _ _ _ _ _ hinv hfilling hsize htarget hbound
          hunused hnewName
        rw [if_pos hok] at hresult
        cases hresult
        exact ⟨fun _ => ⟨_, hadded⟩, fun hfail => nomatch hfail⟩
      · rw [if_neg hok] at hresult
        cases hresult
        exact ⟨fun hfail => (nomatch hfail), fun _ => hdisk⟩
    · rw [if_pos hsize] at hresult
      cases hresult
      exact ⟨fun hok => (nomatch hok), fun _ => hdisk⟩
  · rw [if_neg hinode] at hresult
    cases hresult
    exact ⟨fun hok => (nomatch hok), fun _ _ _ => rfl⟩

/-- If `tfstool_write` reports success, the image is in order, the other files are as they were and
the new one is read back by both programs; if it reports failure, what is in use is as it was. -/
theorem tfstoolWrite_roundTrip (order : ByteOrder) (hN : numBlocks ≤ 4096) (data : Block)
    (source : List UInt8) {target : List UInt8} (htarget : ValidName target)
    (hinv : ImageInv D numBlocks) :
    ((tfstoolWrite order numBlocks data source target D).2 = true →
      Stored numBlocks D target source (tfstoolWrite order numBlocks data source target D).1) ∧
    ((tfstoolWrite order numBlocks data source target D).2 = false →
      Untouched D (tfstoolWrite order numBlocks data source target D).1) := by
  obtain ⟨entry, hentry⟩ : ∃ entry,
      hostFreeEntry order (D tfsDirectoryBlock) target tfsMaxFiles = entry := ⟨_, rfl⟩
  by_cases hfull : ∀ index, entry ≠ some (some index)
  · rw [tfstoolWrite_full data source hentry hfull]
    exact ⟨fun hok => (nomatch hok), fun _ => .of_marked hinv fun _ _ => rfl⟩
  push Not at hfull
  obtain ⟨index, rfl⟩ := hfull
  rw [tfstoolWrite_free data source hentry]
  obtain ⟨hadded, hsame⟩ := writeFile_spec hN hinv data source htarget hentry numBlocks rfl
  refine ⟨fun hok => ?_, fun hfail => .of_marked hinv (hsame hfail)⟩
  obtain ⟨number, hadded, hcontents, hlength⟩ := hadded hok
  exact hadded.stored hinv hN htarget hcontents hlength

/-- A file of two bytes on a new image of eight blocks. -/
theorem tfstoolWrite_roundTrip_hi :
    (tfstoolWrite .little 8 (fun _ => 0) [104, 105] [102]
      (tfstoolCreatevol 8 (fun _ => 65) fun _ _ => 0)).2 = true ∧
    Stored 8 (tfstoolCreatevol 8 (fun _ => 65) fun _ _ => 0) [102] [104, 105]
      (tfstoolWrite .little 8 (fun _ => 0) [104, 105] [102]
        (tfstoolCreatevol 8 (fun _ => 65) fun _ _ => 0)).1 := by
  have hok : (tfstoolWrite .little 8 (fun _ => 0) [104, 105] [102]
      (tfstoolCreatevol 8 (fun _ => 65) fun _ _ => 0)).2 = true := by decide +kernel
  exact ⟨hok, (tfstoolWrite_roundTrip .little (by decide) _ _ validName_f
    (imageInv_of_allocInv (createvol_allocInv 8 _ _))).1 hok⟩

end Osm.Util
