import Osm.Fs.Layout

/-!
# The contents of files

The bytes of a file are those of its data blocks, one block after the other, up to the size of the
file. `tfs_read` copies bytes that follow each other from the blocks to a buffer, and `tfs_write`
from a buffer to the blocks; the first and the last block may be concerned in part only.
-/

namespace Osm.Fs

open Osm.Core Osm.Lib

/-- The byte of a file at a position. -/
def byteAt (D : Disk) (inode : Block) (x : ℕ) : UInt8 :=
  D (inodeBlock inode (x / tfsBlockSize)).toNat (x % tfsBlockSize)

/-- The bytes of the file with an inode. -/
def contents (D : Disk) (inode : Block) : List UInt8 :=
  (List.range (filesize inode).toNat).map (byteAt D inode)

/-- The bytes of the file in an entry. -/
def fileContents (D : Disk) (i : ℕ) : List UInt8 := contents D (D (inodeNumber D i))

/-- Some bytes of a string, from a position on. -/
def slice (s : List UInt8) (start n : ℕ) : List UInt8 := (s.drop start).take n

/-- A string with other bytes from a position on. -/
def splice (s : List UInt8) (start : ℕ) (bytes : List UInt8) : List UInt8 :=
  s.take start ++ bytes ++ s.drop (start + bytes.length)

variable {D D' : Disk} {inode : Block} {totalblocks : ℕ}

/-! ### Bytes and blocks -/

lemma byteAt_block (D : Disk) (inode : Block) (k : ℕ) {x : ℕ} (hx : x < 512) :
    byteAt D inode (512 * k + x) = D (inodeBlock inode k).toNat x := by
  have hdiv : (512 * k + x) / tfsBlockSize = k := by
    rw [tfsBlockSize]
    omega
  have hmod : (512 * k + x) % tfsBlockSize = x := by
    rw [tfsBlockSize]
    omega
  rw [byteAt, hdiv, hmod]

/-- Bytes of a block are bytes of the file. -/
lemma bytesOf_eq {k start m : ℕ} (hm : start + m ≤ 512) :
    bytesOf (D (inodeBlock inode k).toNat) start m =
      (List.range m).map fun x => byteAt D inode (512 * k + start + x) := by
  refine List.map_congr_left fun x hx => ?_
  have hlt := List.mem_range.mp hx
  rw [Nat.add_assoc, byteAt_block D inode k (by omega)]

lemma map_range_append {f : ℕ → UInt8} (m n : ℕ) :
    (List.range m).map f ++ (List.range n).map (fun x => f (m + x)) = (List.range (m + n)).map f := by
  rw [List.range_add, List.map_append, List.map_map]
  rfl

lemma filesize_le (hcount : dataCount inode ≤ tfsBlocksMax) :
    (filesize inode).toNat ≤ 65024 := by
  have h127 : tfsBlocksMax = 127 := rfl
  rw [dataCount] at hcount
  omega

/-- The size of a file is in the range of `int`. -/
lemma filesize_toInt (hcount : dataCount inode ≤ tfsBlocksMax) :
    (filesize inode).toBitVec.toInt = (filesize inode).toNat :=
  toInt_of_lt ((filesize_le hcount).trans_lt (by decide))

lemma slot_lt_dataCount {x : ℕ} (hx : x < (filesize inode).toNat) :
    x / tfsBlockSize < dataCount inode := by
  rw [dataCount, tfsBlockSize]
  omega

/-- The bytes of a file are in its data blocks. -/
lemma contents_congr (hblocks : ∀ b ∈ dataBlocks inode, D' b = D b) :
    contents D' inode = contents D inode := by
  refine List.map_congr_left fun x hx => ?_
  have hslot := slot_lt_dataCount (List.mem_range.mp hx)
  rw [byteAt, byteAt, hblocks _ (List.mem_map_of_mem (List.mem_range.mpr hslot))]

lemma SameFile.fileContents_eq {i : ℕ} (h : SameFile D D' i) (hlisted : Listed D i) :
    fileContents D' i = fileContents D i := by
  rw [fileContents, fileContents, h.sameInode.inodeNumber_eq, h.sameInode.block hlisted]
  refine contents_congr fun b hb => h.blocks b ?_
  rw [fileBlocks_listed hlisted]
  exact List.mem_cons_of_mem _ hb

lemma slice_contents {start n : ℕ} (h : start + n ≤ (filesize inode).toNat) :
    slice (contents D inode) start n =
      (List.range n).map fun x => byteAt D inode (start + x) := by
  refine List.ext_getElem ?_ fun x hx hx' => ?_
  · rw [slice, contents, List.length_take, List.length_drop, List.length_map, List.length_map,
      List.length_range, List.length_range]
    omega
  · simp only [slice, contents, List.getElem_take, List.getElem_drop, List.getElem_map,
      List.getElem_range]

/-! ### Reading -/

/-- The loop of `tfs_read` copies bytes of the file, from the position `start` on. -/
lemma tfsReadLoop_contents (rest : ℕ → UInt32) {start b2 bufsize n b1 read : ℕ} {bat : Block}
    {buffer : List UInt8} {pos : ℕ} (hslot : b2 < tfsBlocksMax) (hn : b1 + n = b2 + 1)
    (hlast : 512 * b2 < start + bufsize ∧ start + bufsize ≤ 512 * (b2 + 1))
    (hread : start + read = min (512 * b1) (start + bufsize))
    (hbuffer : buffer = (List.range read).map fun x => byteAt D inode (start + x)) :
    (tfsReadLoop inode rest b2 bufsize n b1 read bat buffer).Ends (fun _ => true) pos D
      fun r _ D' =>
        r = (↑bufsize, (List.range bufsize).map fun x => byteAt D inode (start + x)) ∧ D' = D := by
  induction n generalizing b1 read bat buffer pos with
  | zero =>
    have hall : read = bufsize := by omega
    rw [tfsReadLoop]
    exact Request.ends_pure ⟨by rw [hbuffer, hall], rfl⟩
  | succ n ih =>
    have hpos : 512 * b1 = start + read := by omega
    have hblock : blockNumber inode bat rest b1 = (inodeBlock inode b1).toNat :=
      if_pos (by omega)
    -- the bytes of the block follow those that were copied before
    have hnext : ∀ m ≤ 512, buffer ++ bytesOf (D (inodeBlock inode b1).toNat) 0 m =
        (List.range (read + m)).map fun x => byteAt D inode (start + x) := by
      intro m hm
      rw [bytesOf_eq (by omega), hbuffer, ← map_range_append]
      refine congrArg _ (List.map_congr_left fun x _ => ?_)
      rw [hpos, Nat.add_zero, Nat.add_assoc]
    rw [tfsReadLoop, hblock]
    refine Request.ends_bind (Request.ends_readCell_true ?_)
    dsimp only
    by_cases hb : b1 = b2
    · rw [if_pos hb, hnext _ (by omega)]
      refine ih (by omega) (by omega) ?_
      rw [Nat.add_sub_of_le (by omega)]
    · rw [if_neg hb, tfsBlockSize, hnext _ le_rfl]
      exact ih (by omega) (by omega) rfl

/-- `tfs_read` copies as many bytes as there are from the position on, if the buffer has room. -/
lemma tfsRead_contents {number : ℕ} (hinode : D number = inode)
    (hcount : dataCount inode ≤ tfsBlocksMax) (hnumber : 3 ≤ number ∧ number < totalblocks)
    (bat : Block) (rest : ℕ → UInt32) (bufsize : ℕ) {start : ℕ}
    (hstart : start ≤ (filesize inode).toNat) :
    (tfsRead totalblocks bat rest number bufsize start).run (fun _ => true) D =
      ((↑(min bufsize ((filesize inode).toNat - start)),
        slice (contents D inode) start (min bufsize ((filesize inode).toNat - start))), D) := by
  have h127 : tfsBlocksMax = 127 := rfl
  have hsizeLe := filesize_le hcount
  have hsize := filesize_toInt hcount
  obtain ⟨count, hcountEq⟩ : ∃ count, min bufsize ((filesize inode).toNat - start) = count :=
    ⟨_, rfl⟩
  have hroom : start + count ≤ (filesize inode).toNat := by omega
  rw [hcountEq, slice_contents hroom]
  have hends : (tfsRead totalblocks bat rest number bufsize start).Ends (fun _ => true) 0 D
      fun r _ D' => r = (↑count, (List.range count).map fun x => byteAt D inode (start + x)) ∧
        D' = D := by
    rw [tfsRead, if_neg (by omega)]
    refine Request.ends_bind (Request.ends_readCell_true ?_)
    dsimp only
    rw [Int.toNat_natCast, hinode, hsize, if_neg (by omega), Int.toNat_sub, Int.toNat_natCast,
      hcountEq]
    by_cases hzero : count = 0
    · rw [if_pos hzero, hzero]
      exact Request.ends_pure ⟨rfl, rfl⟩
    · have hfirst : blockNumber inode bat rest (start / tfsBlockSize) =
          (inodeBlock inode (start / tfsBlockSize)).toNat := if_pos (by rw [tfsBlockSize]; omega)
      rw [if_neg hzero, hfirst]
      refine Request.ends_bind (Request.ends_readCell_true ?_)
      dsimp only
      rw [tfsBlockSize, bytesOf_eq (by omega)]
      have hstartEq : 512 * (start / 512) + start % 512 = start := Nat.div_add_mod start 512
      refine (tfsReadLoop_contents rest (by omega) (by omega) (by omega) (by omega) ?_)
      rw [hstartEq]
  exact Prod.ext hends.run.1 hends.run.2

/-! ### Writing -/

/-- The disk `D'` is `D` with other bytes in a file, from the position `start` on. -/
structure Overwritten (D : Disk) (inode : Block) (start written : ℕ) (buffer : ℕ → UInt8)
    (D' : Disk) : Prop where
  bytes : ∀ x < 512 * dataCount inode, byteAt D' inode x =
    if start ≤ x ∧ x < start + written then buffer (x - start) else byteAt D inode x
  frame : ∀ b, b ∉ dataBlocks inode → D' b = D b

section Write

variable {start written k p m : ℕ} {buffer : ℕ → UInt8}

lemma Overwritten.refl (D : Disk) (inode : Block) (start : ℕ) (buffer : ℕ → UInt8) :
    Overwritten D inode start 0 buffer D :=
  ⟨fun _ _ => (if_neg (by omega)).symm, fun _ _ => rfl⟩

/-- Different slots have different blocks. -/
lemma slot_injective (hnodup : (dataBlocks inode).Nodup) {j : ℕ} (hj : j < dataCount inode)
    (hk : k < dataCount inode)
    (heq : (inodeBlock inode j).toNat = (inodeBlock inode k).toNat) : j = k :=
  List.inj_on_of_nodup_map hnodup (List.mem_range.mpr hj) (List.mem_range.mpr hk) heq

/-- A block is written with bytes that follow those that were written before. -/
lemma Overwritten.write (h : Overwritten D inode start written buffer D')
    (hnodup : (dataBlocks inode).Nodup) (hk : k < dataCount inode)
    (hpos : 512 * k + p = start + written) (hm : p + m ≤ 512) {block : Block}
    (hblock : ∀ y < 512, block y = if p ≤ y ∧ y < p + m then buffer (written + (y - p))
      else D' (inodeBlock inode k).toNat y) :
    Overwritten D inode start (written + m) buffer
      (Function.update D' (inodeBlock inode k).toNat block) := by
  refine ⟨fun x hx => ?_, fun b hb => ?_⟩
  · obtain ⟨j, y, hy, rfl⟩ : ∃ j y, y < 512 ∧ x = 512 * j + y :=
      ⟨x / 512, x % 512, Nat.mod_lt _ (by decide), (Nat.div_add_mod x 512).symm⟩
    have hold := h.bytes (512 * j + y) hx
    rw [byteAt_block _ _ _ hy] at hold ⊢
    by_cases hjk : j = k
    · subst hjk
      rw [Function.update_self, hblock y hy]
      by_cases hin : p ≤ y ∧ y < p + m
      · have hoffset : written + (y - p) = 512 * j + y - start := by omega
        rw [if_pos hin, if_pos (by omega), hoffset]
      · rw [if_neg hin, hold]
        by_cases hbefore : start ≤ 512 * j + y ∧ 512 * j + y < start + written
        · rw [if_pos hbefore, if_pos (by omega)]
        · rw [if_neg hbefore, if_neg (by omega)]
    · have hne : (inodeBlock inode j).toNat ≠ (inodeBlock inode k).toNat := fun heq =>
        hjk (slot_injective hnodup (by omega) hk heq)
      rw [Function.update_of_ne hne, hold]
      by_cases hbefore : start ≤ 512 * j + y ∧ 512 * j + y < start + written
      · rw [if_pos hbefore, if_pos (by omega)]
      · rw [if_neg hbefore, if_neg (by omega)]
  · have hne : b ≠ (inodeBlock inode k).toNat := by
      rintro rfl
      exact hb (List.mem_map_of_mem (List.mem_range.mpr hk))
    rw [Function.update_of_ne hne, h.frame b hb]

/-- The new contents of the file. -/
lemma Overwritten.contents_eq (h : Overwritten D inode start written buffer D')
    (hroom : start + written ≤ (filesize inode).toNat) :
    contents D' inode = splice (contents D inode) start ((List.range written).map buffer) := by
  have hlength : ∀ D, (contents D inode).length = (filesize inode).toNat := fun D => by
    rw [contents, List.length_map, List.length_range]
  have htake : ((contents D inode).take start).length = start := by
    rw [List.length_take, hlength]
    omega
  have hbytes : ((List.range written).map buffer).length = written := by
    rw [List.length_map, List.length_range]
  refine List.ext_getElem ?_ fun x hx hx' => ?_
  · rw [splice, List.length_append, List.length_append, htake, hbytes, List.length_drop, hlength,
      hlength]
    omega
  · rw [hlength] at hx
    have hslot := slot_lt_dataCount hx
    rw [tfsBlockSize] at hslot
    have hbyte := h.bytes x (by omega)
    simp only [splice, contents, List.getElem_map, List.getElem_range, List.append_assoc,
      hbytes] at htake ⊢
    rw [hbyte]
    by_cases hbefore : x < start
    · rw [if_neg (by omega), List.getElem_append_left (by omega)]
      simp only [List.getElem_take, List.getElem_map, List.getElem_range]
    · rw [List.getElem_append_right (by omega)]
      by_cases hin : x < start + written
      · rw [if_pos (by omega), List.getElem_append_left (by omega)]
        simp only [List.getElem_map, List.getElem_range, htake]
      · rw [if_neg (by omega), List.getElem_append_right (by omega)]
        simp only [List.getElem_drop, List.getElem_map, List.getElem_range, htake, hbytes]
        congr 1
        omega

/-- A block that is not written as a whole is read first. -/
lemma readIf_contents {c : Prop} [Decidable c] (block : ℕ) (bat : Block) (pos : ℕ) (D : Disk) :
    Request.Ends (fun _ => true) (if c then readBlock block else return some bat) pos D
      fun r _ D' => D' = D ∧ ∃ bat', r = some bat' ∧ (c → bat' = D block) := by
  by_cases hc : c
  · rw [if_pos hc]
    exact Request.ends_readCell_true ⟨rfl, _, rfl, fun _ => rfl⟩
  · rw [if_neg hc]
    exact Request.ends_pure ⟨rfl, bat, rfl, fun h => absurd h hc⟩

/-- What `memcopy` leaves in a block that is then written. -/
lemma memcopy_eq {bat old : Block} (source : ℕ → UInt8) (hold : m < 512 → bat = old)
    (hm : p + m ≤ 512) (y : ℕ) (hy : y < 512) :
    memcopy m bat p source y = if p ≤ y ∧ y < p + m then source (y - p) else old y := by
  rw [memcopy]
  by_cases hin : p ≤ y ∧ y < p + m
  · rw [if_pos hin, if_pos hin]
  · rw [if_neg hin, if_neg hin, hold (by omega)]

/-- The loop of `tfs_write` copies the bytes to the blocks after the first one. -/
lemma tfsWriteLoop_contents (hcount : dataCount inode ≤ tfsBlocksMax)
    (hnodup : (dataBlocks inode).Nodup) (rest : ℕ → UInt32) {b2 datasize n b1 pos : ℕ}
    {bat : Block} (hslot : b2 < dataCount inode) (hn : b1 + n = b2 + 1)
    (hlast : 512 * b2 < start + datasize ∧ start + datasize ≤ 512 * (b2 + 1))
    (hwritten : start + written = min (512 * b1) (start + datasize))
    (h : Overwritten D inode start written buffer D') :
    (tfsWriteLoop inode rest buffer b2 datasize n b1 written bat).Ends (fun _ => true) pos D'
      fun r _ D' => r = ↑datasize ∧ Overwritten D inode start datasize buffer D' := by
  induction n generalizing b1 written bat pos D' with
  | zero =>
    have hall : written = datasize := by omega
    rw [tfsWriteLoop]
    exact Request.ends_pure ⟨by rw [hall], hall ▸ h⟩
  | succ n ih =>
    have hpos : 512 * b1 + 0 = start + written := by omega
    have hblock : ∀ bat, blockNumber inode bat rest b1 = (inodeBlock inode b1).toNat :=
      fun _ => if_pos (by omega)
    rw [tfsWriteLoop, hblock]
    refine Request.ends_bind ((readIf_contents _ _ _ _).mono fun r _ D₁ hread => ?_)
    obtain ⟨rfl, bat', rfl, hbat⟩ := hread
    obtain ⟨count, hcountEq⟩ : ∃ count,
        (if b1 = b2 then datasize - written else tfsBlockSize) = count := ⟨_, rfl⟩
    have hcountNat : count = if b1 = b2 then datasize - written else 512 := hcountEq.symm
    have hm : 0 + count ≤ 512 := by
      split_ifs at hcountNat
      all_goals omega
    have hold : count < 512 → bat' = D₁ (inodeBlock inode b1).toNat := by
      intro hlt
      by_cases hb : b1 = b2
      · rw [if_pos hb] at hcountNat
        exact hbat ⟨hb, hcountNat ▸ hlt⟩
      · rw [if_neg hb] at hcountNat
        omega
    have hnext := h.write hnodup (by omega) hpos hm
      (memcopy_eq (fun x => buffer (written + x)) hold hm)
    dsimp only
    rw [hblock, hcountEq]
    refine Request.ends_bind (Request.ends_writeCell_true ?_)
    refine ih (by omega) ?_ hnext
    split_ifs at hcountNat
    all_goals omega

/-- `tfs_write` copies as many bytes as there is room for from the position on. -/
lemma tfsWrite_contents {number : ℕ} (hinode : D number = inode)
    (hcount : dataCount inode ≤ tfsBlocksMax) (hnodup : (dataBlocks inode).Nodup)
    (hnumber : 3 ≤ number ∧ number < totalblocks) (bat : Block) (rest : ℕ → UInt32)
    (buffer : ℕ → UInt8) (datasize : ℕ) (hstart : start ≤ (filesize inode).toNat) :
    (tfsWrite totalblocks bat rest number buffer datasize start).Ends (fun _ => true) 0 D
      fun r _ D' => r = ↑(min datasize ((filesize inode).toNat - start)) ∧
        Overwritten D inode start (min datasize ((filesize inode).toNat - start)) buffer D' := by
  have h127 : tfsBlocksMax = 127 := rfl
  have hsizeLe := filesize_le hcount
  have hsize := filesize_toInt hcount
  obtain ⟨count, hcountEq⟩ : ∃ count, min datasize ((filesize inode).toNat - start) = count :=
    ⟨_, rfl⟩
  have hroom : start + count ≤ (filesize inode).toNat := by omega
  rw [hcountEq]
  rw [tfsWrite, if_neg (by omega)]
  refine Request.ends_bind (Request.ends_readCell_true ?_)
  dsimp only
  rw [Int.toNat_natCast, hinode, hsize, if_neg (by omega), Int.toNat_sub, Int.toNat_natCast,
    hcountEq]
  by_cases hzero : count = 0
  · rw [if_pos hzero, hzero]
    exact Request.ends_pure ⟨rfl, Overwritten.refl D inode start buffer⟩
  · have hlast : (start + count - 1) / tfsBlockSize < dataCount inode :=
      slot_lt_dataCount (by omega)
    rw [tfsBlockSize] at hlast
    have hfirst : ∀ bat, blockNumber inode bat rest (start / tfsBlockSize) =
        (inodeBlock inode (start / tfsBlockSize)).toNat :=
      fun _ => if_pos (by rw [tfsBlockSize]; omega)
    obtain ⟨m, hm⟩ : ∃ m, min (tfsBlockSize - start % tfsBlockSize) count = m := ⟨_, rfl⟩
    rw [if_neg hzero, hfirst, hm]
    rw [tfsBlockSize] at hm
    refine Request.ends_bind ((readIf_contents _ _ _ _).mono fun r _ D₁ hread => ?_)
    obtain ⟨rfl, bat', rfl, hbat⟩ := hread
    have hnext := (Overwritten.refl D₁ inode start buffer).write hnodup (k := start / 512)
      (p := start % 512) (m := m) (by omega) (by omega) (by omega)
      (memcopy_eq (fun x => buffer (0 + x)) hbat (by omega))
    simp only [Nat.zero_add] at hnext
    dsimp only
    rw [hfirst]
    refine Request.ends_bind (Request.ends_writeCell_true ?_)
    exact tfsWriteLoop_contents hcount hnodup rest hlast (by rw [tfsBlockSize]; omega)
      (by rw [tfsBlockSize]; omega) (by rw [tfsBlockSize]; omega) hnext

end Write

end Osm.Fs
