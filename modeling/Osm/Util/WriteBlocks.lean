import Osm.Util.Image

/-!
# The blocks that the host writes

The loop of `tfstool_write` over the blocks of a file. It takes free blocks only, so that what is in
use stays as it was, and after each round the bytes that have been read are in the blocks of the new
inode.
-/

namespace Osm.Util

open Osm.Core Osm.Lib Osm.Fs

/-- After `i` rounds on the disk `D` for the bytes `s`, with the inode in the block `number`. -/
structure Filling (numBlocks : ℕ) (D : Disk) (s : List UInt8) (number i : ℕ) (st : WriteState) :
    Prop where
  allocated : Allocated numBlocks (D tfsAllocationBlock) st.bat (number :: firstBlocks st.inode i)
  slots     : ∀ k < tfsBlocksMax, inodeBlock st.inode k ≠ 0 ↔ k < i
  count     : i ≤ tfsBlocksMax
  spare     : 512 * i ≤ s.length + 512
  disk      : ∀ b, b ∉ firstBlocks st.inode i → st.disk b = D b
  bytes     : ∀ x < min (512 * i) s.length, byteAt st.disk st.inode x = s.getD x 0
  size      : st.filesize.toNat = min (512 * i) s.length

/-- The loop goes on: not all bytes have been read, or the end has not been met yet. -/
structure Going (s : List UInt8) (i : ℕ) (st : WriteState) : Prop where
  source : st.source = ⟨s.drop (512 * i), false⟩
  room   : 512 * i ≤ s.length

/-- `bitmap_findnset` finds a block that a file can have. -/
abbrev FindsBlock (order : ByteOrder) (numBlocks : ℕ) (bat : Block) : Prop :=
  2 < (UInt32.ofInt (hostBitmapFindnset order bat numBlocks).2).toNat ∧
    (UInt32.ofInt (hostBitmapFindnset order bat numBlocks).2).toNat < numBlocks

variable {order : ByteOrder} {numBlocks : ℕ} {D : Disk} {s : List UInt8} {number i : ℕ}
  {st : WriteState}

/-! ### One round -/

lemma toNat_ofInt_natCast {b : ℕ} (hb : b < 2 ^ 32) : (UInt32.ofInt (b : ℤ)).toNat = b := by
  have hmod : ((b : ℤ) % 2 ^ 32).toNat = b := by omega
  rw [UInt32.ofInt, hmod]
  exact UInt32.toNat_ofNat_of_lt' hb

/-- `bitmap_findnset` of the host finds the block that the one of the kernel finds. -/
lemma hostBitmapFindnset_of_some {bat bat' : Block} {b : ℕ} (hN : numBlocks ≤ 4096)
    (hfind : bitmapFindnset bat numBlocks = some (bat', b)) :
    (hostBitmapFindnset order bat numBlocks).1 = bat' ∧
      (UInt32.ofInt (hostBitmapFindnset order bat numBlocks).2).toNat = b := by
  have hb := (bitmapFindnset_spec hfind).1
  rw [hostBitmapFindnset_eq, hfind]
  exact ⟨rfl, toNat_ofInt_natCast (by omega)⟩

/-- `bitmap_findnset` of the host finds a block of the image, if it is one. -/
lemma hostBitmapFindnset_some {bat : Block} (hN : numBlocks ≤ 4096)
    (hlt : (UInt32.ofInt (hostBitmapFindnset order bat numBlocks).2).toNat < numBlocks) :
    bitmapFindnset bat numBlocks = some ((hostBitmapFindnset order bat numBlocks).1,
      (UInt32.ofInt (hostBitmapFindnset order bat numBlocks).2).toNat) := by
  cases hfind : bitmapFindnset bat numBlocks with
  | none =>
    rw [hostBitmapFindnset_eq, hfind] at hlt
    have hbig : (UInt32.ofInt (-1)).toNat = 4294967295 := by decide
    change (UInt32.ofInt (-1)).toNat < numBlocks at hlt
    omega
  | some found =>
    obtain ⟨bat', b⟩ := found
    obtain ⟨hbat, hnat⟩ := @hostBitmapFindnset_of_some order _ _ _ _ hN hfind
    rw [hbat, hnat]

/-- The inode after a round. -/
lemma inode_writeRound (order : ByteOrder) (i b : ℕ) (bat : Block) (st : WriteState) :
    (writeRound order i b bat st).inode = setInodeBlock st.inode i (UInt32.ofNat b) :=
  hostWrite_ntohl ..

/-- A round appends a block to those of the inode. -/
lemma firstBlocks_setInodeBlock {inode : Block} {b : ℕ} (hb : b < 2 ^ 32) :
    firstBlocks (setInodeBlock inode i (UInt32.ofNat b)) (i + 1) = firstBlocks inode i ++ [b] := by
  have hfirst : firstBlocks (setInodeBlock inode i (UInt32.ofNat b)) i = firstBlocks inode i := by
    refine firstBlocks_congr fun k hk => ?_
    rw [inodeBlock_setInodeBlock, if_neg (Nat.ne_of_lt hk)]
  rw [firstBlocks_succ, hfirst, inodeBlock_setInodeBlock, if_pos rfl, UInt32.toNat_ofNat_of_lt' hb]

namespace Filling

lemma fresh (h : Filling numBlocks D s number i st) {b : ℕ} (hb : b ∈ firstBlocks st.inode i) :
    b < numBlocks ∧ bitmapGet (D tfsAllocationBlock) b = 0 :=
  h.allocated.fresh b (List.mem_cons_of_mem _ hb)

/-- The loop leaves the blocks that are in use alone. -/
lemma disk_of_marked (h : Filling numBlocks D s number i st) {b : ℕ}
    (hb : bitmapGet (D tfsAllocationBlock) b = 1) : st.disk b = D b := by
  refine h.disk b fun hmem => ?_
  have hzero := (h.fresh hmem).2
  rw [hb] at hzero
  cases hzero

lemma round (order : ByteOrder) (h : Filling numBlocks D s number i st) (hgoing : Going s i st)
    {bat : Block} {b : ℕ} (hfind : bitmapFindnset st.bat numBlocks = some (bat, b)) (hb : 2 < b)
    (hN : numBlocks ≤ 4096) (hmore : i < tfsBlocksMax) :
    Filling numBlocks D s number (i + 1) (writeRound order i b bat st) := by
  have hlt := (bitmapFindnset_spec hfind).1
  have hbig : b < 2 ^ 32 := by omega
  have hnat : (UInt32.ofNat b).toNat = b := UInt32.toNat_ofNat_of_lt' hbig
  have hinode := inode_writeRound order i b bat st
  have hfirst := @firstBlocks_setInodeBlock i st.inode b hbig
  have hallocated := h.allocated.findnset hfind
  rw [List.cons_append, ← hfirst, ← hinode] at hallocated
  have hnew : b ∉ firstBlocks st.inode i := by
    have hnodup := (List.nodup_cons.mp hallocated.nodup).2
    rw [hinode, hfirst, List.nodup_append'] at hnodup
    exact fun hmem => hnodup.2.2 hmem (List.mem_singleton_self b)
  have hsource := hgoing.source
  have hroom := hgoing.room
  refine ⟨hallocated, fun k hk => ?_, hmore, ?_, fun c hc => ?_, fun x hx => ?_, ?_⟩
  · rw [hinode, inodeBlock_setInodeBlock]
    by_cases hki : k = i
    · rw [if_pos hki]
      refine iff_of_true (fun hzero => ?_) (by omega)
      rw [hzero, UInt32.toNat_zero] at hnat
      omega
    · rw [if_neg hki, h.slots k hk]
      omega
  · omega
  · rw [hinode, hfirst, List.mem_append, not_or, List.mem_singleton] at hc
    exact (Function.update_of_ne hc.2 _ _).trans (h.disk c hc.1)
  · have hdata : ∀ y < 512, (writeRound order i b bat st).data y =
        (s.drop (512 * i)).getD y (st.data y) := by
      intro y hy
      change (if y < tfsBlockSize then st.source.rest.getD y (st.data y) else st.data y) = _
      rw [hsource]
      exact if_pos hy
    have hdisk : (writeRound order i b bat st).disk b = (writeRound order i b bat st).data :=
      Function.update_self ..
    obtain ⟨k, y, hy, rfl⟩ : ∃ k y, y < 512 ∧ x = 512 * k + y :=
      ⟨x / 512, x % 512, Nat.mod_lt _ (by decide), (Nat.div_add_mod x 512).symm⟩
    rw [byteAt_block _ _ _ hy, hinode, inodeBlock_setInodeBlock]
    by_cases hki : k = i
    · rw [if_pos hki, hnat, hdisk, hdata y hy, hki, List.getD_eq_getElem _ _ (by simp; omega),
        List.getElem_drop, List.getD_eq_getElem]
    · have hk : k < i := by omega
      have hmem : (inodeBlock st.inode k).toNat ∈ firstBlocks st.inode i :=
        List.mem_map_of_mem (List.mem_range.mpr hk)
      have hne : (inodeBlock st.inode k).toNat ≠ b := fun heq => hnew (heq ▸ hmem)
      have hold := h.bytes (512 * k + y) (by omega)
      rw [byteAt_block _ _ _ hy] at hold
      rw [if_neg hki, ← hold]
      exact congrFun (Function.update_of_ne hne _ _) y
  · change (st.filesize + UInt32.ofNat (min tfsBlockSize st.source.rest.length)).toNat = _
    have hsize := h.size
    have h127 : tfsBlocksMax = 127 := rfl
    rw [hsource, List.length_drop, tfsBlockSize, UInt32.toNat_add,
      UInt32.toNat_ofNat_of_lt' (by rw [UInt32.size]; omega), Nat.mod_eq_of_lt (by omega)]
    omega

end Filling

/-- What is left of the file of the host after a round, and whether its end has been met. -/
lemma Going.source_writeRound (h : Going s i st) (order : ByteOrder) (b : ℕ) (bat : Block) :
    (writeRound order i b bat st).source =
      ⟨s.drop (512 * (i + 1)), decide (s.length < 512 * (i + 1))⟩ := by
  have hroom := h.room
  have hdecide : decide (s.length - 512 * i < 512) = decide (s.length < 512 * (i + 1)) :=
    decide_eq_decide.mpr (by omega)
  change (⟨st.source.rest.drop tfsBlockSize,
    st.source.eof || decide (st.source.rest.length < tfsBlockSize)⟩ : HostFile) = _
  rw [h.source, Bool.false_or, tfsBlockSize, List.drop_drop, List.length_drop, hdecide]
  rfl

/-! ### The loop -/

/-- While the file has not the greatest size, there is a slot for another block. -/
lemma Filling.lt_blocksMax (h : Filling numBlocks D s number i st) (hgoing : Going s i st)
    (hmore : st.filesize < tfsMaxFilesize) : i < tfsBlocksMax := by
  have hsize := h.size
  have hroom := hgoing.room
  have hlt : st.filesize.toNat < 65024 := UInt32.lt_iff_toNat_lt.mp hmore
  have h127 : tfsBlocksMax = 127 := rfl
  omega

/-- A round of the loop: the file has the greatest size, no block is found, or a block is written,
with which the loop ends if the end of the file has been met. -/
lemma writeBlocks_cases (hN : numBlocks ≤ 4096) (h : Filling numBlocks D s number i st)
    (hgoing : Going s i st) (n : ℕ) :
    (¬st.filesize < tfsMaxFilesize ∧ writeBlocks order numBlocks (n + 1) i st = (st, true)) ∨
    (i < tfsBlocksMax ∧ ¬FindsBlock order numBlocks st.bat ∧
      writeBlocks order numBlocks (n + 1) i st =
        ({ st with bat := (hostBitmapFindnset order st.bat numBlocks).1 }, false)) ∨
    (i < tfsBlocksMax ∧ ∃ next, Filling numBlocks D s number (i + 1) next ∧
      ((s.length < 512 * (i + 1) ∧ writeBlocks order numBlocks (n + 1) i st = (next, true)) ∨
        (Going s (i + 1) next ∧ writeBlocks order numBlocks (n + 1) i st =
          writeBlocks order numBlocks n (i + 1) next))) := by
  simp only [writeBlocks]
  by_cases hfull : ¬st.filesize < tfsMaxFilesize
  · rw [if_pos hfull]
    exact .inl ⟨hfull, rfl⟩
  right
  rw [if_neg hfull]
  have hmore := h.lt_blocksMax hgoing (not_not.mp hfull)
  by_cases hfound : FindsBlock order numBlocks st.bat
  · right
    have hround := h.round order hgoing (hostBitmapFindnset_some hN hfound.2) hfound.1 hN hmore
    have hsource := hgoing.source_writeRound order
      (UInt32.ofInt (hostBitmapFindnset order st.bat numBlocks).2).toNat
      (hostBitmapFindnset order st.bat numBlocks).1
    rw [if_pos hfound]
    refine ⟨hmore, _, hround, ?_⟩
    by_cases heof : s.length < 512 * (i + 1)
    · rw [hsource, if_pos (decide_eq_true heof)]
      exact .inl ⟨heof, rfl⟩
    · rw [hsource, if_neg (by simpa using heof)]
      rw [decide_eq_false heof] at hsource
      exact .inr ⟨⟨hsource, not_lt.mp heof⟩, rfl⟩
  · left
    rw [if_neg hfound]
    exact ⟨hmore, hfound, rfl⟩

/-- The loop leaves the blocks that are in use alone, and what has been read is in the blocks of the
new inode unless there was no free block. -/
lemma writeBlocks_filling (hN : numBlocks ≤ 4096) {n : ℕ} (h : Filling numBlocks D s number i st)
    (hgoing : Going s i st) :
    (∀ b, bitmapGet (D tfsAllocationBlock) b = 1 →
      (writeBlocks order numBlocks n i st).1.disk b = D b) ∧
    ((writeBlocks order numBlocks n i st).2 = true →
      ∃ j, Filling numBlocks D s number j (writeBlocks order numBlocks n i st).1) := by
  induction n generalizing i st with
  | zero => exact ⟨fun b hb => h.disk_of_marked hb, fun _ => ⟨i, h⟩⟩
  | succ n ih =>
    rcases @writeBlocks_cases order _ _ _ _ _ _ hN h hgoing n with
      ⟨-, hloop⟩ | ⟨-, -, hloop⟩ | ⟨-, next, hnext, ⟨-, hloop⟩ | ⟨hgo, hloop⟩⟩
    · rw [hloop]
      exact ⟨fun b hb => h.disk_of_marked hb, fun _ => ⟨i, h⟩⟩
    · rw [hloop]
      exact ⟨fun b hb => h.disk_of_marked hb, fun hok => nomatch hok⟩
    · rw [hloop]
      exact ⟨fun b hb => hnext.disk_of_marked hb, fun _ => ⟨i + 1, hnext⟩⟩
    · rw [hloop]
      exact ih hnext hgo

end Osm.Util
