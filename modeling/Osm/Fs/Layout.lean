import Osm.Fs.Tfs
import Osm.Fs.Volume
import Mathlib.Data.List.Nodup

/-!
# The buffers of the trivial filesystem

What the loops and assignments of `fs/tfs.c` do to a directory, an inode and an allocation block.
-/

namespace Osm.Fs

open Osm.Core Osm.Lib

/-- A name that the virtual filesystem passes on: not empty, and short enough for an entry. -/
structure ValidName (filename : List UInt8) : Prop where
  nonempty : filename ≠ []
  noNul    : 0 ∉ filename
  short    : filename.length < tfsFilenameMax

/-! ### Directory entries -/

section Directory

variable {md md' : Block} {filename : List UInt8} {i j : ℕ}

lemma entryInode_congr (h : ∀ x, 20 * i ≤ x → x < 20 * i + 20 → md' x = md x) :
    entryInode md' i = entryInode md i :=
  Memory.readWord_congr fun x h₁ h₂ => h x h₁ (lt_of_lt_of_le h₂ (by simp [sizeofDirentry, tfsFilenameMax]))

lemma entryName_congr (h : ∀ x, 20 * i ≤ x → x < 20 * i + 20 → md' x = md x) :
    entryName md' i = entryName md i := by
  refine stringAt_congr fun x h₁ h₂ => h x ?_ ?_
  all_goals
    simp only [entryNameAddr, sizeofDirentry, tfsFilenameMax] at h₁ h₂
    omega

lemma stringcmp_entry (hname : ValidName filename) :
    stringcmp md (entryNameAddr i) filename = 0 ↔ entryName md i = filename :=
  stringcmp_eq_zero_iff hname.noNul hname.short

lemma findEntry_eq_some (hname : ValidName filename) (h : findEntry md filename = some i) :
    i < tfsMaxFiles ∧ entryName md i = filename := by
  have hmem := List.mem_of_find?_eq_some h
  have hcmp := List.find?_some h
  exact ⟨List.mem_range.mp hmem, (stringcmp_entry hname).mp (of_decide_eq_true hcmp)⟩

/-- The loop over the directory finds a free entry if no entry has the name. -/
lemma findFreeEntry_spec (hname : ValidName filename) {n : ℕ} {index : Option ℕ}
    (h : findFreeEntry md filename n = some index) :
    (∀ i < n, entryName md i ≠ filename) ∧ ∀ i ∈ index, i < n ∧ entryInode md i = 0 := by
  induction n generalizing index with
  | zero =>
    obtain rfl := Option.some.inj h
    simp
  | succ n ih =>
    simp only [findFreeEntry, Option.bind_eq_bind, Option.bind_eq_some_iff] at h
    obtain ⟨index', hrec, hstep⟩ := h
    obtain ⟨hnames, hfree⟩ := ih hrec
    by_cases hcmp : stringcmp md (entryNameAddr n) filename = 0
    · rw [if_pos hcmp] at hstep
      cases hstep
    · rw [if_neg hcmp] at hstep
      have hn : entryName md n ≠ filename := mt (stringcmp_entry hname).mpr hcmp
      refine ⟨fun i hi => ?_, ?_⟩
      · rcases Nat.lt_succ_iff_lt_or_eq.mp hi with hlt | rfl
        · exact hnames i hlt
        · exact hn
      · by_cases hzero : entryInode md n = 0
        · rw [if_pos hzero, Option.some.injEq] at hstep
          subst hstep
          rintro i ⟨⟩
          exact ⟨Nat.lt_succ_self _, hzero⟩
        · rw [if_neg hzero, Option.some.injEq] at hstep
          subst hstep
          exact fun i hi => ⟨Nat.lt_succ_of_lt (hfree i hi).1, (hfree i hi).2⟩

/-- The directory with a new entry. -/
def addEntry (md : Block) (index : ℕ) (filename : List UInt8) (inode : UInt32) : Block :=
  setEntryInode (stringcopy md (entryNameAddr index) filename tfsFilenameMax) index inode

/-- The directory without an entry. -/
def dropEntry (md : Block) (index : ℕ) : Block :=
  Function.update (setEntryInode md index 0) (entryNameAddr index) 0

variable {index : ℕ} {inode : UInt32}

lemma addEntry_of_ne {x : ℕ} (hx : x < 20 * index ∨ 20 * index + 20 ≤ x) :
    addEntry md index filename inode x = md x := by
  rw [addEntry, setEntryInode, Memory.writeWord_of_outside, stringcopy_of_outside (by decide)]
  all_goals
    simp only [entryNameAddr, sizeofDirentry, tfsFilenameMax]
    omega

lemma entryInode_addEntry_of_ne (h : i ≠ index) :
    entryInode (addEntry md index filename inode) i = entryInode md i :=
  entryInode_congr fun x _ _ => addEntry_of_ne (by omega)

lemma entryName_addEntry_of_ne (h : i ≠ index) :
    entryName (addEntry md index filename inode) i = entryName md i :=
  entryName_congr fun x _ _ => addEntry_of_ne (by omega)

@[simp] lemma entryInode_addEntry : entryInode (addEntry md index filename inode) index = inode :=
  Memory.readWord_writeWord_self _ _ _

lemma entryName_addEntry (hname : ValidName filename) :
    entryName (addEntry md index filename inode) index = filename := by
  have hsame : ∀ x, entryNameAddr index ≤ x → x < entryNameAddr index + tfsFilenameMax →
      addEntry md index filename inode x =
        stringcopy md (entryNameAddr index) filename tfsFilenameMax x := by
    intro x h₁ _
    exact Memory.writeWord_of_outside (Or.inr h₁)
  rw [entryName, stringAt_congr hsame]
  exact stringAt_stringcopy hname.noNul hname.short

lemma dropEntry_of_ne {x : ℕ} (hx : x < 20 * index ∨ 20 * index + 20 ≤ x) :
    dropEntry md index x = md x := by
  rw [dropEntry, Function.update_of_ne, setEntryInode, Memory.writeWord_of_outside]
  all_goals
    simp only [entryNameAddr, sizeofDirentry, tfsFilenameMax]
    omega

lemma entryInode_dropEntry_of_ne (h : i ≠ index) :
    entryInode (dropEntry md index) i = entryInode md i :=
  entryInode_congr fun x _ _ => dropEntry_of_ne (by omega)

lemma entryName_dropEntry_of_ne (h : i ≠ index) :
    entryName (dropEntry md index) i = entryName md i :=
  entryName_congr fun x _ _ => dropEntry_of_ne (by omega)

@[simp] lemma entryInode_dropEntry : entryInode (dropEntry md index) index = 0 := by
  have hsame : entryInode (dropEntry md index) index = entryInode (setEntryInode md index 0) index := by
    refine Memory.readWord_congr fun x _ h₂ => Function.update_of_ne ?_ _ _
    exact Nat.ne_of_lt h₂
  rw [hsame]
  exact Memory.readWord_writeWord_self _ _ _

@[simp] lemma entryName_dropEntry : entryName (dropEntry md index) index = [] := by
  rw [entryName, tfsFilenameMax, stringAt, if_pos (by simp [dropEntry])]

/-- The second directory is the first one with a new name in an entry. -/
structure NewEntry (md md' : Block) (index : ℕ) (filename : List UInt8) (inode : UInt32) : Prop where
  inode : entryInode md' index = inode
  name  : entryName md' index = filename
  other : ∀ x, x < 20 * index ∨ 20 * index + 20 ≤ x → md' x = md x

namespace NewEntry

lemma entryInode_of_ne (h : NewEntry md md' index filename inode) (hi : i ≠ index) :
    entryInode md' i = entryInode md i :=
  entryInode_congr fun x _ _ => h.other x (by omega)

lemma entryName_of_ne (h : NewEntry md md' index filename inode) (hi : i ≠ index) :
    entryName md' i = entryName md i :=
  entryName_congr fun x _ _ => h.other x (by omega)

/-- A directory stays in order with a new name. -/
lemma directoryOk (h : NewEntry md md' index filename inode) (hok : DirectoryOk md)
    (hname : ValidName filename) (hnew : ∀ i < tfsMaxFiles, entryName md i ≠ filename)
    (hinode : inode ≠ 0) : DirectoryOk md' := by
  have hother : ∀ i, i ≠ index → i < tfsMaxFiles → entryName md' i ≠ filename := by
    intro i hi hlt
    rw [h.entryName_of_ne hi]
    exact hnew i hlt
  refine ⟨fun i hi hused => ?_, fun i hi j hj hused hused' heq => ?_, fun i hi hfree => ?_⟩
  · by_cases hindex : i = index
    · rw [hindex, h.name]
      exact hname.nonempty
    · rw [h.entryInode_of_ne hindex] at hused
      rw [h.entryName_of_ne hindex]
      exact hok.nonempty i hi hused
  · by_cases hindex : i = index
    · by_contra hij
      rw [hindex, h.name] at heq
      exact hother j (fun hj' => hij (hindex.trans hj'.symm)) hj heq.symm
    · by_cases hindex' : j = index
      · rw [hindex', h.name] at heq
        exact absurd heq (hother i hindex hi)
      · rw [h.entryInode_of_ne hindex] at hused
        rw [h.entryInode_of_ne hindex'] at hused'
        rw [h.entryName_of_ne hindex, h.entryName_of_ne hindex'] at heq
        exact hok.distinct i hi j hj hused hused' heq
  · by_cases hindex : i = index
    · rw [hindex, h.inode] at hfree
      exact absurd hfree hinode
    · rw [h.entryInode_of_ne hindex] at hfree
      rw [h.entryName_of_ne hindex]
      exact hok.free i hi hfree

end NewEntry

lemma newEntry_addEntry (hname : ValidName filename) :
    NewEntry md (addEntry md index filename inode) index filename inode where
  inode := entryInode_addEntry
  name := entryName_addEntry hname
  other _ hx := addEntry_of_ne hx

/-- A directory stays in order with a new name in a free entry. -/
lemma DirectoryOk.addEntry (h : DirectoryOk md) (hname : ValidName filename)
    (hnew : ∀ i < tfsMaxFiles, entryName md i ≠ filename) (hinode : inode ≠ 0) :
    DirectoryOk (addEntry md index filename inode) :=
  (newEntry_addEntry hname).directoryOk h hname hnew hinode

/-- A directory stays in order without an entry. -/
lemma DirectoryOk.dropEntry (h : DirectoryOk md) : DirectoryOk (dropEntry md index) := by
  have hne : ∀ i, entryInode (Fs.dropEntry md index) i ≠ 0 → i ≠ index := by
    rintro i hused rfl
    exact hused entryInode_dropEntry
  refine ⟨fun i hi hused => ?_, fun i hi j hj hused hused' heq => ?_, fun i hi hfree => ?_⟩
  · have hindex := hne i hused
    rw [entryInode_dropEntry_of_ne hindex] at hused
    rw [entryName_dropEntry_of_ne hindex]
    exact h.nonempty i hi hused
  · have hindex := hne i hused
    have hindex' := hne j hused'
    rw [entryInode_dropEntry_of_ne hindex] at hused
    rw [entryInode_dropEntry_of_ne hindex'] at hused'
    rw [entryName_dropEntry_of_ne hindex, entryName_dropEntry_of_ne hindex'] at heq
    exact h.distinct i hi j hj hused hused' heq
  · by_cases hindex : i = index
    · rw [hindex, entryName_dropEntry]
    · rw [entryInode_dropEntry_of_ne hindex] at hfree
      rw [entryName_dropEntry_of_ne hindex]
      exact h.free i hi hfree

/-- The only entry with the name of a file is its own. -/
lemma DirectoryOk.entryName_eq_iff (h : DirectoryOk md) (hname : ValidName filename)
    (hindex : index < tfsMaxFiles) (hused : entryInode md index ≠ 0)
    (hself : entryName md index = filename) (hi : i < tfsMaxFiles) :
    entryName md i = filename ↔ i = index := by
  constructor
  · intro heq
    by_cases hfree : entryInode md i = 0
    · exact absurd ((h.free i hi hfree).symm.trans heq).symm hname.nonempty
    · exact h.distinct i hi index hindex hfree hused (heq.trans hself.symm)
  · rintro rfl
    exact hself

lemma find?_index {p : ℕ → Bool} (hindex : index < tfsMaxFiles)
    (hp : ∀ i < tfsMaxFiles, p i = true ↔ i = index) :
    (List.range tfsMaxFiles).find? p = some index := by
  refine List.find?_range_eq_some.mpr ⟨(hp index hindex).mpr rfl, List.mem_range.mpr hindex,
    fun i hi => ?_⟩
  have hne : ¬p i = true := fun hpi => Nat.ne_of_lt hi ((hp i (hi.trans hindex)).mp hpi)
  rw [Bool.not_eq_true] at hne
  rw [hne]
  rfl

lemma DirectoryOk.findEntry_eq (h : DirectoryOk md) (hname : ValidName filename)
    (hindex : index < tfsMaxFiles) (hused : entryInode md index ≠ 0)
    (hself : entryName md index = filename) : findEntry md filename = some index := by
  refine find?_index hindex fun i hi => ?_
  rw [decide_eq_true_eq, stringcmp_entry hname]
  exact h.entryName_eq_iff hname hindex hused hself hi

end Directory

/-! ### Sizes -/

/-- The cast `(int)` of a small number. -/
lemma toInt_of_lt {w : UInt32} (h : w.toNat < 2 ^ 31) : w.toBitVec.toInt = w.toNat := by
  refine BitVec.toInt_eq_toNat_of_lt ?_
  rw [UInt32.toNat_toBitVec]
  omega

/-- Only the sizes that fit in an inode pass the check of `tfs_create`. -/
lemma numBlocks_spec {size : ℤ} (hpos : 0 ≤ size) (hlt : size < 2 ^ 31)
    (hcount : numBlocks size ≤ tfsBlocksMax) :
    size ≤ 65024 ∧ numBlocks size = (size.toNat + 511) / 512 := by
  have hmax : tfsBlocksMax = 127 := rfl
  rw [hmax] at hcount
  by_cases hsmall : size + 512 - 1 < 2 ^ 31
  · have hmod : (size + 512 - 1).bmod (2 ^ 32) = size + 512 - 1 :=
      Int.bmod_eq_of_le (by omega) (by omega)
    have hdiv : (size + 512 - 1).tdiv 512 = (size + 512 - 1) / 512 :=
      Int.tdiv_eq_ediv_of_nonneg (by omega)
    rw [numBlocks, hmod, hdiv] at hcount ⊢
    omega
  · -- the sum wraps around and the number of blocks is close to `2 ^ 32`
    have hmod : (size + 512 - 1).bmod (2 ^ 32) = size + 512 - 1 - 2 ^ 32 := by
      have hsub := Int.sub_bmod_right (size + 512 - 1) (2 ^ 32)
      rw [← hsub]
      exact Int.bmod_eq_of_le (by omega) (by omega)
    have hdiv := Int.neg_tdiv (2 ^ 32 - (size + 512 - 1)) 512
    rw [numBlocks, hmod] at hcount
    have heq : size + 512 - 1 - 2 ^ 32 = -(2 ^ 32 - (size + 512 - 1)) := by omega
    rw [heq, hdiv, Int.tdiv_eq_ediv_of_nonneg (by omega)] at hcount
    omega

/-! ### Inodes -/

section Inode

variable {inode : Block} {size : ℤ}

lemma inodeBlock_setInodeBlock (inode : Block) (i k : ℕ) (block : UInt32) :
    inodeBlock (setInodeBlock inode i block) k = if k = i then block else inodeBlock inode k := by
  split
  · next h =>
    subst h
    exact Memory.readWord_writeWord_self _ _ _
  · next h => exact Memory.readWord_writeWord_of_ne (by omega)

@[simp] lemma filesize_setInodeBlock (inode : Block) (i : ℕ) (block : UInt32) :
    filesize (setInodeBlock inode i block) = filesize inode :=
  Memory.readWord_writeWord_of_ne (by omega)

lemma clearBlocks_spec (inode : Block) {n : ℕ} (hn : n ≤ tfsBlocksMax) :
    filesize (clearBlocks inode n) = filesize inode ∧ ∀ k < tfsBlocksMax,
      inodeBlock (clearBlocks inode n) k = if k < n then inodeBlock inode k else 0 := by
  obtain ⟨m, hm⟩ := Nat.exists_eq_add_of_le hn
  rw [clearBlocks, hm, Nat.add_sub_cancel_left]
  clear hm hn
  induction m generalizing inode n with
  | zero => exact ⟨rfl, fun k hk => by rw [if_pos (by omega)]; rfl⟩
  | succ m ih =>
    rw [List.range'_succ, List.foldl_cons]
    obtain ⟨hsize, hblocks⟩ := @ih (setInodeBlock inode n 0) (n + 1)
    refine ⟨by rw [hsize, filesize_setInodeBlock], fun k hk => ?_⟩
    rw [hblocks k (by omega), inodeBlock_setInodeBlock]
    by_cases hkn : k = n
    · rw [if_pos (by omega), if_pos hkn, if_neg (by omega)]
    · rw [if_neg hkn]
      by_cases hlt : k < n
      · rw [if_pos (by omega), if_pos hlt]
      · rw [if_neg (by omega), if_neg hlt]

end Inode

/-! ### The allocation block -/

/-- The second allocation block is the first one with some blocks marked that were not. -/
structure Allocated (totalblocks : ℕ) (bat bat' : Block) (bs : List ℕ) : Prop where
  nodup : bs.Nodup
  fresh : ∀ b ∈ bs, b < totalblocks ∧ bitmapGet bat b = 0
  get   : ∀ p, bitmapGet bat' p = if p ∈ bs then 1 else bitmapGet bat p

section Allocation

variable {totalblocks : ℕ} {bat bat₁ bat' inode inode' : Block} {bs : List ℕ}

lemma Allocated.nil (totalblocks : ℕ) (bat : Block) : Allocated totalblocks bat bat [] :=
  ⟨List.nodup_nil, by simp, by simp⟩

/-- `bitmap_findnset` marks one more block. -/
lemma Allocated.findnset {b : ℕ} (h : Allocated totalblocks bat bat₁ bs)
    (hfind : bitmapFindnset bat₁ totalblocks = some (bat', b)) :
    Allocated totalblocks bat bat' (bs ++ [b]) := by
  obtain ⟨hlt, hzero, rfl⟩ := bitmapFindnset_spec hfind
  have hnew : b ∉ bs := by
    intro hb
    rw [h.get, if_pos hb] at hzero
    cases hzero
  rw [h.get, if_neg hnew] at hzero
  refine ⟨?_, ?_, fun p => ?_⟩
  · exact List.nodup_append'.mpr ⟨h.nodup, List.nodup_singleton b, List.disjoint_singleton.mpr hnew⟩
  · intro c hc
    rcases List.mem_append.mp hc with hc | hc
    · exact h.fresh c hc
    · obtain rfl := List.mem_singleton.mp hc
      exact ⟨hlt, hzero⟩
  · rw [bitmapGet_bitmapSet, h.get]
    by_cases hp : p = b <;> simp [hp]

lemma firstBlocks_succ (inode : Block) (n : ℕ) :
    firstBlocks inode (n + 1) = firstBlocks inode n ++ [(inodeBlock inode n).toNat] := by
  rw [firstBlocks, List.range_succ, List.map_append]
  rfl

lemma firstBlocks_congr {n : ℕ} (h : ∀ k < n, inodeBlock inode' k = inodeBlock inode k) :
    firstBlocks inode' n = firstBlocks inode n :=
  List.map_congr_left fun k hk => by rw [h k (List.mem_range.mp hk)]

/-- The loop that allocates the blocks of a file. -/
lemma Allocated.allocBlocks {n : ℕ} (htotal : totalblocks ≤ 2 ^ 32)
    (h : Allocated totalblocks bat bat₁ bs)
    (halloc : allocBlocks totalblocks bat₁ inode n = some (bat', inode')) :
    Allocated totalblocks bat bat' (bs ++ firstBlocks inode' n) ∧
      filesize inode' = filesize inode := by
  induction n generalizing bat' inode' with
  | zero =>
    rw [Fs.allocBlocks, Option.some.injEq, Prod.mk.injEq] at halloc
    obtain ⟨rfl, rfl⟩ := halloc
    exact ⟨by simpa [firstBlocks] using h, rfl⟩
  | succ n ih =>
    simp only [Fs.allocBlocks, Option.bind_eq_bind, Option.bind_eq_some_iff, Option.pure_def,
      Option.some.injEq, Prod.mk.injEq, Prod.exists] at halloc
    obtain ⟨bat₂, inode₂, hrec, bat₃, b, hfind, rfl, rfl⟩ := halloc
    obtain ⟨hsome, hsize⟩ := ih hrec
    have hlt := (bitmapFindnset_spec hfind).1
    have hb : (UInt32.ofNat b).toNat = b := UInt32.toNat_ofNat_of_lt' (lt_of_lt_of_le hlt htotal)
    have hfirst : firstBlocks (setInodeBlock inode₂ n (UInt32.ofNat b)) n = firstBlocks inode₂ n := by
      refine firstBlocks_congr fun k hk => ?_
      rw [inodeBlock_setInodeBlock, if_neg (Nat.ne_of_lt hk)]
    refine ⟨?_, by rw [filesize_setInodeBlock, hsize]⟩
    rw [firstBlocks_succ, hfirst, inodeBlock_setInodeBlock, if_pos rfl, hb, ← List.append_assoc]
    exact hsome.findnset hfind

lemma bitmapGet_foldl_clear (f : ℕ → ℕ) (ks : List ℕ) (bat : Block) (p : ℕ) :
    bitmapGet (ks.foldl (fun bat k => bitmapSet bat (f k) false) bat) p =
      if p ∈ ks.map f then 0 else bitmapGet bat p := by
  induction ks generalizing bat with
  | nil => simp
  | cons k ks ih =>
    rw [List.foldl_cons, ih, bitmapGet_bitmapSet]
    by_cases hks : p ∈ ks.map f
    · simp only [List.map_cons, List.mem_cons, hks, or_true, if_true]
    · by_cases hk : p = f k <;> simp [hks, hk]

/-- The loop of `tfs_remove` stops after the last block of the file. -/
lemma InodeOk.takeWhile_eq (h : InodeOk inode) :
    ((List.range tfsBlocksMax).takeWhile fun k => inodeBlock inode k ≠ 0) =
      List.range (dataCount inode) := by
  obtain ⟨m, hm⟩ := Nat.exists_eq_add_of_le h.count
  have hfirst : ∀ k ∈ List.range (dataCount inode), decide (inodeBlock inode k ≠ 0) = true := by
    intro k hk
    have hlt := List.mem_range.mp hk
    exact decide_eq_true ((h.slots k (by omega)).mpr hlt)
  rw [hm, List.range_add, List.takeWhile_append_of_pos hfirst]
  cases m with
  | zero => simp
  | succ m =>
    have hzero : ¬inodeBlock inode (dataCount inode) ≠ 0 := by
      rw [h.slots _ (by omega)]
      exact Nat.lt_irrefl _
    simp [List.range_succ_eq_map, hzero]

lemma bitmapGet_freeBlocks (h : InodeOk inode) (bat : Block) (p : ℕ) :
    bitmapGet (freeBlocks bat inode) p = if p ∈ dataBlocks inode then 0 else bitmapGet bat p := by
  rw [freeBlocks, h.takeWhile_eq, bitmapGet_foldl_clear]
  rfl

end Allocation

end Osm.Fs
