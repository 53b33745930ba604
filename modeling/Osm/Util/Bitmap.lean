import Osm.Lib.Bitmap

/-!
# Bitmaps on the host

A model of the bitmap routines of `util/tfstool.c`. The host keeps a word in its own byte order,
the lowest or the highest byte first, and converts it with `ntohl` and `htonl`. The bitmap of a
disk therefore is the one that `lib/bitmap.c` sees on the kernel's machine, whose words have the
highest byte first.

In `bitmap_findnset` of the kernel the number of words is computed in the arithmetic of `int`.
-/

namespace Osm.Util

open Osm.Core Osm.Lib

/-! ### Byte orders -/

/-- The byte order of a machine. -/
inductive ByteOrder where
  | big
  | little

/-- The word with the bytes of another one in the opposite order. -/
def swapBytes (w : UInt32) : UInt32 :=
  UInt32.ofNat ((Memory.wordByte w 3).toNat * 2 ^ 24 + (Memory.wordByte w 2).toNat * 2 ^ 16 +
    (Memory.wordByte w 1).toNat * 2 ^ 8 + (Memory.wordByte w 0).toNat)

/-- `ntohl`, which is the same function as `htonl`. -/
def ntohl : ByteOrder → UInt32 → UInt32
  | .big, w    => w
  | .little, w => swapBytes w

/-- The word at an address, as a machine reads it. -/
def hostRead : ByteOrder → Memory → ℕ → UInt32
  | .big, m, a    => m.readWord a
  | .little, m, a =>
    UInt32.ofNat ((m (a + 3)).toNat * 2 ^ 24 + (m (a + 2)).toNat * 2 ^ 16 +
      (m (a + 1)).toNat * 2 ^ 8 + (m a).toNat)

/-- Store a word at an address, as a machine does. -/
def hostWrite : ByteOrder → Memory → ℕ → UInt32 → Memory
  | .big, m, a, w    => m.writeWord a w
  | .little, m, a, w => fun x =>
    if a ≤ x ∧ x < a + 4 then Memory.wordByte w (3 - (x - a)) else m x

lemma wordByte_swapBytes (w : UInt32) {i : ℕ} (hi : i < 4) :
    Memory.wordByte (swapBytes w) (3 - i) = Memory.wordByte w i := by
  have hswap : swapBytes w = Memory.readWord (fun k => Memory.wordByte w (3 - k)) 0 := rfl
  rw [hswap, Memory.wordByte_readWord _ _ (by omega)]
  congr 1
  omega

/-- What is read and converted is the word with the highest byte first. -/
lemma ntohl_hostRead (order : ByteOrder) (m : Memory) (a : ℕ) :
    ntohl order (hostRead order m a) = m.readWord a := by
  cases order with
  | big => rfl
  | little =>
    have hread : hostRead .little m a = Memory.readWord (fun k => m (a + (3 - k))) 0 := rfl
    have hbyte : ∀ i < 4, Memory.wordByte (hostRead .little m a) i = m (a + (3 - i)) := by
      intro i hi
      rw [hread, Memory.wordByte_readWord _ _ hi, Nat.zero_add]
    rw [ntohl, swapBytes, hbyte 3 (by decide), hbyte 2 (by decide), hbyte 1 (by decide),
      hbyte 0 (by decide)]
    rfl

/-- What is converted and written is the word with the highest byte first. -/
lemma hostWrite_ntohl (order : ByteOrder) (m : Memory) (a : ℕ) (w : UInt32) :
    hostWrite order m a (ntohl order w) = m.writeWord a w := by
  cases order with
  | big => rfl
  | little =>
    funext x
    simp only [hostWrite, ntohl, Memory.writeWord]
    by_cases hx : a ≤ x ∧ x < a + 4
    · rw [if_pos hx, if_pos hx]
      exact wordByte_swapBytes w (by omega)
    · rw [if_neg hx, if_neg hx]

lemma ntohl_eq_zero_iff (order : ByteOrder) (w : UInt32) : ntohl order w = 0 ↔ w = 0 := by
  cases order with
  | big => rfl
  | little =>
    refine ⟨fun h => ?_, ?_⟩
    · have hzero : hostWrite .little (fun _ => 0) 0 0 = fun _ => 0 := by
        funext x
        simp [hostWrite, Memory.wordByte]
      have hwrite := hostWrite_ntohl .little (fun _ => 0) 0 w
      rw [h, hzero] at hwrite
      rw [← Memory.readWord_writeWord_self (fun _ => 0) 0 w, ← hwrite, Memory.readWord_zero]
    · rintro rfl
      rfl

/-! ### The functions of the two programs -/

/-- `bitmap_get` of the host. -/
def hostBitmapGet (order : ByteOrder) (bitmap : Memory) (pos : ℕ) : UInt32 :=
  (ntohl order (hostRead order bitmap (4 * (pos / 32))) >>> UInt32.ofNat (pos % 32)) &&& 1

/-- `bitmap_set` of the host. It exits for a value other than 0 or 1. -/
def hostBitmapSet (order : ByteOrder) (bitmap : Memory) (pos : ℕ) (value : Bool) : Memory :=
  let word := ntohl order (hostRead order bitmap (4 * (pos / 32)))
  let mask := 1 <<< UInt32.ofNat (pos % 32)
  hostWrite order bitmap (4 * (pos / 32))
    (ntohl order (if value then word ||| mask else word &&& ~~~mask))

/-- `bitmap_findnset` of the host: the bitmap after the call, and the result. -/
def hostBitmapFindnset (order : ByteOrder) (bitmap : Memory) (l : ℕ) : Memory × ℤ :=
  match (List.range l).find? fun i => hostBitmapGet order bitmap i = 0 with
  | some i => (hostBitmapSet order bitmap i true, i)
  | none   => (bitmap, -1)

/-- `bitmap_sizeof` of the kernel, in the arithmetic of `int`. -/
def bitmapSizeofInt (numBits : ℤ) : ℤ := ((numBits + 31).bmod (2 ^ 32)).tdiv 32 * 4

/-- The result of `bitmap_findnset`, with `-1` for no position. -/
def findnsetResult (bitmap : Memory) : Option (Memory × ℕ) → Memory × ℤ
  | some (bitmap', pos) => (bitmap', pos)
  | none                => (bitmap, -1)

/-- The loop of `bitmap_findnset` of the kernel over a number of words. -/
def findnsetWords (bitmap : Memory) (l words : ℕ) : Option (Memory × ℕ) := do
  let found ← (List.range words).findSome? fun i =>
    if bitmapWord bitmap i ≠ 0xffffffff then bitmapFindBit bitmap l i else none
  let pos ← found
  return (bitmapSet bitmap pos true, pos)

/-- `bitmap_findnset` of the kernel with the number of words in the arithmetic of `int`: the bitmap
after the call, and the result. -/
def bitmapFindnsetInt (bitmap : Memory) (l : ℕ) : Memory × ℤ :=
  findnsetResult bitmap (findnsetWords bitmap l ((bitmapSizeofInt l).tdiv 4).toNat)

/-- The first position below `l` with a zero bit is found, and only this bit is set; if there is
none, the result is `-1` and nothing changes. -/
def FindsFirst (bitmap : Memory) (l : ℕ) (bitmap' : Memory) (ret : ℤ) : Prop :=
  (∃ pos < l, ret = pos ∧ bitmapGet bitmap pos = 0 ∧ (∀ p < pos, bitmapGet bitmap p = 1) ∧
    ∀ p, bitmapGet bitmap' p = if p = pos then 1 else bitmapGet bitmap p) ∨
  (∀ p < l, bitmapGet bitmap p = 1) ∧ ret = -1 ∧ bitmap' = bitmap

/-- The two programs agree on a bitmap of `l` bits, and both search for the first zero bit. -/
structure BitmapsAgree (order : ByteOrder) (bitmap : Memory) (l : ℕ) : Prop where
  get      : ∀ pos, hostBitmapGet order bitmap pos = bitmapGet bitmap pos
  set      : ∀ pos value, hostBitmapSet order bitmap pos value = bitmapSet bitmap pos value
  findnset : hostBitmapFindnset order bitmap l = bitmapFindnsetInt bitmap l
  first    : FindsFirst bitmap l (bitmapFindnsetInt bitmap l).1 (bitmapFindnsetInt bitmap l).2

variable {order : ByteOrder} {bitmap : Memory} {l : ℕ}

lemma hostBitmapGet_eq (order : ByteOrder) (bitmap : Memory) (pos : ℕ) :
    hostBitmapGet order bitmap pos = bitmapGet bitmap pos := by
  rw [hostBitmapGet, ntohl_hostRead]
  rfl

lemma hostBitmapSet_eq (order : ByteOrder) (bitmap : Memory) (pos : ℕ) (value : Bool) :
    hostBitmapSet order bitmap pos value = bitmapSet bitmap pos value := by
  rw [hostBitmapSet, ntohl_hostRead, hostWrite_ntohl]
  rfl

/-- The search of the host, bit by bit. -/
lemma hostBitmapFindnset_first (order : ByteOrder) (bitmap : Memory) (l : ℕ) :
    FindsFirst bitmap l (hostBitmapFindnset order bitmap l).1
      (hostBitmapFindnset order bitmap l).2 := by
  rw [hostBitmapFindnset]
  cases hfind : (List.range l).find? fun i => hostBitmapGet order bitmap i = 0 with
  | none =>
    rw [List.find?_eq_none] at hfind
    refine .inr ⟨fun p hp => ?_, rfl, rfl⟩
    have hbit := hfind p (List.mem_range.mpr hp)
    rw [hostBitmapGet_eq, decide_eq_true_eq, bitmapGet_eq_zero_iff, not_not] at hbit
    exact hbit
  | some pos =>
    rw [List.find?_range_eq_some] at hfind
    obtain ⟨hzero, hlt, hbefore⟩ := hfind
    rw [hostBitmapGet_eq, decide_eq_true_eq] at hzero
    refine .inl ⟨pos, List.mem_range.mp hlt, rfl, hzero, fun p hp => ?_, fun p => ?_⟩
    · have hbit := hbefore p hp
      rw [hostBitmapGet_eq, Bool.not_eq_true', decide_eq_false_iff_not, bitmapGet_eq_zero_iff,
        not_not] at hbit
      exact hbit
    · change bitmapGet (hostBitmapSet order bitmap pos true) p = _
      rw [hostBitmapSet_eq, bitmapGet_bitmapSet, if_pos rfl]

/-- In a search for the first zero bit the result depends on the bitmap only. -/
lemma FindsFirst.ret_unique {bitmap₁ bitmap₂ : Memory} {ret₁ ret₂ : ℤ}
    (h₁ : FindsFirst bitmap l bitmap₁ ret₁) (h₂ : FindsFirst bitmap l bitmap₂ ret₂) :
    ret₁ = ret₂ := by
  have hne : ∀ p, bitmapGet bitmap p = 0 → bitmapGet bitmap p ≠ 1 := fun p hp =>
    bitmapGet_eq_zero_iff.mp hp
  rcases h₁ with ⟨p, hp, rfl, hzero, hbefore, -⟩ | ⟨hall, rfl, -⟩
  · rcases h₂ with ⟨q, hq, rfl, hzero', hbefore', -⟩ | ⟨hall, -, -⟩
    · rcases lt_trichotomy p q with hlt | rfl | hlt
      · exact absurd (hbefore' p hlt) (hne p hzero)
      · rfl
      · exact absurd (hbefore q hlt) (hne q hzero')
    · exact absurd (hall p hp) (hne p hzero)
  · rcases h₂ with ⟨q, hq, -, hzero', -, -⟩ | ⟨-, rfl, -⟩
    · exact absurd (hall q hq) (hne q hzero')
    · rfl

/-! ### The search of the kernel -/

/-- The number of words does not overflow for a bitmap of up to `2 ^ 31 - 32` bits. -/
lemma bitmapSizeofInt_eq (hl : l + 31 < 2 ^ 31) :
    ((bitmapSizeofInt l).tdiv 4).toNat = bitmapSizeof l / 4 := by
  have hbmod : ((l : ℤ) + 31).bmod (2 ^ 32) = ((l + 31 : ℕ) : ℤ) := by
    rw [Int.bmod_eq_of_le (by omega) (by omega)]
    push_cast
    rfl
  have hdiv : (((l + 31 : ℕ) : ℤ)).tdiv 32 = (((l + 31) / 32 : ℕ) : ℤ) :=
    (Int.ofNat_tdiv _ _).symm
  have hwords : ((((l + 31) / 32 : ℕ) : ℤ) * 4).tdiv 4 = (((l + 31) / 32 : ℕ) : ℤ) :=
    Int.mul_tdiv_cancel _ (by decide)
  rw [bitmapSizeofInt, hbmod, hdiv, hwords, Int.toNat_natCast, bitmapSizeof,
    Nat.mul_div_cancel _ (by decide)]

/-- The number of words is negative for a longer bitmap. -/
lemma bitmapSizeofInt_overflow (hl : l < 2 ^ 31) (hover : 2 ^ 31 ≤ l + 31) :
    ((bitmapSizeofInt l).tdiv 4).toNat = 0 := by
  have hbmod : ((l : ℤ) + 31).bmod (2 ^ 32) = (l : ℤ) + 31 - 2 ^ 32 := by
    rw [Int.bmod_def]
    omega
  have hneg : ((l : ℤ) + 31 - 2 ^ 32).tdiv 32 ≤ 0 := by
    have hflip := Int.neg_tdiv (4294967265 - (l : ℤ)) 32
    have hpos : 0 ≤ (4294967265 - (l : ℤ)).tdiv 32 := Int.tdiv_nonneg (by omega) (by decide)
    have hsub : (l : ℤ) + 31 - 2 ^ 32 = -(4294967265 - (l : ℤ)) := by omega
    rw [hsub, hflip]
    exact neg_nonpos.mpr hpos
  rw [bitmapSizeofInt, hbmod, Int.mul_tdiv_cancel _ (by decide), Int.toNat_of_nonpos hneg]

lemma bitmapFindnsetInt_eq (bitmap : Memory) (hl : l + 31 < 2 ^ 31) :
    bitmapFindnsetInt bitmap l = findnsetResult bitmap (bitmapFindnset bitmap l) := by
  rw [bitmapFindnsetInt, bitmapSizeofInt_eq hl]
  rfl

lemma bitmapFindnsetInt_overflow (bitmap : Memory) (hl : l < 2 ^ 31) (hover : 2 ^ 31 ≤ l + 31) :
    bitmapFindnsetInt bitmap l = (bitmap, -1) := by
  rw [bitmapFindnsetInt, bitmapSizeofInt_overflow hl hover]
  rfl

/-- The search of the kernel, word by word. -/
lemma bitmapFindnset_findsFirst (bitmap : Memory) (l : ℕ) :
    FindsFirst bitmap l (findnsetResult bitmap (bitmapFindnset bitmap l)).1
      (findnsetResult bitmap (bitmapFindnset bitmap l)).2 := by
  cases hfind : bitmapFindnset bitmap l with
  | none =>
    refine .inr ⟨fun p hp => ?_, rfl, rfl⟩
    by_contra hbit
    obtain ⟨bitmap', q, hq⟩ := bitmapFindnset_of_zero hp (bitmapGet_eq_zero_iff.mpr hbit)
    rw [hfind] at hq
    cases hq
  | some found =>
    obtain ⟨bitmap', pos⟩ := found
    obtain ⟨hlt, hzero, rfl⟩ := bitmapFindnset_spec hfind
    refine .inl ⟨pos, hlt, rfl, hzero, fun p hp => ?_, fun p => ?_⟩
    · by_contra hbit
      exact bitmapFindnset_first hfind hp (bitmapGet_eq_zero_iff.mpr hbit)
    · change bitmapGet (bitmapSet bitmap pos true) p = _
      rw [bitmapGet_bitmapSet, if_pos rfl]

/-- The bitmap after a search for the first zero bit differs from the one before it in the bit that
was found. -/
lemma hostBitmapFindnset_fst (order : ByteOrder) (bitmap : Memory) (l : ℕ) :
    (hostBitmapFindnset order bitmap l).1 = if (hostBitmapFindnset order bitmap l).2 = -1 then bitmap
      else bitmapSet bitmap (hostBitmapFindnset order bitmap l).2.toNat true := by
  rw [hostBitmapFindnset]
  cases (List.range l).find? fun i => hostBitmapGet order bitmap i = 0 with
  | none => rfl
  | some pos =>
    change hostBitmapSet order bitmap pos true = if (pos : ℤ) = -1 then _ else _
    rw [if_neg (by omega), hostBitmapSet_eq]
    rfl

lemma findnsetResult_fst (bitmap : Memory) (l : ℕ) :
    (findnsetResult bitmap (bitmapFindnset bitmap l)).1 =
      if (findnsetResult bitmap (bitmapFindnset bitmap l)).2 = -1 then bitmap
      else bitmapSet bitmap (findnsetResult bitmap (bitmapFindnset bitmap l)).2.toNat true := by
  cases hfind : bitmapFindnset bitmap l with
  | none => rfl
  | some found =>
    obtain ⟨bitmap', pos⟩ := found
    obtain ⟨-, -, rfl⟩ := bitmapFindnset_spec hfind
    change _ = if (pos : ℤ) = -1 then _ else _
    rw [if_neg (by omega)]
    rfl

/-- The search by bits and the search by words have the same result and leave the same bytes. -/
lemma hostBitmapFindnset_eq (order : ByteOrder) (bitmap : Memory) (l : ℕ) :
    hostBitmapFindnset order bitmap l = findnsetResult bitmap (bitmapFindnset bitmap l) := by
  have hret := (hostBitmapFindnset_first order bitmap l).ret_unique
    (bitmapFindnset_findsFirst bitmap l)
  refine Prod.ext ?_ hret
  rw [hostBitmapFindnset_fst, findnsetResult_fst, hret]

/-- The two programs agree unless the number of words overflows while there is a zero bit. -/
theorem bitmapsAgree_iff (order : ByteOrder) (bitmap : Memory) (hl : l < 2 ^ 31) :
    BitmapsAgree order bitmap l ↔ l ≤ 2 ^ 31 - 32 ∨ ∀ pos < l, bitmapGet bitmap pos = 1 := by
  by_cases hover : l + 31 < 2 ^ 31
  · have hfind := bitmapFindnsetInt_eq bitmap hover
    refine ⟨fun _ => .inl (by omega), fun _ => ?_⟩
    exact
      { get := hostBitmapGet_eq order bitmap
        set := hostBitmapSet_eq order bitmap
        findnset := by rw [hfind, hostBitmapFindnset_eq]
        first := by
          rw [hfind]
          exact bitmapFindnset_findsFirst bitmap l }
  · have hfind := bitmapFindnsetInt_overflow bitmap hl (by omega)
    constructor
    · intro hagree
      have hfirst := hagree.first
      rw [hfind] at hfirst
      rcases hfirst with ⟨pos, -, hret, -⟩ | ⟨hall, -, -⟩
      · omega
      · exact .inr hall
    · rintro (hle | hall)
      · omega
      · have hfirst : FindsFirst bitmap l bitmap (-1) := .inr ⟨hall, rfl, rfl⟩
        have hret := (hostBitmapFindnset_first order bitmap l).ret_unique hfirst
        refine
          { get := hostBitmapGet_eq order bitmap
            set := hostBitmapSet_eq order bitmap
            findnset := ?_
            first := by rwa [hfind] }
        rw [hfind]
        refine Prod.ext ?_ hret
        rw [hostBitmapFindnset_fst, if_pos hret]

/-- A bitmap of zeros with 40 bits. -/
theorem bitmapsAgree_forty :
    40 < 2 ^ 31 ∧ BitmapsAgree .little (fun _ => 0) 40 :=
  ⟨by decide, (bitmapsAgree_iff .little (fun _ => 0) (by decide)).mpr (.inl (by decide))⟩

/-- In a bitmap of zeros with `2 ^ 31 - 1` bits the kernel finds no zero bit. -/
theorem not_bitmapsAgree_overflow : ¬ BitmapsAgree .little (fun _ => 0) (2 ^ 31 - 1) := by
  intro hagree
  have hfirst := hagree.first
  rw [bitmapFindnsetInt_overflow _ (by decide) (by decide)] at hfirst
  rcases hfirst with ⟨pos, -, hret, -⟩ | ⟨hall, -, -⟩
  · omega
  · have hbit := hall 0 (by decide)
    revert hbit
    decide

end Osm.Util
