import Osm.Core.Copy
import Osm.Lib.Libc

/-!
# Copying strings in memory

`stringcopy` of `lib/libc.c` for a source that is in memory too, which may overlap with the
target. The bytes behind the terminator are left as they were before.
-/

namespace Osm.Lib

open Osm.Core

/-- The loop of `stringcopy`, with the number of bytes that are left before the last one. -/
def stringcopyAtLoop : ℕ → Memory → ℕ → ℕ → Memory
  | 0, m, target, _          => Function.update m target 0
  | n + 1, m, target, source =>
    let m := Function.update m target (m source)
    if m source = 0 then (fun m => Function.update m target 0)^[n + 1] m
    else stringcopyAtLoop n m (target + 1) (source + 1)

/-- `stringcopy`. -/
def stringcopyAt (m : Memory) (target source buflen : ℕ) : Memory :=
  stringcopyAtLoop (buflen - 1) m target source

/-- There is a string of the given length at an address. -/
def HasLength (m : Memory) (a len : ℕ) : Prop := (∀ i < len, m (a + i) ≠ 0) ∧ m (a + len) = 0

/-- What the documentation of `stringcopy` says of the memory after the call. -/
structure StringCopied (m m' : Memory) (target source len buflen : ℕ) : Prop where
  characters : ∀ i < min len (buflen - 1), m' (target + i) = m (source + i)
  padding    : ∀ i < buflen, min len (buflen - 1) ≤ i → m' (target + i) = 0
  outside    : ∀ x, x < target ∨ target + buflen ≤ x → m' x = m x

/-- No character of the source is overwritten with another one before the loop comes to it. -/
def SourceKept (m : Memory) (target source len buflen : ℕ) : Prop :=
  ∀ i ≤ len, i < buflen - 1 → ∀ j < i, source + i = target + j → m (source + i) = m (source + j)

variable {m : Memory} {target source len buflen n k x : ℕ} {s : List UInt8}

/-! ### Runs of the loop -/

/-- The loop only moves on. -/
lemma stringcopyAtLoop_of_outside (h : x < target ∨ target + n < x) :
    stringcopyAtLoop n m target source x = m x := by
  induction n generalizing m target source with
  | zero => exact Function.update_of_ne (by omega) _ _
  | succ n ih =>
    rw [stringcopyAtLoop, iterate_update]
    split_ifs
    · rw [Function.update_of_ne (by omega), Function.update_of_ne (by omega)]
    · rw [ih (by omega), Function.update_of_ne (by omega)]

/-- The character that was copied is read again. -/
lemma update_read (m : Memory) (a b : ℕ) : Function.update m a (m b) b = m b := by
  by_cases h : b = a
  · rw [h, Function.update_self]
  · rw [Function.update_of_ne h]

/-- The rounds before the end of the source. -/
lemma stringcopyAtLoop_run (hlen : HasLength m source len) (hk : k ≤ len)
    (hkept : ∀ i < k, m.copied target source i (source + i) = m (source + i)) :
    stringcopyAtLoop (k + n) m target source =
      stringcopyAtLoop n (m.copied target source k) (target + k) (source + k) := by
  induction k generalizing n with
  | zero => rw [Nat.zero_add, Memory.copied_zero, Nat.add_zero, Nat.add_zero]
  | succ k ih =>
    have hread := hkept k (Nat.lt_succ_self k)
    have hround := ih (n := n + 1) (by omega) fun i hi => hkept i (by omega)
    rw [show k + 1 + n = k + (n + 1) by omega, hround, stringcopyAtLoop, update_read,
      if_neg (by rw [hread]; exact hlen.1 k hk), hread, Memory.update_copied]
    rfl

/-- The round at the end of the source. -/
lemma stringcopyAtLoop_end (h : m source = 0) :
    stringcopyAtLoop (n + 1) m target source = Function.update m target 0 := by
  rw [stringcopyAtLoop, update_read, if_pos h, iterate_update, Function.update_idem]

/-! ### The documented result -/

lemma copied_source_eq_iff {i : ℕ} :
    m.copied target source i (source + i) = m (source + i) ↔
      ∀ j < i, source + i = target + j → m (source + i) = m (source + j) := by
  rw [Memory.copied]
  split_ifs with hover
  · obtain ⟨j, hj⟩ := Nat.exists_eq_add_of_le hover.1
    rw [hj, Nat.add_sub_cancel_left]
    constructor
    · intro h j' _ hj'
      rw [← h, Nat.add_left_cancel hj']
    · exact fun h => (h j (by omega) rfl).symm
  · exact iff_of_true rfl fun j hj h => absurd h (by omega)

lemma SourceKept.copied (h : SourceKept m target source len buflen) {i : ℕ} (hi : i ≤ len)
    (hbuf : i < buflen - 1) : m.copied target source i (source + i) = m (source + i) :=
  copied_source_eq_iff.mpr (h i hi hbuf)

/-- With the source kept, the result is the string with its terminator. -/
lemma stringcopyAt_eq (hlen : HasLength m source len)
    (hkept : SourceKept m target source len buflen) :
    stringcopyAt m target source buflen =
      Function.update (m.copied target source (min len (buflen - 1)))
        (target + min len (buflen - 1)) 0 := by
  rcases Nat.lt_or_ge len (buflen - 1) with hlt | hge
  · obtain ⟨n, hn⟩ := Nat.exists_eq_add_of_lt hlt
    rw [stringcopyAt, hn, Nat.add_assoc,
      stringcopyAtLoop_run hlen le_rfl fun i hi => hkept.copied hi.le (by omega),
      stringcopyAtLoop_end (by rw [hkept.copied le_rfl hlt, hlen.2]), min_eq_left (by omega)]
  · rw [min_eq_right hge, stringcopyAt, ← Nat.add_zero (buflen - 1),
      stringcopyAtLoop_run hlen hge fun i hi => hkept.copied (by omega) hi, stringcopyAtLoop,
      Nat.add_zero]

/-- A character that is no longer there is found in the target. -/
lemma sourceKept_of_copied (hlen : HasLength m source len)
    (h : StringCopied m (stringcopyAt m target source buflen) target source len buflen) :
    SourceKept m target source len buflen := by
  intro i
  induction i using Nat.strong_induction_on with
  | _ i ih =>
    intro hi hbuf
    rw [← copied_source_eq_iff]
    by_contra hne
    obtain ⟨n, hn⟩ := Nat.exists_eq_add_of_lt hbuf
    -- the character is one that was copied before, and not the terminator
    have hchar : m.copied target source i (source + i) ≠ 0 := by
      rw [Memory.copied] at hne ⊢
      split_ifs at hne ⊢ with hover
      · exact hlen.1 _ (by omega)
      · exact (hne rfl).elim
    have hrun : stringcopyAt m target source buflen (target + i) =
        m.copied target source i (source + i) := by
      rw [stringcopyAt, hn, Nat.add_assoc, stringcopyAtLoop_run hlen hi fun j hj =>
        copied_source_eq_iff.mpr (ih j hj (by omega) (by omega)), stringcopyAtLoop, update_read,
        if_neg hchar, stringcopyAtLoop_of_outside (by omega), Function.update_self]
    rcases Nat.lt_or_ge i len with hlt | hge
    · exact hne (hrun.symm.trans (h.characters i (by omega)))
    · exact hchar (hrun.symm.trans (h.padding i (by omega) (by omega)))

/-- `stringcopy` does what its documentation says exactly if the bytes behind the terminator are
already NUL, and no character of an overlapping source is lost before it is copied. -/
theorem stringcopyAt_copied_iff (hlen : HasLength m source len) (hbuf : 1 ≤ buflen) :
    StringCopied m (stringcopyAt m target source buflen) target source len buflen ↔
      (∀ i < buflen, len < i → m (target + i) = 0) ∧ SourceKept m target source len buflen := by
  constructor
  · intro h
    have hkept := sourceKept_of_copied hlen h
    refine ⟨fun i hi hgt => ?_, hkept⟩
    have hpad := h.padding i hi (by omega)
    rwa [stringcopyAt_eq hlen hkept, Function.update_of_ne (by omega),
      Memory.copied_of_outside (by omega)] at hpad
  · rintro ⟨hpad, hkept⟩
    rw [stringcopyAt_eq hlen hkept]
    refine ⟨fun i hi => ?_, fun i hi hge => ?_, fun x hx => ?_⟩
    · rw [Function.update_of_ne (by omega), Memory.copied_inside hi]
    · rcases hge.eq_or_lt with rfl | hgt
      · rw [Function.update_self]
      · rw [Function.update_of_ne (by omega), Memory.copied_of_outside (by omega)]
        exact hpad i hi (by omega)
    · rw [Function.update_of_ne (by omega), Memory.copied_of_outside (by omega)]

/-- The string `"a"` at 100, and four bytes at 0 that are not NUL. -/
def usedTarget : Memory := fun x => if x = 100 then 97 else if x < 4 then 120 else 0

theorem stringcopyAt_copied_iff_usedTarget :
    StringCopied usedTarget (stringcopyAt usedTarget 0 100 2) 0 100 1 2 ↔
      (∀ i < 2, 1 < i → usedTarget (0 + i) = 0) ∧ SourceKept usedTarget 0 100 1 2 :=
  stringcopyAt_copied_iff ⟨by decide, by decide⟩ (by decide)

/-- The bytes behind the terminator are not padded. -/
theorem stringcopyAt_not_padded :
    HasLength usedTarget 100 1 ∧
      ¬ StringCopied usedTarget (stringcopyAt usedTarget 0 100 4) 0 100 1 4 := by
  refine ⟨⟨by decide, by decide⟩, fun h => ?_⟩
  have hpad := h.padding 2 (by decide) (by decide)
  exact absurd hpad (by decide)

/-! ### Sources outside of the target -/

/-- A source that the target does not overlap with is copied as it was passed. -/
theorem stringcopyAt_eq_stringcopy (hs : 0 ∉ s)
    (hsource : ∀ i ≤ s.length, m (source + i) = s.getD i 0)
    (hdisj : source + s.length < target ∨ target + (buflen - 1) < source) :
    stringcopyAt m target source buflen = stringcopy m target s buflen := by
  rw [stringcopyAt, stringcopy]
  generalize buflen - 1 = n at hdisj ⊢
  induction n generalizing m target source s with
  | zero => rfl
  | succ n ih =>
    have hread := hsource 0 (Nat.zero_le _)
    rw [Nat.add_zero] at hread
    cases s with
    | nil => rw [stringcopyAtLoop_end hread, stringcopyLoop, iterate_update]
    | cons c s =>
      rw [List.mem_cons, not_or] at hs
      rw [List.length_cons] at hsource hdisj
      rw [List.getD_cons_zero] at hread
      rw [stringcopyAtLoop, update_read, hread, if_neg (fun h => hs.1 h.symm), stringcopyLoop]
      refine ih hs.2 (fun i hi => ?_) (by omega)
      rw [Function.update_of_ne (by omega), Nat.add_assoc, Nat.add_comm 1 i,
        hsource (i + 1) (by omega), List.getD_cons_succ]

end Osm.Lib
