import Osm.Core.Copy
import Mathlib.Data.Int.Notation

/-!
# Copying memory

A model of `memcopy` of `lib/libc.c`, with its path by words and its path by bytes. Between
places that do not overlap both copy the same bytes.
-/

namespace Osm.Lib

open Osm.Core

/-- `t[i] = s[i]` for the first `n` values of `i`. -/
def copyBytes (m : Memory) (t s : ℕ) : ℕ → Memory
  | 0     => m
  | n + 1 =>
    let m := copyBytes m t s n
    Function.update m (t + n) (m (s + n))

/-- `*tgt = *src`, with both pointers moved on to the next word, for `n` rounds. -/
def copyWords (m : Memory) (tgt src : ℕ) : ℕ → Memory
  | 0     => m
  | n + 1 =>
    let m := copyWords m tgt src n
    m.writeWord (tgt + 4 * n) (m.readWord (src + 4 * n))

/-- `memcopy`. -/
def memcopy (m : Memory) (buflen : ℤ) (target source : ℕ) : Memory :=
  if target % 4 ≠ 0 ∨ source % 4 ≠ 0 then copyBytes m target source buflen.toNat
  else
    let words := (buflen.tdiv 4).toNat
    copyBytes (copyWords m target source words) (target + 4 * words) (source + 4 * words)
      (buflen.tmod 4).toNat

variable {m : Memory} {target source n : ℕ}

lemma copyBytes_eq (h : target + n ≤ source ∨ source + n ≤ target) :
    copyBytes m target source n = m.copied target source n := by
  induction n with
  | zero => rw [copyBytes, Memory.copied_zero]
  | succ n ih =>
    rw [copyBytes, ih (by omega), Memory.copied_of_outside (by omega), Memory.update_copied]

lemma copyWords_eq (h : target + 4 * n ≤ source ∨ source + 4 * n ≤ target) :
    copyWords m target source n = m.copied target source (4 * n) := by
  induction n with
  | zero => rw [copyWords, Nat.mul_zero, Memory.copied_zero]
  | succ n ih =>
    have hread : (m.copied target source (4 * n)).readWord (source + 4 * n) =
        m.readWord (source + 4 * n) :=
      Memory.readWord_congr fun x _ _ => Memory.copied_of_outside (by omega)
    rw [copyWords, ih (by omega), hread, Memory.writeWord_copied, Nat.mul_succ]

/-- The words come first and the bytes after them. -/
lemma memcopy_eq (h : target + n ≤ source ∨ source + n ≤ target) :
    memcopy m n target source = m.copied target source n := by
  have hdiv : ((n : ℤ).tdiv 4).toNat = n / 4 := rfl
  have hmod : ((n : ℤ).tmod 4).toNat = n % 4 := rfl
  have hlen : 4 * (n / 4) + n % 4 = n := Nat.div_add_mod n 4
  rw [memcopy, Int.toNat_natCast, hdiv, hmod]
  split_ifs with halign
  · exact copyBytes_eq h
  · dsimp only
    rw [copyWords_eq (by omega), copyBytes_eq (by omega), Memory.copied_copied (by omega), hlen]

/-- `memcopy` copies byte by byte, whatever the alignment of the two addresses and the length
are. -/
theorem memcopy_eq_copyBytes (m : Memory) (buflen target source : ℕ)
    (h : target + buflen ≤ source ∨ source + buflen ≤ target) :
    memcopy m buflen target source = copyBytes m target source buflen ∧
      (∀ i < buflen, memcopy m buflen target source (target + i) = m (source + i)) ∧
      ∀ x, x < target ∨ target + buflen ≤ x → memcopy m buflen target source x = m x := by
  rw [memcopy_eq h, copyBytes_eq h]
  exact ⟨rfl, fun i hi => Memory.copied_inside hi, fun x hx => Memory.copied_of_outside hx⟩

/-- A word and two bytes. -/
theorem memcopy_six :
    memcopy (UInt8.ofNat ·) 6 8 16 = copyBytes (UInt8.ofNat ·) 8 16 6 ∧
      (∀ i < 6, memcopy (UInt8.ofNat ·) 6 8 16 (8 + i) = UInt8.ofNat (16 + i)) ∧
      ∀ x, x < 8 ∨ 14 ≤ x → memcopy (UInt8.ofNat ·) 6 8 16 x = UInt8.ofNat x :=
  memcopy_eq_copyBytes (UInt8.ofNat ·) 6 8 16 (by decide)

end Osm.Lib
