import Mathlib.Algebra.Order.Ring.Int
import Mathlib.Data.Nat.Notation
import Mathlib.Tactic.Lemma

/-!
# Byte memory

Memory is a map from addresses to bytes. A word takes four consecutive bytes, the most
significant one first. Reading a word gives back what was written to its address, and neither
sees nor is changed by writes to other bytes.
-/

namespace Osm.Core

/-- A map from addresses to bytes. -/
abbrev Memory := ℕ → UInt8

namespace Memory

/-- The word at an address. -/
def readWord (m : Memory) (a : ℕ) : UInt32 :=
  UInt32.ofNat ((m a).toNat * 2 ^ 24 + (m (a + 1)).toNat * 2 ^ 16 + (m (a + 2)).toNat * 2 ^ 8 +
    (m (a + 3)).toNat)

/-- A byte of a word, the most significant one first. -/
def wordByte (w : UInt32) (i : ℕ) : UInt8 := UInt8.ofNat (w.toNat / 2 ^ (8 * (3 - i)))

/-- Store a word at an address. -/
def writeWord (m : Memory) (a : ℕ) (w : UInt32) : Memory := fun x =>
  if a ≤ x ∧ x < a + 4 then wordByte w (x - a) else m x

variable {m m' : Memory} {a b : ℕ} {w : UInt32}

lemma readWord_congr (h : ∀ x, a ≤ x → x < a + 4 → m' x = m x) :
    m'.readWord a = m.readWord a := by
  unfold readWord
  rw [h a (by omega) (by omega), h (a + 1) (by omega) (by omega), h (a + 2) (by omega) (by omega),
    h (a + 3) (by omega) (by omega)]

@[simp] lemma readWord_zero (a : ℕ) : readWord (fun _ => 0) a = 0 := by
  simp [readWord]

lemma writeWord_of_outside {x : ℕ} (h : x < a ∨ a + 4 ≤ x) : m.writeWord a w x = m x :=
  if_neg (by omega)

@[simp] lemma readWord_writeWord_self (m : Memory) (a : ℕ) (w : UInt32) :
    (m.writeWord a w).readWord a = w := by
  have hbyte : ∀ i < 4, m.writeWord a w (a + i) = wordByte w i := by
    intro i hi
    rw [writeWord, if_pos (by omega), Nat.add_sub_cancel_left]
  have h₀ := hbyte 0 (by omega)
  rw [Nat.add_zero] at h₀
  have hw := w.toNat_lt
  apply UInt32.toNat_inj.mp
  rw [readWord, h₀, hbyte 1 (by omega), hbyte 2 (by omega), hbyte 3 (by omega)]
  simp only [wordByte, UInt8.toNat_ofNat', UInt32.toNat_ofNat']
  omega

/-- The bytes of a word that was read are those in memory. -/
lemma wordByte_readWord (m : Memory) (a : ℕ) {i : ℕ} (hi : i < 4) :
    wordByte (m.readWord a) i = m (a + i) := by
  have h₀ := (m a).toNat_lt
  have h₁ := (m (a + 1)).toNat_lt
  have h₂ := (m (a + 2)).toNat_lt
  have h₃ := (m (a + 3)).toNat_lt
  have hword : (m.readWord a).toNat = (m a).toNat * 2 ^ 24 + (m (a + 1)).toNat * 2 ^ 16 +
      (m (a + 2)).toNat * 2 ^ 8 + (m (a + 3)).toNat := by
    rw [readWord, UInt32.toNat_ofNat', Nat.mod_eq_of_lt (by omega)]
  apply UInt8.toNat_inj.mp
  rw [wordByte, UInt8.toNat_ofNat', hword]
  obtain rfl | rfl | rfl | rfl : i = 0 ∨ i = 1 ∨ i = 2 ∨ i = 3 := by omega
  · change _ = (m a).toNat
    omega
  · omega
  · omega
  · omega

lemma readWord_writeWord_of_ne (h : a + 4 ≤ b ∨ b + 4 ≤ a) :
    (m.writeWord a w).readWord b = m.readWord b :=
  readWord_congr fun _ _ _ => writeWord_of_outside (by omega)

end Memory

end Osm.Core
