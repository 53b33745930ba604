import Mathlib.Algebra.Order.Ring.Int
import Mathlib.Data.List.Range
import Mathlib.Logic.Function.Basic

/-!
# Ring buffers

A queue in a circular array with `n` cells: the elements are in `count` cells from `head` on, where
the first cell follows the last one. An element is put into the cell behind the last element, and
taken from `head`. The index and the count are integers, as those of a program are, and stay in
their ranges only if no element is put into a full ring and none taken from an empty one.
-/

namespace Osm.Lib

/-- A ring buffer. -/
structure RingBuffer (α : Type*) where
  buf   : ℤ → α
  head  : ℤ
  count : ℤ

namespace RingBuffer

variable {α : Type*}

/-- Put an element behind the last one. -/
def push (n : ℤ) (r : RingBuffer α) (a : α) : RingBuffer α :=
  { r with
    buf   := Function.update r.buf ((r.head + r.count) % n) a
    count := r.count + 1 }

/-- The element to be taken next. -/
def first (r : RingBuffer α) : α := r.buf r.head

/-- Take the first element. -/
def pop (n : ℤ) (r : RingBuffer α) : RingBuffer α :=
  { r with
    head  := (r.head + 1) % n
    count := r.count - 1 }

/-- The elements in their order. -/
def contents (n : ℤ) (r : RingBuffer α) : List α :=
  (List.range r.count.toNat).map fun k : ℕ => r.buf ((r.head + k) % n)

/-- The index and the count are in their ranges. -/
structure Ok (n : ℤ) (r : RingBuffer α) : Prop where
  head_nonneg  : 0 ≤ r.head
  head_lt      : r.head < n
  count_nonneg : 0 ≤ r.count
  count_le     : r.count ≤ n

variable {n : ℤ} {r : RingBuffer α}

/-- Different cells less than a round away from each other. -/
lemma add_emod_ne {head i j : ℤ} (hi : 0 ≤ i) (hij : i < j) (hj : j < n) :
    (head + i) % n ≠ (head + j) % n := by
  intro heq
  have hdvd : n ∣ j - i := by
    have hsub := Int.emod_eq_emod_iff_emod_sub_eq_zero.mp heq.symm
    rw [add_sub_add_left_eq_sub] at hsub
    exact Int.dvd_of_emod_eq_zero hsub
  have hle := Int.le_of_dvd (by omega) hdvd
  omega

lemma length_contents (n : ℤ) (r : RingBuffer α) : (r.contents n).length = r.count.toNat := by
  rw [contents, List.length_map, List.length_range]

lemma contents_eq_nil (h : r.count = 0) : r.contents n = [] := by
  rw [contents, h]
  rfl

namespace Ok

lemma push {a : α} (h : r.Ok n) (hlt : r.count < n) : (r.push n a).Ok n where
  head_nonneg := h.head_nonneg
  head_lt := h.head_lt
  count_nonneg := Int.add_nonneg h.count_nonneg (by decide)
  count_le := hlt

lemma pop (h : r.Ok n) (hpos : 0 < r.count) : (r.pop n).Ok n where
  head_nonneg := Int.emod_nonneg _ (by have := h.head_nonneg; have := h.head_lt; omega)
  head_lt := Int.emod_lt_of_pos _ (by have := h.head_nonneg; have := h.head_lt; omega)
  count_nonneg := Int.sub_nonneg.mpr hpos
  count_le := (Int.sub_le_self _ (by decide)).trans h.count_le

/-- Putting an element into a ring that is not full adds it at the end. -/
lemma contents_push (h : r.Ok n) (hlt : r.count < n) (a : α) :
    (r.push n a).contents n = r.contents n ++ [a] := by
  have hcount : (r.count + 1).toNat = r.count.toNat + 1 := by
    have := h.count_nonneg
    omega
  rw [contents, RingBuffer.push, hcount, List.range_succ, List.map_append, contents]
  congr 1
  · refine List.map_congr_left fun k hk => Function.update_of_ne ?_ _ _
    have hk' := List.mem_range.mp hk
    exact add_emod_ne (Int.natCast_nonneg k) (by omega) hlt
  · rw [List.map_singleton, Int.toNat_of_nonneg h.count_nonneg]
    exact congrArg (fun b => [b]) (Function.update_self _ _ _)

/-- Taking an element from a ring that is not empty takes it from the front. -/
lemma contents_pop (h : r.Ok n) (hpos : 0 < r.count) :
    r.contents n = r.first :: (r.pop n).contents n := by
  have hcount : r.count.toNat = (r.count - 1).toNat + 1 := by omega
  rw [contents, hcount, List.range_succ_eq_map, List.map_cons, List.map_map, contents,
    RingBuffer.pop, first]
  congr 1
  · rw [Nat.cast_zero, add_zero, Int.emod_eq_of_lt h.head_nonneg h.head_lt]
  · refine List.map_congr_left fun k _ => ?_
    rw [Function.comp_apply, Int.emod_add_emod, Nat.succ_eq_add_one, Nat.cast_add, Nat.cast_one,
      add_assoc, add_comm 1 (k : ℤ)]

/-- An element that is put into a full ring takes the place of the first one. -/
lemma first_push (h : r.Ok n) (hfull : r.count = n) (a : α) : (r.push n a).first = a := by
  have hcell : (r.head + r.count) % n = r.head := by
    rw [hfull, Int.add_emod_right, Int.emod_eq_of_lt h.head_nonneg h.head_lt]
  rw [first, RingBuffer.push, hcell]
  exact Function.update_self _ _ _

end Ok

/-! ### Many elements -/

/-- Put the elements of a list one after the other. -/
def pushAll (n : ℤ) (r : RingBuffer α) (l : List α) : RingBuffer α := l.foldl (push n) r

lemma Ok.pushAll {l : List α} (h : r.Ok n) (hle : r.count + l.length ≤ n) :
    (r.pushAll n l).Ok n ∧ (r.pushAll n l).count = r.count + l.length ∧
      (r.pushAll n l).contents n = r.contents n ++ l := by
  induction l generalizing r with
  | nil => exact ⟨h, (add_zero _).symm, (List.append_nil _).symm⟩
  | cons a l ih =>
    rw [List.length_cons, Nat.cast_add, Nat.cast_one] at hle
    have hlt : r.count < n := by omega
    obtain ⟨hok, hcount, hcontents⟩ :=
      ih (h.push hlt) (show r.count + 1 + l.length ≤ n by omega)
    refine ⟨hok, ?_, ?_⟩
    · rw [List.length_cons, Nat.cast_add, Nat.cast_one, RingBuffer.pushAll, List.foldl_cons,
        ← RingBuffer.pushAll, hcount]
      show r.count + 1 + l.length = _
      omega
    · rw [RingBuffer.pushAll, List.foldl_cons, ← RingBuffer.pushAll, hcontents, h.contents_push hlt,
        List.append_assoc, List.singleton_append]

end RingBuffer

end Osm.Lib
