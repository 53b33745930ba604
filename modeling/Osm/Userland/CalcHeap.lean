import Osm.Userland.Calc
import Osm.Userland.HeapWords

/-!
# The stack of the calculator in the heap

The blocks in use are the nodes of the stack and the numbers that they point to, and those that a
function holds in its variables. Each function of the stack keeps this, so that no block is lost,
freed twice or used after it was freed; and it does to the numbers what it should.
-/

namespace Osm.Userland

open Osm.Core

/-- The order in which blocks are known does not matter. -/
lemma HeapInv.perm {base : ℕ} {h : Heap} {live live' : List (UInt32 × UInt32)} {l : List Block}
    (hinv : HeapInv base ⟨h, live⟩ l) (hperm : live.Perm live') : HeapInv base ⟨h, live'⟩ l :=
  ⟨hinv.rep, hinv.apart, hinv.live.trans (hperm.map _)⟩

namespace Calc

/-- The nodes from a pointer on hold the numbers, in the given blocks. -/
def Holds (mem : Memory) : UInt32 → List ℤ → List (UInt32 × UInt32) → Prop
  | top, [], blocks     => top = 0 ∧ blocks = []
  | top, x :: s, blocks => ∃ rest,
    blocks = (top, sizeofList) :: (mem.readWord top.toNat, sizeofInt) :: rest ∧
      asInt (mem.readWord (mem.readWord top.toNat).toNat) = x ∧
      Holds mem (mem.readWord (top + 4).toNat) s rest

/-- A number is stored as it is. -/
lemma asInt_intWord {x : ℤ} (h : -2 ^ 31 ≤ x ∧ x < 2 ^ 31) : asInt (intWord x) = x := by
  have hword : (intWord x).toNat = (x % 2 ^ 32).toNat := by
    rw [intWord, UInt32.toNat_ofNat_of_lt']
    change _ < 2 ^ 32
    omega
  rw [asInt_eq, hword]
  split_ifs <;> omega

lemma toNat_add_four {p : UInt32} (h : p.toNat < 2 ^ 31) : (p + 4).toNat = p.toNat + 4 :=
  toNat_add_sizeofSizeT h

/-- There is room for a number, and for the two words of a node. -/
lemma sizes_room :
    0 + 4 ≤ sizeofInt.toNat ∧ 0 + 4 ≤ sizeofList.toNat ∧ 4 + 4 ≤ sizeofList.toNat := by decide

/-- Only the words in the blocks matter. -/
lemma Holds.congr {mem mem' : Memory} {top : UInt32} {s : List ℤ} {blocks : List (UInt32 × UInt32)}
    (h : Holds mem top s blocks) (hbound : ∀ p size, (p, size) ∈ blocks → p.toNat < 2 ^ 31)
    (hsame : ∀ p size, (p, size) ∈ blocks → ∀ k, k + 4 ≤ size.toNat →
      mem'.readWord (p.toNat + k) = mem.readWord (p.toNat + k)) :
    Holds mem' top s blocks := by
  induction s generalizing top blocks with
  | nil => exact h
  | cons x s ih =>
    obtain ⟨rest, rfl, hx, hrest⟩ := h
    have hdata := hsame top sizeofList (by simp) 0 sizes_room.2.1
    have hvalue := hsame (mem.readWord top.toNat) sizeofInt (by simp) 0 sizes_room.1
    have hnext := hsame top sizeofList (by simp) 4 sizes_room.2.2
    have htop := toNat_add_four (hbound top sizeofList (by simp))
    rw [Nat.add_zero] at hdata hvalue
    refine ⟨rest, by rw [hdata], by rw [hdata, hvalue, hx], ?_⟩
    rw [htop] at hrest ⊢
    rw [hnext]
    exact ih hrest (fun p size he => hbound p size (by simp [he])) fun p size he =>
      hsame p size (by simp [he])

/-- The heap has the blocks of the stack, which holds the numbers, and the blocks in `extra`. -/
def StackInv (base : ℕ) (t : State) (s : List ℤ) (extra : List (UInt32 × UInt32)) : Prop :=
  ∃ l blocks, HeapInv base ⟨t.heap, extra ++ blocks⟩ l ∧ Holds t.heap.mem t.top s blocks

/-- Nothing is printed, and the numbers in `extra` stay as they are. -/
structure Keeps (extra : List (UInt32 × UInt32)) (t t' : State) : Prop where
  prints : t'.prints = t.prints
  load   : ∀ p, (p, sizeofInt) ∈ extra → t'.load p = t.load p

/-- The kernel has refused to extend the heap in the last call of `malloc`. -/
def Refused (grant : ℕ → UInt32 → Bool) (t : State) : Prop :=
  ∃ k size, (size = sizeofInt ∨ size = sizeofList) ∧ t.mallocs = k + 1 ∧
    grant k (t.heap.heapEnd + (sizeofSizeT + roundSize size)) = false

/-- The kernel does not let the heap grow to `2 ^ 31`. -/
def Bounded (grant : ℕ → UInt32 → Bool) : Prop :=
  ∀ k heapEnd, grant k heapEnd = true → heapEnd.toNat < 2 ^ 31

namespace Keeps

variable {extra extra' : List (UInt32 × UInt32)} {t t' t'' : State}

lemma trans (h : Keeps extra t t') (h' : Keeps extra t' t'') : Keeps extra t t'' where
  prints     := h'.prints.trans h.prints
  load p hp := (h'.load p hp).trans (h.load p hp)

lemma mono (h : Keeps extra t t') (hsub : extra' ⊆ extra) : Keeps extra' t t' where
  prints     := h.prints
  load p hp := h.load p (hsub hp)

end Keeps

lemma State.free_eq {t : State} {p : UInt32} {h : Heap} (hfree : Userland.free t.heap p = some h) :
    t.free p = some { t with heap := h } := by
  rw [State.free, hfree]
  rfl

namespace StackInv

variable {base : ℕ} {t : State} {s : List ℤ} {extra : List (UInt32 × UInt32)} {p size : UInt32}
  {grant : ℕ → UInt32 → Bool} {v : ℤ}

/-- The stack is the same when its blocks are. -/
lemma holds_of_sameBlock {h h' : Heap} {top : UInt32} {l : List Block}
    {live blocks : List (UInt32 × UInt32)} (hheap : HeapInv base ⟨h, live⟩ l)
    (hholds : Holds h.mem top s blocks) (hlive : ∀ e ∈ blocks, e ∈ live)
    (hsame : ∀ e ∈ blocks, SameBlock h h' e.1) : Holds h'.mem top s blocks := by
  have hbound := hheap.rep.bound
  refine hholds.congr (fun p size he => ?_) fun p size he k hk => ?_
  · obtain ⟨hptr, -, hroom, hend⟩ := hheap.live_bounds (hlive _ he)
    dsimp only at hroom hend hbound
    omega
  · exact hheap.readWord_of_sameBlock (hlive _ he) (hsame _ he) hk

/-- A number is the same when its block is. -/
lemma readWord_of_sameBlock {h h' : Heap} {l : List Block} {live : List (UInt32 × UInt32)}
    (hheap : HeapInv base ⟨h, live⟩ l) (hlive : (p, sizeofInt) ∈ live)
    (hsame : SameBlock h h' p) : h'.mem.readWord p.toNat = h.mem.readWord p.toNat := by
  have hword := hheap.readWord_of_sameBlock hlive hsame sizes_room.1
  simpa only [Nat.add_zero] using hword

lemma perm {extra' : List (UInt32 × UInt32)} (h : StackInv base t s extra)
    (hperm : extra.Perm extra') : StackInv base t s extra' := by
  obtain ⟨l, blocks, hheap, hholds⟩ := h
  exact ⟨l, blocks, hheap.perm (hperm.append_right blocks), hholds⟩

lemma malloc (h : StackInv base t s extra) (hgrant : Bounded grant)
    (hkind : size = sizeofInt ∨ size = sizeofList) :
    ∃ ptr t', t.malloc grant size = some (ptr, t') ∧
      (ptr = 0 ∧ Refused grant t' ∧ t'.prints = t.prints ∨
        ptr ≠ 0 ∧ StackInv base t' s ((ptr, size) :: extra) ∧ Keeps extra t t') := by
  obtain ⟨l, blocks, hheap, hholds⟩ := h
  have hne : size ≠ 0 := by rcases hkind with rfl | rfl <;> decide
  have hsize : size.toNat + 4 ≤ 2 ^ 31 := by rcases hkind with rfl | rfl <;> decide
  let granted := grant t.mallocs (t.heap.heapEnd + (sizeofSizeT + roundSize size))
  obtain ⟨h', ptr, hexec, hcases⟩ := hheap.malloc_spec hsize granted
  have hmalloc : t.malloc grant size =
      some (ptr, { t with heap := h', mallocs := t.mallocs + 1 }) := by
    rw [State.malloc]
    dsimp only
    rw [hexec]
    rfl
  refine ⟨ptr, _, hmalloc, ?_⟩
  have hend := hheap.malloc_heapEnd hsize hne hexec
  have hbound : h'.heapEnd.toNat < 2 ^ 31 := by
    rcases hend with ⟨hsame, -⟩ | ⟨htrue, hgrown, -⟩
    · rw [hsame]
      exact hheap.rep.bound
    · rw [hgrown]
      exact hgrant _ _ htrue
  rcases hcases hbound with ⟨hnull, rfl⟩ | ⟨hptr, l', hheap', hsame⟩
  · refine .inl ⟨hnull, ?_, rfl⟩
    rcases hend with ⟨hheapEnd, hrefused⟩ | ⟨-, -, hptr⟩
    · refine ⟨t.mallocs, size, hkind, rfl, ?_⟩
      rw [hheapEnd]
      exact hrefused hnull
    · exact absurd hnull hptr
  · refine .inr ⟨hptr, ⟨l', blocks, hheap', ?_⟩, rfl, fun q hq => ?_⟩
    · exact holds_of_sameBlock hheap hholds (fun e he => List.mem_append_right _ he)
        fun e he => hsame e (List.mem_append_right _ he)
    · exact readWord_of_sameBlock hheap (List.mem_append_left _ hq)
        (hsame _ (List.mem_append_left _ hq))

/-- A word is stored in a block of `extra`. -/
lemma store {a : UInt32} {k : ℕ} (h : StackInv base t s extra) (hmem : (p, size) ∈ extra)
    (hk : k + 4 ≤ size.toNat) (ha : a.toNat = p.toNat + k) (w : UInt32) :
    StackInv base (t.store a w) s extra ∧ (t.store a w).load a = w ∧
      ∀ q, (q, sizeofInt) ∈ extra → q ≠ p → (t.store a w).load q = t.load q := by
  obtain ⟨l, blocks, hheap, hholds⟩ := h
  have hlive : (p, size) ∈ extra ++ blocks := List.mem_append_left _ hmem
  have hstore := hheap.writeWord hlive hk w
  have hsame : ∀ q size', (q, size') ∈ extra ++ blocks → p ≠ q → SameBlock t.heap
      { t.heap with mem := t.heap.mem.writeWord (p.toNat + k) w } q := fun q size' hq hne =>
    hheap.writeWord_sameBlock hlive hk w hq hne
  have hnodup := hheap.live_nodup
  have hapart : ∀ e ∈ blocks, p ≠ e.1 := by
    rw [List.map_append, List.nodup_append] at hnodup
    exact fun e he => hnodup.2.2 p (List.mem_map_of_mem hmem) e.1 (List.mem_map_of_mem he)
  rw [← ha] at hstore hsame
  refine ⟨⟨l, blocks, hstore, ?_⟩, Memory.readWord_writeWord_self .., fun q hq hne => ?_⟩
  · exact holds_of_sameBlock hheap hholds (fun e he => List.mem_append_right _ he) fun e he =>
      hsame e.1 e.2 (List.mem_append_right _ he) (hapart e he)
  · have hq' := List.mem_append_left blocks hq
    exact readWord_of_sameBlock hheap hq' (hsame q _ hq' hne.symm)

lemma free (h : StackInv base t s ((p, size) :: extra)) :
    ∃ h', Userland.free t.heap p = some h' ∧ StackInv base { t with heap := h' } s extra ∧
      Keeps extra t { t with heap := h' } := by
  obtain ⟨l, blocks, hheap, hholds⟩ := h
  rw [List.cons_append] at hheap
  obtain ⟨h', l', hexec, hheap', -, hsame⟩ := hheap.free_spec List.mem_cons_self
  have hnodup := hheap.live_nodup
  have hapart : ∀ e ∈ extra ++ blocks, e.1 ≠ p := by
    rw [List.map_cons, List.nodup_cons] at hnodup
    rintro e he rfl
    exact hnodup.1 (List.mem_map.mpr ⟨e, he, rfl⟩)
  rw [List.erase_cons_head] at hheap'
  refine ⟨h', hexec, ⟨l', blocks, hheap', ?_⟩, rfl, fun q hq => ?_⟩
  · exact holds_of_sameBlock hheap hholds (fun e he => by simp [he]) fun e he =>
      hsame e (by simp [he]) (hapart e (List.mem_append_right _ he))
  · have hq' := List.mem_append_left blocks hq
    exact readWord_of_sameBlock hheap (List.mem_cons_of_mem _ hq')
      (hsame _ (List.mem_cons_of_mem _ hq') (hapart _ hq'))

/-- Whether the stack is empty is seen from its pointer. -/
lemma stackEmpty_eq (h : StackInv base t s extra) : stackEmpty t = s.isEmpty := by
  obtain ⟨l, blocks, hheap, hholds⟩ := h
  cases s with
  | nil =>
    have htop : t.top = 0 := hholds.1
    simp [stackEmpty, htop]
  | cons v s =>
    obtain ⟨rest, rfl, -, -⟩ := hholds
    have hptr := (hheap.live_bounds (List.mem_append_right _ List.mem_cons_self)).1
    have htop : t.top ≠ 0 := ne_zero_of_toNat_pos (by omega)
    simp [stackEmpty, htop]

/-- The number on the top of the stack. -/
lemma stackTop_eq (h : StackInv base t (v :: s) extra) : asInt (t.load (stackTop t)) = v := by
  obtain ⟨l, blocks, -, rest, -, hv, -⟩ := h
  exact hv

/-- What is loaded does not depend on the stack. -/
lemma load_top (t : State) (top p : UInt32) : State.load { t with top } p = t.load p := rfl

lemma stackPop (h : StackInv base t (v :: s) extra) :
    ∃ x t', Calc.stackPop t = some (x, t') ∧ StackInv base t' s ((x, sizeofInt) :: extra) ∧
      asInt (t'.load x) = v ∧ Keeps extra t t' := by
  obtain ⟨l, blocks, hheap, rest, rfl, hv, hrest⟩ := h
  have hperm : (extra ++ (t.top, sizeofList) :: (t.load t.top, sizeofInt) :: rest).Perm
      ((t.top, sizeofList) :: (t.load t.top, sizeofInt) :: extra ++ rest) := by
    refine List.perm_middle.trans (List.Perm.cons _ ?_)
    exact List.perm_middle
  have hinv : StackInv base { t with top := t.load (t.top + 4) } s
      ((t.top, sizeofList) :: (t.load t.top, sizeofInt) :: extra) :=
    ⟨l, rest, hheap.perm hperm, hrest⟩
  obtain ⟨h', hfree, hinv', hkeeps⟩ := hinv.free
  have hexec : Calc.stackPop t =
      some (t.load t.top, { t with heap := h', top := t.load (t.top + 4) }) := by
    rw [Calc.stackPop, @State.free_eq t t.top h' hfree]
    simp only [Option.bind_eq_bind, Option.bind_some, Option.pure_def]
  refine ⟨_, _, hexec, hinv', ?_, hkeeps.prints, fun p hp => ?_⟩
  · rw [hkeeps.load _ (List.mem_cons_self ..), load_top]
    exact hv
  · rw [hkeeps.load p (List.mem_cons_of_mem _ hp), load_top]

lemma stackPush {d : UInt32} (h : StackInv base t s ((d, sizeofInt) :: extra))
    (hgrant : Bounded grant) :
    ∃ code t', Calc.stackPush grant t d = some (code, t') ∧
      (code = 1 ∧ Refused grant t' ∧ t'.prints = t.prints ∨
        code = 0 ∧ StackInv base t' (asInt (t.load d) :: s) extra ∧ Keeps extra t t') := by
  obtain ⟨elem, t₁, hmalloc, ⟨rfl, hrefused, hprints⟩ | ⟨hne, hinv, hkeeps⟩⟩ :=
    h.malloc hgrant (.inr rfl)
  · exact ⟨1, t₁, by rw [Calc.stackPush, hmalloc]; rfl, .inl ⟨rfl, hrefused, hprints⟩⟩
  -- the two fields are stored
  have hbound : elem.toNat < 2 ^ 31 := by
    obtain ⟨l, blocks, hheap, -⟩ := hinv
    obtain ⟨hptr, -, hroom, hend⟩ := hheap.live_bounds List.mem_cons_self
    have := hheap.rep.bound
    dsimp only at hroom hend this
    omega
  have hnodup : ∀ q, (q, sizeofInt) ∈ (d, sizeofInt) :: extra → q ≠ elem := by
    obtain ⟨l, blocks, hheap, -⟩ := hinv
    have hnodup := hheap.live_nodup
    dsimp only at hnodup
    rw [List.cons_append, List.map_cons, List.nodup_cons] at hnodup
    rintro q hq rfl
    exact hnodup.1 (List.mem_map.mpr ⟨(q, sizeofInt), List.mem_append_left _ hq, rfl⟩)
  obtain ⟨hinv₂, hdata, hload₂⟩ := hinv.store List.mem_cons_self sizes_room.2.1 (a := elem) rfl d
  obtain ⟨hinv₃, hnext, hload₃⟩ := hinv₂.store List.mem_cons_self sizes_room.2.2 (a := elem + 4)
    (toNat_add_four hbound) (t₁.store elem d).top
  let t₃ : State := (t₁.store elem d).store (elem + 4) (t₁.store elem d).top
  have hexec : Calc.stackPush grant t d = some (0, { t₃ with top := elem }) := by
    rw [Calc.stackPush, hmalloc]
    simp only [Option.bind_eq_bind, Option.bind_some, if_neg hne]
    rfl
  have hload : ∀ q, (q, sizeofInt) ∈ (d, sizeofInt) :: extra → t₃.load q = t.load q := by
    intro q hq
    have hq' := List.mem_cons_of_mem (elem, sizeofList) hq
    rw [hload₃ q hq' (hnodup q hq), hload₂ q hq' (hnodup q hq), hkeeps.load q hq]
  have hdata₃ : t₃.load elem = d := by
    rw [← hdata]
    apply Memory.readWord_writeWord_of_ne
    rw [toNat_add_four hbound]
    omega
  refine ⟨0, _, hexec, .inr ⟨rfl, ?_, hkeeps.prints, fun q hq => ?_⟩⟩
  · obtain ⟨l, blocks, hheap, hholds⟩ := hinv₃
    have hperm : ((elem, sizeofList) :: (d, sizeofInt) :: extra ++ blocks).Perm
        (extra ++ (elem, sizeofList) :: (d, sizeofInt) :: blocks) := by
      refine (List.Perm.cons _ List.perm_middle.symm).trans ?_
      exact List.perm_middle.symm
    refine ⟨l, (elem, sizeofList) :: (d, sizeofInt) :: blocks, hheap.perm hperm, blocks, ?_, ?_, ?_⟩
    · rw [show t₃.heap.mem.readWord elem.toNat = d from hdata₃]
    · rw [show t₃.heap.mem.readWord elem.toNat = d from hdata₃]
      exact congrArg asInt (hload d List.mem_cons_self)
    · rw [show t₃.heap.mem.readWord (elem + 4).toNat = t₁.top from hnext]
      exact hholds
  · exact hload q (List.mem_cons_of_mem _ hq)

end StackInv

end Calc

end Osm.Userland
