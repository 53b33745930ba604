import Osm.Userland.HeapRuns

/-!
# `calloc` and `realloc`

Both get a block from `malloc` and store bytes in it one by one; `realloc` takes them from the old
block, which it then frees. A program that calls them does nothing that it could not do by calls of
`malloc` and `free` and by writes to a payload, so that the heap is always as in
`Osm.Userland.HeapRuns`.
-/

namespace Osm.Userland

open Osm.Core

/-- `ptr[i] = byte`. -/
def Heap.setByte (h : Heap) (a : UInt32) (byte : UInt8) : Heap :=
  { h with mem := Function.update h.mem a.toNat byte }

/-- `ptr[i]` is assigned to for every `i` below a bound, from `0` on. -/
def storeBytes (h : Heap) (ptr : UInt32) (byte : Memory → ℕ → UInt8) : ℕ → Heap
  | 0     => h
  | i + 1 =>
    let h := storeBytes h ptr byte i
    h.setByte (ptr + UInt32.ofNat i) (byte h.mem i)

/-- `calloc`. -/
def calloc (h : Heap) (nmemb size : UInt32) (grant : Bool) : Option (Heap × UInt32) := do
  let (h, ptr) ← malloc h (nmemb * size) grant
  return (if ptr ≠ 0 then storeBytes h ptr (fun _ _ => 0) (nmemb * size).toNat else h, ptr)

/-- The loop of `realloc`: the new heap, and the addresses of the bytes that are read. -/
def copyBytes (h : Heap) (newPtr ptr : UInt32) (size : ℕ) : Heap × List ℕ :=
  (storeBytes h newPtr (fun mem i => mem (ptr + UInt32.ofNat i).toNat) size,
    (List.range size).map fun i => (ptr + UInt32.ofNat i).toNat)

/-- `realloc`. -/
def realloc (h : Heap) (ptr size : UInt32) (grant : Bool) : Option (Heap × UInt32) :=
  if ptr = 0 then malloc h size grant
  else if size = 0 then (free h ptr).map fun h => (h, 0)
  else do
    let (h, newPtr) ← malloc h size grant
    if newPtr ≠ 0 then
      let h ← free (copyBytes h newPtr ptr size.toNat).1 ptr
      return (h, newPtr)
    else return (h, newPtr)

/-- The addresses of the bytes that `realloc` reads in its loop. -/
def reallocReads (h : Heap) (ptr size : UInt32) (grant : Bool) : List ℕ :=
  if ptr = 0 ∨ size = 0 then []
  else
    match malloc h size grant with
    | some (h, newPtr) => if newPtr ≠ 0 then (copyBytes h newPtr ptr size.toNat).2 else []
    | none             => []

/-! ### Storing bytes -/

section StoreBytes

variable {h : Heap} {ptr : UInt32} {byte : Memory → ℕ → UInt8} {n i x : ℕ}

lemma toNat_add_ofNat (h : ptr.toNat + i < 2 ^ 32) : (ptr + UInt32.ofNat i).toNat = ptr.toNat + i := by
  rw [UInt32.toNat_add, UInt32.toNat_ofNat', Nat.add_mod_mod, Nat.mod_eq_of_lt h]

@[simp]
lemma storeBytes_heapEnd : (storeBytes h ptr byte n).heapEnd = h.heapEnd := by
  induction n with
  | zero => rfl
  | succ n ih => exact ih

@[simp]
lemma storeBytes_freeList : (storeBytes h ptr byte n).freeList = h.freeList := by
  induction n with
  | zero => rfl
  | succ n ih => exact ih

lemma storeBytes_of_outside (hn : ptr.toNat + n ≤ 2 ^ 32) (hx : x < ptr.toNat ∨ ptr.toNat + n ≤ x) :
    (storeBytes h ptr byte n).mem x = h.mem x := by
  induction n with
  | zero => rfl
  | succ n ih =>
    have haddr : (ptr + UInt32.ofNat n).toNat = ptr.toNat + n := toNat_add_ofNat (by omega)
    have hne : x ≠ (ptr + UInt32.ofNat n).toNat := by omega
    exact (Function.update_of_ne hne _ _).trans (ih (by omega) (by omega))

/-- A byte is stored once. -/
lemma storeBytes_inside (hn : ptr.toNat + n ≤ 2 ^ 32) (hi : i < n) :
    (storeBytes h ptr byte n).mem (ptr.toNat + i) = byte (storeBytes h ptr byte i).mem i := by
  induction n with
  | zero => exact absurd hi (Nat.not_lt_zero i)
  | succ n ih =>
    have haddr : (ptr + UInt32.ofNat n).toNat = ptr.toNat + n := toNat_add_ofNat (by omega)
    rcases Nat.lt_succ_iff_lt_or_eq.mp hi with hi | rfl
    · have hne : ptr.toNat + i ≠ (ptr + UInt32.ofNat n).toNat := by omega
      exact (Function.update_of_ne hne _ _).trans (ih (by omega) hi)
    · rw [← haddr]
      exact Function.update_self _ _ _

end StoreBytes

/-! ### Runs -/

section Runs

variable {base n : ℕ} {P : Program} {l : List Block} {ptr size : UInt32}
  {byte : Memory → ℕ → UInt8}

/-- Storing bytes in a payload does not change its header. -/
lemma storeBytes_header (h : HeapInv base P l) (hlive : (ptr, size) ∈ P.live)
    (hroom : n + 4 ≤ (P.heap.mem.readWord (ptr.toNat - 4)).toNat) :
    (storeBytes P.heap ptr byte n).mem.readWord (ptr.toNat - 4) =
      P.heap.mem.readWord (ptr.toNat - 4) := by
  obtain ⟨hptr, -, -, hend⟩ := h.live_bounds hlive
  have hbound := h.rep.bound
  exact Memory.readWord_congr fun x _ hx => storeBytes_of_outside (by omega) (by omega)

/-- Storing bytes in a payload are writes of the program. -/
lemma storeBytes_steps (h : HeapInv base P l) (hlive : (ptr, size) ∈ P.live)
    (hroom : n + 4 ≤ (P.heap.mem.readWord (ptr.toNat - 4)).toNat) :
    Relation.ReflTransGen Step P { P with heap := storeBytes P.heap ptr byte n } := by
  obtain ⟨hptr, -, -, hend⟩ := h.live_bounds hlive
  have hbound := h.rep.bound
  induction n with
  | zero => exact .refl
  | succ n ih =>
    have hroom' : n + 4 ≤ (P.heap.mem.readWord (ptr.toNat - 4)).toNat := by omega
    refine (ih hroom').tail ?_
    have haddr : (ptr + UInt32.ofNat n).toNat = ptr.toNat + n := toNat_add_ofNat (by omega)
    have hin : InPayload (storeBytes P.heap ptr byte n) ptr (ptr + UInt32.ofNat n).toNat := by
      rw [InPayload, haddr, storeBytes_header h hlive hroom']
      omega
    exact Step.write (P := { P with heap := storeBytes P.heap ptr byte n }) _ hlive hin

/-- Storing bytes in a payload leaves the other blocks alone. -/
lemma storeBytes_sameBlock (h : HeapInv base P l) (hlive : (ptr, size) ∈ P.live)
    (hroom : n + 4 ≤ (P.heap.mem.readWord (ptr.toNat - 4)).toNat) {ptr' size' : UInt32}
    (hlive' : (ptr', size') ∈ P.live) (hne : ptr ≠ ptr') :
    SameBlock P.heap (storeBytes P.heap ptr byte n) ptr' := by
  intro x hle hlt
  obtain ⟨hptr, -, -, hend⟩ := h.live_bounds hlive
  have hbound := h.rep.bound
  have hapart := h.live_apart hlive hlive' hne
  exact storeBytes_of_outside (by omega) (by omega)

end Runs

/-- The state of a program in which the block of `ptr` has been exchanged for one of `n` bytes. -/
def Program.moved (P : Program) (ptr size q n : UInt32) (h' : Heap) : Program where
  heap := h'
  live := (q, n) :: P.live.erase (ptr, size)

/-- What a call of `realloc` that does not fail establishes. -/
structure Moves (base : ℕ) (P : Program) (ptr size q n : UInt32) (h' : Heap) : Prop where
  ne_zero : q ≠ 0
  /-- There is room for `n` bytes at `q`. -/
  room    : ∀ i < n.toNat, InPayload h' q (q.toNat + i)
  /-- As many bytes of the old payload as there are among the first `n` ones are kept. -/
  kept    : ∀ i < n.toNat, InPayload P.heap ptr (ptr.toNat + i) →
    h'.mem (q.toNat + i) = P.heap.mem (ptr.toNat + i)
  /-- The old block is part of a free block, and no two free blocks are adjacent. -/
  freed   : ∃ l', HeapInv base (P.moved ptr size q n h') l' ∧ ∃ b ∈ l', b.used = none ∧
    b.addr ≤ ptr.toNat - 4 ∧
    ptr.toNat - 4 + (P.heap.mem.readWord (ptr.toNat - 4)).toNat ≤ b.addr + b.size
  /-- The other blocks are left alone. -/
  others  : ∀ e ∈ P.live, e.1 ≠ ptr → SameBlock P.heap h' e.1

section Realloc

variable {base : ℕ} {P P₁ : Program} {l l₁ : List Block} {ptr size q n : UInt32} {i : ℕ}

/-- The bytes that are copied to a new block are those of the old one. -/
lemma copyBytes_kept (h₁ : HeapInv base P₁ l₁) (hq : (q, n) ∈ P₁.live)
    (hlive : (ptr, size) ∈ P₁.live) (hne : q ≠ ptr) (hi : i < n.toNat)
    (hin : InPayload P₁.heap ptr (ptr.toNat + i)) :
    (copyBytes P₁.heap q ptr n.toNat).1.mem (q.toNat + i) = P₁.heap.mem (ptr.toNat + i) := by
  obtain ⟨hq4, -, hroom, hqend⟩ := h₁.live_bounds hq
  obtain ⟨hptr4, -, -, hptrend⟩ := h₁.live_bounds hlive
  have hbound := h₁.rep.bound
  have hapart := h₁.live_apart hq hlive hne
  have hlt := hin.2
  have haddr : (ptr + UInt32.ofNat i).toNat = ptr.toNat + i := toNat_add_ofNat (by omega)
  rw [copyBytes, storeBytes_inside (by omega) hi, haddr]
  exact storeBytes_of_outside (by omega) (by omega)

/-- A block is copied to a new one and then freed. -/
lemma copyBytes_free (h : HeapInv base P l) (h₁ : HeapInv base P₁ l₁)
    (hadd : P₁.live = (q, n) :: P.live) (hq : q ≠ 0)
    (hsame : ∀ e ∈ P.live, SameBlock P.heap P₁.heap e.1) (hlive : (ptr, size) ∈ P.live) :
    ∃ h', free (copyBytes P₁.heap q ptr n.toNat).1 ptr = some h' ∧
      Relation.ReflTransGen Step P₁ (P.moved ptr size q n h') ∧ Moves base P ptr size q n h' := by
  have hqlive : (q, n) ∈ P₁.live := by simp [hadd]
  have hold : ∀ e ∈ P.live, e ∈ P₁.live := fun e he => by simp [hadd, he]
  have hfresh : ∀ e ∈ P.live, q ≠ e.1 := by
    have hnodup := h₁.live_nodup
    rw [hadd, List.map_cons, List.nodup_cons] at hnodup
    rintro e he rfl
    exact hnodup.1 (List.mem_map.mpr ⟨e, he, rfl⟩)
  have hqptr : q ≠ ptr := hfresh _ hlive
  have hsize : ∀ e ∈ P.live, 4 ≤ (P.heap.mem.readWord (e.1.toNat - 4)).toNat :=
    fun e he => (Nat.le_add_left 4 8).trans (h.live_bounds he).2.1
  have hroom := (h₁.live_bounds hqlive).2.2.1
  -- after the loop
  have hcopy : Relation.ReflTransGen Step P₁
      { P₁ with heap := (copyBytes P₁.heap q ptr n.toNat).1 } :=
    storeBytes_steps h₁ hqlive hroom
  obtain ⟨l₂, h₂⟩ := h₁.steps hcopy
  have hcopied : ∀ e ∈ P.live, SameBlock P.heap (copyBytes P₁.heap q ptr n.toNat).1 e.1 := by
    intro e he
    have hstore : SameBlock P₁.heap (copyBytes P₁.heap q ptr n.toNat).1 e.1 :=
      storeBytes_sameBlock h₁ hqlive hroom (hold e he) (hfresh e he)
    exact (hsame e he).trans (hsize e he) hstore
  -- after `free`
  obtain ⟨h', l', hfree, h₃, ⟨b, hb, hfreed⟩, hothers⟩ := h₂.free_spec (hold _ hlive)
  have hmoved : P₁.live.erase (ptr, size) = (q, n) :: P.live.erase (ptr, size) := by
    rw [hadd]
    exact List.erase_cons_tail (by simpa using fun heq => absurd heq hqptr)
  rw [hmoved] at h₃
  have hstep : Step { P₁ with heap := (copyBytes P₁.heap q ptr n.toNat).1 }
      { heap := h', live := P₁.live.erase (ptr, size) } :=
    Step.free (P := { P₁ with heap := (copyBytes P₁.heap q ptr n.toNat).1 }) (hold _ hlive) hfree
  rw [hmoved] at hstep
  have hqsame : SameBlock (copyBytes P₁.heap q ptr n.toNat).1 h' q := hothers _ hqlive hqptr
  refine ⟨h', hfree, hcopy.tail hstep, hq, fun i hi => ?_, fun i hi hin => ?_,
    ⟨l', h₃, b, hb, hfreed.1, hfreed.2.1, ?_⟩, fun e he hne => ?_⟩
  · have hbounds : 4 ≤ q.toNat ∧ n.toNat + 4 ≤ (h'.mem.readWord (q.toNat - 4)).toNat :=
      ⟨(h₃.live_bounds List.mem_cons_self).1, (h₃.live_bounds List.mem_cons_self).2.2.1⟩
    exact ⟨Nat.le_add_right _ _, by omega⟩
  · have hin₁ : InPayload P₁.heap ptr (ptr.toNat + i) := by
      rw [InPayload, (hsame _ hlive).header (hsize _ hlive)]
      exact hin
    have hq4 := (h₁.live_bounds hqlive).1
    calc h'.mem (q.toNat + i)
        = (copyBytes P₁.heap q ptr n.toNat).1.mem (q.toNat + i) := by
          refine hqsame _ (by omega) ?_
          rw [copyBytes, storeBytes_header h₁ hqlive hroom]
          omega
      _ = P₁.heap.mem (ptr.toNat + i) := copyBytes_kept h₁ hqlive (hold _ hlive) hqptr hi hin₁
      _ = P.heap.mem (ptr.toNat + i) := (hsame _ hlive).payload hin
  · rw [← (hcopied _ hlive).header (hsize _ hlive)]
    exact hfreed.2.2
  · exact (hcopied e he).trans (hsize e he) (hothers e (hold e he) hne)

end Realloc

/-- Whenever `realloc` does not fail, the program is in a state that it could also reach by calls of
`malloc` and `free` and by writes, and the payload is in its new place. -/
theorem realloc_preserves {mem : Memory} {heapEnd : UInt32} (hpos : heapEnd ≠ 0)
    (hdvd : 4 ∣ heapEnd.toNat) (hlt : heapEnd.toNat < 2 ^ 31) {P : Program}
    (h : Reachable mem heapEnd P) {ptr size n : UInt32} (hlive : (ptr, size) ∈ P.live) (hn : n ≠ 0)
    (hle : n.toNat ≤ 2 ^ 30) (grant : Bool)
    (hbound : ∀ h' q, malloc P.heap n grant = some (h', q) → h'.heapEnd.toNat < 2 ^ 31) :
    ∃ h' q, realloc P.heap ptr n grant = some (h', q) ∧
      (q = 0 ∧ h' = P.heap ∨
        Reachable mem heapEnd (P.moved ptr size q n h') ∧
          Moves heapEnd.toNat P ptr size q n h') := by
  obtain ⟨l, hl⟩ := h.heapInv hpos hdvd hlt
  have hptr : ptr ≠ 0 := by
    have h4 := (hl.live_bounds hlive).1
    exact ne_zero_of_toNat_pos (by omega)
  have hroom : n.toNat + 4 ≤ 2 ^ 31 := by omega
  obtain ⟨h₁, q, hmalloc, hcases⟩ := hl.malloc_spec hroom grant
  have hbound₁ := hbound h₁ q hmalloc
  rw [realloc, if_neg hptr, if_neg hn, hmalloc]
  rcases hcases hbound₁ with ⟨rfl, rfl⟩ | ⟨hq, l₁, hl₁, hsame⟩
  · exact ⟨P.heap, 0, rfl, .inl ⟨rfl, rfl⟩⟩
  · obtain ⟨h', hfree, hsteps, hmoves⟩ := copyBytes_free hl hl₁ rfl hq hsame hlive
    refine ⟨h', q, ?_, .inr ⟨?_, hmoves⟩⟩
    · rw [Option.bind_eq_bind, Option.bind_some]
      dsimp only at hfree ⊢
      rw [if_pos hq, hfree]
      rfl
    · have hstep := Step.malloc hle hmalloc hbound₁
      rw [if_neg hq] at hstep
      exact (h.tail hstep).trans hsteps

/-- A program asks for 10 bytes and then for 20 bytes instead. -/
def enlargeFirst : Option ((Heap × UInt32) × (Heap × UInt32) × Heap × UInt32) := do
  let first ← malloc (Program.initial (fun _ => 0) 0x1000).heap 10 true
  let second ← malloc first.1 20 true
  let third ← realloc first.1 first.2 20 true
  return (first, second, third)

lemma enlargeFirst_run : enlargeFirst.any (fun r =>
    r.1.2 = 0x1004 ∧ r.1.1.heapEnd.toNat < 2 ^ 31 ∧ r.2.1.1.heapEnd.toNat < 2 ^ 31 ∧
      r.2.2.2 = 0x1014) = true := by
  decide +kernel

theorem realloc_preserves_enlarged : ∃ P h', Reachable (fun _ => 0) 0x1000 P ∧
    P.live = [(0x1004, 10)] ∧ realloc P.heap 0x1004 20 true = some (h', 0x1014) ∧
    Moves 0x1000 P 0x1004 10 0x1014 20 h' := by
  obtain ⟨⟨⟨h₁, p₁⟩, ⟨h₂, p₂⟩, h₃, p₃⟩, hrun, hval⟩ :=
    (Option.any_eq_true _ _).mp enlargeFirst_run
  obtain ⟨rfl, hb₁, hb₂, rfl⟩ := of_decide_eq_true hval
  simp only [enlargeFirst, Option.bind_eq_bind, Option.bind_eq_some_iff, Option.pure_def,
    Option.some.injEq, Prod.mk.injEq] at hrun
  obtain ⟨_, hr₁, _, hr₂, _, hr₃, rfl, rfl, rfl⟩ := hrun
  have hreach : Reachable (fun _ => 0) 0x1000 { heap := h₁, live := [(0x1004, 10)] } :=
    Relation.ReflTransGen.single (Step.malloc (by decide) hr₁ hb₁)
  have hbound : ∀ h' q, malloc h₁ 20 true = some (h', q) → h'.heapEnd.toNat < 2 ^ 31 := by
    intro h' q hres
    cases hr₂.symm.trans hres
    exact hb₂
  obtain ⟨h', q, hexec, hcases⟩ := realloc_preserves (by decide) (by decide) (by decide) hreach
    (List.mem_singleton_self _) (by decide) (by decide) true hbound
  cases hr₃.symm.trans hexec
  rcases hcases with ⟨hzero, -⟩ | ⟨-, hmoves⟩
  · exact absurd hzero (by decide)
  · exact ⟨_, h₃, hreach, rfl, hr₃, hmoves⟩

end Osm.Userland
