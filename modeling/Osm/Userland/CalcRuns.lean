import Osm.Userland.CalcHeap

/-!
# What the calculator computes

`Machine` is the calculator as it is meant: a stack of numbers and what has been printed. The
program does the same for all lines, without a block lost, until the kernel refuses memory; then it
says so and exits. So the lines that compute a term print its value.
-/

namespace Osm.Userland

open Osm.Core Osm.Lib

/-! ### Strings -/

/-- Characters are compared one after the other. -/
lemma strncmp_succ_eq_zero {s₁ s₂ : List UInt8} (h : s₁ ≠ [] ∨ s₂ ≠ []) (n : ℕ) :
    strncmp s₁ s₂ (n + 1) = 0 ↔ s₁.headD 0 = s₂.headD 0 ∧ strncmp s₁.tail s₂.tail n = 0 := by
  have hexec : strncmp s₁ s₂ (n + 1) =
      if (s₁.headD 0).toInt8 < (s₂.headD 0).toInt8 then -1
      else if (s₁.headD 0).toInt8 > (s₂.headD 0).toInt8 then 1
      else strncmp s₁.tail s₂.tail n := by
    rw [strncmp]
    rintro rfl rfl
    simp at h
  rw [hexec]
  by_cases heq : s₁.headD 0 = s₂.headD 0
  · have hlt : ¬ (s₂.headD 0).toInt8 < (s₂.headD 0).toInt8 := Int8.lt_irrefl
    simp only [heq, gt_iff_lt, hlt, if_false, true_and]
  · have hne : (s₁.headD 0).toInt8.toInt ≠ (s₂.headD 0).toInt8.toInt := by
      intro h
      have hbytes := congrArg Int8.toUInt8 (Int8.toInt_inj.mp h)
      exact heq (by simpa using hbytes)
    simp only [heq, false_and, iff_false, gt_iff_lt, Int8.lt_iff_toInt_lt]
    split_ifs with hlt hgt
    · simp
    · simp
    · omega

lemma strncmp_eq_zero {s₁ s₂ : List UInt8} {n : ℕ} (h₁ : 0 ∉ s₁) (h₂ : 0 ∉ s₂)
    (hn₁ : s₁.length ≤ n) (hn₂ : s₂.length ≤ n) : strncmp s₁ s₂ n = 0 ↔ s₁ = s₂ := by
  induction n generalizing s₁ s₂ with
  | zero =>
    obtain rfl := List.length_eq_zero_iff.mp (Nat.le_zero.mp hn₁)
    obtain rfl := List.length_eq_zero_iff.mp (Nat.le_zero.mp hn₂)
    simp [strncmp]
  | succ n ih =>
    cases s₁ with
    | nil =>
      cases s₂ with
      | nil => simp [strncmp]
      | cons y s₂ =>
        have hy : 0 ≠ y := fun h => h₂ (h ▸ List.mem_cons_self)
        rw [strncmp_succ_eq_zero (.inr (List.cons_ne_nil _ _))]
        simp [hy]
    | cons x s₁ =>
      rw [strncmp_succ_eq_zero (.inl (List.cons_ne_nil _ _))]
      cases s₂ with
      | nil =>
        have hx : x ≠ 0 := fun h => h₁ (h ▸ List.mem_cons_self)
        simp [hx]
      | cons y s₂ =>
        rw [List.mem_cons, not_or] at h₁ h₂
        have hrest := ih h₁.2 h₂.2 (Nat.le_of_succ_le_succ hn₁) (Nat.le_of_succ_le_succ hn₂)
        simp [hrest]

namespace Calc

/-! ### The calculator as it is meant -/

/-- The numbers on the stack and the calls of `printf`. -/
structure Machine where
  stack  : List ℤ := []
  prints : List Print := []

namespace Machine

def printf (m : Machine) (fmt : List UInt8) (args : List ℤ) : Machine :=
  { m with prints := m.prints ++ [⟨fmt, args⟩] }

def push (x : ℤ) (m : Machine) : Machine := { m with stack := x :: m.stack }

/-- The two numbers on the top of the stack are replaced by the result, if there are two. -/
def binop (m : Machine) (op : ℤ → ℤ → Option ℤ) : Option Machine :=
  match m.stack with
  | x :: y :: s => (op x y).map fun z => { m with stack := z :: s }
  | _           => some (m.printf (bytes "Too few elements on stack.\n") [])

/-- The number on the top of the stack is printed. -/
def printTop (m : Machine) : Machine :=
  match m.stack with
  | []     => m.printf (bytes "Stack is empty.\n") []
  | x :: _ => m.printf (bytes "%d\n") [x]

/-- What a line does. -/
def round (m : Machine) (line : List UInt8) : Option (Outcome Machine) :=
  if line = bytes "" then some (.exited 0 m)
  else if line = bytes "+" then (m.binop plus).map .running
  else if line = bytes "-" then (m.binop sub).map .running
  else if line = bytes "*" then (m.binop mult).map .running
  else if line = bytes "/" then (m.binop divn).map .running
  else if line = bytes "p" then some (.running m.printTop)
  else if numeric line then (atoi line).map fun x => .running (m.push x)
  else some (.running (m.printf (bytes "Bad input.\n") []))

end Machine

/-- The program has the numbers of the machine on its stack, has lost no block and has printed the
same. -/
def Sim (base : ℕ) (t : State) (m : Machine) : Prop :=
  StackInv base t m.stack [] ∧ t.prints = m.prints

/-- The kernel has refused memory, and the program has exited with a message. -/
def GivesUp (grant : ℕ → UInt32 → Bool) (m : Machine) (status : ℤ) (t : State) : Prop :=
  Refused grant t ∧ status = 1 ∧ t.prints = m.prints ++ [⟨bytes "Out of memory.\n", []⟩]

/-- The program does what the machine does, or gives up. -/
def Agrees (base : ℕ) (grant : ℕ → UInt32 → Bool) (m : Machine) (o : Option (Outcome State))
    (o' : Option (Outcome Machine)) : Prop :=
  Option.Rel (Outcome.Rel (Sim base)) o o' ∨
    ∃ status t, o = some (.exited status t) ∧ GivesUp grant m status t

section Rounds

variable {base : ℕ} {grant : ℕ → UInt32 → Bool} {t : State} {m : Machine} {s : List ℤ} {z : UInt32}

lemma agrees_running {t' : State} {m' : Machine} (h : Sim base t' m') :
    Agrees base grant m (some (.running t')) (some (.running m')) :=
  .inl (.some (.running h))

lemma agrees_outOfMemory {o : Option (Outcome Machine)} (hrefused : Refused grant t)
    (hprints : t.prints = m.prints) : Agrees base grant m (some (outOfMemory t)) o := by
  refine .inr ⟨1, _, rfl, hrefused, rfl, ?_⟩
  rw [State.printf, hprints]

/-- Printing leaves the stack alone. -/
lemma Sim.printf (h : Sim base t m) (fmt : List UInt8) (args : List ℤ) :
    Sim base (t.printf fmt args) (m.printf fmt args) := by
  refine ⟨h.1, ?_⟩
  rw [State.printf, Machine.printf, h.2]

lemma agrees_tooFewElements (hinv : StackInv base t m.stack [(z, sizeofInt)])
    (hprints : t.prints = m.prints) :
    Agrees base grant m (tooFewElements t z)
      (some (.running (m.printf (bytes "Too few elements on stack.\n") []))) := by
  obtain ⟨h', hfree, hinv', hkeeps⟩ := hinv.free
  rw [tooFewElements, State.free_eq hfree]
  refine agrees_running (Sim.printf ⟨hinv', ?_⟩ _ _)
  exact hkeeps.prints.trans hprints

/-- A binary operation on the stack. -/
lemma performBinop_agrees (h : Sim base t m) (hgrant : Bounded grant) {op : ℤ → ℤ → Option ℤ}
    (hop : ∀ x y z, op x y = some z → -2 ^ 31 ≤ z ∧ z < 2 ^ 31) :
    Agrees base grant m (performBinop grant t op) ((m.binop op).map .running) := by
  obtain ⟨hinv, hprints⟩ := h
  obtain ⟨z, t₁, hmalloc, ⟨rfl, hrefused, hprints₁⟩ | ⟨hz, hinv₁, hkeeps₁⟩⟩ :=
    hinv.malloc hgrant (.inl rfl)
  · have hexec : performBinop grant t op = some (outOfMemory t₁) := by
      rw [performBinop, hmalloc]
      rfl
    rw [hexec]
    exact agrees_outOfMemory hrefused (hprints₁.trans hprints)
  have hprints₁ := hkeeps₁.prints.trans hprints
  have hempty₁ := hinv₁.stackEmpty_eq
  cases hstack : m.stack with
  | nil =>
    have hexec : performBinop grant t op = tooFewElements t₁ z := by
      rw [hstack, List.isEmpty_nil] at hempty₁
      simp only [performBinop, hmalloc, Option.bind_eq_bind, Option.bind_some, if_neg hz, hempty₁,
        not_true_eq_false, if_false]
    rw [hexec, Machine.binop, hstack]
    exact agrees_tooFewElements hinv₁ hprints₁
  | cons x s =>
    rw [hstack] at hinv₁ hempty₁
    obtain ⟨px, t₂, hpop₁, hinv₂, hx, hkeeps₂⟩ := hinv₁.stackPop
    have hprints₂ := hkeeps₂.prints.trans hprints₁
    have hempty₂ := hinv₂.stackEmpty_eq
    cases s with
    | nil =>
      -- the number is pushed again
      obtain ⟨code, t₃, hpush, hcases⟩ := hinv₂.stackPush hgrant
      have hexec : performBinop grant t op =
          if code = 1 then some (outOfMemory t₃) else tooFewElements t₃ z := by
        simp only [performBinop, hmalloc, Option.bind_eq_bind, Option.bind_some, if_neg hz, hempty₁,
          hempty₂, hpop₁, hpush, List.isEmpty_nil, List.isEmpty_cons, Bool.false_eq_true,
          not_false_eq_true, not_true_eq_false, if_true, if_false]
        rfl
      rw [hexec, Machine.binop, hstack]
      rcases hcases with ⟨rfl, hrefused, hprints₃⟩ | ⟨rfl, hinv₃, hkeeps₃⟩
      · rw [if_pos rfl]
        exact agrees_outOfMemory hrefused (hprints₃.trans hprints₂)
      · rw [if_neg (by decide)]
        rw [hx, ← hstack] at hinv₃
        exact agrees_tooFewElements hinv₃ (hkeeps₃.prints.trans hprints₂)
    | cons y s =>
      obtain ⟨py, t₃, hpop₂, hinv₃, hy, hkeeps₃⟩ := hinv₂.stackPop
      have hprints₃ := hkeeps₃.prints.trans hprints₂
      have hx₃ : asInt (t₃.load px) = x := by rw [hkeeps₃.load px List.mem_cons_self, hx]
      rw [Machine.binop, hstack]
      dsimp only
      cases hvalue : op x y with
      | none =>
        have hexec : performBinop grant t op = none := by
          simp only [performBinop, hmalloc, Option.bind_eq_bind, Option.bind_some, if_neg hz,
            hempty₁, hempty₂, hpop₁, hpop₂, hx₃, hy, List.isEmpty_cons, Bool.false_eq_true,
            not_false_eq_true, if_true, hvalue, Option.bind_none]
        rw [hexec]
        exact .inl .none
      | some value =>
        have hz₃ : (z, sizeofInt) ∈ [(py, sizeofInt), (px, sizeofInt), (z, sizeofInt)] := by simp
        obtain ⟨hinv₄, hload, -⟩ := hinv₃.store hz₃ sizes_room.1 (a := z) rfl (intWord value)
        obtain ⟨h₅, hfree₅, hinv₅, hkeeps₅⟩ := (hinv₄.perm (List.Perm.swap _ _ _)).free
        obtain ⟨h₆, hfree₆, hinv₆, hkeeps₆⟩ := hinv₅.free
        obtain ⟨code, t₇, hpush, hcases⟩ := hinv₆.stackPush hgrant
        have hexec : performBinop grant t op =
            if code = 1 then some (outOfMemory t₇) else some (.running t₇) := by
          simp only [performBinop, hmalloc, Option.bind_eq_bind, Option.bind_some, if_neg hz,
            hempty₁, hempty₂, hpop₁, hpop₂, hx₃, hy, List.isEmpty_cons, Bool.false_eq_true,
            not_false_eq_true, if_true, hvalue]
          rw [State.free_eq hfree₅]
          simp only [Option.bind_some]
          rw [State.free_eq hfree₆]
          simp only [Option.bind_some, hpush]
          rfl
        have hprints₆ := hkeeps₆.prints.trans (hkeeps₅.prints.trans hprints₃)
        rw [hexec]
        rcases hcases with ⟨rfl, hrefused, hprints₇⟩ | ⟨rfl, hinv₇, hkeeps₇⟩
        · rw [if_pos rfl]
          exact agrees_outOfMemory hrefused (hprints₇.trans hprints₆)
        · rw [if_neg (by decide)]
          rw [hkeeps₆.load z (by simp), hkeeps₅.load z (by simp), hload,
            asInt_intWord (hop x y value hvalue)] at hinv₇
          exact agrees_running ⟨hinv₇, hkeeps₇.prints.trans hprints₆⟩

/-- A number is pushed. -/
lemma pushInt_agrees (h : Sim base t m) (hgrant : Bounded grant) {x : ℤ}
    (hx : -2 ^ 31 ≤ x ∧ x < 2 ^ 31) :
    Agrees base grant m (pushInt grant t x) (some (.running (m.push x))) := by
  obtain ⟨hinv, hprints⟩ := h
  obtain ⟨d, t₁, hmalloc, ⟨rfl, hrefused, hprints₁⟩ | ⟨hd, hinv₁, hkeeps₁⟩⟩ :=
    hinv.malloc hgrant (.inl rfl)
  · have hexec : pushInt grant t x = some (outOfMemory t₁) := by
      rw [pushInt, hmalloc]
      rfl
    rw [hexec]
    exact agrees_outOfMemory hrefused (hprints₁.trans hprints)
  have hprints₁ := hkeeps₁.prints.trans hprints
  obtain ⟨hinv₂, hload, -⟩ := hinv₁.store List.mem_cons_self sizes_room.1 (a := d) rfl (intWord x)
  obtain ⟨code, t₃, hpush, hcases⟩ := hinv₂.stackPush hgrant
  have hexec : pushInt grant t x =
      if code ≠ 0 then some (outOfMemory t₃) else some (.running t₃) := by
    simp only [pushInt, hmalloc, Option.bind_eq_bind, Option.bind_some, if_neg hd, hpush]
    rfl
  rw [hexec]
  rcases hcases with ⟨rfl, hrefused, hprints₃⟩ | ⟨rfl, hinv₃, hkeeps₃⟩
  · rw [if_pos (by decide)]
    exact agrees_outOfMemory hrefused (hprints₃.trans hprints₁)
  · rw [if_neg (by decide)]
    rw [hload, asInt_intWord hx] at hinv₃
    exact agrees_running ⟨hinv₃, hkeeps₃.prints.trans hprints₁⟩

/-! ### A line -/

lemma range_of_checkInt {x y : ℤ} (h : checkInt x = some y) : -2 ^ 31 ≤ y ∧ y < 2 ^ 31 := by
  unfold checkInt at h
  split_ifs at h with hrange
  cases h
  exact hrange

lemma range_of_divn {x y z : ℤ} (h : divn x y = some z) : -2 ^ 31 ≤ z ∧ z < 2 ^ 31 := by
  unfold divn at h
  split_ifs at h
  exact range_of_checkInt h

lemma range_of_atoiDigits {line : List UInt8} {value x : ℤ}
    (hvalue : -2 ^ 31 ≤ value ∧ value < 2 ^ 31) (h : atoiDigits 1 value line = some x) :
    -2 ^ 31 ≤ x ∧ x < 2 ^ 31 := by
  induction line generalizing value with
  | nil =>
    cases h
    exact hvalue
  | cons c line ih =>
    rw [atoiDigits] at h
    split_ifs at h
    · simp only [Option.bind_eq_bind, Option.bind_eq_some_iff] at h
      obtain ⟨_, -, _, -, value', hcheck, h⟩ := h
      exact ih (range_of_checkInt hcheck) h
    · cases h
      exact hvalue

/-- A line that `readline` leaves in the buffer. -/
structure IsLine (line : List UInt8) : Prop where
  noNul : 0 ∉ line
  fits  : line.length < bufferSize

lemma IsLine.strcmp_eq_zero {line : List UInt8} (h : IsLine line) {s : List UInt8} (hs : 0 ∉ s)
    (hlen : s.length ≤ 1) : strcmp line s = 0 ↔ line = s := by
  have hfits : line.length < 20 := h.fits
  exact strncmp_eq_zero h.noNul hs (by omega) (by omega)

lemma mainRound_agrees (h : Sim base t m) (hgrant : Bounded grant) {line : List UInt8}
    (hline : IsLine line) : Agrees base grant m (mainRound grant t line) (m.round line) := by
  rw [mainRound, Machine.round]
  simp only [hline.strcmp_eq_zero (s := bytes "") (by decide) (by decide),
    hline.strcmp_eq_zero (s := bytes "+") (by decide) (by decide),
    hline.strcmp_eq_zero (s := bytes "-") (by decide) (by decide),
    hline.strcmp_eq_zero (s := bytes "*") (by decide) (by decide),
    hline.strcmp_eq_zero (s := bytes "/") (by decide) (by decide),
    hline.strcmp_eq_zero (s := bytes "p") (by decide) (by decide)]
  split_ifs with hempty hplus hsub hmult hdivn hp hstack hnumeric
  · exact .inl (.some (.exited h))
  · exact performBinop_agrees h hgrant fun _ _ _ => range_of_checkInt
  · exact performBinop_agrees h hgrant fun _ _ _ => range_of_checkInt
  · exact performBinop_agrees h hgrant fun _ _ _ => range_of_checkInt
  · exact performBinop_agrees h hgrant fun _ _ _ => range_of_divn
  · rw [h.1.stackEmpty_eq, List.isEmpty_iff] at hstack
    rw [Machine.printTop, hstack]
    exact agrees_running (h.printf _ _)
  · obtain ⟨x, s, hs⟩ : ∃ x s, m.stack = x :: s := by
      apply List.exists_cons_of_ne_nil
      rw [h.1.stackEmpty_eq, List.isEmpty_iff] at hstack
      exact hstack
    have hinv := h.1
    rw [hs] at hinv
    rw [Machine.printTop, hs, hinv.stackTop_eq]
    exact agrees_running (h.printf _ _)
  · cases hx : atoi line with
    | none => exact .inl .none
    | some x => exact pushInt_agrees h hgrant (range_of_atoiDigits (by decide) hx)
  · exact agrees_running (h.printf _ _)

end Rounds

/-! ### All lines -/

section Runs

variable {grant : ℕ → UInt32 → Bool} {mem : Memory} {heapEnd : UInt32}

/-- The program starts with an empty stack. -/
lemma sim_start (hpos : heapEnd ≠ 0) (hdvd : 4 ∣ heapEnd.toNat) (hlt : heapEnd.toNat < 2 ^ 31) :
    Sim heapEnd.toNat (start mem heapEnd) {} := by
  obtain ⟨l, hheap⟩ := @Reachable.heapInv mem _ hpos hdvd hlt _ .refl
  exact ⟨⟨l, [], hheap, rfl, rfl⟩, rfl⟩

lemma mainLoop_agrees {base : ℕ} {t : State} {m : Machine} (h : Sim base t m)
    (hgrant : Bounded grant) {lines : List (List UInt8)} (hlines : ∀ line ∈ lines, IsLine line) :
    Option.Rel (Outcome.Rel (Sim base)) (mainLoop grant t lines)
        (interpret Machine.round m lines) ∨
      ∃ done status t' m', done <+: lines ∧ mainLoop grant t lines = some (.exited status t') ∧
        interpret Machine.round m done = some (.running m') ∧ GivesUp grant m' status t' := by
  apply interpret_refines _ h
  intro line hline t m hsim
  exact mainRound_agrees hsim hgrant (hlines line hline)

/-- For all lines, the calculator does what the machine does: it has the same numbers on its stack,
whose blocks are all that is in use, prints the same, exits with the same status, and its result is
undefined for the same lines. Otherwise it has done so for the lines before one at which the kernel
has refused memory, has printed a message and has exited with 1. -/
theorem calc_refines_machine (hpos : heapEnd ≠ 0) (hdvd : 4 ∣ heapEnd.toNat)
    (hlt : heapEnd.toNat < 2 ^ 31) (hgrant : Bounded grant) {lines : List (List UInt8)}
    (hlines : ∀ line ∈ lines, IsLine line) :
    Option.Rel (Outcome.Rel (Sim heapEnd.toNat)) (mainLoop grant (start mem heapEnd) lines)
        (interpret Machine.round {} lines) ∨
      ∃ done t m, done <+: lines ∧ mainLoop grant (start mem heapEnd) lines = some (.exited 1 t) ∧
        interpret Machine.round {} done = some (.running m) ∧ Refused grant t ∧
        t.prints = m.prints ++ [⟨bytes "Out of memory.\n", []⟩] := by
  rcases mainLoop_agrees (sim_start hpos hdvd hlt) hgrant hlines with
    hrel | ⟨done, status, t, m, hdone, hexec, hmachine, hrefused, rfl, hprints⟩
  · exact .inl hrel
  · exact .inr ⟨done, t, m, hdone, hexec, hmachine, hrefused, hprints⟩

/-- A heap of up to one megabyte. -/
def megabyte : ℕ → UInt32 → Bool := fun _ heapEnd => decide (heapEnd.toNat < 2 ^ 20)

lemma bounded_megabyte : Bounded megabyte := by
  intro k heapEnd h
  have hlt := of_decide_eq_true h
  omega

/-- A number, an operator that lacks one, and the end. -/
theorem calc_refines_machine_plus :
    Option.Rel (Outcome.Rel (Sim (0x1000 : UInt32).toNat))
        (mainLoop megabyte (start (fun _ => 0) 0x1000) [bytes "7", bytes "+", bytes "p", bytes ""])
        (interpret Machine.round {} [bytes "7", bytes "+", bytes "p", bytes ""]) ∨
      ∃ done t m, done <+: [bytes "7", bytes "+", bytes "p", bytes ""] ∧
        mainLoop megabyte (start (fun _ => 0) 0x1000)
          [bytes "7", bytes "+", bytes "p", bytes ""] = some (.exited 1 t) ∧
        interpret Machine.round {} done = some (.running m) ∧ Refused megabyte t ∧
        t.prints = m.prints ++ [⟨bytes "Out of memory.\n", []⟩] := by
  apply calc_refines_machine (by decide) (by decide) (by decide) bounded_megabyte
  simp only [List.forall_mem_cons]
  exact ⟨⟨by decide, by decide⟩, ⟨by decide, by decide⟩, ⟨by decide, by decide⟩,
    ⟨by decide, by decide⟩, List.forall_mem_nil _⟩

/-! ### Terms -/

/-- The operators of the calculator. -/
inductive Op
  | plus | sub | mult | divn
  deriving DecidableEq

namespace Op

/-- The line with the operator. -/
def line : Op → List UInt8
  | plus => bytes "+"
  | sub  => bytes "-"
  | mult => bytes "*"
  | divn => bytes "/"

/-- What the operator does. -/
def run : Op → ℤ → ℤ → Option ℤ
  | plus => Calc.plus
  | sub  => Calc.sub
  | mult => Calc.mult
  | divn => Calc.divn

end Op

/-- The terms over numbers that an `int` can be. -/
abbrev Term := Expr (Fin (2 ^ 31)) Op

namespace Term

/-- A number in decimal. -/
def numberLine (n : Fin (2 ^ 31)) : List UInt8 := (revDigits false 10 11 n).reverse

/-- The lines that compute a term, the operands from right to left. -/
def lines (e : Term) : List (List UInt8) := e.code numberLine Op.line

/-- The value of a term, if no operation is undefined. -/
def value (e : Term) : Option ℤ := e.eval (fun n => (n.val : ℤ)) Op.run

variable (n : Fin (2 ^ 31))

lemma isDigit_numberLine {c : UInt8} (h : c ∈ numberLine n) : IsDigit c := by
  rw [numberLine, List.mem_reverse] at h
  exact isDigit_of_mem h

lemma numberLine_ne {line : List UInt8} (hline : ∃ c ∈ line, ¬ IsDigit c) :
    numberLine n ≠ line := by
  rintro rfl
  obtain ⟨c, hc, hdigit⟩ := hline
  exact hdigit (isDigit_numberLine n hc)

lemma isLine_numberLine : IsLine (numberLine n) := by
  refine ⟨fun hzero => absurd (isDigit_numberLine n hzero) (by decide), ?_⟩
  have hlength := @length_revDigits_le n 11 10 (by decide) (by omega)
  rw [numberLine, List.length_reverse]
  exact Nat.lt_of_le_of_lt hlength (by decide)

lemma isLine_opLine (op : Op) : IsLine op.line := by
  cases op <;> exact ⟨by decide, by decide⟩

lemma isLine_lines (e : Term) : ∀ line ∈ e.lines, IsLine line := by
  induction e with
  | lit n => simpa [lines, Expr.code] using isLine_numberLine n
  | app op x y ihx ihy =>
    intro line hline
    simp only [lines, Expr.code, List.mem_append, List.mem_singleton] at hline
    rcases hline with (hline | hline) | rfl
    · exact ihy line hline
    · exact ihx line hline
    · exact isLine_opLine op

lemma atoi_numberLine : atoi (numberLine n) = some (n : ℤ) := by
  have hread := @atoiDigits_revDigits n 11 1 [] (by omega) (.inl rfl) (by omega)
  rw [List.append_nil, one_mul] at hread
  exact hread

lemma round_numberLine (m : Machine) :
    m.round (numberLine n) = some (.running (m.push n)) := by
  have hempty : numberLine n ≠ bytes "" := by
    rw [numberLine, Ne, bytes, String.toList_empty, List.map_nil, List.reverse_eq_nil_iff]
    exact List.cons_ne_nil _ _
  have hnumeric : numeric (numberLine n) = true := by
    simp only [numeric, List.all_eq_true, decide_eq_true_eq]
    exact fun c hc => isDigit_numberLine n hc
  rw [Machine.round, if_neg hempty, if_neg (numberLine_ne n (by decide)),
    if_neg (numberLine_ne n (by decide)), if_neg (numberLine_ne n (by decide)),
    if_neg (numberLine_ne n (by decide)), if_neg (numberLine_ne n (by decide)), if_pos hnumeric,
    atoi_numberLine]
  rfl

lemma round_opLine (op : Op) (m : Machine) :
    m.round op.line = (m.binop op.run).map .running := by
  cases op <;> rfl

/-- The machine is one on whose stack terms can be computed. -/
lemma stackMachine : StackMachine (interpret Machine.round) Machine.push (fun n => (n.val : ℤ))
    Op.run numberLine Op.line where
  lit n m cs := interpret_running (round_numberLine n m)
  app op v w m cs := by
    have hround : (Machine.push v (Machine.push w m)).round op.line =
        (op.run v w).map fun z => .running (m.push z) := by
      rw [round_opLine, Machine.binop]
      simp only [Machine.push, Option.map_map]
      rfl
    cases hvalue : op.run v w with
    | none =>
      rw [hvalue] at hround
      exact interpret_none hround
    | some z =>
      rw [hvalue] at hround
      exact interpret_running hround

/-- The machine has the value of a term on its stack after the lines. -/
lemma interpret_lines (e : Term) (m : Machine) :
    interpret Machine.round m e.lines = e.value.map fun v => .running (m.push v) := by
  have hcode := stackMachine.exec_code e m []
  rw [List.append_nil] at hcode
  rw [lines, hcode, value, Option.map_eq_bind]
  rfl

/-- Nothing is printed while a term is computed. -/
lemma prints_of_prefix {e : Term} {done : List (List UInt8)} {m m' : Machine}
    (hdone : done <+: e.lines) (h : interpret Machine.round m done = some (.running m')) :
    m'.prints = m.prints := by
  rcases stackMachine.exec_prefix (s := m) hdone with hnone | ⟨vs, hvs⟩
  · have hundefined := hnone []
    rw [List.append_nil, h] at hundefined
    cases hundefined
  · have hpushed := hvs []
    rw [List.append_nil, h, interpret] at hpushed
    cases hpushed
    clear hvs h
    induction vs with
    | nil => rfl
    | cons v vs ih => exact ih

end Term

/-- The line `p` and the empty line print the number on the top of the stack and end the program. -/
lemma mainLoop_print {base : ℕ} {t : State} {s : List ℤ} {v : ℤ}
    (hinv : StackInv base t (v :: s) []) :
    mainLoop grant t [bytes "p", bytes ""] = some (.exited 0 (t.printf (bytes "%d\n") [v])) := by
  have hempty : stackEmpty t = false := hinv.stackEmpty_eq
  have hprint : mainRound grant t (bytes "p") =
      some (.running (t.printf (bytes "%d\n") [v])) := by
    rw [mainRound, if_neg (by decide), if_neg (by decide), if_neg (by decide), if_neg (by decide),
      if_neg (by decide), if_pos (by decide), hempty, hinv.stackTop_eq]
    rfl
  rw [mainLoop, interpret_running hprint]
  exact interpret_exited (if_pos (by decide))

/-- The lines that compute a term, and `p`, print its value and nothing else. The result is
undefined only if the value of the term is. Otherwise the kernel has refused memory, and nothing
but a message has been printed. -/
theorem calc_evaluates (hpos : heapEnd ≠ 0) (hdvd : 4 ∣ heapEnd.toNat)
    (hlt : heapEnd.toNat < 2 ^ 31) (hgrant : Bounded grant) (e : Term) :
    (∃ v t, e.value = some v ∧
      mainLoop grant (start mem heapEnd) (e.lines ++ [bytes "p", bytes ""]) = some (.exited 0 t) ∧
      t.prints = [⟨bytes "%d\n", [v]⟩]) ∨
    (e.value = none ∧
      mainLoop grant (start mem heapEnd) (e.lines ++ [bytes "p", bytes ""]) = none) ∨
    ∃ t, mainLoop grant (start mem heapEnd) (e.lines ++ [bytes "p", bytes ""]) =
        some (.exited 1 t) ∧ Refused grant t ∧ t.prints = [⟨bytes "Out of memory.\n", []⟩] := by
  have happend := @interpret_append _ _ (mainRound grant) (start mem heapEnd) e.lines
  rcases mainLoop_agrees (sim_start hpos hdvd hlt) hgrant e.isLine_lines with
    hrel | ⟨done, status, t, m, hdone, hexec, hmachine, hrefused, rfl, hprints⟩
  · rw [Term.interpret_lines] at hrel
    generalize hloop : mainLoop grant (start mem heapEnd) e.lines = o at hrel
    cases hvalue : e.value with
    | none =>
      rw [hvalue] at hrel
      cases hrel
      refine .inr (.inl ⟨rfl, ?_⟩)
      rw [mainLoop] at hloop ⊢
      rw [happend, hloop, Option.bind_none]
    | some v =>
      rw [hvalue] at hrel
      cases hrel with
      | some hrel =>
        cases hrel with
        | running hsim =>
          rename_i t
          refine .inl ⟨v, t.printf (bytes "%d\n") [v], rfl, ?_, ?_⟩
          · rw [mainLoop] at hloop ⊢
            rw [happend, hloop, Option.bind_some]
            exact mainLoop_print hsim.1
          · rw [State.printf, hsim.2]
            rfl
  · refine .inr (.inr ⟨t, ?_, hrefused, ?_⟩)
    · rw [mainLoop] at hexec ⊢
      rw [happend, hexec, Option.bind_some]
    · rw [hprints, Term.prints_of_prefix hdone hmachine]
      rfl

/-- The difference of 3 and 10, whose lines are `10`, `3` and `-`. -/
def difference : Term := .app .sub (.lit 3) (.lit 10)

example : difference.lines = [bytes "10", bytes "3", bytes "-"] := by decide

theorem calc_evaluates_difference :
    (∃ v t, difference.value = some v ∧
      mainLoop megabyte (start (fun _ => 0) 0x1000) (difference.lines ++ [bytes "p", bytes ""]) =
        some (.exited 0 t) ∧ t.prints = [⟨bytes "%d\n", [v]⟩]) ∨
    (difference.value = none ∧
      mainLoop megabyte (start (fun _ => 0) 0x1000) (difference.lines ++ [bytes "p", bytes ""]) =
        none) ∨
    ∃ t, mainLoop megabyte (start (fun _ => 0) 0x1000)
        (difference.lines ++ [bytes "p", bytes ""]) = some (.exited 1 t) ∧
      Refused megabyte t ∧ t.prints = [⟨bytes "Out of memory.\n", []⟩] :=
  calc_evaluates (by decide) (by decide) (by decide) bounded_megabyte difference

end Runs

end Calc

end Osm.Userland
