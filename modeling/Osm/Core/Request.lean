import Mathlib.Data.Nat.Notation
import Mathlib.Logic.Function.Basic
import Mathlib.Tactic.Lemma

/-!
# Programs that use a device

A program asks a device for the contents of a cell or to store a value in a cell. The device may
refuse any request, and then nothing is stored; the program is told and goes on as it likes.
Which requests succeed is decided by their positions in the run.
-/

namespace Osm.Core

/-- A program that makes requests to a device with cells `ι` that hold values in `β`. -/
inductive Request (ι β α : Type) : Type
  | done (a : α)
  | read (i : ι) (next : Option β → Request ι β α)
  | write (i : ι) (b : β) (next : Bool → Request ι β α)

namespace Request

variable {ι β α γ : Type}

/-- Run a program, and then another one with its result. -/
def andThen (f : α → Request ι β γ) : Request ι β α → Request ι β γ
  | done a         => f a
  | read i next    => read i fun r => (next r).andThen f
  | write i b next => write i b fun r => (next r).andThen f

instance : Monad (Request ι β) where
  pure     := done
  bind p f := p.andThen f

/-- Ask for the contents of a cell. -/
def readCell (i : ι) : Request ι β (Option β) := read i done

/-- Store a value in a cell. -/
def writeCell (i : ι) (b : β) : Request ι β Bool := write i b done

variable [DecidableEq ι]

/-- The result of a program, the number of requests made so far and the device left behind. -/
def exec (ok : ℕ → Bool) : Request ι β α → ℕ → (ι → β) → α × ℕ × (ι → β)
  | done a, pos, dev         => (a, pos, dev)
  | read i next, pos, dev    => exec ok (next (if ok pos then some (dev i) else none)) (pos + 1) dev
  | write i b next, pos, dev =>
    if ok pos then exec ok (next true) (pos + 1) (Function.update dev i b)
    else exec ok (next false) (pos + 1) dev

/-- Run a program from its first request on. -/
def run (ok : ℕ → Bool) (p : Request ι β α) (dev : ι → β) : α × (ι → β) :=
  ((exec ok p 0 dev).1, (exec ok p 0 dev).2.2)

/-! ### Postconditions -/

/-- The result of a program, the number of requests and the device that it leaves behind satisfy
a postcondition. -/
def Ends (ok : ℕ → Bool) (p : Request ι β α) (pos : ℕ) (dev : ι → β)
    (Post : α → ℕ → (ι → β) → Prop) : Prop :=
  Post (exec ok p pos dev).1 (exec ok p pos dev).2.1 (exec ok p pos dev).2.2

variable {ok : ℕ → Bool} {pos : ℕ} {dev : ι → β} {i : ι} {b : β}

lemma exec_bind (p : Request ι β α) (f : α → Request ι β γ) :
    exec ok (p >>= f) pos dev =
      exec ok (f (exec ok p pos dev).1) (exec ok p pos dev).2.1 (exec ok p pos dev).2.2 := by
  change exec ok (p.andThen f) pos dev = _
  induction p generalizing pos dev with
  | done a => rfl
  | read i next ih => exact ih _
  | write i b next ih =>
    by_cases hok : ok pos
    · simp only [andThen, exec, if_pos hok, ih]
    · simp only [andThen, exec, if_neg hok, ih]

section Rules

variable {Post Post' : α → ℕ → (ι → β) → Prop}

lemma Ends.mono {p : Request ι β α} (h : Ends ok p pos dev Post)
    (himp : ∀ a pos' dev', Post a pos' dev' → Post' a pos' dev') : Ends ok p pos dev Post' :=
  himp _ _ _ h

lemma Ends.run {p : Request ι β α} {Post : α → (ι → β) → Prop}
    (h : Ends ok p 0 dev fun a _ dev' => Post a dev') :
    Post (run ok p dev).1 (run ok p dev).2 := h

lemma ends_pure {a : α} (h : Post a pos dev) : Ends ok (pure a) pos dev Post := h

lemma ends_bind {p : Request ι β γ} {f : γ → Request ι β α}
    (h : Ends ok p pos dev fun c pos' dev' => Ends ok (f c) pos' dev' Post) :
    Ends ok (p >>= f) pos dev Post := by
  rw [Ends, exec_bind]
  exact h

lemma ends_readCell {Post : Option β → ℕ → (ι → β) → Prop}
    (fails : ok pos = false → Post none (pos + 1) dev)
    (succeeds : ok pos = true → Post (some (dev i)) (pos + 1) dev) :
    Ends ok (readCell i) pos dev Post := by
  cases hok : ok pos with
  | false => simpa [Ends, readCell, exec, hok] using fails hok
  | true => simpa [Ends, readCell, exec, hok] using succeeds hok

lemma ends_writeCell {Post : Bool → ℕ → (ι → β) → Prop}
    (fails : ok pos = false → Post false (pos + 1) dev)
    (succeeds : ok pos = true → Post true (pos + 1) (Function.update dev i b)) :
    Ends ok (writeCell i b) pos dev Post := by
  cases hok : ok pos with
  | false => simpa [Ends, writeCell, exec, hok] using fails hok
  | true => simpa [Ends, writeCell, exec, hok] using succeeds hok

/-- On a device on which every request succeeds. -/
lemma ends_readCell_true {Post : Option β → ℕ → (ι → β) → Prop}
    (h : Post (some (dev i)) (pos + 1) dev) : Ends (fun _ => true) (readCell i) pos dev Post :=
  ends_readCell (fun hfail => absurd hfail.symm Bool.false_ne_true) fun _ => h

lemma ends_writeCell_true {Post : Bool → ℕ → (ι → β) → Prop}
    (h : Post true (pos + 1) (Function.update dev i b)) :
    Ends (fun _ => true) (writeCell i b) pos dev Post :=
  ends_writeCell (fun hfail => absurd hfail.symm Bool.false_ne_true) fun _ => h

/-- Then it does not matter how many requests were made before. -/
lemma exec_true (p : Request ι β α) (pos : ℕ) (dev : ι → β) :
    (exec (fun _ => true) p pos dev).1 = (run (fun _ => true) p dev).1 ∧
      (exec (fun _ => true) p pos dev).2.2 = (run (fun _ => true) p dev).2 := by
  have hpos : ∀ pos pos' dev,
      (exec (fun _ => true) p pos dev).1 = (exec (fun _ => true) p pos' dev).1 ∧
      (exec (fun _ => true) p pos dev).2.2 = (exec (fun _ => true) p pos' dev).2.2 := by
    induction p with
    | done a => exact fun _ _ _ => ⟨rfl, rfl⟩
    | read i next ih => exact fun pos pos' dev => ih _ (pos + 1) (pos' + 1) dev
    | write i b next ih => exact fun pos pos' dev => ih _ (pos + 1) (pos' + 1) _
  exact hpos pos 0 dev

/-- Programs one after the other. -/
lemma run_bind_true (p : Request ι β α) (f : α → Request ι β γ) (dev : ι → β) :
    run (fun _ => true) (p >>= f) dev =
      run (fun _ => true) (f (run (fun _ => true) p dev).1) (run (fun _ => true) p dev).2 := by
  obtain ⟨hresult, hdev⟩ := exec_true (f (run (fun _ => true) p dev).1)
    (exec (fun _ => true) p 0 dev).2.1 (run (fun _ => true) p dev).2
  rw [run, exec_bind]
  exact Prod.ext hresult hdev

end Rules

end Request

end Osm.Core
