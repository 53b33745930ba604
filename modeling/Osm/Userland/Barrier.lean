import Osm.Kernel.TokenPrograms
import Mathlib.Tactic.IntervalCases

/-!
# A barrier for two processes

A model of `tests/sem_barrier.c`, `tests/sem_barrier_p0.c` and `tests/sem_barrier_p1.c`: the calls
that the two processes make on the three semaphores, by the kernel semaphores behind their handles.
What else the processes do, reading a line under the lock for instance, is any other activity of
the kernel.
-/

namespace Osm.Userland

open Osm.Core Osm.Kernel

/-- The processes that `sem_barrier` executes. -/
inductive BarrierProcess
  | p0
  | p1
  deriving DecidableEq

instance : Fintype BarrierProcess := ⟨{.p0, .p1}, fun i => by cases i <;> simp⟩

/-- The semaphores that `sem_barrier` opens. -/
inductive BarrierSem
  | wait0
  | wait1
  | readWriteLock
  deriving DecidableEq

/-- The calls of `sem_barrier_p0`. -/
def semBarrierP0 : List (SemCall BarrierSem) :=
  [.p .readWriteLock, .v .readWriteLock, .p .wait1, .v .wait0]

/-- The calls of `sem_barrier_p1`. -/
def semBarrierP1 : List (SemCall BarrierSem) :=
  [.p .readWriteLock, .v .readWriteLock, .v .wait1, .p .wait0]

/-- The calls of the processes. -/
def semBarrierProg : BarrierProcess → List (SemCall BarrierSem)
  | .p0 => semBarrierP0
  | .p1 => semBarrierP1

/-- The values with which `sem_barrier` opens the semaphores. -/
def semBarrierValue : BarrierSem → ℕ
  | .wait0         => 0
  | .wait1         => 0
  | .readWriteLock => 1

variable {a : Tokens BarrierProcess BarrierSem}

lemma made_semBarrierProg (pc : BarrierProcess → ℕ) (call : SemCall BarrierSem) :
    made semBarrierProg pc call =
      (semBarrierP0.take (pc .p0)).count call + (semBarrierP1.take (pc .p1)).count call :=
  Finset.sum_pair (by decide)

/-- How often each call has been made after `k` calls. -/
lemma count_take_semBarrierP0 : ∀ k ≤ 4,
    (semBarrierP0.take k).count (.p .readWriteLock) = min 1 k ∧
    (semBarrierP0.take k).count (.v .readWriteLock) = min 1 (k - 1) ∧
    (semBarrierP0.take k).count (.p .wait1) = min 1 (k - 2) ∧
    (semBarrierP0.take k).count (.v .wait1) = 0 ∧
    (semBarrierP0.take k).count (.p .wait0) = 0 ∧
    (semBarrierP0.take k).count (.v .wait0) = min 1 (k - 3) := by decide

lemma count_take_semBarrierP1 : ∀ k ≤ 4,
    (semBarrierP1.take k).count (.p .readWriteLock) = min 1 k ∧
    (semBarrierP1.take k).count (.v .readWriteLock) = min 1 (k - 1) ∧
    (semBarrierP1.take k).count (.p .wait1) = 0 ∧
    (semBarrierP1.take k).count (.v .wait1) = min 1 (k - 2) ∧
    (semBarrierP1.take k).count (.p .wait0) = min 1 (k - 3) ∧
    (semBarrierP1.take k).count (.v .wait0) = 0 := by decide

/-- The tokens of the semaphores, given the calls. -/
lemma semBarrier_balance (h : TokenReachable semBarrierProg semBarrierValue a) :
    a.pc .p0 ≤ 4 ∧ a.pc .p1 ≤ 4 ∧
    a.tokens .readWriteLock + (min 1 (a.pc .p0) + min 1 (a.pc .p1)) =
      1 + (min 1 (a.pc .p0 - 1) + min 1 (a.pc .p1 - 1)) ∧
    a.tokens .wait1 + min 1 (a.pc .p0 - 2) = min 1 (a.pc .p1 - 2) ∧
    a.tokens .wait0 + min 1 (a.pc .p1 - 3) = min 1 (a.pc .p0 - 3) := by
  have h₀ : a.pc .p0 ≤ 4 := h.pc_le .p0
  have h₁ : a.pc .p1 ≤ 4 := h.pc_le .p1
  obtain ⟨hp, hv, hp₁, hv₁, hp₀, hv₀⟩ := count_take_semBarrierP0 _ h₀
  obtain ⟨hp', hv', hp₁', hv₁', hp₀', hv₀'⟩ := count_take_semBarrierP1 _ h₁
  have hlock := h.balance .readWriteLock
  have hwait₁ := h.balance .wait1
  have hwait₀ := h.balance .wait0
  rw [made_semBarrierProg, made_semBarrierProg] at hlock hwait₁ hwait₀
  refine ⟨h₀, h₁, ?_, ?_, ?_⟩
  · rwa [hp, hp', hv, hv'] at hlock
  · simpa [hp₁, hp₁', hv₁, hv₁', semBarrierValue] using hwait₁
  · simpa [hp₀, hp₀', hv₀, hv₀', semBarrierValue] using hwait₀

/-- Where `sem_barrier_p0` may wait. -/
lemma waiting_p0 (h : a.Waiting semBarrierProg .p0) :
    (a.pc .p0 = 0 ∧ a.tokens .readWriteLock = 0) ∨ (a.pc .p0 = 2 ∧ a.tokens .wait1 = 0) := by
  obtain ⟨sem, hnext, hnone⟩ := h
  have hlt : a.pc .p0 < 4 := (List.getElem?_eq_some_iff.mp hnext).1
  generalize a.pc .p0 = k at hnext hlt
  interval_cases k
  · cases hnext
    exact .inl ⟨rfl, hnone⟩
  · cases hnext
  · cases hnext
    exact .inr ⟨rfl, hnone⟩
  · cases hnext

/-- Where `sem_barrier_p1` may wait. -/
lemma waiting_p1 (h : a.Waiting semBarrierProg .p1) :
    (a.pc .p1 = 0 ∧ a.tokens .readWriteLock = 0) ∨ (a.pc .p1 = 3 ∧ a.tokens .wait0 = 0) := by
  obtain ⟨sem, hnext, hnone⟩ := h
  have hlt : a.pc .p1 < 4 := (List.getElem?_eq_some_iff.mp hnext).1
  generalize a.pc .p1 = k at hnext hlt
  interval_cases k
  · cases hnext
    exact .inl ⟨rfl, hnone⟩
  · cases hnext
  · cases hnext
  · cases hnext
    exact .inr ⟨rfl, hnone⟩

/-- The two processes do not get stuck. -/
lemma semBarrier_not_stuck (h : TokenReachable semBarrierProg semBarrierValue a)
    (hstuck : ∀ i, a.Finished semBarrierProg i ∨ a.Waiting semBarrierProg i) (i : BarrierProcess) :
    a.pc i = 4 := by
  obtain ⟨h₀, h₁, hlock, hwait₁, hwait₀⟩ := semBarrier_balance h
  have hp₀ : 4 ≤ a.pc .p0 ∨ _ := (hstuck .p0).imp_right waiting_p0
  have hp₁ : 4 ≤ a.pc .p1 ∨ _ := (hstuck .p1).imp_right waiting_p1
  cases i with
  | p0 => omega
  | p1 => omega

/-- No semaphore is raised more than twice. -/
lemma semBarrier_fit : TokensFit semBarrierProg semBarrierValue := by
  intro sem
  cases sem with
  | readWriteLock => decide
  | wait0 => decide
  | wait1 => decide

/-- In any state that the processes lead to: they are not under the lock together; the first one
only goes on after the other one has come to the barrier, and the other one only after that; and
while one of them has not made all its calls, not all of these sleep on a semaphore. -/
theorem semBarrier_safe {n : ℕ} {base : UInt32} {tid : BarrierProcess → ℤ}
    {handle : BarrierSem → Sem} {x : Programs BarrierProcess} (hpos : 0 < base.toNat)
    (hbase : base.toNat + 12 * configMaxSemaphores ≤ 2 ^ 32) (htid : Function.Injective tid)
    (hhandle : Function.Injective handle)
    (h : ProgReachable n base tid handle semBarrierProg semBarrierValue x) :
    ¬ (x.pc .p0 = 1 ∧ x.pc .p1 = 1) ∧ (3 ≤ x.pc .p0 → 3 ≤ x.pc .p1) ∧
    (x.pc .p1 = 4 → x.pc .p0 = 4) ∧
    ((∀ i, x.pc i = 4 ∨ Asleep base handle x (tid i)) → ∀ i, x.pc i = 4) := by
  obtain ⟨a, ha, htokens⟩ := h.hasTokens hpos hbase htid hhandle semBarrier_fit
  obtain ⟨h₀, h₁, hlock, hwait₁, hwait₀⟩ := semBarrier_balance ha
  rw [htokens.pc] at h₀ h₁ hlock hwait₁ hwait₀
  refine ⟨by omega, by omega, by omega, fun hall i => ?_⟩
  have hstuck := htokens.finished_or_waiting hpos hbase htid fun i => by
    refine (hall i).imp_left fun hfour => ?_
    cases i <;> exact hfour.ge
  rw [← htokens.pc]
  exact semBarrier_not_stuck ha hstuck i

/-- The first process is under the lock. -/
theorem semBarrier_safe_locked : ∃ x : Programs BarrierProcess,
    ProgReachable 1 0x80020000 (fun | .p0 => 1 | .p1 => 2)
      (fun | .readWriteLock => 0 | .wait0 => 1 | .wait1 => 2) semBarrierProg semBarrierValue x ∧
    x.pc .p0 = 1 ∧ x.pc .p1 ≠ 1 := by
  obtain ⟨x, hx, hpc⟩ := @exists_progReachable BarrierProcess BarrierSem _
    (fun | .p0 => 1 | .p1 => 2) (fun | .readWriteLock => 0 | .wait0 => 1 | .wait1 => 2)
    semBarrierProg semBarrierValue .p0 .readWriteLock rfl (fun sem => by cases sem <;> decide)
    (fun sem => by cases sem <;> rfl) rfl rfl
  have hone : x.pc .p0 = 1 := by rw [hpc, Function.update_self]
  obtain ⟨hlock, -⟩ := semBarrier_safe (by decide) (by decide)
    (fun i j hij => by cases i <;> cases j <;> first | rfl | exact absurd hij (by decide))
    (fun s t hst => by cases s <;> cases t <;> first | rfl | exact absurd hst (by decide)) hx
  exact ⟨x, hx, hone, fun hother => hlock ⟨hone, hother⟩⟩

end Osm.Userland
