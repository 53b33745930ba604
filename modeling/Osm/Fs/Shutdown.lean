import Osm.Fs.VfsOps
import Mathlib.Algebra.BigOperators.Group.Finset.Basic
import Mathlib.Algebra.Order.BigOperators.Group.Finset
import Mathlib.Data.Fintype.Basic
import Mathlib.Logic.Relation

/-!
# The forced unmount

Threads run operations on the virtual filesystem, and some of them call `vfs_deinit`, which marks
it as unusable, waits for the operations that are counted in `vfs_ops` and unmounts all
filesystems. A step of a thread goes to its next use of a semaphore. What an operation does
between `vfs_start_op` and `vfs_end_op` is arbitrary, as long as it leaves the variables of these
functions alone, and it may also return without `vfs_end_op`.

The forced unmount excludes operations as long as no operation begins when the count is the greatest
`int`: then it wraps around, and `vfs_deinit` takes the operations for finished.
-/

namespace Osm.Fs

/-- Where a thread is: outside of the module, in `vfs_start_op` with the semaphore taken, in an
operation, in `vfs_end_op` with the semaphore taken, or in `vfs_deinit`: with the semaphore taken
at the beginning, waiting for the operations, woken up, with the semaphore taken again in front of
the assertion, or unmounting. -/
inductive OpPc where
  | outside
  | starting
  | inside
  | ending
  | closing
  | waiting
  | woken
  | checking
  | unmounting
  deriving DecidableEq

namespace OpPc

/-- The thread passed `vfs_start_op` and did not decrement `vfs_ops` yet. -/
def InOp : OpPc → Prop
  | inside => True
  | ending => True
  | _      => False

instance : DecidablePred InOp := fun pc => by
  cases pc <;> unfold InOp <;> infer_instance

end OpPc

variable {τ φ : Type} [DecidableEq τ]

/-- The variables of the module, its two semaphores for operations, and the threads. -/
structure Shutdown (τ φ : Type) where
  vfs        : VfsState φ
  opSem      : ℕ
  unmountSem : ℕ
  pc         : τ → OpPc

namespace Shutdown

def initial (vfs : VfsState φ) : Shutdown τ φ where
  vfs        := { vfs with ops := 0, usable := true }
  opSem      := 1
  unmountSem := 0
  pc _       := .outside

def setPc (M : Shutdown τ φ) (t : τ) (pc : OpPc) : Shutdown τ φ :=
  { M with pc := Function.update M.pc t pc }

@[simp] lemma setPc_vfs (M : Shutdown τ φ) (t : τ) (pc : OpPc) : (M.setPc t pc).vfs = M.vfs := rfl

@[simp] lemma setPc_unmountSem (M : Shutdown τ φ) (t : τ) (pc : OpPc) :
    (M.setPc t pc).unmountSem = M.unmountSem := rfl

lemma setPc_self (M : Shutdown τ φ) (t : τ) (pc : OpPc) : (M.setPc t pc).pc t = pc :=
  Function.update_self ..

lemma setPc_ne (M : Shutdown τ φ) {t t' : τ} (pc : OpPc) (h : t' ≠ t) :
    (M.setPc t pc).pc t' = M.pc t' :=
  Function.update_of_ne h ..

end Shutdown

/-- What a step is: the end of `vfs_start_op`, or anything else. -/
inductive OpEvent where
  | start
  | other

open Shutdown in
/-- The steps of the threads. -/
inductive ShutdownStep : Shutdown τ φ → OpEvent → Shutdown τ φ → Prop where
  | startP {M : Shutdown τ φ} {t} (hpc : M.pc t = .outside) (hsem : 0 < M.opSem) :
      ShutdownStep M .other { M.setPc t .starting with opSem := M.opSem - 1 }
  | startV {M : Shutdown τ φ} {t} (hpc : M.pc t = .starting) :
      ShutdownStep M .start { M.setPc t (if (vfsStartOp M.vfs).1 = vfsOk then .inside else .outside) with
        vfs := (vfsStartOp M.vfs).2, opSem := M.opSem + 1 }
  | work {M : Shutdown τ φ} {t vfs} (hpc : M.pc t = .inside) (hops : vfs.ops = M.vfs.ops)
      (husable : vfs.usable = M.vfs.usable) : ShutdownStep M .other { M with vfs := vfs }
  | leave {M : Shutdown τ φ} {t} (hpc : M.pc t = .inside) : ShutdownStep M .other (M.setPc t .outside)
  | endP {M : Shutdown τ φ} {t} (hpc : M.pc t = .inside) (hsem : 0 < M.opSem) :
      ShutdownStep M .other { M.setPc t .ending with opSem := M.opSem - 1 }
  | endV {M : Shutdown τ φ} {t vfs} (hpc : M.pc t = .ending) (hend : vfsEndOp M.vfs = some vfs) :
      ShutdownStep M .other { M.setPc t .outside with
        vfs := vfs, opSem := M.opSem + 1
        unmountSem := if vfs.usable = false ∧ vfs.ops = 0 then M.unmountSem + 1 else M.unmountSem }
  | deinitP {M : Shutdown τ φ} {t} (hpc : M.pc t = .outside) (hsem : 0 < M.opSem) :
      ShutdownStep M .other { M.setPc t .closing with opSem := M.opSem - 1 }
  | deinitWait {M : Shutdown τ φ} {t} (hpc : M.pc t = .closing) (hops : M.vfs.ops > 0) :
      ShutdownStep M .other { M.setPc t .waiting with
        vfs := { M.vfs with usable := false }, opSem := M.opSem + 1 }
  | deinitIdle {M : Shutdown τ φ} {t} (hpc : M.pc t = .closing) (hops : ¬ M.vfs.ops > 0) :
      ShutdownStep M .other { M.setPc t .unmounting with vfs := { M.vfs with usable := false } }
  | deinitWake {M : Shutdown τ φ} {t} (hpc : M.pc t = .waiting) (hsem : 0 < M.unmountSem) :
      ShutdownStep M .other { M.setPc t .woken with unmountSem := M.unmountSem - 1 }
  | deinitP' {M : Shutdown τ φ} {t} (hpc : M.pc t = .woken) (hsem : 0 < M.opSem) :
      ShutdownStep M .other { M.setPc t .checking with opSem := M.opSem - 1 }
  | deinitAssert {M : Shutdown τ φ} {t} (hpc : M.pc t = .checking) (hassert : M.vfs.ops = 0) :
      ShutdownStep M .other (M.setPc t .unmounting)
  | unmount {M : Shutdown τ φ} {t row} (hpc : M.pc t = .unmounting) :
      ShutdownStep M .other { M with
        vfs := M.vfs.setEntry row { M.vfs.filesystems row with filesystem := none } }
  | deinitV {M : Shutdown τ φ} {t} (hpc : M.pc t = .unmounting) :
      ShutdownStep M .other { M.setPc t .outside with opSem := M.opSem + 1 }

/-- The runs from one state to another whose steps meet a condition. -/
def ShutdownRun (C : Shutdown τ φ → OpEvent → Prop) : Shutdown τ φ → Shutdown τ φ → Prop :=
  Relation.ReflTransGen fun M M' => ∃ e, ShutdownStep M e M' ∧ C M e

/-- No operation begins when the count of the operations cannot become greater. -/
def CountFits (M : Shutdown τ φ) : OpEvent → Prop
  | .start => M.vfs.usable = true → M.vfs.ops ≠ Int32.maxValue
  | .other => True

/-- While a thread unmounts filesystems in `vfs_deinit` no thread is in an operation, and
`vfs_start_op` succeeds neither then nor later; the assertion in `vfs_end_op` holds for a thread
that gets there, and so does the one in `vfs_deinit`. -/
structure UnmountExcludes (M : Shutdown τ φ) : Prop where
  idle     : ∀ t, M.pc t = .unmounting → ∀ t', ¬ (M.pc t').InOp
  unusable : ∀ t, M.pc t = .unmounting → ∀ M', ShutdownRun (fun _ _ => True) M M' →
    (vfsStartOp M'.vfs).1 ≠ vfsOk
  ending   : ∀ t, M.pc t = .ending → vfsEndOp M.vfs ≠ none
  checking : ∀ t, M.pc t = .checking → M.vfs.ops = 0

/-! ### The invariant -/

variable [Fintype τ]

/-- The number of threads in an operation. -/
def Shutdown.running (M : Shutdown τ φ) : ℤ := ∑ t, if (M.pc t).InOp then 1 else 0

/-- All threads in an operation are counted. Once the filesystem is unusable it stays so, and once
a thread waiting in `vfs_deinit` can go on there is no operation any more. -/
structure ShutdownInv (M : Shutdown τ φ) : Prop where
  counted  : M.running ≤ M.vfs.ops.toInt
  unusable : ∀ t, M.pc t = .waiting → M.vfs.usable = false
  idle     : (0 < M.unmountSem ∨ ∃ t, M.pc t = .woken ∨ M.pc t = .checking ∨
    M.pc t = .unmounting) → M.vfs.ops = 0 ∧ M.vfs.usable = false

variable {M M' : Shutdown τ φ} {t : τ} {pc : OpPc}

lemma running_setPc (M : Shutdown τ φ) (t : τ) (pc : OpPc) :
    (M.setPc t pc).running =
      M.running - (if (M.pc t).InOp then 1 else 0) + (if pc.InOp then 1 else 0) := by
  have hother : ∀ t' ∈ Finset.univ.erase t,
      (if ((M.setPc t pc).pc t').InOp then (1 : ℤ) else 0) = if (M.pc t').InOp then 1 else 0 := by
    intro t' ht'
    rw [M.setPc_ne pc (Finset.ne_of_mem_erase ht')]
  rw [Shutdown.running, Shutdown.running, ← Finset.add_sum_erase _ _ (Finset.mem_univ t),
    ← Finset.add_sum_erase Finset.univ _ (Finset.mem_univ t), Finset.sum_congr rfl hother]
  rw [M.setPc_self]
  omega

omit [DecidableEq τ] in
lemma running_nonneg (M : Shutdown τ φ) : 0 ≤ M.running := by
  apply Finset.sum_nonneg
  intro t _
  split_ifs <;> decide

/-- A thread in an operation is counted. -/
lemma running_pos (h : (M.pc t).InOp) : 0 < M.running := by
  have hle := running_nonneg (M.setPc t .outside)
  rw [running_setPc, if_pos h, if_neg (show ¬ OpPc.outside.InOp from id)] at hle
  omega

/-- What a step of a thread has to respect. -/
lemma ShutdownInv.move {vfs : VfsState φ} {opSem unmountSem : ℕ} (h : ShutdownInv M)
    (hcounted : (if pc.InOp then 1 else 0) + M.vfs.ops.toInt ≤
      vfs.ops.toInt + if (M.pc t).InOp then 1 else 0)
    (husable : M.vfs.usable = false → vfs.usable = false)
    (hstill : M.vfs.ops = 0 → M.vfs.usable = false → vfs.ops = 0)
    (hunusable : pc = .waiting → vfs.usable = false)
    (hidle : (0 < unmountSem ∨ pc = .woken ∨ pc = .checking ∨ pc = .unmounting) →
      vfs.ops = 0 ∧ vfs.usable = false) :
    ShutdownInv { M.setPc t pc with vfs, opSem, unmountSem } := by
  have hpc : ∀ t', (M.setPc t pc).pc t' = pc ∨ (M.setPc t pc).pc t' = M.pc t' := by
    intro t'
    by_cases htt : t' = t
    · rw [htt]
      exact .inl (M.setPc_self t pc)
    · exact .inr (M.setPc_ne pc htt)
  constructor
  · change (M.setPc t pc).running ≤ vfs.ops.toInt
    rw [running_setPc]
    have hle := h.counted
    omega
  · intro t' hwaiting
    obtain hself | hother := hpc t'
    · exact hunusable (hself.symm.trans hwaiting)
    · exact husable (h.unusable t' (hother.symm.trans hwaiting))
  · rintro (hsem | ⟨t', ht'⟩)
    · exact hidle (.inl hsem)
    · change (M.setPc t pc).pc t' = _ ∨ (M.setPc t pc).pc t' = _ ∨ (M.setPc t pc).pc t' = _ at ht'
      obtain hself | hother := hpc t'
      · rw [hself] at ht'
        exact hidle (.inr ht')
      · rw [hother] at ht'
        obtain ⟨hops, hfalse⟩ := h.idle (.inr ⟨t', ht'⟩)
        exact ⟨hstill hops hfalse, husable hfalse⟩

/-- A thread goes on, and the count of operations stays. -/
lemma ShutdownInv.goto {opSem : ℕ} (h : ShutdownInv M) (hin : pc.InOp → (M.pc t).InOp)
    (hunusable : pc = .waiting → M.vfs.usable = false)
    (hidle : (pc = .woken ∨ pc = .checking ∨ pc = .unmounting) →
      M.vfs.ops = 0 ∧ M.vfs.usable = false) :
    ShutdownInv { M.setPc t pc with opSem } := by
  apply h.move
  · rw [Shutdown.setPc_vfs]
    split_ifs with hpc ht
    · omega
    · exact absurd (hin hpc) ht
    · omega
    · omega
  · exact id
  · exact fun hops _ => hops
  · exact hunusable
  · rintro (hsem | hpc)
    · exact h.idle (.inl hsem)
    · exact hidle hpc

/-- The count becomes greater. -/
lemma toInt_add_one {x : Int32} (h : x ≠ Int32.maxValue) : (x + 1).toInt = x.toInt + 1 := by
  have hne : x.toInt ≠ 2 ^ 31 - 1 := fun heq =>
    h (Int32.toInt_inj.mp (heq.trans Int32.toInt_maxValue.symm))
  have hlow := x.le_toInt
  have hhigh := x.toInt_lt
  rw [Int32.toInt_add]
  exact Int.bmod_eq_of_le (show _ ≤ x.toInt + 1 by omega) (show x.toInt + 1 < _ by omega)

lemma toInt_sub_one {x : Int32} (h : 0 < x.toInt) : (x - 1).toInt = x.toInt - 1 := by
  have hhigh := x.toInt_lt
  rw [Int32.toInt_sub]
  exact Int.bmod_eq_of_le (show _ ≤ x.toInt - 1 by omega) (show x.toInt - 1 < _ by omega)

/-- Every step that meets the condition keeps the invariant. -/
lemma ShutdownInv.step {e : OpEvent} (h : ShutdownInv M) (hstep : ShutdownStep M e M')
    (hcond : CountFits M e) : ShutdownInv M' := by
  cases hstep with
  | startP hpc => exact h.goto False.elim (by simp) (by simp)
  | startV hpc =>
    cases husable : M.vfs.usable with
    | true =>
      have hstart : vfsStartOp M.vfs = (vfsOk, { M.vfs with ops := M.vfs.ops + 1 }) := by
        rw [vfsStartOp, if_pos husable]
      rw [hstart]
      apply h.move
      · rw [toInt_add_one (hcond husable)]
        simp only [hpc, OpPc.InOp]
        simp [add_comm]
      · exact id
      · simp [husable]
      · simp
      · simpa [husable] using fun hsem => h.idle (.inl hsem)
    | false =>
      have hstart : vfsStartOp M.vfs = (vfsUnusable, M.vfs) := by
        rw [vfsStartOp, if_neg (by simp [husable])]
      rw [hstart]
      exact h.goto False.elim (by simp [husable]) (by simp [vfsUnusable, vfsOk])
  | work hpc hops husable =>
    refine ⟨?_, ?_, ?_⟩
    · exact h.counted.trans_eq (congrArg Int32.toInt hops.symm)
    · intro t ht
      exact husable.trans (h.unusable t ht)
    · intro hidle
      obtain ⟨hzero, hfalse⟩ := h.idle hidle
      exact ⟨hops.trans hzero, husable.trans hfalse⟩
  | leave hpc => exact h.goto False.elim (by simp) (by simp)
  | endP hpc => exact h.goto (fun _ => by rw [hpc]; trivial) (by simp) (by simp)
  | @endV t vfs hpc hend =>
    have hpos := running_pos (M := M) (t := t) (by rw [hpc]; trivial)
    have hcount := hpos.trans_le h.counted
    have hne : M.vfs.ops ≠ 0 := by
      intro hzero
      rw [hzero] at hcount
      exact lt_irrefl _ hcount
    -- the thread is counted, so nobody has been woken up yet
    have hsem : M.unmountSem = 0 := by
      by_contra hsem
      exact hne (h.idle (.inl (Nat.pos_of_ne_zero hsem))).1
    rw [vfsEndOp] at hend
    split_ifs at hend with hassert
    cases hend
    apply h.move
    · rw [toInt_sub_one hcount]
      simp only [hpc, OpPc.InOp]
      simp
    · exact id
    · exact fun hzero => absurd hzero hne
    · simp
    · intro hidle
      split_ifs at hidle with hlast
      · exact ⟨hlast.2, hlast.1⟩
      · simp [hsem] at hidle
  | deinitP hpc => exact h.goto False.elim (by simp) (by simp)
  | deinitWait hpc hops =>
    apply h.move
    · simp [hpc, OpPc.InOp]
    · exact fun _ => rfl
    · exact fun hops _ => hops
    · exact fun _ => rfl
    · simpa using fun hsem => (h.idle (.inl hsem)).1
  | deinitIdle hpc hops =>
    have hzero : M.vfs.ops = 0 := by
      have hnonneg := (running_nonneg M).trans h.counted
      have hle : M.vfs.ops.toInt ≤ 0 := Int32.le_iff_toInt_le.mp (Int32.not_lt.mp hops)
      exact Int32.toInt_inj.mp (hle.antisymm hnonneg)
    apply h.move
    · simp [hpc, OpPc.InOp]
    · exact fun _ => rfl
    · exact fun hops _ => hops
    · exact fun _ => rfl
    · exact fun _ => ⟨hzero, rfl⟩
  | deinitWake hpc hwake =>
    obtain ⟨hzero, hfalse⟩ := h.idle (.inl hwake)
    apply h.move
    · simp [hpc, OpPc.InOp]
    · exact id
    · exact fun hops _ => hops
    · simp
    · exact fun _ => ⟨hzero, hfalse⟩
  | @deinitP' t hpc => exact h.goto False.elim (by simp) fun _ => h.idle (.inr ⟨t, .inl hpc⟩)
  | @deinitAssert t hpc =>
    exact h.goto False.elim (by simp) fun _ => h.idle (.inr ⟨t, .inr (.inl hpc)⟩)
  | unmount hpc => exact ⟨h.counted, h.unusable, h.idle⟩
  | deinitV hpc => exact h.goto False.elim (by simp) (by simp)

omit [DecidableEq τ] in
lemma ShutdownInv.initial (vfs : VfsState φ) : ShutdownInv (Shutdown.initial vfs : Shutdown τ φ) := by
  constructor
  · simp [Shutdown.initial, Shutdown.running, OpPc.InOp]
  · intro t ht
    cases ht
  · rintro (hsem | ⟨t, ht | ht | ht⟩)
    · cases hsem
    · cases ht
    · cases ht
    · cases ht

lemma ShutdownRun.inv {vfs : VfsState φ} (h : ShutdownRun CountFits (Shutdown.initial vfs) M) :
    ShutdownInv M := by
  induction h with
  | refl => exact ShutdownInv.initial vfs
  | tail _ hstep ih =>
    obtain ⟨e, hstep, hcond⟩ := hstep
    exact ih.step hstep hcond

omit [Fintype τ] in
/-- The filesystem does not become usable again. -/
lemma ShutdownStep.unusable {e : OpEvent} (h : ShutdownStep M e M')
    (hfalse : M.vfs.usable = false) : M'.vfs.usable = false := by
  cases h with
  | startV hpc =>
    change (vfsStartOp M.vfs).2.usable = false
    rw [vfsStartOp, if_neg (by simp [hfalse])]
    exact hfalse
  | work hpc hops husable => exact husable.trans hfalse
  | endV hpc hend =>
    rw [vfsEndOp] at hend
    split_ifs at hend
    cases hend
    exact hfalse
  | deinitWait | deinitIdle => rfl
  | _ => exact hfalse

omit [Fintype τ] in
lemma ShutdownRun.unusable {C : Shutdown τ φ → OpEvent → Prop} (h : ShutdownRun C M M')
    (hfalse : M.vfs.usable = false) : M'.vfs.usable = false := by
  induction h with
  | refl => exact hfalse
  | tail _ hstep ih =>
    obtain ⟨e, hstep, -⟩ := hstep
    exact hstep.unusable ih

lemma ShutdownInv.excludes (h : ShutdownInv M) : UnmountExcludes M where
  idle t hpc t' hin := by
    have hpos := (running_pos hin).trans_le h.counted
    rw [(h.idle (.inr ⟨t, .inr (.inr hpc)⟩)).1] at hpos
    exact lt_irrefl _ hpos
  unusable t hpc M' hrun := by
    have hfalse := hrun.unusable (h.idle (.inr ⟨t, .inr (.inr hpc)⟩)).2
    rw [vfsStartOp, if_neg (by simp [hfalse])]
    exact (by decide : vfsUnusable ≠ vfsOk)
  ending t hpc := by
    have hpos := running_pos (M := M) (t := t) (by rw [hpc]; trivial)
    have hcount := hpos.trans_le h.counted
    have hassert : M.vfs.ops - 1 ≥ 0 := by
      refine Int32.le_iff_toInt_le.mpr ?_
      rw [toInt_sub_one hcount]
      exact Int.le_sub_one_of_lt hcount
    rw [vfsEndOp, if_pos hassert]
    exact Option.some_ne_none _
  checking t hpc := (h.idle (.inr ⟨t, .inr (.inl hpc)⟩)).1

/-! ### Operations that are never ended -/

/-- A run without a condition. -/
abbrev AnyRun (M M' : Shutdown τ φ) : Prop := ShutdownRun (fun _ _ => True) M M'

/-- One more operation is counted. -/
def Shutdown.countOp (M : Shutdown τ φ) : Shutdown τ φ :=
  { M with vfs := { M.vfs with ops := M.vfs.ops + 1 } }

omit [Fintype τ] in
lemma ShutdownStep.any {e : OpEvent} (h : ShutdownStep M e M') : AnyRun M M' :=
  .single ⟨e, h, trivial⟩

omit [Fintype τ] in
/-- `vfs_start_op` when the filesystem is usable. -/
lemma ShutdownStep.startV_eq (hpc : M.pc t = .starting) (husable : M.vfs.usable = true) :
    ShutdownStep M .start { M.countOp.setPc t .inside with opSem := M.opSem + 1 } := by
  have hstep := ShutdownStep.startV hpc
  have hstart : vfsStartOp M.vfs = (vfsOk, M.countOp.vfs) := by
    rw [vfsStartOp, if_pos husable]
    rfl
  rwa [hstart, if_pos rfl] at hstep

omit [Fintype τ] in
/-- A thread begins an operation. -/
lemma anyRun_begin (hpc : M.pc t = .outside) (hsem : 0 < M.opSem) (husable : M.vfs.usable = true) :
    AnyRun M (M.countOp.setPc t .inside) := by
  have hrun := (ShutdownStep.startP hpc hsem).any.trans
    (ShutdownStep.startV_eq (M := { M.setPc t .starting with opSem := M.opSem - 1 })
      (M.setPc_self t .starting) husable).any
  dsimp only [Shutdown.setPc, Shutdown.countOp] at hrun
  rw [Function.update_idem, Nat.sub_add_cancel hsem] at hrun
  exact hrun

omit [Fintype τ] in
/-- A thread begins an operation and returns without its end. -/
lemma anyRun_countOp (hpc : M.pc t = .outside) (hsem : 0 < M.opSem)
    (husable : M.vfs.usable = true) : AnyRun M M.countOp := by
  have hrun := (anyRun_begin hpc hsem husable).trans
    (ShutdownStep.leave (Shutdown.setPc_self M.countOp t .inside)).any
  dsimp only [Shutdown.setPc, Shutdown.countOp] at hrun
  rw [Function.update_idem, ← hpc, Function.update_eq_self] at hrun
  exact hrun

omit [Fintype τ] in
lemma anyRun_countOps (n : ℕ) (hpc : M.pc t = .outside) (hsem : 0 < M.opSem)
    (husable : M.vfs.usable = true) :
    AnyRun M { M with vfs := { M.vfs with ops := M.vfs.ops + Int32.ofNat n } } := by
  induction n with
  | zero =>
    rw [show Int32.ofNat 0 = 0 from rfl, Int32.add_zero]
    exact .refl
  | succ n ih =>
    rw [Int32.ofNat_add, ← Int32.add_assoc]
    exact ih.trans (anyRun_countOp hpc hsem husable)

omit [Fintype τ] in
/-- When the count has wrapped around, the operation can leave, and the next one fails the assertion
in `vfs_end_op`. -/
lemma exists_not_excludes_of_wrapped (hstep : ShutdownStep M .start M')
    (hwrap : ¬ CountFits M .start) : ∃ M'', AnyRun M' M'' ∧ ¬ UnmountExcludes M'' := by
  rw [CountFits, Classical.not_imp, not_not] at hwrap
  obtain ⟨husable, hmax⟩ := hwrap
  cases hstep with
  | @startV t hpc =>
    rw [vfsStartOp, if_pos husable, if_pos rfl]
    have hleft := (ShutdownStep.leave (M := { M.setPc t .inside with
      vfs := M.countOp.vfs, opSem := M.opSem + 1 }) (M.setPc_self t .inside)).any
    have hagain := hleft.trans
      (anyRun_begin (t := t) (Shutdown.setPc_self _ t _) (Nat.succ_pos _) husable)
    refine ⟨_, hagain.trans (ShutdownStep.endP (t := t) (Shutdown.setPc_self _ t _) ?_).any,
      fun h => h.ending t (Shutdown.setPc_self _ t _) ?_⟩
    · exact Nat.succ_pos M.opSem
    · have hneg : ¬ M.vfs.ops + 1 + 1 - 1 ≥ 0 := by
        rw [hmax]
        decide
      exact if_neg hneg

/-- For any number of threads, in every run in which no operation begins when the count of the
operations is the greatest `int`, the forced unmount excludes operations; and when one begins then,
the run can go on so that it does not. -/
theorem forcedUnmount_excludes {vfs : VfsState φ}
    (h : ShutdownRun CountFits (Shutdown.initial vfs) M) :
    UnmountExcludes M ∧ ∀ M', ShutdownStep M .start M' → ¬ CountFits M .start →
      ∃ M'', AnyRun M' M'' ∧ ¬ UnmountExcludes M'' :=
  ⟨h.inv.excludes, fun _ hstep hwrap => exists_not_excludes_of_wrapped hstep hwrap⟩

/-- One thread is in an operation when the other one calls `vfs_deinit`, and ends it. -/
theorem forcedUnmount_excludes_afterWait : ∃ M : Shutdown Bool ℕ,
    ShutdownRun CountFits (Shutdown.initial vfsInit) M ∧ M.pc true = .unmounting ∧
    (∀ t', ¬ (M.pc t').InOp) ∧ ∀ M', AnyRun M M' → (vfsStartOp M'.vfs).1 ≠ vfsOk := by
  have h₁ : ShutdownRun CountFits (Shutdown.initial vfsInit) _ := Relation.ReflTransGen.single
    ⟨_, ShutdownStep.startP (M := Shutdown.initial (@vfsInit ℕ)) (t := false) rfl (by decide),
      trivial⟩
  have h₂ : ShutdownRun CountFits (Shutdown.initial vfsInit) _ :=
    h₁.tail ⟨_, ShutdownStep.startV (t := false) rfl, fun _ => by decide⟩
  have h₃ : ShutdownRun CountFits (Shutdown.initial vfsInit) _ :=
    h₂.tail ⟨_, ShutdownStep.deinitP (t := true) rfl (by decide), trivial⟩
  have h₄ : ShutdownRun CountFits (Shutdown.initial vfsInit) _ :=
    h₃.tail ⟨_, ShutdownStep.deinitWait (t := true) rfl (by decide), trivial⟩
  have h₅ : ShutdownRun CountFits (Shutdown.initial vfsInit) _ :=
    h₄.tail ⟨_, ShutdownStep.endP (t := false) rfl (by decide), trivial⟩
  have h₆ : ShutdownRun CountFits (Shutdown.initial vfsInit) _ :=
    h₅.tail ⟨_, ShutdownStep.endV (t := false) rfl rfl, trivial⟩
  have h₇ : ShutdownRun CountFits (Shutdown.initial vfsInit) _ :=
    h₆.tail ⟨_, ShutdownStep.deinitWake (t := true) rfl (by decide), trivial⟩
  have h₈ : ShutdownRun CountFits (Shutdown.initial vfsInit) _ :=
    h₇.tail ⟨_, ShutdownStep.deinitP' (t := true) rfl (by decide), trivial⟩
  have h₉ : ShutdownRun CountFits (Shutdown.initial vfsInit) _ :=
    h₈.tail ⟨_, ShutdownStep.deinitAssert (t := true) rfl (by decide), trivial⟩
  have hexcludes := (forcedUnmount_excludes h₉).1
  exact ⟨_, h₉, rfl, hexcludes.idle true rfl, hexcludes.unusable true rfl⟩

/-- After `2 ^ 31 - 1` operations that have returned without their end one more begins, and
`vfs_deinit` unmounts the filesystems in the middle of it. -/
theorem not_forcedUnmount_excludes_wrapped : ¬ ∀ M : Shutdown Bool ℕ,
    AnyRun (Shutdown.initial vfsInit) M → UnmountExcludes M := by
  intro hall
  have hlost := @anyRun_countOps Bool ℕ _ (Shutdown.initial vfsInit) false 2147483647 rfl
    Nat.one_pos rfl
  have hbegun := hlost.trans (anyRun_begin (t := false) rfl Nat.one_pos rfl)
  have hclosing := hbegun.trans (ShutdownStep.deinitP (t := true) rfl Nat.one_pos).any
  have hunmounting := hclosing.trans (ShutdownStep.deinitIdle (t := true) rfl (by decide)).any
  exact (hall _ hunmounting).idle true rfl false trivial

end Osm.Fs
