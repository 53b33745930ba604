import Osm.Core.Simulation
import Osm.Core.TokenPrograms
import Osm.Kernel.SemaphoreSafety

/-!
# Programs over semaphores

Threads run programs of semaphore calls, while the kernel and other threads go on in any way, but
make no calls on the semaphores of the programs. `semaphore_P` takes several steps: its body, the
switch, the release by a `semaphore_V` and the switch back. A program has made the call when it
returns, and then it has taken a token.
-/

namespace Osm.Kernel

open Osm.Core

variable {ι σ : Type*} [DecidableEq ι]

/-- The kernel with the number of calls that each program has made. -/
structure Programs (ι : Type*) where
  sys : System
  pc  : ι → ℕ

/-- One step of the kernel, where the thread `tid i` runs the program `prog i` on the semaphores
that `handle` gives. -/
inductive ProgStep (n : ℕ) (base : UInt32) (tid : ι → ℤ) (handle : σ → Sem)
    (prog : ι → List (SemCall σ)) : Programs ι → Programs ι → Prop
  | p {x : Programs ι} {m' : SemState} {cpu : Fin configMaxCpus} {i : ι} {sem : σ} (hcpu : cpu < n)
      (ht : x.sys.kernel.currentThread cpu = tid i) (hidle : tid i ≠ idleThreadTid)
      (hrun : (x.sys.kernel.threadTable (tid i)).state = .running)
      (hoff : ∀ h, ¬ OnSleepChain x.sys.kernel h (tid i)) (hcall : x.sys.call (tid i) = none)
      (hcreated : x.sys.Created (handle sem))
      (hexec : semaphoreP base x.sys.toSemState cpu (handle sem) = some m')
      (hnext : (prog i)[x.pc i]? = some (.p sem)) :
      ProgStep n base tid handle prog x
        { x with sys := x.sys.recordP base m' (tid i) (handle sem) }
  | pReturn {x : Programs ι} {cpu : Fin configMaxCpus} {i : ι} {sem : σ} {phase : Phase}
      (hcpu : cpu < n) (ht : x.sys.kernel.currentThread cpu = tid i)
      (hrun : (x.sys.kernel.threadTable (tid i)).state = .running)
      (hcall : x.sys.call (tid i) = some (semaphoreAddress base (handle sem), phase))
      (hphase : phase ≠ .blocking) :
      ProgStep n base tid handle prog x
        ⟨x.sys.recordReturn (tid i) (handle sem), Function.update x.pc i (x.pc i + 1)⟩
  | v {x : Programs ι} {m' : SemState} {cpu : Fin configMaxCpus} {i : ι} {sem : σ} (hcpu : cpu < n)
      (ht : x.sys.kernel.currentThread cpu = tid i)
      (hrun : (x.sys.kernel.threadTable (tid i)).state = .running)
      (hcall : x.sys.call (tid i) = none) (hcreated : x.sys.Created (handle sem))
      (hexec : semaphoreV base x.sys.toSemState (handle sem) = some m')
      (hnext : (prog i)[x.pc i]? = some (.v sem)) :
      ProgStep n base tid handle prog x
        ⟨x.sys.recordV base m' (x.sys.kernel.currentThread cpu) (handle sem),
          Function.update x.pc i (x.pc i + 1)⟩
  | other {x : Programs ι} {m' : System} {raised : Option Sem}
      (hstep : SemStep n base x.sys raised m')
      (hlog : ∀ sem, m'.log (handle sem) = x.sys.log (handle sem)) :
      ProgStep n base tid handle prog x { x with sys := m' }

/-- The semaphores have just been created, and no calls have been made. -/
def ProgStart (n : ℕ) (base : UInt32) (handle : σ → Sem) (init : σ → ℕ) (x : Programs ι) : Prop :=
  SemReachable n base AnyStep x.sys ∧
    (∀ sem, x.sys.Created (handle sem) ∧ x.sys.log (handle sem) = { initial := init sem }) ∧
    ∀ i, x.pc i = 0

/-- The states that the programs lead to. -/
def ProgReachable (n : ℕ) (base : UInt32) (tid : ι → ℤ) (handle : σ → Sem)
    (prog : ι → List (SemCall σ)) (init : σ → ℕ) (x : Programs ι) : Prop :=
  ∃ x₀, ProgStart n base handle init x₀ ∧
    Relation.ReflTransGen (ProgStep n base tid handle prog) x₀ x

/-- One of the semaphores of the programs. -/
def Handled (handle : σ → Sem) (sem : Sem) : Prop := ∃ s, sem = handle s

/-- The values of the semaphores stay `int`s, however often the programs raise them. -/
def TokensFit [Fintype ι] [DecidableEq σ] (prog : ι → List (SemCall σ)) (init : σ → ℕ) : Prop :=
  ∀ sem, init sem + ∑ i, (prog i).count (.v sem) < 2 ^ 31

/-! ### The invariant -/

/-- A thread that is inside `semaphore_P` on one of the semaphores runs a program whose next call
it is. -/
structure ProgInv (n : ℕ) (base : UInt32) (tid : ι → ℤ) (handle : σ → Sem)
    (prog : ι → List (SemCall σ)) (x : Programs ι) : Prop where
  semInv : ∃ q, SemInv n base (Handled handle) x.sys q
  created : ∀ sem, x.sys.Created (handle sem)
  inside : ∀ sem t, x.sys.Inside base (handle sem) t →
    ∃ i, tid i = t ∧ (prog i)[x.pc i]? = some (.p sem)

/-- All calls of `semaphore_V` on the semaphores are those that the programs have made. -/
structure Recorded [Fintype ι] [DecidableEq σ] (handle : σ → Sem) (prog : ι → List (SemCall σ))
    (init : σ → ℕ) (x : Programs ι) : Prop where
  initial : ∀ sem, (x.sys.log (handle sem)).initial = init sem
  raised : ∀ sem, (x.sys.log (handle sem)).raised = made prog x.pc (.v sem)

/-- The tokens are the calls of `semaphore_P` that may still return. -/
structure HasTokens [Fintype ι] [DecidableEq σ] (n : ℕ) (base : UInt32) (tid : ι → ℤ)
    (handle : σ → Sem) (prog : ι → List (SemCall σ)) (init : σ → ℕ) (x : Programs ι)
    (a : Tokens ι σ) : Prop where
  inv : ProgInv n base tid handle prog x
  recorded : Recorded handle prog init x
  pc : a.pc = x.pc
  tokens : ∀ sem, (a.tokens sem : ℤ) =
    (x.sys.log (handle sem)).initial + (x.sys.log (handle sem)).raised -
      (x.sys.log (handle sem)).returned

section Steps

variable {n : ℕ} {base : UInt32} {tid : ι → ℤ} {handle : σ → Sem} {prog : ι → List (SemCall σ)}
  {x x' : Programs ι} {a : Tokens ι σ}

/-- The record of a body of `semaphore_P`. -/
lemma System.log_recordP (base : UInt32) (m : System) (m' : SemState) (t : ℤ) (sem : Sem) :
    ∃ blocked, (m.recordP base m' t sem).log = Function.update m.log sem { m.log sem with
      started := (m.log sem).started + 1, blocked := blocked } := by
  rw [System.recordP]
  split_ifs
  · exact ⟨_, rfl⟩
  · exact ⟨_, rfl⟩

/-- `semaphore_V` is recorded. -/
lemma SemStep.raised_le {m m' : System} {raised : Option Sem} (h : SemStep n base m raised m')
    {sem : Sem} (hsem : m.Created sem) :
    (m.log sem).raised + (if raised = some sem then 1 else 0) ≤ (m'.log sem).raised := by
  cases h with
  | @create m₁ cpu value res hcpu hvalue hexec =>
    obtain ⟨-, ⟨rfl, rfl⟩ | ⟨free, rfl, hfree, rfl⟩⟩ := semaphoreCreate_cases hexec
    · exact le_rfl
    · have hne : sem ≠ free := by
        rintro rfl
        exact hsem hfree
      simp [System.recordCreate, hne]
  | @p m₁ cpu t sem₁ hcpu ht hidle hrun hoff hcall hcreated hexec =>
    obtain ⟨blocked, hlog⟩ := System.log_recordP base m m₁ t sem₁
    rw [hlog]
    by_cases hs : sem = sem₁
    · subst hs
      simp
    · simp [hs]
  | @v m₁ cpu sem₁ hcpu hcreated hexec =>
    by_cases hs : sem = sem₁
    · subst hs
      simp [System.recordV]
    · simp [System.recordV, hs, Ne.symm hs]
  | @pReturn cpu t sem₁ phase hcpu ht hrun hcall hphase =>
    by_cases hs : sem = sem₁
    · subst hs
      simp [System.recordReturn]
    · simp [System.recordReturn, hs]
  | schedule => exact le_rfl
  | kernel => exact le_rfl

/-- If some semaphores have not been raised in the end, they have not been raised on the way. -/
lemma SemReachable.raiseFits {S : Sem → Prop} {m : System} (h : SemReachable n base AnyStep m)
    (hzero : ∀ sem, S sem → m.Created sem → (m.log sem).raised = 0) :
    SemReachable n base (RaiseFits S) m := by
  induction h with
  | refl => exact .refl
  | @tail m₁ m₂ _ hstep ih =>
    obtain ⟨raised, hstep, -⟩ := hstep
    have hzero₁ : ∀ sem, S sem → m₁.Created sem →
        (m₁.log sem).raised + (if raised = some sem then 1 else 0) = 0 := fun sem hS hsem =>
      Nat.le_zero.mp ((hstep.raised_le hsem).trans (hzero sem hS (hstep.created hsem)).le)
    refine (ih fun sem hS hsem => Nat.eq_zero_of_add_eq_zero_right (hzero₁ sem hS hsem)).tail
      ⟨raised, hstep, ?_⟩
    rintro sem rfl hS
    have hone := hzero₁ sem hS hstep.value_of_raised.2.1
    rw [if_pos rfl] at hone
    omega

/-- Only the caller enters `semaphore_P`. -/
lemma System.inside_recordP {m : System} {m' : SemState} {t u : ℤ} {sem sem' : Sem}
    (hinj : Function.Injective (semaphoreAddress base)) (hcall : m.call t = none)
    (h : (m.recordP base m' t sem).Inside base sem' u) :
    m.Inside base sem' u ∨ (u = t ∧ sem' = sem) := by
  rw [System.recordP] at h
  split_ifs at h
  · exact (SemInv.inside_enter hinj hcall rfl u sem').mp h
  · exact (SemInv.inside_enter hinj hcall rfl u sem').mp h

/-- A thread enters `semaphore_P` only by a call that is recorded. -/
lemma SemStep.inside_of_log_eq {m m' : System} {raised : Option Sem}
    (h : SemStep n base m raised m')
    (hinj : Function.Injective (semaphoreAddress base)) {sem : Sem} {t : ℤ}
    (hlog : m'.log sem = m.log sem) (ht : m'.Inside base sem t) : m.Inside base sem t := by
  cases h with
  | @create m₁ cpu value res hcpu hvalue hexec =>
    cases res with
    | none => exact ht
    | some => exact ht
  | @p m₁ cpu u sem₁ hcpu hu hidle hrun hoff hcall hcreated hexec =>
    refine (System.inside_recordP hinj hcall ht).resolve_right ?_
    rintro ⟨-, rfl⟩
    obtain ⟨blocked, hrecord⟩ := System.log_recordP base m m₁ u sem
    have hstarted := congrArg Log.started hlog
    rw [hrecord] at hstarted
    simp at hstarted
  | v => exact ht
  | @pReturn cpu u sem₁ phase hcpu hu hrun hcall hphase =>
    by_cases htu : t = u
    · subst htu
      simp [System.Inside, System.recordReturn] at ht
    · simpa [System.Inside, System.recordReturn, htu] using ht
  | @schedule s' cpu hcpu hexec =>
    exact (SemInv.inside_recordSwitch m s' _ sem t).mp ht
  | kernel => exact ht

/-- Another thread than the one that goes on is inside, with its program where it was. -/
lemma ProgInv.inside_of_ne (h : ProgInv n base tid handle prog x) {i : ι} {sem : σ} {t : ℤ}
    (ht : x.sys.Inside base (handle sem) t) (hne : t ≠ tid i) :
    ∃ j, tid j = t ∧ (prog j)[Function.update x.pc i (x.pc i + 1) j]? = some (.p sem) := by
  obtain ⟨j, rfl, hnext⟩ := h.inside sem t ht
  refine ⟨j, rfl, ?_⟩
  rwa [Function.update_of_ne fun hj => hne (congrArg tid hj)]

omit [DecidableEq ι] in
/-- A thread that is inside runs a program with the call. -/
lemma ProgInv.next_of_inside (h : ProgInv n base tid handle prog x)
    (htid : Function.Injective tid) {i : ι} {sem : σ}
    (hi : x.sys.Inside base (handle sem) (tid i)) :
    (prog i)[x.pc i]? = some (.p sem) := by
  obtain ⟨j, hj, hnext⟩ := h.inside sem _ hi
  rwa [← htid hj]

section Simulation

variable [Fintype ι] [DecidableEq σ] {init : σ → ℕ}
  (hinj : Function.Injective (semaphoreAddress base)) (hR : ¬ IsSemaphore base 0)
  (htid : Function.Injective tid) (hhandle : Function.Injective handle)
  (hfit : TokensFit prog init)

omit [DecidableEq ι] in
include hhandle in
/-- The record of one semaphore of the programs has changed. -/
lemma Recorded.update {m' : System} {log : Log} {sem : σ} {pc : ι → ℕ}
    (h : Recorded handle prog init x)
    (hlog : m'.log = Function.update x.sys.log (handle sem) log)
    (hinitial : log.initial = (x.sys.log (handle sem)).initial)
    (hraised : log.raised = made prog pc (.v sem))
    (hother : ∀ sem', sem' ≠ sem → made prog pc (.v sem') = made prog x.pc (.v sem')) :
    Recorded handle prog init ⟨m', pc⟩ := by
  constructor
  · intro sem'
    rw [← h.initial sem', hlog]
    by_cases hs : sem' = sem
    · rw [hs, Function.update_self, hinitial]
    · rw [Function.update_of_ne (hhandle.ne hs)]
  · intro sem'
    rw [hlog]
    by_cases hs : sem' = sem
    · rw [hs, Function.update_self, hraised]
    · rw [Function.update_of_ne (hhandle.ne hs), hother sem' hs, h.raised]

include htid hhandle in
/-- The programs make their calls of `semaphore_V`, and nobody else raises the semaphores. -/
lemma HasTokens.recorded_step (h : HasTokens n base tid handle prog init x a)
    (hstep : ProgStep n base tid handle prog x x') : Recorded handle prog init x' := by
  have hrec := h.recorded
  cases hstep with
  | @p m' cpu i sem hcpu ht hidle hrun hoff hcall hc hexec hnext =>
    obtain ⟨blocked, hlog⟩ := System.log_recordP base x.sys m' (tid i) (handle sem)
    exact hrec.update hhandle hlog rfl (hrec.raised sem) fun _ _ => rfl
  | @pReturn cpu i sem phase hcpu ht hrun hcall hphase =>
    have hmade := made_update (h.inv.next_of_inside htid ⟨phase, hcall⟩)
    refine hrec.update hhandle rfl rfl ?_ fun sem' _ => ?_
    · simpa [hmade] using hrec.raised sem
    · simp [hmade]
  | @v m' cpu i sem hcpu ht hrun hcall hc hexec hnext =>
    refine hrec.update hhandle rfl rfl ?_ fun sem' hs => ?_
    · simpa [made_update hnext] using hrec.raised sem
    · simp [made_update hnext, Ne.symm hs]
  | @other m' raised hstep hlog =>
    refine ⟨fun sem => ?_, fun sem => ?_⟩
    · rw [hlog, hrec.initial]
    · rw [hlog, hrec.raised]

include hfit in
/-- The semaphores of the programs are not raised above the largest `int`. -/
lemma HasTokens.semStep (h : HasTokens n base tid handle prog init x a)
    (hstep : ProgStep n base tid handle prog x x') :
    ∃ raised, SemStep n base x.sys raised x'.sys ∧ RaiseFits (Handled handle) x.sys raised := by
  cases hstep with
  | p hcpu ht hidle hrun hoff hcall hcreated hexec =>
    exact ⟨none, .p hcpu ht hidle hrun hoff hcall hcreated hexec, fun _ h => nomatch h⟩
  | pReturn hcpu ht hrun hcall hphase =>
    exact ⟨none, .pReturn hcpu ht hrun hcall hphase, fun _ h => nomatch h⟩
  | @v m' cpu i sem hcpu ht hrun hcall hcreated hexec hnext =>
    refine ⟨some (handle sem), .v hcpu hcreated hexec, ?_⟩
    intro sem' hsem _ hmax
    cases hsem
    obtain ⟨q, hq⟩ := h.inv.semInv
    have hvalue := (hq.logOk _ ⟨sem, rfl⟩ hcreated).value
    rw [hmax, h.recorded.initial, h.recorded.raised] at hvalue
    -- the program has not yet made this call
    have hmade := made_update hnext (.v sem)
    rw [if_pos rfl] at hmade
    have hle := @made_le _ _ _ prog _ (Function.update x.pc i (x.pc i + 1)) (.v sem)
    have hbound := hfit sem
    omega
  | @other m' raised hstep hlog =>
    refine ⟨raised, hstep, ?_⟩
    rintro sem rfl ⟨s, rfl⟩ -
    have hraised := hstep.value_of_raised.2.2.2.1
    rw [hlog] at hraised
    omega

omit [DecidableEq ι] in
include hhandle in
/-- The record of one semaphore of the programs has changed. -/
lemma HasTokens.tokens_update {m' : System} {log : Log} {sem : σ}
    (h : HasTokens n base tid handle prog init x a)
    (hlog : m'.log = Function.update x.sys.log (handle sem) log) {count : ℕ}
    (hcount : (count : ℤ) = log.initial + log.raised - log.returned) (sem' : σ) :
    (Function.update a.tokens sem count sem' : ℤ) = (m'.log (handle sem')).initial +
      (m'.log (handle sem')).raised - (m'.log (handle sem')).returned := by
  rw [hlog]
  by_cases hs : sem' = sem
  · subst hs
    rw [Function.update_self, Function.update_self, hcount]
  · rw [Function.update_of_ne hs, Function.update_of_ne (hhandle.ne hs), h.tokens]

include hinj hR htid hhandle hfit in
/-- Returning from `semaphore_P` takes a token, `semaphore_V` puts one, and nothing else matters. -/
lemma HasTokens.step (h : HasTokens n base tid handle prog init x a)
    (hstep : ProgStep n base tid handle prog x x') :
    ∃ a', Relation.ReflTransGen (TokenStep prog) a a' ∧
      HasTokens n base tid handle prog init x' a' := by
  obtain ⟨⟨⟨q, hq⟩, hcreated, hinside⟩, -, hpc, htokens⟩ := id h
  obtain ⟨raised, hsem, hfits⟩ := h.semStep hfit hstep
  have hq' := hq.step hinj hR hsem hfits
  have hrec' := h.recorded_step htid hhandle hstep
  have hcreated' : ∀ sem, x'.sys.Created (handle sem) := fun sem => hsem.created (hcreated sem)
  cases hstep with
  | @p m' cpu i sem hcpu ht hidle hrun hoff hcall hc hexec hnext =>
    refine ⟨a, .refl, ⟨hq', hcreated', fun sem' t ht' => ?_⟩, hrec', hpc, ?_⟩
    · rcases System.inside_recordP hinj hcall ht' with hold | ⟨rfl, hsem⟩
      · exact hinside sem' t hold
      · exact ⟨i, rfl, hhandle hsem ▸ hnext⟩
    · obtain ⟨blocked, hlog⟩ := System.log_recordP base x.sys m' (tid i) (handle sem)
      have hsame := h.tokens_update hhandle hlog (htokens sem)
      rwa [Function.update_eq_self] at hsame
  | @pReturn cpu i sem phase hcpu ht hrun hcall hphase =>
    have hnext := h.inv.next_of_inside htid ⟨phase, hcall⟩
    obtain ⟨q', hq'⟩ := hq'
    -- the call that returns is one of those that may
    have hle := hq'.returned_le hR ⟨sem, rfl⟩ (hcreated' sem)
    simp only [System.recordReturn, Function.update_self] at hle
    have hsem := htokens sem
    have hpos : 0 < a.tokens sem := by
      have hsem := htokens sem
      push_cast at hle
      omega
    refine ⟨_, .single (.p (hpc ▸ hnext) hpos), ⟨⟨q', hq'⟩, hcreated', fun sem' t ht' => ?_⟩,
      hrec', by rw [hpc], h.tokens_update hhandle rfl ?_⟩
    · have hne : t ≠ tid i := by
        rintro rfl
        simp [System.Inside, System.recordReturn] at ht'
      have hinside : x.sys.Inside base (handle sem') t := by
        simpa [System.Inside, System.recordReturn, hne] using ht'
      exact h.inv.inside_of_ne hinside hne
    · have hsem := htokens sem
      push_cast [Nat.cast_sub hpos]
      omega
  | @v m' cpu i sem hcpu ht hrun hcall hc hexec hnext =>
    refine ⟨_, .single (.v (hpc ▸ hnext)), ⟨hq', hcreated', fun sem' t ht' => ?_⟩, hrec',
      by rw [hpc], h.tokens_update hhandle rfl ?_⟩
    · have hold : x.sys.Inside base (handle sem') t := ht'
      refine h.inv.inside_of_ne (i := i) hold ?_
      rintro rfl
      rw [System.Inside, hcall] at hold
      simp at hold
    · have hsem := htokens sem
      push_cast
      omega
  | @other m' raised hstep hlog =>
    refine ⟨a, .refl, ⟨hq', hcreated', fun sem t ht => ?_⟩, hrec', hpc, fun sem => ?_⟩
    · exact hinside sem t (hstep.inside_of_log_eq hinj (hlog sem) ht)
    · rw [htokens, hlog]

omit [DecidableEq ι] in
include hinj hR in
/-- Nobody is inside a semaphore that has just been created. -/
lemma ProgStart.hasTokens (h : ProgStart n base handle init x) :
    HasTokens n base tid handle prog init x ⟨fun _ => 0, init⟩ := by
  obtain ⟨hreach, hnew, hpc⟩ := h
  have hfits : SemReachable n base (RaiseFits (Handled handle)) x.sys := by
    refine hreach.raiseFits ?_
    rintro _ ⟨sem, rfl⟩ -
    rw [(hnew sem).2]
  obtain ⟨q, hq⟩ := hfits.semInv hinj hR
  refine ⟨⟨⟨q, hq⟩, fun sem => (hnew sem).1, fun sem t ht => ?_⟩, ⟨fun sem => ?_, fun sem => ?_⟩,
    (funext hpc).symm, fun sem => ?_⟩
  · obtain ⟨l, -, hl, hlen⟩ := (hq.logOk _ ⟨sem, rfl⟩ (hnew sem).1).inside
    rw [(hnew sem).2] at hlen
    have hnil : l = [] := List.length_eq_zero_iff.mp (by simpa using hlen.symm)
    have hmem := (hl t).mpr ht
    rw [hnil] at hmem
    cases hmem
  · rw [(hnew sem).2]
  · rw [(hnew sem).2]
    simp [made, hpc]
  · rw [(hnew sem).2]
    simp

end Simulation

/-- The thread sleeps on one of the semaphores. -/
def Asleep (base : UInt32) (handle : σ → Sem) (x : Programs ι) (t : ℤ) : Prop :=
  ∃ sem, t ∈ sleepers x.sys.kernel (semaphoreAddress base (handle sem))

omit [DecidableEq ι] in
/-- If all the programs that have not made all their calls are asleep, there is no token in a
semaphore on which one sleeps. -/
lemma HasTokens.waiting [Fintype ι] [DecidableEq σ] {init : σ → ℕ}
    (h : HasTokens n base tid handle prog init x a)
    (hR : ¬ IsSemaphore base 0) (htid : Function.Injective tid)
    (hall : ∀ i, (prog i).length ≤ x.pc i ∨ Asleep base handle x (tid i)) {i : ι}
    (hi : Asleep base handle x (tid i)) : a.Waiting prog i := by
  obtain ⟨⟨⟨q, hq⟩, hcreated, hinside⟩, -, hpc, htokens⟩ := id h
  have hwaiter : ∀ {t sem}, t ∈ sleepers x.sys.kernel (semaphoreAddress base (handle sem)) →
      t ∈ q.waiters (semaphoreAddress base (handle sem)) := fun {t sem} ht =>
    (hq.waits.models.mem_sleepers fun hzero => hR ⟨handle sem, hzero.symm⟩).mp ht
  obtain ⟨sem, hmem⟩ := hi
  replace hmem := hwaiter hmem
  refine ⟨sem, hpc ▸ h.inv.next_of_inside htid (hq.inside_of_mem_waiters hR hmem), ?_⟩
  have hlog := hq.logOk _ ⟨sem, rfl⟩ (hcreated sem)
  obtain ⟨l, hnodup, hl, hlen⟩ := hlog.inside
  -- whoever is inside is asleep, and on this semaphore
  have hsub : l ⊆ q.waiters (semaphoreAddress base (handle sem)) := by
    intro t ht
    obtain ⟨phase, hcall⟩ := (hl t).mp ht
    obtain ⟨j, rfl, hnext⟩ := hinside sem t ⟨phase, hcall⟩
    have hlt := (List.getElem?_eq_some_iff.mp hnext).1
    obtain ⟨sem', hmem'⟩ := (hall j).resolve_left (not_le.mpr hlt)
    obtain ⟨phase', hcall'⟩ := hq.inside_of_mem_waiters hR (hwaiter hmem')
    rw [hcall, Option.some.injEq, Prod.mk.injEq] at hcall'
    rw [hcall'.1]
    exact hwaiter hmem'
  have hle := (hnodup.subperm hsub).length_le
  have hpos := List.length_pos_of_mem hmem
  have hvalue := hlog.value
  have hwaiters := hlog.waiters
  have hsem := htokens sem
  omega

/-- There are tokens for every state that programs lead to. -/
lemma ProgReachable.hasTokens [Fintype ι] [DecidableEq σ] {init : σ → ℕ} (hpos : 0 < base.toNat)
    (hbase : base.toNat + 12 * configMaxSemaphores ≤ 2 ^ 32) (htid : Function.Injective tid)
    (hhandle : Function.Injective handle) (hfit : TokensFit prog init)
    (h : ProgReachable n base tid handle prog init x) :
    ∃ a, TokenReachable prog init a ∧ HasTokens n base tid handle prog init x a := by
  have hinj := semaphoreAddress_injective hbase
  have hR := not_isSemaphore_zero hpos hbase
  obtain ⟨x₀, hstart, hrun⟩ := h
  exact exists_reflTransGen_of_simulates
    (fun x x' a (h : HasTokens n base tid handle prog init x a) hstep =>
      h.step hinj hR htid hhandle hfit hstep)
    (hstart.hasTokens hinj hR) hrun

omit [DecidableEq ι] in
/-- If the programs that have not made all their calls are asleep, then they wait for tokens. -/
lemma HasTokens.finished_or_waiting [Fintype ι] [DecidableEq σ] {init : σ → ℕ}
    (h : HasTokens n base tid handle prog init x a) (hpos : 0 < base.toNat) (hbase : base.toNat + 12 * configMaxSemaphores ≤ 2 ^ 32)
    (htid : Function.Injective tid)
    (hall : ∀ i, (prog i).length ≤ x.pc i ∨ Asleep base handle x (tid i)) (i : ι) :
    a.Finished prog i ∨ a.Waiting prog i := by
  rcases hall i with hfinished | hasleep
  · exact .inl (by rwa [Tokens.Finished, h.pc])
  · exact .inr (h.waiting (not_isSemaphore_zero hpos hbase) htid hall hasleep)

/-- Programs on semaphores of the kernel whose values stay `int`s do what they do with tokens that are
taken at once: in any state that any interleaving leads to, the same programs have made the same calls there, with as many
tokens as calls of `semaphore_P` may still return. If all the programs that have not made all their
calls are asleep, then they wait there too. -/
theorem programs_refine_tokens [Fintype ι] [DecidableEq σ] {init : σ → ℕ} (hpos : 0 < base.toNat)
    (hbase : base.toNat + 12 * configMaxSemaphores ≤ 2 ^ 32) (htid : Function.Injective tid)
    (hhandle : Function.Injective handle) (hfit : TokensFit prog init)
    (h : ProgReachable n base tid handle prog init x) :
    ∃ a, TokenReachable prog init a ∧ a.pc = x.pc ∧
      (∀ sem, (a.tokens sem : ℤ) = (x.sys.log (handle sem)).initial +
        (x.sys.log (handle sem)).raised - (x.sys.log (handle sem)).returned) ∧
      ((∀ i, (prog i).length ≤ x.pc i ∨ Asleep base handle x (tid i)) →
        ∀ i, a.Finished prog i ∨ a.Waiting prog i) := by
  obtain ⟨a, hreach, ha⟩ := h.hasTokens hpos hbase htid hhandle hfit
  exact ⟨a, hreach, ha.pc, ha.tokens, ha.finished_or_waiting hpos hbase htid⟩

end Steps

/-! ### A run -/

/-- A thread runs, and three semaphores have been created, of which the first has the value 1. -/
lemma exists_created : ∃ m : System, SemReachable 1 0x80020000 AnyStep m ∧
    m.kernel.currentThread 0 = 1 ∧ (m.kernel.threadTable 1).state = .running ∧
    (∀ h, ¬ OnSleepChain m.kernel h 1) ∧ m.call 1 = none ∧ (m.semaphoreTable 0).value = 1 ∧
    ∀ sem : Sem, (sem : ℕ) < 3 →
      m.Created sem ∧ m.log sem = { initial := if sem = 0 then 1 else 0 } := by
  obtain ⟨s₂, s₃, hs₂, hs₃, hidle, hcur, hrun, hoff⟩ := exists_threadRunning
  have hreach₃ : SemReachable 1 0x80020000 AnyStep _ := ((Relation.ReflTransGen.single
    ⟨none, @SemStep.kernel 1 0x80020000 System.initial _ .threadCreate trivial trivial rfl,
      trivial⟩).tail ⟨none, SemStep.kernel (a := .threadRun 1) rfl trivial hs₂, trivial⟩).tail
    ⟨none, @SemStep.schedule 1 0x80020000 _ _ 0 Nat.one_pos hs₃, trivial⟩
  obtain ⟨m₄, hm₄⟩ : ∃ m, semaphoreCreate
      { kernel := s₃, semaphoreTable := fun _ => { value := 0, creator := -1 }, next := 0 } 0 1 =
      some (m, some 0) := ⟨_, rfl⟩
  obtain ⟨m₅, hm₅⟩ : ∃ m, semaphoreCreate m₄ 0 0 = some (m, some 1) := by
    cases hm₄; exact ⟨_, rfl⟩
  obtain ⟨m₆, hm₆⟩ : ∃ m, semaphoreCreate m₅ 0 0 = some (m, some 2) := by
    cases hm₄; cases hm₅; exact ⟨_, rfl⟩
  have hreach₄ := hreach₃.tail
    ⟨none, @SemStep.create 1 0x80020000 _ _ 0 1 (some 0) Nat.one_pos (by decide) hm₄, trivial⟩
  have hreach := (hreach₄.tail
    ⟨none, @SemStep.create 1 0x80020000 _ _ 0 0 (some 1) Nat.one_pos (by decide) hm₅, trivial⟩).tail
    ⟨none, @SemStep.create 1 0x80020000 _ _ 0 0 (some 2) Nat.one_pos (by decide) hm₆, trivial⟩
  have hkernel : m₆.kernel = s₃ := by cases hm₄; cases hm₅; cases hm₆; rfl
  have htable : m₆.semaphoreTable = Function.update (Function.update (Function.update
      (fun _ => { value := 0, creator := -1 }) 0 { value := 1, creator := s₃.currentThread 0 })
      1 { value := 0, creator := s₃.currentThread 0 })
      2 { value := 0, creator := s₃.currentThread 0 } := by
    cases hm₄; cases hm₅; cases hm₆; rfl
  refine ⟨_, hreach, hkernel ▸ hcur, hkernel ▸ hrun, hkernel ▸ hoff, ?_, ?_, fun sem hsem => ?_⟩
  · simp [System.recordCreate, System.recordSwitch, System.initial, hidle]
  · change (m₆.semaphoreTable 0).value = 1
    rw [htable]
    rfl
  · have hcases : sem = 0 ∨ sem = 1 ∨ sem = 2 := by
      simp only [Fin.ext_iff]
      change (sem : ℕ) = 0 ∨ (sem : ℕ) = 1 ∨ (sem : ℕ) = 2
      omega
    change (m₆.semaphoreTable sem).creator ≠ -1 ∧ _
    rw [htable, hcur]
    rcases hcases with rfl | rfl | rfl
    · exact ⟨by decide, rfl⟩
    · exact ⟨by decide, rfl⟩
    · exact ⟨by decide, rfl⟩

/-- A program makes its first call, on the semaphore with the value 1, and the call returns. -/
lemma exists_progReachable {tid : ι → ℤ} {handle : σ → Sem} {prog : ι → List (SemCall σ)}
    {init : σ → ℕ} {i : ι} {sem : σ} (hi : tid i = 1) (hrows : ∀ sem, (handle sem : ℕ) < 3)
    (hinit : ∀ sem, init sem = if handle sem = 0 then 1 else 0) (hsem : handle sem = 0)
    (hnext : (prog i)[0]? = some (.p sem)) :
    ∃ x, ProgReachable 1 0x80020000 tid handle prog init x ∧
      x.pc = Function.update (fun _ => 0) i 1 := by
  obtain ⟨m, hreach, hcur, hrun, hoff, hcall, hvalue, hnew⟩ := exists_created
  have hstart : ProgStart 1 0x80020000 handle init ⟨m, fun _ : ι => 0⟩ := by
    refine ⟨hreach, fun s => ⟨(hnew _ (hrows s)).1, ?_⟩, fun _ => rfl⟩
    rw [(hnew _ (hrows s)).2, hinit]
    split_ifs <;> rfl
  have hp : semaphoreP 0x80020000 m.toSemState 0 (handle sem) =
      some (m.toSemState.setValue 0 0) := by
    rw [hsem, semaphoreP, hvalue]
    rfl
  have hpass : ¬ ((m.toSemState.setValue 0 0).semaphoreTable (handle sem)).value < 0 := by
    simp [hsem, SemState.setValue]
  have hbody := @ProgStep.p ι σ _ 1 0x80020000 tid handle prog ⟨m, fun _ => 0⟩ _ 0 i sem
    Nat.one_pos (hi ▸ hcur) (by rw [hi]; decide) (hi ▸ hrun) (hi ▸ hoff) (hi ▸ hcall)
    (hnew _ (hrows sem)).1 hp hnext
  rw [System.recordP, if_neg hpass] at hbody
  exact ⟨_, ⟨_, hstart, (Relation.ReflTransGen.single hbody).tail
    (@ProgStep.pReturn ι σ _ 1 0x80020000 tid handle prog _ 0 i sem .passing Nat.one_pos
      (hi ▸ hcur) (hi ▸ hrun) (Function.update_self ..) (by decide))⟩, rfl⟩

/-- A program has taken the only token. -/
theorem programs_refine_tokens_taken : ∃ (x : Programs Unit) (a : Tokens Unit Unit),
    ProgReachable 1 0x80020000 (fun _ => 1) (fun _ => 0) (fun _ => [.p (), .v ()]) (fun _ => 1) x ∧
    a.pc () = 1 ∧ a.tokens () = 0 := by
  obtain ⟨x, hx, hpc⟩ := @exists_progReachable Unit Unit _ (fun _ => 1) (fun _ => 0)
    (fun _ => [.p (), .v ()]) (fun _ => 1) () () rfl (fun _ => by decide) (fun _ => rfl) rfl rfl
  obtain ⟨a, ha, hapc, -, -⟩ := programs_refine_tokens (by decide) (by decide)
    (fun _ _ _ => rfl) (fun _ _ _ => rfl) (fun () => by decide) hx
  have hpc' : a.pc = fun _ => 1 := by
    rw [hapc, hpc]
    rfl
  have hbalance := ha.balance ()
  rw [hpc'] at hbalance
  exact ⟨x, a, hx, congrFun hpc' (), by simpa [made] using hbalance⟩

end Osm.Kernel
