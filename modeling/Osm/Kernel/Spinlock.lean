import Osm.Core.Simulation
import Mathlib.Data.Set.Insert
import Mathlib.Logic.Function.Basic
import Mathlib.Logic.Relation

/-!
# Spinlocks

A model of `kernel/_spinlock.S`, one instruction at a time, for any number of processors and of
locks. The instruction `ll` reads a word and links the processor to it; `sc` stores to the word and
sets its register to 1 if the processor is still linked, and otherwise only sets the register to 0.
A link is lost when another processor stores to the word, and when the processor takes an
interrupt.

A processor releases a lock only if it has acquired it.
-/

namespace Osm.Kernel

open Osm.Core

/-- Where a processor is: in the code that uses locks, or before an instruction of
`spinlock_acquire` or `spinlock_release`. -/
inductive SpinPc where
  | caller
  | ll
  | bnez
  | li
  | sc
  | beqz
  | jrAcquire
  | sw
  | jrRelease
  deriving DecidableEq

/-- A processor: its program counter, the registers `t0` and `a0`, the word it is linked to, and the
locks that it has acquired and not released yet. -/
structure Cpu where
  pc   : SpinPc
  t0   : UInt32
  a0   : UInt32
  link : Option UInt32
  held : UInt32 → Prop

/-- The words of the locks, and the processors. -/
structure SpinState (ι : Type*) where
  mem : UInt32 → UInt32
  cpu : ι → Cpu

variable {ι : Type*} [DecidableEq ι]

/-- A processor goes on. -/
def SpinState.setCpu (s : SpinState ι) (c : ι) (cpu : Cpu) : SpinState ι :=
  { s with cpu := Function.update s.cpu c cpu }

/-- A processor stores to a word, and others lose their links to it. -/
def SpinState.store (s : SpinState ι) (c : ι) (word value : UInt32) : SpinState ι where
  mem   := Function.update s.mem word value
  cpu d := if d ≠ c ∧ (s.cpu d).link = some word then { s.cpu d with link := none } else s.cpu d

/-- An instruction of a processor, a call, or an interrupt. -/
inductive SpinStep (s : SpinState ι) (c : ι) : SpinState ι → Prop
  | callAcquire (slock : UInt32) (hpc : (s.cpu c).pc = .caller) :
      SpinStep s c (s.setCpu c { s.cpu c with pc := .ll, a0 := slock })
  | ll (hpc : (s.cpu c).pc = .ll) :
      SpinStep s c (s.setCpu c { s.cpu c with
        pc := .bnez, t0 := s.mem (s.cpu c).a0, link := some (s.cpu c).a0 })
  | bnez (hpc : (s.cpu c).pc = .bnez) :
      SpinStep s c (s.setCpu c { s.cpu c with pc := if (s.cpu c).t0 ≠ 0 then .ll else .li })
  | li (hpc : (s.cpu c).pc = .li) :
      SpinStep s c (s.setCpu c { s.cpu c with pc := .sc, t0 := 1 })
  | sc (hpc : (s.cpu c).pc = .sc) (hlink : (s.cpu c).link = some (s.cpu c).a0) :
      SpinStep s c ((s.store c (s.cpu c).a0 (s.cpu c).t0).setCpu c { s.cpu c with
        pc := .beqz, t0 := 1, link := none })
  | scFails (hpc : (s.cpu c).pc = .sc) (hlink : (s.cpu c).link ≠ some (s.cpu c).a0) :
      SpinStep s c (s.setCpu c { s.cpu c with pc := .beqz, t0 := 0, link := none })
  | beqz (hpc : (s.cpu c).pc = .beqz) :
      SpinStep s c (s.setCpu c { s.cpu c with pc := if (s.cpu c).t0 = 0 then .ll else .jrAcquire })
  | jrAcquire (hpc : (s.cpu c).pc = .jrAcquire) :
      SpinStep s c (s.setCpu c { s.cpu c with
        pc := .caller, held := fun slock => slock = (s.cpu c).a0 ∨ (s.cpu c).held slock })
  | callRelease (slock : UInt32) (hpc : (s.cpu c).pc = .caller) (hheld : (s.cpu c).held slock) :
      SpinStep s c (s.setCpu c { s.cpu c with pc := .sw, a0 := slock })
  | sw (hpc : (s.cpu c).pc = .sw) :
      SpinStep s c ((s.store c (s.cpu c).a0 0).setCpu c { s.cpu c with
        pc := .jrRelease
        held := fun slock => slock ≠ (s.cpu c).a0 ∧ (s.cpu c).held slock })
  | jrRelease (hpc : (s.cpu c).pc = .jrRelease) :
      SpinStep s c (s.setCpu c { s.cpu c with pc := .caller })
  | interrupt : SpinStep s c (s.setCpu c { s.cpu c with link := none })

/-- All locks have been reset, and no processor uses them. -/
structure SpinInit (s : SpinState ι) : Prop where
  mem    : ∀ slock, s.mem slock = 0
  caller : ∀ c, (s.cpu c).pc = .caller
  held   : ∀ c slock, ¬(s.cpu c).held slock

/-- The states after any steps of any processors. -/
def SpinReachable (s : SpinState ι) : Prop :=
  ∃ s₀, SpinInit s₀ ∧ Relation.ReflTransGen (fun s s' => ∃ c, SpinStep s c s') s₀ s

/-- The processor has stored 1 to the word of the lock, and has not stored 0 since. -/
def Owns (cpu : Cpu) (slock : UInt32) : Prop :=
  cpu.held slock ∨
    cpu.a0 = slock ∧ (cpu.pc = .beqz ∧ cpu.t0 ≠ 0 ∨ cpu.pc = .jrAcquire)

/-! ### Locks without instructions -/

/-- Nobody owns a lock, and then somebody does, or the other way round. -/
inductive LockStep (owner : UInt32 → Option ι) : (UInt32 → Option ι) → Prop
  | acquire (c : ι) (slock : UInt32) (hfree : owner slock = none) :
      LockStep owner (Function.update owner slock (some c))
  | release (c : ι) (slock : UInt32) (howner : owner slock = some c) :
      LockStep owner (Function.update owner slock none)

/-- What a processor knows about the word of the lock: as long as it is linked, the word is as `ll`
has read it. -/
structure CpuOk (mem : UInt32 → UInt32) (cpu : Cpu) : Prop where
  read    : cpu.link = some cpu.a0 → cpu.pc = .bnez → cpu.t0 = mem cpu.a0
  zero    : cpu.link = some cpu.a0 → cpu.pc = .li ∨ cpu.pc = .sc → mem cpu.a0 = 0
  one     : cpu.pc = .sc → cpu.t0 = 1
  release : cpu.pc = .sw → cpu.held cpu.a0

/-- The owners of the locks, and what is in their words. -/
structure OwnedBy (s : SpinState ι) (owner : UInt32 → Option ι) : Prop where
  owns : ∀ slock c, Owns (s.cpu c) slock ↔ owner slock = some c
  word : ∀ slock, s.mem slock = if owner slock = none then 0 else 1
  cpu  : ∀ c, CpuOk s.mem (s.cpu c)

variable {s s' : SpinState ι} {c d : ι} {owner : UInt32 → Option ι} {slock word value : UInt32}

namespace SpinState

@[simp]
lemma setCpu_self (s : SpinState ι) (c : ι) (cpu : Cpu) : (s.setCpu c cpu).cpu c = cpu :=
  Function.update_self ..

lemma setCpu_of_ne (s : SpinState ι) {c d : ι} (cpu : Cpu) (h : d ≠ c) :
    (s.setCpu c cpu).cpu d = s.cpu d := Function.update_of_ne h ..

@[simp]
lemma mem_setCpu (s : SpinState ι) (c : ι) (cpu : Cpu) : (s.setCpu c cpu).mem = s.mem := rfl

@[simp]
lemma mem_store (s : SpinState ι) (c : ι) (word value : UInt32) :
    (s.store c word value).mem = Function.update s.mem word value := rfl

lemma cpu_store (s : SpinState ι) (c d : ι) (word value : UInt32) :
    (s.store c word value).cpu d =
      if d ≠ c ∧ (s.cpu d).link = some word then { s.cpu d with link := none } else s.cpu d := rfl

end SpinState

/-- Other processors lose a link at most. -/
lemma owns_store : Owns ((s.store c word value).cpu d) slock ↔ Owns (s.cpu d) slock := by
  rw [SpinState.cpu_store]
  split_ifs <;> rfl

/-- A processor that is linked to another word still knows what is there. -/
lemma CpuOk.store (h : CpuOk s.mem (s.cpu d)) (hne : d ≠ c) :
    CpuOk (Function.update s.mem word value) ((s.store c word value).cpu d) := by
  rw [SpinState.cpu_store]
  by_cases hlink : (s.cpu d).link = some word
  · rw [if_pos ⟨hne, hlink⟩]
    exact ⟨fun hnone => (by cases hnone), fun hnone => (by cases hnone), h.one, h.release⟩
  · rw [if_neg fun hand => hlink hand.2]
    have hother : (s.cpu d).link = some (s.cpu d).a0 →
        Function.update s.mem word value (s.cpu d).a0 = s.mem (s.cpu d).a0 := fun hself =>
      Function.update_of_ne (fun heq => hlink (by rw [hself, heq])) ..
    exact ⟨fun hself hpc => by rw [hother hself, h.read hself hpc],
      fun hself hpc => by rw [hother hself, h.zero hself hpc], h.one, h.release⟩

/-- A step of a processor that stores nothing and does not change what it owns. -/
lemma OwnedBy.setCpu (h : OwnedBy s owner) {cpu : Cpu}
    (howns : ∀ slock, Owns cpu slock ↔ Owns (s.cpu c) slock) (hok : CpuOk s.mem cpu) :
    OwnedBy (s.setCpu c cpu) owner where
  owns slock d := by
    rw [← h.owns slock d]
    by_cases hd : d = c
    · rw [hd, SpinState.setCpu_self, howns]
    · rw [SpinState.setCpu_of_ne s cpu hd]
  word := h.word
  cpu d := by
    by_cases hd : d = c
    · rw [hd, SpinState.setCpu_self]
      exact hok
    · rw [SpinState.setCpu_of_ne s cpu hd]
      exact h.cpu d

/-- A step of a processor that stores to the word of a lock. -/
lemma OwnedBy.store (h : OwnedBy s owner) {cpu : Cpu} {next : Option ι}
    (hself : Owns cpu slock ↔ next = some c) (hothers : ∀ d, d ≠ c → next ≠ some d)
    (hbefore : ∀ d, d ≠ c → owner slock ≠ some d)
    (howns : ∀ slock', slock' ≠ slock → (Owns cpu slock' ↔ Owns (s.cpu c) slock'))
    (hword : value = if next = none then 0 else 1)
    (hok : CpuOk (Function.update s.mem slock value) cpu) :
    OwnedBy ((s.store c slock value).setCpu c cpu) (Function.update owner slock next) where
  owns slock' d := by
    by_cases hd : d = c
    · rw [hd, SpinState.setCpu_self]
      by_cases hslock : slock' = slock
      · rw [hslock, Function.update_self, hself]
      · rw [Function.update_of_ne hslock, howns slock' hslock, h.owns]
    · rw [SpinState.setCpu_of_ne _ cpu hd, owns_store, h.owns]
      by_cases hslock : slock' = slock
      · rw [hslock, Function.update_self]
        exact iff_of_false (hbefore d hd) (hothers d hd)
      · rw [Function.update_of_ne hslock]
  word slock' := by
    rw [SpinState.mem_setCpu, SpinState.mem_store]
    by_cases hslock : slock' = slock
    · rw [hslock, Function.update_self, Function.update_self, hword]
    · rw [Function.update_of_ne hslock, Function.update_of_ne hslock, h.word]
  cpu d := by
    rw [SpinState.mem_setCpu, SpinState.mem_store]
    by_cases hd : d = c
    · rw [hd, SpinState.setCpu_self]
      exact hok
    · rw [SpinState.setCpu_of_ne _ cpu hd]
      exact (h.cpu d).store hd

/-- An instruction is an operation on the locks or none: a successful `sc` acquires the lock, and
the `sw` of `spinlock_release` releases it. -/
lemma OwnedBy.step (h : OwnedBy s owner) (hstep : SpinStep s c s') :
    ∃ owner', Relation.ReflTransGen LockStep owner owner' ∧ OwnedBy s' owner' := by
  have hok := h.cpu c
  cases hstep with
  | callAcquire slock hpc =>
    refine ⟨owner, .refl, h.setCpu (fun slock => ?_) ⟨?_, ?_, ?_, ?_⟩⟩
    · simp [Owns, hpc]
    all_goals simp
  | ll hpc =>
    refine ⟨owner, .refl, h.setCpu (fun slock => ?_) ⟨?_, ?_, ?_, ?_⟩⟩
    · simp [Owns, hpc]
    all_goals simp
  | bnez hpc =>
    refine ⟨owner, .refl, h.setCpu (fun slock => ?_) ?_⟩
    · split_ifs <;> simp [Owns, hpc]
    · by_cases hzero : (s.cpu c).t0 = 0
      · rw [if_neg (not_not.mpr hzero)]
        refine ⟨by simp, fun hlink _ => ?_, by simp, by simp⟩
        exact (hok.read hlink hpc).symm.trans hzero
      · rw [if_pos hzero]
        exact ⟨by simp, by simp, by simp, by simp⟩
  | li hpc =>
    refine ⟨owner, .refl, h.setCpu (fun slock => ?_) ?_⟩
    · simp [Owns, hpc]
    · exact ⟨by simp, fun hlink _ => hok.zero hlink (.inl hpc), fun _ => rfl, by simp⟩
  | sc hpc hlink =>
    have hzero := hok.zero hlink (.inr hpc)
    have hfree : owner (s.cpu c).a0 = none := by
      by_contra howned
      have hword := h.word (s.cpu c).a0
      rw [hzero, if_neg howned] at hword
      exact absurd hword (by decide)
    refine ⟨_, .single (.acquire c _ hfree), h.store ?_ (fun d hd => ?_) (fun d _ => ?_)
      (fun slock' hslock => ?_) ?_ ⟨?_, ?_, ?_, ?_⟩⟩
    · simp [Owns]
    · simpa using hd.symm
    · simp [hfree]
    · simp [Owns, hpc, hslock.symm]
    · simp [hok.one hpc]
    all_goals simp
  | scFails hpc hlink =>
    refine ⟨owner, .refl, h.setCpu (fun slock => ?_) ⟨?_, ?_, ?_, ?_⟩⟩
    · simp [Owns, hpc]
    all_goals simp
  | beqz hpc =>
    refine ⟨owner, .refl, h.setCpu (fun slock => ?_) ⟨?_, ?_, ?_, ?_⟩⟩
    · split_ifs with hzero <;> simp [Owns, hpc, hzero]
    all_goals split_ifs <;> simp
  | jrAcquire hpc =>
    refine ⟨owner, .refl, h.setCpu (fun slock => ?_) ⟨?_, ?_, ?_, ?_⟩⟩
    · simp [Owns, hpc, or_comm, eq_comm]
    all_goals simp
  | callRelease slock hpc hheld =>
    refine ⟨owner, .refl, h.setCpu (fun slock => ?_) ⟨?_, ?_, ?_, ?_⟩⟩
    · simp [Owns, hpc]
    all_goals simp [hheld]
  | sw hpc =>
    have howner : owner (s.cpu c).a0 = some c :=
      (h.owns _ c).mp (.inl (hok.release hpc))
    refine ⟨_, .single (.release c _ howner), h.store ?_ (fun d _ => by simp) (fun d hd => ?_)
      (fun slock' hslock => ?_) rfl ⟨?_, ?_, ?_, ?_⟩⟩
    · simp [Owns]
    · rw [howner]
      simpa using hd.symm
    · simp [Owns, hpc, hslock]
    all_goals simp
  | jrRelease hpc =>
    refine ⟨owner, .refl, h.setCpu (fun slock => ?_) ⟨?_, ?_, ?_, ?_⟩⟩
    · simp [Owns, hpc]
    all_goals simp
  | interrupt =>
    refine ⟨owner, .refl, h.setCpu (fun slock => ?_) ⟨?_, ?_, ?_, ?_⟩⟩
    · simp [Owns]
    · simp
    · simp
    · exact hok.one
    · exact hok.release

omit [DecidableEq ι] in
lemma SpinInit.ownedBy (h : SpinInit s) : OwnedBy s fun _ => none where
  owns slock c := by simp [Owns, h.held, h.caller]
  word slock := h.mem slock
  cpu c := by
    have hpc := h.caller c
    exact ⟨by simp [hpc], by simp [hpc], by simp [hpc], by simp [hpc]⟩

/-- The instructions implement locks that are acquired and released at once: in any state there is
at most one owner of a lock, the word of the lock is 1 if there is one and 0 otherwise, and the
owners have come about by acquiring locks that were free and releasing those that were owned. -/
theorem spinlock_refines_lock (h : SpinReachable s) :
    ∃ owner : UInt32 → Option ι, Relation.ReflTransGen LockStep (fun _ => none) owner ∧
      ∀ slock, (∀ c, Owns (s.cpu c) slock ↔ owner slock = some c) ∧
        s.mem slock = if owner slock = none then 0 else 1 := by
  obtain ⟨s₀, hinit, hrun⟩ := h
  obtain ⟨owner, hlocks, howned⟩ := exists_reflTransGen_of_simulates
    (fun s s' owner h ⟨c, hstep⟩ => h.step hstep) hinit.ownedBy hrun
  exact ⟨owner, hlocks, fun slock => ⟨howned.owns slock, howned.word slock⟩⟩

/-! ### Progress -/

/-- The processor is in `spinlock_acquire`. -/
def Acquiring (pc : SpinPc) : Prop := pc ∈ [.ll, .bnez, .li, .sc, .beqz, .jrAcquire]

instance (pc : SpinPc) : Decidable (Acquiring pc) := inferInstanceAs (Decidable (_ ∈ _))

/-- The processor `c` goes on alone and acquires the lock. -/
def AcquiresAlone (c : ι) (slock : UInt32) (s : SpinState ι) : Prop :=
  ∃ s', Relation.ReflTransGen (fun s s' => SpinStep s c s') s s' ∧ (s'.cpu c).held slock

namespace AcquiresAlone

lemma of_step (hstep : SpinStep s c s') (h : AcquiresAlone c slock s') :
    AcquiresAlone c slock s := by
  obtain ⟨s'', hrun, hheld⟩ := h
  exact ⟨s'', .head hstep hrun, hheld⟩

lemma of_jrAcquire (hpc : (s.cpu c).pc = .jrAcquire) (ha0 : (s.cpu c).a0 = slock) :
    AcquiresAlone c slock s :=
  of_step (.jrAcquire hpc) ⟨_, .refl, by simp [ha0]⟩

lemma of_beqz_one (hpc : (s.cpu c).pc = .beqz) (ha0 : (s.cpu c).a0 = slock)
    (ht0 : (s.cpu c).t0 ≠ 0) : AcquiresAlone c slock s := by
  refine of_step (.beqz hpc) (of_jrAcquire ?_ ?_)
  · rw [SpinState.setCpu_self, if_neg ht0]
  · rw [SpinState.setCpu_self, ha0]

/-- A processor that is linked and has seen 0 goes straight on. -/
lemma of_sc_linked (hpc : (s.cpu c).pc = .sc) (ha0 : (s.cpu c).a0 = slock)
    (hlink : (s.cpu c).link = some slock) : AcquiresAlone c slock s := by
  refine of_step (.sc hpc (by rw [hlink, ha0])) (of_beqz_one ?_ ?_ ?_)
  · rw [SpinState.setCpu_self]
  · rw [SpinState.setCpu_self, ha0]
  · rw [SpinState.setCpu_self]
    change (1 : UInt32) ≠ 0
    decide

lemma of_li_linked (hpc : (s.cpu c).pc = .li) (ha0 : (s.cpu c).a0 = slock)
    (hlink : (s.cpu c).link = some slock) : AcquiresAlone c slock s := by
  refine of_step (.li hpc) (of_sc_linked ?_ ?_ ?_) <;> rw [SpinState.setCpu_self]
  · exact ha0
  · exact hlink

lemma of_ll (hpc : (s.cpu c).pc = .ll) (ha0 : (s.cpu c).a0 = slock) (hfree : s.mem slock = 0) :
    AcquiresAlone c slock s := by
  refine of_step (.ll hpc) (of_step (.bnez ?_) (of_li_linked ?_ ?_ ?_)) <;>
    simp only [SpinState.setCpu_self]
  · rw [ha0, hfree]
    rfl
  · exact ha0
  · rw [ha0]

lemma of_beqz (hpc : (s.cpu c).pc = .beqz) (ha0 : (s.cpu c).a0 = slock)
    (hfree : s.mem slock = 0) : AcquiresAlone c slock s := by
  by_cases ht0 : (s.cpu c).t0 = 0
  · refine of_step (.beqz hpc) (of_ll ?_ ?_ hfree)
    · rw [SpinState.setCpu_self, if_pos ht0]
    · rw [SpinState.setCpu_self, ha0]
  · exact of_beqz_one hpc ha0 ht0

lemma of_sc (hpc : (s.cpu c).pc = .sc) (ha0 : (s.cpu c).a0 = slock) (hfree : s.mem slock = 0) :
    AcquiresAlone c slock s := by
  by_cases hlink : (s.cpu c).link = some slock
  · exact of_sc_linked hpc ha0 hlink
  · refine of_step (.scFails hpc (by rwa [ha0])) (of_beqz ?_ ?_ hfree)
    · rw [SpinState.setCpu_self]
    · rw [SpinState.setCpu_self, ha0]

lemma of_li (hpc : (s.cpu c).pc = .li) (ha0 : (s.cpu c).a0 = slock) (hfree : s.mem slock = 0) :
    AcquiresAlone c slock s := by
  refine of_step (.li hpc) (of_sc ?_ ?_ hfree) <;> rw [SpinState.setCpu_self]
  exact ha0

lemma of_bnez (hpc : (s.cpu c).pc = .bnez) (ha0 : (s.cpu c).a0 = slock)
    (hfree : s.mem slock = 0) : AcquiresAlone c slock s := by
  refine of_step (.bnez hpc) ?_
  by_cases ht0 : (s.cpu c).t0 = 0
  · refine of_li ?_ ?_ hfree <;> rw [SpinState.setCpu_self]
    · exact if_neg (not_not.mpr ht0)
    · exact ha0
  · refine of_ll ?_ ?_ hfree <;> rw [SpinState.setCpu_self]
    · exact if_pos ht0
    · exact ha0

end AcquiresAlone

/-- Wherever a processor is in `spinlock_acquire`, it acquires the lock by its own instructions if
the lock is free. -/
theorem spinlock_acquires_free (hpc : Acquiring (s.cpu c).pc) (hfree : s.mem (s.cpu c).a0 = 0) :
    ∃ s', Relation.ReflTransGen (fun s s' => SpinStep s c s') s s' ∧
      (s'.cpu c).held (s.cpu c).a0 := by
  change AcquiresAlone c (s.cpu c).a0 s
  simp only [Acquiring, List.mem_cons, List.not_mem_nil, or_false] at hpc
  rcases hpc with hpc | hpc | hpc | hpc | hpc | hpc
  · exact .of_ll hpc rfl hfree
  · exact .of_bnez hpc rfl hfree
  · exact .of_li hpc rfl hfree
  · exact .of_sc hpc rfl hfree
  · exact .of_beqz hpc rfl hfree
  · exact .of_jrAcquire hpc rfl

/-- Two processors that do nothing yet. -/
def twoCpus : SpinState Bool := ⟨fun _ => 0, fun _ => ⟨.caller, 0, 0, none, fun _ => False⟩⟩

/-- The first processor calls `spinlock_acquire` and goes on alone. -/
lemma twoCpus_acquires : ∃ s, SpinReachable s ∧ (s.cpu false).held 0x1000 := by
  have hcall : SpinStep twoCpus false _ := .callAcquire 0x1000 rfl
  obtain ⟨s, hrun, hheld⟩ := AcquiresAlone.of_ll (c := false)
    (s := twoCpus.setCpu false { twoCpus.cpu false with pc := .ll, a0 := 0x1000 }) rfl rfl rfl
  have hinit : SpinInit twoCpus := ⟨fun _ => rfl, fun _ => rfl, fun _ _ h => h⟩
  refine ⟨s, ⟨twoCpus, hinit, .head ⟨false, hcall⟩ ?_⟩, hheld⟩
  exact hrun.lift id fun _ _ hstep => ⟨false, hstep⟩

theorem spinlock_refines_lock_twoCpus : ∃ s : SpinState Bool, SpinReachable s ∧
    (s.cpu false).held 0x1000 ∧ ¬Owns (s.cpu true) 0x1000 ∧ s.mem 0x1000 = 1 := by
  obtain ⟨s, hreach, hheld⟩ := twoCpus_acquires
  obtain ⟨owner, -, hlock⟩ := spinlock_refines_lock hreach
  obtain ⟨howns, hword⟩ := hlock 0x1000
  have howner := (howns false).mp (.inl hheld)
  rw [howner] at hword
  refine ⟨s, hreach, hheld, fun hother => ?_, hword⟩
  have hother' := (howns true).mp hother
  rw [howner] at hother'
  cases hother'

/-- A processor before `sc` that has lost its link. -/
theorem spinlock_acquires_free_unlinked : ∃ s' : SpinState Bool,
    Relation.ReflTransGen (fun s s' => SpinStep s false s')
      (twoCpus.setCpu false ⟨.sc, 1, 0x1000, none, fun _ => False⟩) s' ∧
      (s'.cpu false).held 0x1000 :=
  spinlock_acquires_free (c := false) (by decide) rfl

end Osm.Kernel
