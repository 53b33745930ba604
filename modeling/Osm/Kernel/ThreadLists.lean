import Osm.Kernel.Queues
import Mathlib.Logic.Relation

/-!
# The thread lists invariant

Any number of CPUs create, run, schedule, put to sleep, wake and finish threads, in any order.
In every state reached that way the ready list holds exactly the ready threads, every chain of
the sleep queue exactly the threads waiting on a resource of its slot, and every running thread
is the current one of one CPU. A wake-up may find a thread that still runs; such a thread
leaves its chain and keeps running.

The invariant is stated on `Threads`, thread by thread: an operation that moves one thread only
has to re-establish `ThreadOk` for that thread (`Inv.move`). The functions of the kernel inherit
it through `Represents`.
-/

namespace Osm.Kernel

open Osm.Core

namespace Threads

/-- The thread is the current one of one of `n` CPUs. -/
def OnCpu (n : ℕ) (q : Threads) (t : ℤ) : Prop :=
  ∃ cpu : Fin configMaxCpus, cpu < n ∧ q.current cpu = t

/-- The thread is where its fields say it is. -/
structure ThreadOk (n : ℕ) (q : Threads) (t : ℤ) : Prop where
  tid : q.state t ≠ .free → 0 ≤ t ∧ t < configMaxThreads
  mem_ready : t ∈ q.ready ↔ t ≠ idleThreadTid ∧ q.state t = .ready
  mem_chain : ∀ h, t ∈ q.chain h ↔ q.sleepsOn t ≠ 0 ∧ sleepqHash (q.sleepsOn t) = h
  waiting : q.sleepsOn t ≠ 0 →
    t ≠ idleThreadTid ∧ (q.state t = .sleeping ∨ q.state t = .running)
  sleeping : q.state t = .sleeping → q.sleepsOn t ≠ 0
  nonready : q.state t = .nonready → t ≠ idleThreadTid
  onCpu : t ≠ idleThreadTid → (q.OnCpu n t ↔ q.state t = .running ∨ q.state t = .dying)

/-- The invariant of the thread lists for `n` CPUs. -/
structure Inv (n : ℕ) (q : Threads) : Prop where
  threadOk : ∀ t, q.ThreadOk n t
  ready_nodup : q.ready.Nodup
  chain_nodup : ∀ h, (q.chain h).Nodup
  current_inj : ∀ c c' : Fin configMaxCpus, c < n → c' < n → q.current c = q.current c' →
    q.current c ≠ idleThreadTid → c = c'

/-- Two states agree on a thread: on its fields, the lists it is on and whether it runs. -/
structure Same (n : ℕ) (q q' : Threads) (u : ℤ) : Prop where
  state : q'.state u = q.state u
  sleepsOn : q'.sleepsOn u = q.sleepsOn u
  mem_ready : u ∈ q'.ready ↔ u ∈ q.ready
  mem_chain : ∀ h, u ∈ q'.chain h ↔ u ∈ q.chain h
  onCpu : u ≠ idleThreadTid → (q'.OnCpu n u ↔ q.OnCpu n u)

lemma ThreadOk.congr {n : ℕ} {q q' : Threads} {u : ℤ} (h : q.ThreadOk n u)
    (hsame : Same n q q' u) : q'.ThreadOk n u where
  tid := by rw [hsame.state]; exact h.tid
  mem_ready := by rw [hsame.state, hsame.mem_ready]; exact h.mem_ready
  mem_chain k := by rw [hsame.sleepsOn, hsame.mem_chain]; exact h.mem_chain k
  waiting := by rw [hsame.state, hsame.sleepsOn]; exact h.waiting
  sleeping := by rw [hsame.state, hsame.sleepsOn]; exact h.sleeping
  nonready := by rw [hsame.state]; exact h.nonready
  onCpu hu := by rw [hsame.state, hsame.onCpu hu]; exact h.onCpu hu

namespace Inv

variable {n : ℕ} {q q' : Threads} {t : ℤ}

/-- An operation that moves a single thread keeps the invariant if it leaves that thread where
its fields say it is. -/
lemma move (hq : q.Inv n) (t : ℤ) (hother : ∀ u, u ≠ t → Same n q q' u) (ht : q'.ThreadOk n t)
    (hready : q'.ready.Nodup) (hchain : ∀ h, (q'.chain h).Nodup)
    (hinj : ∀ c c' : Fin configMaxCpus, c < n → c' < n → q'.current c = q'.current c' →
      q'.current c ≠ idleThreadTid → c = c') : q'.Inv n := by
  refine ⟨fun u => ?_, hready, hchain, hinj⟩
  by_cases hu : u = t
  · exact hu ▸ ht
  · exact (hq.threadOk u).congr (hother u hu)

/-- A thread that is neither ready nor waiting is on no list. -/
lemma not_onList (hq : q.Inv n) (hready : q.state t ≠ .ready) (hsleeps : q.sleepsOn t = 0) :
    ¬ q.OnList t := by
  rintro (ht | ⟨h, ht⟩)
  · exact hready ((hq.threadOk t).mem_ready.mp ht).2
  · exact (((hq.threadOk t).mem_chain h).mp ht).1 hsleeps

lemma sleepsOn_eq_zero (hq : q.Inv n) (h₁ : q.state t ≠ .sleeping) (h₂ : q.state t ≠ .running) :
    q.sleepsOn t = 0 := by
  by_contra hne
  exact ((hq.threadOk t).waiting hne).2.elim h₁ h₂

lemma not_mem_ready (hq : q.Inv n) (h : q.state t ≠ .ready) : t ∉ q.ready :=
  fun ht => h ((hq.threadOk t).mem_ready.mp ht).2

lemma not_mem_chain (hq : q.Inv n) (h : q.sleepsOn t = 0) (k : Fin sleepqHashtableSize) :
    t ∉ q.chain k :=
  fun ht => (((hq.threadOk t).mem_chain k).mp ht).1 h

lemma sleepsOn_idle (hq : q.Inv n) : q.sleepsOn idleThreadTid = 0 := by
  by_contra hne
  exact ((hq.threadOk _).waiting hne).1 rfl

/-- A thread with a state other than free is in the table, and not the idle thread unless it
has its identifier. -/
lemma tid_pos (hq : q.Inv n) (ht : t ≠ idleThreadTid) (hst : q.state t ≠ .free) :
    0 < t ∧ t < configMaxThreads := by
  have htid := (hq.threadOk t).tid hst
  simp only [idleThreadTid] at ht
  omega

end Inv

/-! ### The steps of the abstract machine -/

lemma nodup_append_singleton {l : List ℤ} {t : ℤ} (hl : l.Nodup) (ht : t ∉ l) :
    (l ++ [t]).Nodup :=
  List.nodup_append.mpr ⟨hl, List.nodup_singleton t, fun u hu v hv => by
    rw [List.mem_singleton.mp hv]
    rintro rfl
    exact ht hu⟩

/-- The state between the two halves of a schedule: the CPU runs nothing. -/
def vacate (q : Threads) (cpu : Fin configMaxCpus) : Threads :=
  { q.retire (q.current cpu) with current := Function.update q.current cpu idleThreadTid }

lemma schedule_eq (q : Threads) (cpu : Fin configMaxCpus) :
    q.schedule cpu = (q.vacate cpu).dispatchFirst cpu := by
  have hcur : ∀ t, (q.retire t).current = q.current := by
    intro t
    rw [retire, setState, addReady]
    split_ifs <;> rfl
  simp only [schedule, dispatchFirst, vacate]
  cases hready : (q.retire (q.current cpu)).ready <;>
    simp [dispatch, setState, hcur, hready]

namespace Inv

variable {n : ℕ} {q : Threads} {t : ℤ}

lemma create (hq : q.Inv n) (htid : 0 < t ∧ t < configMaxThreads) (hfree : q.state t = .free) :
    (q.create t).Inv n := by
  have hzero := hq.sleepsOn_eq_zero (t := t) (by simp [hfree]) (by simp [hfree])
  refine hq.move t (fun u hu => ⟨?_, ?_, Iff.rfl, fun _ => Iff.rfl, fun _ => Iff.rfl⟩) ?_
    hq.ready_nodup hq.chain_nodup hq.current_inj
  · simp [Threads.create, hu]
  · simp [Threads.create, hu]
  · have hok := hq.threadOk t
    refine ⟨fun _ => ⟨by omega, htid.2⟩, ?_, fun h => ?_, ?_, ?_, fun _ => ?_, fun hidle => ?_⟩
    · simpa [Threads.create] using hq.not_mem_ready (t := t) (by simp [hfree])
    · simpa [Threads.create] using hq.not_mem_chain hzero h
    · simp [Threads.create]
    · simp [Threads.create]
    · simp only [idleThreadTid]; omega
    · have hoff := hok.onCpu hidle
      rw [hfree] at hoff
      simpa [Threads.create, OnCpu] using hoff

lemma run (hq : q.Inv n) (hst : q.state t = .nonready) (hidle : t ≠ idleThreadTid) :
    (q.run t).Inv n := by
  have hok := hq.threadOk t
  have hzero := hq.sleepsOn_eq_zero (t := t) (by simp [hst]) (by simp [hst])
  have hnot := hq.not_mem_ready (t := t) (by simp [hst])
  refine hq.move t (fun u hu => ⟨?_, rfl, ?_, fun _ => Iff.rfl, fun _ => Iff.rfl⟩) ?_
    (nodup_append_singleton hq.ready_nodup hnot) hq.chain_nodup hq.current_inj
  · simp [Threads.run, Threads.setState, Threads.addReady, hu]
  · simp [Threads.run, Threads.setState, Threads.addReady, hu]
  · refine ⟨fun _ => hok.tid (by simp [hst]), ?_, fun h => ?_, ?_, ?_, fun _ => hidle,
      fun hidle => ?_⟩
    · simp [Threads.run, Threads.setState, Threads.addReady, hidle]
    · exact hok.mem_chain h
    · intro hne; exact absurd hzero hne
    · simp [Threads.run, Threads.setState]
    · have hoff := hok.onCpu hidle
      rw [hst] at hoff
      simpa [Threads.run, Threads.setState, Threads.addReady, OnCpu] using hoff

lemma finish (hq : q.Inv n) {cpu : Fin configMaxCpus} (hst : q.state (q.current cpu) = .running)
    (hzero : q.sleepsOn (q.current cpu) = 0) : (q.finish cpu).Inv n := by
  have hok := hq.threadOk (q.current cpu)
  refine hq.move (q.current cpu)
    (fun u hu => ⟨?_, rfl, Iff.rfl, fun _ => Iff.rfl, fun _ => Iff.rfl⟩) ?_
    hq.ready_nodup hq.chain_nodup hq.current_inj
  · simp [Threads.finish, Threads.setState, hu]
  · refine ⟨fun _ => hok.tid (by simp [hst]), ?_, hok.mem_chain, ?_, ?_, ?_, fun hidle => ?_⟩
    · simpa [Threads.finish, Threads.setState] using
        hq.not_mem_ready (t := q.current cpu) (by simp [hst])
    · intro hne; exact absurd hzero hne
    · simp [Threads.finish, Threads.setState]
    · simp [Threads.finish, Threads.setState]
    · have hon := hok.onCpu hidle
      rw [hst] at hon
      simpa [Threads.finish, Threads.setState, OnCpu] using hon

/-- Giving a CPU another current thread concerns the old and the new one only. -/
lemma onCpu_update {u t : ℤ} {cpu : Fin configMaxCpus} (hold : u ≠ q.current cpu) (hnew : u ≠ t) :
    (∃ c : Fin configMaxCpus, c < n ∧ Function.update q.current cpu t c = u) ↔ q.OnCpu n u := by
  refine exists_congr fun c => and_congr_right fun _ => ?_
  by_cases hc : c = cpu
  · subst hc
    rw [Function.update_self]
    exact ⟨fun h => absurd h.symm hnew, fun h => absurd h.symm hold⟩
  · rw [Function.update_of_ne hc]

/-- A CPU that turns idle leaves its thread to no other one. -/
lemma update_idle_ne (hq : q.Inv n) {cpu c : Fin configMaxCpus} (hcpu : cpu < n)
    (ht : t = q.current cpu) (hidle : t ≠ idleThreadTid) (hc : c < n) :
    Function.update q.current cpu idleThreadTid c ≠ t := by
  intro hct
  by_cases hcc : c = cpu
  · rw [hcc, Function.update_self] at hct
    exact hidle hct.symm
  · rw [Function.update_of_ne hcc] at hct
    exact hcc (hq.current_inj c cpu hc hcpu (hct.trans ht) (hct ▸ hidle))

lemma update_idle_inj (hq : q.Inv n) {cpu c c' : Fin configMaxCpus} (hc : c < n) (hc' : c' < n)
    (heq : Function.update q.current cpu idleThreadTid c =
      Function.update q.current cpu idleThreadTid c')
    (hidle : Function.update q.current cpu idleThreadTid c ≠ idleThreadTid) : c = c' := by
  simp only [Function.update_apply] at heq hidle
  split_ifs at heq hidle with h₁ h₂
  · exact absurd rfl hidle
  · exact absurd rfl hidle
  · exact absurd heq hidle
  · exact hq.current_inj c c' hc hc' heq hidle

lemma vacate (hq : q.Inv n) {cpu : Fin configMaxCpus} (hcpu : cpu < n) : (q.vacate cpu).Inv n := by
  obtain ⟨t, ht⟩ : ∃ t, t = q.current cpu := ⟨_, rfl⟩
  have hok := hq.threadOk t
  have hstate : t ≠ idleThreadTid → q.state t = .running ∨ q.state t = .dying :=
    fun hidle => (hok.onCpu hidle).mp ⟨cpu, hcpu, ht.symm⟩
  have hidle₀ : t = idleThreadTid → q.sleepsOn t = 0 := fun h => h ▸ hq.sleepsOn_idle
  have htid : 0 ≤ t ∧ t < configMaxThreads := by
    by_cases hidle : t = idleThreadTid
    · subst hidle; decide
    · exact hok.tid (by rcases hstate hidle with h | h <;> simp [h])
  have hoff : ∀ c : Fin configMaxCpus, c < n → t ≠ idleThreadTid →
      Function.update q.current cpu idleThreadTid c ≠ t := fun c hc hidle =>
    hq.update_idle_ne hcpu ht hidle hc
  have hinj : ∀ c c' : Fin configMaxCpus, c < n → c' < n →
      Function.update q.current cpu idleThreadTid c = Function.update q.current cpu idleThreadTid c' →
      Function.update q.current cpu idleThreadTid c ≠ idleThreadTid → c = c' := fun c c' =>
    hq.update_idle_inj
  have hon : ∀ u, u ≠ t → u ≠ idleThreadTid →
      ((∃ c : Fin configMaxCpus, c < n ∧ Function.update q.current cpu idleThreadTid c = u) ↔
        q.OnCpu n u) := fun u hu hidle => onCpu_update (ht ▸ hu) hidle
  rw [Threads.vacate, Threads.retire]
  rw [← ht]
  split_ifs with hdying hsleeps hidle
  · -- a dying thread is freed
    have hzero := hq.sleepsOn_eq_zero (t := t) (by simp [hdying]) (by simp [hdying])
    refine hq.move t (fun u hu => ⟨?_, rfl, Iff.rfl, fun _ => Iff.rfl, hon u hu⟩) ?_
      hq.ready_nodup hq.chain_nodup hinj
    · simp [Threads.setState, hu]
    · refine ⟨by simp [Threads.setState], ?_, hok.mem_chain, fun hne => absurd hzero hne, ?_, ?_,
        fun hidle => ?_⟩
      · simpa [Threads.setState] using hq.not_mem_ready (t := t) (by simp [hdying])
      · simp [Threads.setState]
      · simp [Threads.setState]
      · simpa [Threads.setState, OnCpu] using fun c hc => hoff c hc hidle
  · -- a waiting thread goes to sleep
    have hidle : t ≠ idleThreadTid := (hok.waiting hsleeps).1
    have hrun : q.state t = .running := (hstate hidle).resolve_right hdying
    refine hq.move t (fun u hu => ⟨?_, rfl, Iff.rfl, fun _ => Iff.rfl, hon u hu⟩) ?_
      hq.ready_nodup hq.chain_nodup hinj
    · simp [Threads.setState, hu]
    · refine ⟨fun _ => htid, ?_, hok.mem_chain, fun _ => ⟨hidle, ?_⟩, fun _ => hsleeps,
        fun _ => hidle, fun hidle => ?_⟩
      · simpa [Threads.setState] using hq.not_mem_ready (t := t) (by simp [hrun])
      · simp [Threads.setState]
      · simpa [Threads.setState, OnCpu] using fun c hc => hoff c hc hidle
  · -- any other thread becomes ready
    have hzero : q.sleepsOn t = 0 := not_not.mp hsleeps
    have hrun : q.state t = .running := (hstate hidle).resolve_right hdying
    have hnot := hq.not_mem_ready (t := t) (by simp [hrun])
    refine hq.move t (fun u hu => ⟨?_, rfl, ?_, fun _ => Iff.rfl, hon u hu⟩) ?_
      (nodup_append_singleton hq.ready_nodup hnot) hq.chain_nodup hinj
    · simp [Threads.setState, Threads.addReady, hu]
    · simp [Threads.setState, Threads.addReady, hu]
    · refine ⟨fun _ => htid, ?_, hok.mem_chain, fun hne => absurd hzero hne, ?_, fun _ => hidle,
        fun hidle => ?_⟩
      · simp [Threads.setState, Threads.addReady, hidle]
      · simp [Threads.setState]
      · simpa [Threads.setState, OnCpu] using fun c hc => hoff c hc hidle
  · -- the idle thread is on no list
    have hidle : t = idleThreadTid := not_not.mp hidle
    refine hq.move t (fun u hu => ⟨?_, rfl, Iff.rfl, fun _ => Iff.rfl, hon u hu⟩) ?_
      hq.ready_nodup hq.chain_nodup hinj
    · simp [Threads.setState, hu]
    · refine ⟨fun _ => htid, ?_, hok.mem_chain, fun hne => absurd (hidle₀ hidle) hne, ?_, ?_,
        fun hne => absurd hidle hne⟩
      · simpa [Threads.setState, hidle] using hok.mem_ready
      · simp [Threads.setState]
      · simp [Threads.setState]

lemma dispatch (hq : q.Inv n) {cpu : Fin configMaxCpus} (hcpu : cpu < n)
    (hcur : q.current cpu = idleThreadTid) {l : List ℤ} (hl : l.Nodup) (ht : t ∉ l)
    (hmem : ∀ u, u ≠ t → (u ∈ l ↔ u ∈ q.ready)) (htid : 0 ≤ t ∧ t < configMaxThreads)
    (hzero : q.sleepsOn t = 0) (hoff : t ≠ idleThreadTid → ¬ q.OnCpu n t) :
    ({ q with ready := l }.dispatch cpu t).Inv n := by
  have hok := hq.threadOk t
  refine hq.move t (fun u hu => ⟨?_, rfl, hmem u hu, fun _ => Iff.rfl, fun hidle => ?_⟩) ?_
    hl hq.chain_nodup ?_
  · simp [Threads.dispatch, Threads.setState, hu]
  · exact onCpu_update (hcur ▸ hidle) hu
  · refine ⟨fun _ => htid, ?_, hok.mem_chain, fun hne => absurd hzero hne, ?_, ?_, fun hidle => ?_⟩
    · simpa [Threads.dispatch, Threads.setState] using ht
    · simp [Threads.dispatch, Threads.setState]
    · simp [Threads.dispatch, Threads.setState]
    · simp only [Threads.dispatch, Threads.setState, Function.update_self, true_or, iff_true]
      exact ⟨cpu, hcpu, Function.update_self _ _ _⟩
  · intro c c' hc hc' heq hidle
    simp only [Threads.dispatch, Function.update_apply] at heq hidle
    split_ifs at heq hidle with h₁ h₂ h₂
    · exact h₁.trans h₂.symm
    · exact absurd ⟨c', hc', heq.symm⟩ (hoff hidle)
    · exact absurd ⟨c, hc, heq⟩ (hoff (heq ▸ hidle))
    · exact hq.current_inj c c' hc hc' heq hidle

lemma dispatchFirst (hq : q.Inv n) {cpu : Fin configMaxCpus} (hcpu : cpu < n)
    (hcur : q.current cpu = idleThreadTid) : (q.dispatchFirst cpu).Inv n := by
  rw [Threads.dispatchFirst]
  cases hready : q.ready with
  | nil =>
    have hdisp := hq.dispatch hcpu hcur List.nodup_nil (List.not_mem_nil (a := idleThreadTid))
      (fun u _ => by rw [hready]) (by decide) hq.sleepsOn_idle (fun h => absurd rfl h)
    rw [← hready] at hdisp
    exact hdisp
  | cons t l =>
    have hnodup := hq.ready_nodup
    rw [hready, List.nodup_cons] at hnodup
    obtain ⟨hidle, hst⟩ := (hq.threadOk t).mem_ready.mp (by rw [hready]; exact List.mem_cons_self)
    refine hq.dispatch hcpu hcur hnodup.2 hnodup.1 (fun u hu => ?_)
      ((hq.threadOk t).tid (by simp [hst]))
      (hq.sleepsOn_eq_zero (by simp [hst]) (by simp [hst])) (fun _ => ?_)
    · rw [hready, List.mem_cons]
      exact ⟨Or.inr, fun h => h.resolve_left hu⟩
    · rw [(hq.threadOk t).onCpu hidle, hst]
      simp

lemma schedule (hq : q.Inv n) {cpu : Fin configMaxCpus} (hcpu : cpu < n) :
    (q.schedule cpu).Inv n := by
  rw [schedule_eq]
  exact (hq.vacate hcpu).dispatchFirst hcpu (Function.update_self _ _ _)

lemma sleep (hq : q.Inv n) {r : UInt32} (hr : r ≠ 0) (hidle : t ≠ idleThreadTid)
    (hst : q.state t = .running) (hzero : q.sleepsOn t = 0) : (q.sleep t r).Inv n := by
  have hok := hq.threadOk t
  refine hq.move t (fun u hu => ⟨rfl, ?_, Iff.rfl, fun h => ?_, fun _ => Iff.rfl⟩) ?_
    hq.ready_nodup (fun h => ?_) hq.current_inj
  · simp [Threads.sleep, Threads.setSleepsOn, Threads.setChain, hu]
  · by_cases hh : h = sleepqHash r
    · subst hh; simp [Threads.sleep, Threads.setSleepsOn, Threads.setChain, hu]
    · simp [Threads.sleep, Threads.setSleepsOn, Threads.setChain, hh]
  · refine ⟨hok.tid, hok.mem_ready, fun h => ?_, fun _ => ⟨hidle, Or.inr hst⟩, fun hs => ?_,
      hok.nonready, hok.onCpu⟩
    · have hnot := hq.not_mem_chain hzero h
      by_cases hh : h = sleepqHash r
      · subst hh; simp [Threads.sleep, Threads.setSleepsOn, Threads.setChain, hr]
      · simp [Threads.sleep, Threads.setSleepsOn, Threads.setChain, hh, hnot, Ne.symm hh]
    · exact absurd (hs.symm.trans hst) (by decide)
  · by_cases hh : h = sleepqHash r
    · subst hh
      simpa [Threads.sleep, Threads.setSleepsOn, Threads.setChain] using
        nodup_append_singleton (hq.chain_nodup _) (hq.not_mem_chain hzero _)
    · simpa [Threads.sleep, Threads.setSleepsOn, Threads.setChain, hh] using hq.chain_nodup h

lemma release (hq : q.Inv n) (hsleeps : q.sleepsOn t ≠ 0) : (q.release t).Inv n := by
  have hok := hq.threadOk t
  obtain ⟨hidle, hst⟩ := hok.waiting hsleeps
  have hready := hq.not_mem_ready (t := t) (by rcases hst with h | h <;> simp [h])
  have hmem : ∀ u h, u ∈ (q.release t).chain h ↔ u ∈ q.chain h ∧ u ≠ t := by
    intro u h
    rw [release_chain]
    by_cases hh : h = sleepqHash (q.sleepsOn t)
    · subst hh
      rw [Function.update_self, (hq.chain_nodup _).mem_erase_iff]
      exact and_comm
    · rw [Function.update_of_ne hh]
      refine ⟨fun hu => ⟨hu, ?_⟩, fun hu => hu.1⟩
      rintro rfl
      exact hh ((hok.mem_chain h).mp hu).2.symm
  have hnodup : ∀ h, ((q.release t).chain h).Nodup := by
    intro h
    rw [release_chain]
    by_cases hh : h = sleepqHash (q.sleepsOn t)
    · subst hh; rw [Function.update_self]; exact (hq.chain_nodup _).erase t
    · rw [Function.update_of_ne hh]; exact hq.chain_nodup h
  have hchain : ∀ h, t ∉ (q.release t).chain h := fun h ht => ((hmem t h).mp ht).2 rfl
  have hother : ∀ u, u ≠ t → ∀ h, u ∈ (q.release t).chain h ↔ u ∈ q.chain h :=
    fun u hu h => by rw [hmem]; exact and_iff_left hu
  have hzero : (q.release t).sleepsOn t = 0 := by rw [release_sleepsOn, Function.update_self]
  have hsame : ∀ u, u ≠ t → (q.release t).sleepsOn u = q.sleepsOn u :=
    fun u hu => by rw [release_sleepsOn, Function.update_of_ne hu]
  have hmemt : ∀ h, t ∈ (q.release t).chain h ↔
      (q.release t).sleepsOn t ≠ 0 ∧ sleepqHash ((q.release t).sleepsOn t) = h :=
    fun h => ⟨fun ht => absurd ht (hchain h), fun ht => absurd hzero ht.1⟩
  rcases hst with hst | hst
  · -- asleep: the thread becomes ready
    have hres : (q.release t).state = Function.update q.state t .ready ∧
        (q.release t).ready = q.ready ++ [t] ∧ (q.release t).current = q.current := by
      simp [Threads.release, Threads.awaken, Threads.setChain, Threads.setSleepsOn,
        Threads.setState, Threads.addReady, hst]
    obtain ⟨hstate, hreadyl, hcurrent⟩ := hres
    have hon : ∀ u, (q.release t).OnCpu n u ↔ q.OnCpu n u := by
      intro u; simp only [OnCpu, hcurrent]
    refine hq.move t (fun u hu => ⟨?_, hsame u hu, ?_, hother u hu, fun _ => hon u⟩) ?_ ?_ hnodup ?_
    · rw [hstate, Function.update_of_ne hu]
    · rw [hreadyl]; simp [hu]
    · refine ⟨fun _ => hok.tid (by simp [hst]), ?_, hmemt, fun hne => absurd hzero hne, ?_,
        fun _ => hidle, fun hidle => ?_⟩
      · rw [hreadyl, hstate]; simp [hidle]
      · rw [hstate]; simp
      · rw [hon, hok.onCpu hidle, hstate, hst]; simp
    · rw [hreadyl]; exact nodup_append_singleton hq.ready_nodup hready
    · rw [hcurrent]; exact hq.current_inj
  · -- still running: only the wait ends
    have hres : (q.release t).state = q.state ∧
        (q.release t).ready = q.ready ∧ (q.release t).current = q.current := by
      simp [Threads.release, Threads.awaken, Threads.setChain, Threads.setSleepsOn, hst]
    obtain ⟨hstate, hreadyl, hcurrent⟩ := hres
    have hon : ∀ u, (q.release t).OnCpu n u ↔ q.OnCpu n u := by
      intro u; simp only [OnCpu, hcurrent]
    refine hq.move t (fun u hu => ⟨?_, hsame u hu, ?_, hother u hu, fun _ => hon u⟩) ?_ ?_ hnodup ?_
    · rw [hstate]
    · rw [hreadyl]
    · refine ⟨?_, ?_, hmemt, fun hne => absurd hzero hne, ?_, fun _ => hidle, fun hidle => ?_⟩
      · rw [hstate]; exact hok.tid
      · rw [hreadyl, hstate]; exact hok.mem_ready
      · rw [hstate, hst]; simp
      · rw [hon, hok.onCpu hidle, hstate]
    · rw [hreadyl]; exact hq.ready_nodup
    · rw [hcurrent]; exact hq.current_inj

lemma sleepsOn_of_mem_waiters {r : UInt32} (hq : q.Inv n) (ht : t ∈ q.waiters r) :
    q.sleepsOn t = r ∧ r ≠ 0 := by
  obtain ⟨hmem, hr⟩ := List.mem_filter.mp ht
  have hsleeps : q.sleepsOn t = r := of_decide_eq_true hr
  exact ⟨hsleeps, hsleeps ▸ (((hq.threadOk t).mem_chain _).mp hmem).1⟩

lemma wake (hq : q.Inv n) (r : UInt32) : (q.wake r).Inv n := by
  rw [Threads.wake]
  cases hw : q.waiters r with
  | nil => exact hq
  | cons t l =>
    obtain ⟨hsleeps, hr⟩ := hq.sleepsOn_of_mem_waiters (t := t) (by rw [hw]; exact List.mem_cons_self)
    exact hq.release (hsleeps ▸ hr)

lemma setProcess (hq : q.Inv n) (t : ℤ) (pagetable : ℕ) (processId : ℤ) :
    (q.setProcess t pagetable processId).Inv n := by
  have hsame : ∀ u, Same n q (q.setProcess t pagetable processId) u :=
    fun u => ⟨rfl, rfl, Iff.rfl, fun _ => Iff.rfl, fun _ => Iff.rfl⟩
  exact hq.move t (fun u _ => hsame u) ((hq.threadOk t).congr (hsame t)) hq.ready_nodup
    hq.chain_nodup hq.current_inj

/-- Releasing any duplicate-free list of waiting threads keeps the invariant. -/
lemma foldl_release {l : List ℤ} (hq : q.Inv n) (hnodup : l.Nodup)
    (hl : ∀ t ∈ l, q.sleepsOn t ≠ 0) : (l.foldl Threads.release q).Inv n := by
  induction l generalizing q with
  | nil => exact hq
  | cons t l ih =>
    obtain ⟨ht, hnodup⟩ := List.nodup_cons.mp hnodup
    refine ih (hq.release (hl t List.mem_cons_self)) hnodup fun u hu => ?_
    have hut : u ≠ t := fun hut => ht (hut ▸ hu)
    rw [release_sleepsOn, Function.update_of_ne hut]
    exact hl u (List.mem_cons_of_mem _ hu)

lemma wakeAll (hq : q.Inv n) (r : UInt32) : (q.wakeAll r).Inv n := by
  refine hq.foldl_release ((hq.chain_nodup _).filter _) fun t ht => ?_
  obtain ⟨hsleeps, hr⟩ := hq.sleepsOn_of_mem_waiters ht
  exact hsleeps ▸ hr

end Inv

end Threads

/-! ### The functions of the kernel -/

/-- The kernel state `s` represents `q`, which satisfies the invariant for `n` CPUs. -/
structure Models (n : ℕ) (s : State) (q : Threads) : Prop where
  rep : Represents s q
  inv : q.Inv n

namespace Models

variable {n : ℕ} {s : State} {q : Threads} {t : ℤ} {cpu : Fin configMaxCpus}

lemma threadCreate (h : Models n s q) (hfree : findFreeTid s = some t) :
    Models n (Kernel.threadCreate s).1 (q.create t) := by
  obtain ⟨hpos, hlt, hst⟩ := Represents.findFreeTid_some hfree
  rw [h.rep.state] at hst
  have hzero := h.inv.sleepsOn_eq_zero (t := t) (by simp [hst]) (by simp [hst])
  exact ⟨h.rep.threadCreate hfree (h.inv.not_onList (by simp [hst]) hzero),
    h.inv.create ⟨hpos, hlt⟩ hst⟩

lemma threadRun (h : Models n s q) (hidle : t ≠ idleThreadTid) (hst : q.state t = .nonready) :
    ∃ s', Kernel.threadRun s t = some s' ∧ Models n s' (q.run t) := by
  have hzero := h.inv.sleepsOn_eq_zero (t := t) (by simp [hst]) (by simp [hst])
  obtain ⟨s', hs', hrep⟩ := h.rep.schedulerAddReady (h.inv.tid_pos hidle (by simp [hst]))
    (h.inv.not_onList (by simp [hst]) hzero)
  exact ⟨s', hs', hrep, h.inv.run hst hidle⟩

lemma schedulerSchedule (h : Models n s q) (hcpu : cpu < n) :
    ∃ s', Kernel.schedulerSchedule s cpu = some s' ∧ Models n s' (q.schedule cpu) := by
  have hadd : ∀ t, t = q.current cpu → q.state t ≠ .dying → q.sleepsOn t = 0 →
      t ≠ idleThreadTid → (0 < t ∧ t < configMaxThreads) ∧ ¬ q.OnList t := by
    intro t ht hdying hzero hidle
    have hst := (((h.inv.threadOk t).onCpu hidle).mp ⟨cpu, hcpu, ht.symm⟩).resolve_right hdying
    exact ⟨h.inv.tid_pos hidle (by simp [hst]), h.inv.not_onList (by simp [hst]) hzero⟩
  obtain ⟨s', hs', hrep⟩ := h.rep.schedulerSchedule cpu hadd fun t ht =>
    (((h.inv.vacate hcpu).threadOk t).mem_ready.mp ht).2
  exact ⟨s', hs', hrep, h.inv.schedule hcpu⟩

lemma sleepqAdd {r : UInt32} (h : Models n s q) (hcur : q.current cpu = t) (hr : r ≠ 0)
    (hidle : t ≠ idleThreadTid) (hst : q.state t = .running) (hzero : q.sleepsOn t = 0) :
    ∃ s', Kernel.sleepqAdd s cpu r = some s' ∧ Models n s' (q.sleep t r) := by
  obtain ⟨s', hs', hrep⟩ := h.rep.sleepqAdd hcur (h.inv.tid_pos hidle (by simp [hst]))
    (h.inv.not_onList (by simp [hst]) hzero) r
  exact ⟨s', hs', hrep, h.inv.sleep hr hidle hst hzero⟩

lemma sleepqWake (h : Models n s q) (r : UInt32) :
    ∃ s', Kernel.sleepqWake s r = some s' ∧ Models n s' (q.wake r) := by
  obtain ⟨s', hs', hrep⟩ := h.rep.sleepqWake r
  exact ⟨s', hs', hrep, h.inv.wake r⟩

lemma sleepqWakeAll (h : Models n s q) (r : UInt32) :
    ∃ s', Kernel.sleepqWakeAll s r = some s' ∧ Models n s' (q.wakeAll r) := by
  obtain ⟨s', hs', hrep⟩ := h.rep.sleepqWakeAll r
  exact ⟨s', hs', hrep, h.inv.wakeAll r⟩

lemma threadFinish (h : Models n s q) (hst : q.state (q.current cpu) = .running)
    (hzero : q.sleepsOn (q.current cpu) = 0) (hpt : q.pagetable (q.current cpu) = 0) :
    ∃ s', Kernel.threadFinish s cpu = some s' ∧ Models n s' (q.finish cpu) := by
  obtain ⟨s', hs', hrep⟩ := h.rep.threadFinish cpu hpt
  exact ⟨s', hs', hrep, h.inv.finish hst hzero⟩

/-- Fields that belong to the process of a thread. -/
lemma modifyThread (h : Models n s q) (t : ℤ) {f : Thread → Thread}
    (hstate : ∀ th, (f th).state = th.state) (hsleeps : ∀ th, (f th).sleepsOn = th.sleepsOn)
    (hnext : ∀ th, (f th).next = th.next) :
    Models n (s.modifyThread t f)
      (q.setProcess t (f (s.threadTable t)).pagetable (f (s.threadTable t)).processId) :=
  ⟨h.rep.modifyThread t hstate hsleeps hnext, h.inv.setProcess _ _ _⟩

lemma initialState (n : ℕ) : Models n Kernel.initialState
    { state     := fun t => (Kernel.initialState.threadTable t).state
      sleepsOn  := fun _ => 0
      pagetable := fun _ => 0
      processId := fun _ => -1
      ready     := []
      chain     := fun _ => []
      current   := fun _ => idleThreadTid } := by
  have hrow : ∀ t, Kernel.initialState.threadTable t =
      if t = idleThreadTid then { state := .ready } else {} := by
    intro t; simp [Kernel.initialState, Function.update_apply]
  have hst : ∀ t, (Kernel.initialState.threadTable t).state =
      if t = idleThreadTid then .ready else .free := by
    intro t; rw [hrow]; split <;> rfl
  constructor
  · refine ⟨fun _ => rfl, fun t => ?_, fun t => ?_, fun t => ?_, fun _ => rfl, ?_, rfl,
      fun _ => ?_, ?_, by simp, by simp⟩
    · rw [hrow]; split <;> rfl
    · rw [hrow]; split <;> rfl
    · rw [hrow]; split <;> rfl
    · simp [Kernel.initialState]
    · simp [Kernel.initialState]
    · rintro t (ht | ⟨_, ht⟩) <;> simp at ht
  · refine ⟨fun t => ⟨?_, ?_, by simp, by simp, ?_, fun ht => ?_, fun hidle => ?_⟩, by simp,
      by simp, by simp⟩
    · intro ht
      simp only [hst] at ht
      split_ifs at ht with hidle
      · subst hidle; decide
      · exact absurd rfl ht
    · simp only [hst, List.not_mem_nil, false_iff, not_and]
      intro hidle
      rw [if_neg hidle]
      decide
    · simp only [hst]
      split <;> simp
    · simp only [hst] at ht
      split_ifs at ht
    · simp [Threads.OnCpu, hst, hidle, Ne.symm hidle]

end Models

/-! ### Runs -/

/-- The thread is on the ready list found in the kernel state. -/
def OnReadyList (s : State) (t : ℤ) : Prop :=
  ∃ l, Linked s.next (· < 0) s.readyHead l ∧ t ∈ l

/-- The thread is on the chain found in the given slot of the sleep queue. -/
def OnSleepChain (s : State) (h : Fin sleepqHashtableSize) (t : ℤ) : Prop :=
  ∃ l, Linked s.next (· ≤ 0) (s.sleepqHashtable h) l ∧ t ∈ l

/-- An empty chain has no threads. -/
lemma not_onSleepChain {s : State} {h : Fin sleepqHashtableSize} {t : ℤ}
    (hempty : s.sleepqHashtable h = -1) : ¬ OnSleepChain s h t := by
  rintro ⟨l, hl, ht⟩
  cases l with
  | nil => simp at ht
  | cons u l =>
    rw [hempty] at hl
    exact hl.2.1 (by rw [← hl.1]; decide)

/-- What the CPUs do to the threads. -/
inductive Action
  | threadCreate
  | threadRun (t : ℤ)
  | schedulerSchedule (cpu : Fin configMaxCpus)
  | sleepqAdd (cpu : Fin configMaxCpus) (resource : UInt32)
  | sleepqWake (resource : UInt32)
  | sleepqWakeAll (resource : UInt32)
  | threadFinish (cpu : Fin configMaxCpus)

/-- The function called by an action. -/
def Action.exec (s : State) : Action → Option State
  | .threadCreate          => some (Kernel.threadCreate s).1
  | .threadRun t           => Kernel.threadRun s t
  | .schedulerSchedule cpu => Kernel.schedulerSchedule s cpu
  | .sleepqAdd cpu r       => Kernel.sleepqAdd s cpu r
  | .sleepqWake r          => Kernel.sleepqWake s r
  | .sleepqWakeAll r       => Kernel.sleepqWakeAll s r
  | .threadFinish cpu      => Kernel.threadFinish s cpu

/-- When an action may be taken on a machine with `n` CPUs: `thread_run` is called on a thread
just created, `sleepq_add` by a running thread other than the idle thread that is on no chain,
for a resource other than `0`, and `thread_finish` by a running thread that is on no chain. -/
def Action.Enabled (n : ℕ) (s : State) : Action → Prop
  | .threadCreate          => True
  | .threadRun t           => (s.threadTable t).state = .nonready
  | .schedulerSchedule cpu => cpu < n
  | .sleepqAdd cpu r       => cpu < n ∧ s.currentThread cpu ≠ idleThreadTid ∧
      (s.threadTable (s.currentThread cpu)).state = .running ∧
      (∀ h, ¬ OnSleepChain s h (s.currentThread cpu)) ∧ r ≠ 0
  | .sleepqWake _          => True
  | .sleepqWakeAll _       => True
  | .threadFinish cpu      => cpu < n ∧
      (s.threadTable (s.currentThread cpu)).state = .running ∧
      ∀ h, ¬ OnSleepChain s h (s.currentThread cpu)

/-- One step of a machine with `n` CPUs. -/
def Step (n : ℕ) (s s' : State) : Prop := ∃ a : Action, a.Enabled n s ∧ a.exec s = some s'

/-- The states of a machine with `n` CPUs. -/
def Reachable (n : ℕ) (s : State) : Prop := Relation.ReflTransGen (Step n) initialState s

/-- The lists of the kernel hold the threads they should, for `n` CPUs. -/
structure ThreadLists (n : ℕ) (s : State) : Prop where
  ready : ∃ l, Linked s.next (· < 0) s.readyHead l ∧ l.Nodup ∧
    s.readyTail = l.getLast?.getD (-1) ∧
    ∀ t, t ∈ l ↔ t ≠ idleThreadTid ∧ (s.threadTable t).state = .ready
  chain : ∀ h, ∃ l, Linked s.next (· ≤ 0) (s.sleepqHashtable h) l ∧ l.Nodup ∧
    ∀ t, t ∈ l ↔ (s.threadTable t).sleepsOn ≠ 0 ∧ sleepqHash (s.threadTable t).sleepsOn = h
  waiting : ∀ t, (s.threadTable t).sleepsOn ≠ 0 →
    (s.threadTable t).state = .sleeping ∨ (s.threadTable t).state = .running
  ready_chain : ∀ t h, OnReadyList s t → ¬ OnSleepChain s h t
  chain_chain : ∀ t h h', OnSleepChain s h t → OnSleepChain s h' t → h = h'
  running : ∀ t, t ≠ idleThreadTid → (s.threadTable t).state = .running →
    ∃! cpu : Fin configMaxCpus, cpu < n ∧ s.currentThread cpu = t
  unlisted : ∀ t, (s.threadTable t).state = .free ∨ (s.threadTable t).state = .nonready →
    ¬ OnReadyList s t ∧ ∀ h, ¬ OnSleepChain s h t

namespace Models

variable {n : ℕ} {s : State} {q : Threads} {t : ℤ}

lemma onReadyList_iff (h : Models n s q) : OnReadyList s t ↔ t ∈ q.ready := by
  constructor
  · rintro ⟨l, hl, ht⟩
    rwa [hl.unique h.rep.ready] at ht
  · intro ht
    exact ⟨_, h.rep.ready, ht⟩

lemma onSleepChain_iff (h : Models n s q) {k : Fin sleepqHashtableSize} :
    OnSleepChain s k t ↔ t ∈ q.chain k := by
  constructor
  · rintro ⟨l, hl, ht⟩
    rwa [hl.unique (h.rep.chain k)] at ht
  · intro ht
    exact ⟨_, h.rep.chain k, ht⟩

/-- A thread on no chain waits on nothing. -/
lemma sleepsOn_eq_zero (h : Models n s q) (ht : ∀ k, ¬ OnSleepChain s k t) :
    q.sleepsOn t = 0 := by
  by_contra hne
  exact ht _ (h.onSleepChain_iff.mpr (((h.inv.threadOk t).mem_chain _).mpr ⟨hne, rfl⟩))

lemma threadLists (h : Models n s q) : ThreadLists n s where
  ready := by
    refine ⟨q.ready, h.rep.ready, h.inv.ready_nodup, h.rep.readyTail, fun t => ?_⟩
    rw [h.rep.state]; exact (h.inv.threadOk t).mem_ready
  chain k := by
    refine ⟨q.chain k, h.rep.chain k, h.inv.chain_nodup k, fun t => ?_⟩
    rw [h.rep.sleepsOn]; exact (h.inv.threadOk t).mem_chain k
  waiting t := by
    rw [h.rep.sleepsOn, h.rep.state]
    exact fun ht => ((h.inv.threadOk t).waiting ht).2
  ready_chain t k := by
    rw [h.onReadyList_iff, h.onSleepChain_iff]; exact h.rep.ready_chain t k
  chain_chain t k k' := by
    rw [h.onSleepChain_iff, h.onSleepChain_iff]; exact h.rep.chain_chain t k k'
  running t hidle hst := by
    rw [h.rep.state] at hst
    obtain ⟨cpu, hcpu, hcur⟩ := ((h.inv.threadOk t).onCpu hidle).mpr (Or.inl hst)
    refine ⟨cpu, ⟨hcpu, (h.rep.current cpu).trans hcur⟩, ?_⟩
    rintro c ⟨hc, hcur'⟩
    rw [h.rep.current] at hcur'
    exact h.inv.current_inj c cpu hc hcpu (hcur'.trans hcur.symm) (hcur' ▸ hidle)
  unlisted t hst := by
    rw [h.rep.state] at hst
    have hready : q.state t ≠ .ready := by rcases hst with hst | hst <;> simp [hst]
    have hzero : q.sleepsOn t = 0 := h.inv.sleepsOn_eq_zero
      (by rcases hst with hst | hst <;> simp [hst]) (by rcases hst with hst | hst <;> simp [hst])
    refine ⟨fun ht => ?_, fun k ht => ?_⟩
    · exact h.inv.not_mem_ready hready (h.onReadyList_iff.mp ht)
    · exact h.inv.not_mem_chain hzero k (h.onSleepChain_iff.mp ht)

/-- No assertion fails: an action that may be taken is carried out. -/
lemma exec {a : Action} (h : Models n s q) (hpt : ∀ t, q.pagetable t = 0) (ha : a.Enabled n s) :
    ∃ s' q', a.exec s = some s' ∧ Models n s' q' ∧ ∀ t, q'.pagetable t = 0 := by
  cases a with
  | threadCreate =>
    cases hfree : findFreeTid s with
    | none =>
      refine ⟨s, q, ?_, h, hpt⟩
      simp [Action.exec, Kernel.threadCreate, hfree]
    | some t =>
      refine ⟨_, q.create t, rfl, h.threadCreate hfree, fun u => ?_⟩
      by_cases hu : u = t <;> simp [Threads.create, hu, hpt]
  | threadRun t =>
    have hst : q.state t = .nonready := h.rep.state t ▸ ha
    obtain ⟨s', hs', h'⟩ := h.threadRun ((h.inv.threadOk t).nonready hst) hst
    exact ⟨s', _, hs', h', hpt⟩
  | schedulerSchedule cpu =>
    obtain ⟨s', hs', h'⟩ := h.schedulerSchedule ha
    refine ⟨s', _, hs', h', fun u => ?_⟩
    rw [Threads.pagetable_of_process (Threads.schedule_process q _)]
    exact hpt u
  | sleepqAdd cpu r =>
    obtain ⟨-, hidle, hst, hoff, hr⟩ := ha
    rw [h.rep.state] at hst
    have hzero := h.sleepsOn_eq_zero hoff
    obtain ⟨s', hs', h'⟩ := h.sleepqAdd (h.rep.current cpu).symm hr hidle hst hzero
    exact ⟨s', _, hs', h', hpt⟩
  | sleepqWake r =>
    obtain ⟨s', hs', h'⟩ := h.sleepqWake r
    refine ⟨s', _, hs', h', fun u => ?_⟩
    rw [Threads.pagetable_of_process (Threads.wake_process q _)]
    exact hpt u
  | sleepqWakeAll r =>
    obtain ⟨s', hs', h'⟩ := h.sleepqWakeAll r
    refine ⟨s', _, hs', h', fun u => ?_⟩
    rw [Threads.pagetable_of_process (Threads.wakeAll_process q _)]
    exact hpt u
  | threadFinish cpu =>
    obtain ⟨-, hst, hoff⟩ := ha
    rw [h.rep.state, h.rep.current] at hst
    have hzero := h.sleepsOn_eq_zero hoff
    rw [h.rep.current] at hzero
    obtain ⟨s', hs', h'⟩ := h.threadFinish hst hzero (hpt _)
    exact ⟨s', _, hs', h', hpt⟩

end Models

lemma Reachable.models {n : ℕ} {s : State} (h : Reachable n s) :
    ∃ q, Models n s q ∧ ∀ t, q.pagetable t = 0 := by
  induction h with
  | refl => exact ⟨_, Models.initialState n, fun _ => rfl⟩
  | tail _ hstep ih =>
    obtain ⟨q, hq, hpt⟩ := ih
    obtain ⟨a, ha, hexec⟩ := hstep
    obtain ⟨s', q', hs', hq', hpt'⟩ := hq.exec hpt ha
    rw [hexec, Option.some.injEq] at hs'
    exact ⟨q', hs' ▸ hq', hpt'⟩

/-- In every state that any number of CPUs reach, the thread lists are as they should be, and
every action that may be taken next is carried out without a failed assertion. -/
theorem reachable_threadLists {n : ℕ} {s : State} (h : Reachable n s) :
    ThreadLists n s ∧ ∀ a : Action, a.Enabled n s → ∃ s', a.exec s = some s' := by
  obtain ⟨q, hq, hpt⟩ := h.models
  refine ⟨hq.threadLists, fun a ha => ?_⟩
  obtain ⟨s', -, hs', -⟩ := hq.exec hpt ha
  exact ⟨s', hs'⟩

/-- A thread is created and runs on the first CPU. -/
lemma exists_threadRunning : ∃ s₂ s₃,
    Action.exec (threadCreate initialState).1 (.threadRun 1) = some s₂ ∧
      schedulerSchedule s₂ 0 = some s₃ ∧ s₂.currentThread 0 = 0 ∧ s₃.currentThread 0 = 1 ∧
      (s₃.threadTable 1).state = .running ∧ ∀ h, ¬ OnSleepChain s₃ h 1 :=
  ⟨_, _, rfl, rfl, rfl, rfl, rfl, fun _ => not_onSleepChain rfl⟩

/-- A thread is created, runs on the first of two CPUs and starts to wait for a resource. -/
theorem reachable_threadLists_waiting : ∃ s, Reachable 2 s ∧
    (s.threadTable 1).state = .running ∧ (s.threadTable 1).sleepsOn = 128 ∧
    ThreadLists 2 s ∧ ∃ s', Action.exec s (.schedulerSchedule 0) = some s' := by
  obtain ⟨s₂, s₃, hs₂, hs₃, -, hcur, hrun, hoff⟩ := exists_threadRunning
  obtain ⟨s₄, hs₄⟩ : ∃ s, Action.exec s₃ (.sleepqAdd 0 128) = some s := by
    cases hs₂; cases hs₃; exact ⟨_, rfl⟩
  have henabled : Action.Enabled 2 s₃ (.sleepqAdd 0 128) := by
    refine ⟨Nat.two_pos, ?_, ?_, ?_, by decide⟩
    · rw [hcur]; decide
    · rw [hcur]; exact hrun
    · rw [hcur]; exact hoff
  have hreach : Reachable 2 s₄ :=
    (((Relation.ReflTransGen.refl.tail ⟨.threadCreate, trivial, rfl⟩).tail
      ⟨.threadRun 1, rfl, hs₂⟩).tail ⟨.schedulerSchedule 0, Nat.two_pos, hs₃⟩).tail
      ⟨.sleepqAdd 0 128, henabled, hs₄⟩
  obtain ⟨hlists, hexec⟩ := reachable_threadLists hreach
  refine ⟨s₄, hreach, ?_, ?_, hlists, hexec (.schedulerSchedule 0) Nat.two_pos⟩
  · cases hs₂; cases hs₃; cases hs₄; decide
  · cases hs₂; cases hs₃; cases hs₄; decide

end Osm.Kernel
