import Osm.Kernel.ThreadLists

/-!
# The threads waiting on one resource

The chains of the sleep queue are shared by all resources with the same hash value. Seen from
one resource, however, the queue behaves like a list of its own: going to sleep appends to
`Threads.waiters`, a wake-up removes the first element, and operations on other resources do
not change it, whatever their hash values are.
-/

namespace Osm.Kernel.Threads

variable {n : ℕ} {q : Threads} {t u : ℤ} {r r' : UInt32} {cpu : Fin configMaxCpus}

/-- Operations that change neither the chains nor `sleepsOn` leave the waiters alone. -/
lemma waiters_congr {q q' : Threads} (hsleeps : q'.sleepsOn = q.sleepsOn)
    (hchain : q'.chain = q.chain) (r : UInt32) : q'.waiters r = q.waiters r := by
  unfold waiters
  rw [hchain, hsleeps]

lemma create_sleepsOn (hq : q.Inv n) (hst : q.state t = .free) :
    (q.create t).sleepsOn = q.sleepsOn := by
  have hzero := hq.sleepsOn_eq_zero (t := t) (by simp [hst]) (by simp [hst])
  exact Function.update_eq_self_iff.mpr hzero.symm

lemma schedule_sleepsOn : (q.schedule cpu).sleepsOn = q.sleepsOn := by
  rw [schedule, dispatchFirst, dispatch, retire, setState, addReady]
  split <;> split_ifs <;> rfl

lemma schedule_chain : (q.schedule cpu).chain = q.chain := by
  rw [schedule, dispatchFirst, dispatch, retire, setState, addReady]
  split <;> split_ifs <;> rfl

/-- Scheduling concerns the current thread and one of the ready threads. -/
lemma schedule_state (hq : q.Inv n) (hcpu : cpu < n) (hu : u ≠ q.current cpu)
    (hidle : u ≠ idleThreadTid) (hready : q.state u ≠ .ready) :
    (q.schedule cpu).state u = q.state u := by
  have hretire : (q.retire (q.current cpu)).state u = q.state u := by
    unfold retire setState addReady
    split_ifs <;> simp [hu]
  have hmem : u ∉ (q.retire (q.current cpu)).ready := by
    intro hmem
    have hvac := ((hq.vacate hcpu).threadOk u).mem_ready.mp hmem
    exact hready (hretire ▸ hvac.2)
  rw [schedule, dispatchFirst]
  cases hl : (q.retire (q.current cpu)).ready with
  | nil => simp [dispatch, setState, hidle, hretire]
  | cons v l =>
    have huv : u ≠ v := by
      rintro rfl
      exact hmem (by rw [hl]; exact List.mem_cons_self)
    simp [dispatch, setState, huv, hretire]

/-- Scheduling neither ends a thread nor frees its row. -/
lemma schedule_alive (hst : q.state u ≠ .free ∧ q.state u ≠ .dying) :
    (q.schedule cpu).state u ≠ .free ∧ (q.schedule cpu).state u ≠ .dying := by
  have hretire : (q.retire (q.current cpu)).state u ≠ .free ∧
      (q.retire (q.current cpu)).state u ≠ .dying := by
    unfold retire setState addReady
    by_cases hu : u = q.current cpu
    · subst hu
      rw [if_neg hst.2]
      split_ifs <;> simp
    · split_ifs <;> simpa [hu] using hst
  have hdispatch : ∀ q' t, q'.state = (q.retire (q.current cpu)).state →
      (dispatch q' cpu t).state u ≠ .free ∧ (dispatch q' cpu t).state u ≠ .dying := by
    intro q' t hq'
    by_cases hut : u = t
    · subst hut; simp [dispatch, setState]
    · simpa [dispatch, setState, hut, hq'] using hretire
  rw [schedule, dispatchFirst]
  split
  · exact hdispatch _ _ rfl
  · exact hdispatch _ _ rfl

/-- Scheduling does not touch threads that have not been run yet. -/
lemma schedule_nonready (hq : q.Inv n) (hcpu : cpu < n) (hst : q.state u = .nonready) :
    (q.schedule cpu).state u = .nonready := by
  have hidle := (hq.threadOk u).nonready hst
  have hu : u ≠ q.current cpu := by
    intro hu
    have hcur := ((hq.threadOk u).onCpu hidle).mp ⟨cpu, hcpu, hu.symm⟩
    rw [hst] at hcur
    simp at hcur
  rw [schedule_state hq hcpu hu hidle (by simp [hst]), hst]

/-- A waiting thread that leaves its CPU sleeps. -/
lemma schedule_state_waiting (hq : q.Inv n)
    (hne : q.sleepsOn (q.current cpu) ≠ 0) :
    (q.schedule cpu).state (q.current cpu) = .sleeping := by
  obtain ⟨hidle, hst⟩ := (hq.threadOk _).waiting hne
  have hdying : q.state (q.current cpu) ≠ .dying := by
    rcases hst with hst | hst <;> simp [hst]
  have hretire : q.retire (q.current cpu) = q.setState (q.current cpu) .sleeping := by
    rw [retire, if_neg hdying, if_pos hne]
  have hmem : q.current cpu ∉ q.ready := hq.not_mem_ready (by rcases hst with hst | hst <;> simp [hst])
  rw [schedule, dispatchFirst]
  rw [hretire]
  cases hl : (q.setState (q.current cpu) .sleeping).ready with
  | nil => simp [dispatch, setState, hidle]
  | cons v l =>
    have hv : q.current cpu ≠ v := by
      intro hv
      refine hmem ?_
      rw [show q.ready = v :: l from hl, hv]
      exact List.mem_cons_self
    simp [dispatch, setState, hv]

/-! ### Going to sleep -/

lemma sleep_sleepsOn : (q.sleep t r).sleepsOn = Function.update q.sleepsOn t r := rfl

lemma waiters_sleep_self (hq : q.Inv n) (hzero : q.sleepsOn t = 0) :
    (q.sleep t r).waiters r = q.waiters r ++ [t] := by
  have hnot := hq.not_mem_chain hzero (sleepqHash r)
  have hchain : (q.sleep t r).chain (sleepqHash r) = q.chain (sleepqHash r) ++ [t] := by
    simp [sleep, setChain]
  rw [waiters]
  rw [hchain, List.filter_append, sleep_sleepsOn]
  congr 1
  · refine List.filter_congr fun u hu => ?_
    have hut : u ≠ t := fun hut => hnot (hut ▸ hu)
    rw [Function.update_of_ne hut]
  · simp

lemma waiters_sleep_of_ne (hq : q.Inv n) (hzero : q.sleepsOn t = 0) (hr : r' ≠ r) :
    (q.sleep t r).waiters r' = q.waiters r' := by
  have hnot := hq.not_mem_chain hzero (sleepqHash r')
  have hold : (q.chain (sleepqHash r')).filter (fun u => (q.sleep t r).sleepsOn u = r') =
      q.waiters r' := by
    refine List.filter_congr fun u hu => ?_
    have hut : u ≠ t := fun hut => hnot (hut ▸ hu)
    rw [sleep_sleepsOn, Function.update_of_ne hut]
  unfold waiters at *
  by_cases hh : sleepqHash r' = sleepqHash r
  · have hchain : (q.sleep t r).chain (sleepqHash r') = q.chain (sleepqHash r') ++ [t] := by
      simp [sleep, setChain, hh]
    rw [hchain, List.filter_append, hold]
    simp [sleep_sleepsOn, Ne.symm hr]
  · have hchain : (q.sleep t r).chain (sleepqHash r') = q.chain (sleepqHash r') := by
      simp [sleep, setChain, setSleepsOn, hh]
    rw [hchain, hold]

/-! ### Waking up -/

lemma release_state_of_ne (hu : u ≠ t) : (q.release t).state u = q.state u := by
  simp only [release, awaken]
  split
  · simp [addReady, setState, setSleepsOn, setChain, hu]
  · rfl

lemma mem_waiters (hq : q.Inv n) (hr : r ≠ 0) : t ∈ q.waiters r ↔ q.sleepsOn t = r := by
  rw [waiters]
  rw [List.mem_filter, (hq.threadOk t).mem_chain, decide_eq_true_iff]
  constructor
  · exact fun h => h.2
  · rintro rfl
    exact ⟨⟨hr, rfl⟩, rfl⟩

lemma waiters_nodup (hq : q.Inv n) (r : UInt32) : (q.waiters r).Nodup :=
  (hq.chain_nodup _).filter _

lemma waiters_release (hq : q.Inv n) (t : ℤ) (r : UInt32) :
    (q.release t).waiters r = (q.waiters r).erase t := by
  have hchain : (q.release t).chain (sleepqHash r) = (q.chain (sleepqHash r)).erase t := by
    rw [release_chain]
    by_cases hh : sleepqHash r = sleepqHash (q.sleepsOn t)
    · rw [hh, Function.update_self]
    · rw [Function.update_of_ne hh, List.erase_of_not_mem]
      exact fun hmem => hh (((hq.threadOk t).mem_chain _).mp hmem).2.symm
  unfold waiters
  rw [hchain, (hq.chain_nodup _).erase_eq_filter, ((hq.chain_nodup _).filter _).erase_eq_filter,
    List.filter_filter, List.filter_filter]
  refine List.filter_congr fun u hu => ?_
  by_cases hut : u = t
  · simp [hut]
  · rw [release_sleepsOn, Function.update_of_ne hut, Bool.and_comm]

lemma waiters_wake_self (hq : q.Inv n) (r : UInt32) :
    (q.wake r).waiters r = (q.waiters r).tail := by
  rw [wake]
  cases hw : q.waiters r with
  | nil => exact hw
  | cons t l =>
    change (q.release t).waiters r = l
    rw [waiters_release hq, hw, List.erase_cons_head]

/-- Releasing threads that wait for other resources. -/
lemma waiters_foldl_release {l : List ℤ} (hq : q.Inv n) (hnodup : l.Nodup)
    (hl : ∀ t ∈ l, q.sleepsOn t ≠ 0) (hr : ∀ t ∈ l, t ∉ q.waiters r) :
    (l.foldl release q).waiters r = q.waiters r := by
  induction l generalizing q with
  | nil => rfl
  | cons t l ih =>
    obtain ⟨ht, hnodup⟩ := List.nodup_cons.mp hnodup
    have hsleeps := hl t List.mem_cons_self
    have hrel : (q.release t).waiters r = q.waiters r := by
      rw [waiters_release hq, List.erase_of_not_mem (hr t List.mem_cons_self)]
    rw [List.foldl_cons, ih (hq.release hsleeps) hnodup, hrel]
    · intro u hu
      have hut : u ≠ t := fun hut => ht (hut ▸ hu)
      rw [release_sleepsOn, Function.update_of_ne hut]
      exact hl u (List.mem_cons_of_mem _ hu)
    · intro u hu
      rw [hrel]
      exact hr u (List.mem_cons_of_mem _ hu)

lemma foldl_release_of_not_mem {l : List ℤ} (hu : u ∉ l) :
    (l.foldl release q).sleepsOn u = q.sleepsOn u ∧ (l.foldl release q).state u = q.state u := by
  induction l generalizing q with
  | nil => exact ⟨rfl, rfl⟩
  | cons t l ih =>
    obtain ⟨hut, hu⟩ := not_or.mp (mt List.mem_cons.mpr hu)
    obtain ⟨h₁, h₂⟩ := ih (q := q.release t) hu
    rw [List.foldl_cons, h₁, h₂, release_sleepsOn, Function.update_of_ne hut,
      release_state_of_ne hut]
    exact ⟨rfl, rfl⟩

lemma not_mem_waiters_of_ne (hq : q.Inv n) (hr : r' ≠ r) (ht : t ∈ q.waiters r) :
    t ∉ q.waiters r' := by
  intro ht'
  exact hr ((hq.sleepsOn_of_mem_waiters ht').1.symm.trans (hq.sleepsOn_of_mem_waiters ht).1)

lemma waiters_wake_of_ne (hq : q.Inv n) (hr : r' ≠ r) : (q.wake r).waiters r' = q.waiters r' := by
  rw [wake_eq_foldl]
  have hsub := List.take_sublist 1 (q.waiters r)
  refine waiters_foldl_release hq ((waiters_nodup hq r).sublist hsub) (fun t ht => ?_) fun t ht =>
    not_mem_waiters_of_ne hq hr (hsub.subset ht)
  obtain ⟨hsleeps, hne⟩ := hq.sleepsOn_of_mem_waiters (hsub.subset ht)
  exact hsleeps ▸ hne

lemma waiters_wakeAll_of_ne (hq : q.Inv n) (hr : r' ≠ r) :
    (q.wakeAll r).waiters r' = q.waiters r' := by
  refine waiters_foldl_release hq (waiters_nodup hq r) (fun t ht => ?_) fun t ht =>
    not_mem_waiters_of_ne hq hr ht
  obtain ⟨hsleeps, hne⟩ := hq.sleepsOn_of_mem_waiters ht
  exact hsleeps ▸ hne

/-- A wake-up leaves threads alone that do not wait for the resource. -/
lemma wakeAll_of_not_mem (hu : u ∉ q.waiters r) :
    (q.wakeAll r).sleepsOn u = q.sleepsOn u ∧ (q.wakeAll r).state u = q.state u :=
  foldl_release_of_not_mem hu

/-- Releasing threads ends waits and starts none. -/
lemma foldl_release_sleepsOn (l : List ℤ) (q : Threads) (u : ℤ) :
    (l.foldl release q).sleepsOn u = q.sleepsOn u ∨ (l.foldl release q).sleepsOn u = 0 := by
  induction l generalizing q with
  | nil => exact Or.inl rfl
  | cons t l ih =>
    rcases ih (q.release t) with h | h
    · rw [List.foldl_cons, h, release_sleepsOn]
      by_cases hut : u = t
      · subst hut; exact Or.inr (Function.update_self _ _ _)
      · exact Or.inl (Function.update_of_ne hut _ _)
    · exact Or.inr h

/-- Releasing threads makes sleeping threads ready and changes no other state. -/
lemma foldl_release_state (l : List ℤ) (q : Threads) (u : ℤ) :
    (l.foldl release q).state u = q.state u ∨
      (q.state u = .sleeping ∧ (l.foldl release q).state u = .ready) := by
  induction l generalizing q with
  | nil => exact Or.inl rfl
  | cons t l ih =>
    have hrel : (q.release t).state u = q.state u ∨
        (q.state u = .sleeping ∧ (q.release t).state u = .ready) := by
      by_cases hut : u = t
      · subst hut
        by_cases hst : q.state u = .sleeping
        · right
          simp [release, awaken, setChain, setSleepsOn, setState, addReady, hst]
        · left
          simp [release, awaken, setChain, setSleepsOn, hst]
      · exact Or.inl (release_state_of_ne hut)
    rcases ih (q.release t), hrel with ⟨h | ⟨h₁, h₂⟩, h' | ⟨h₁', h₂'⟩⟩
    · exact Or.inl (h.trans h')
    · exact Or.inr ⟨h₁', h.trans h₂'⟩
    · exact Or.inr ⟨h'.symm.trans h₁, h₂⟩
    · rw [h₂'] at h₁
      simp at h₁

/-- A woken-up thread waits for the resource no more. -/
lemma foldl_release_sleepsOn_of_mem {l : List ℤ} (hu : u ∈ l) :
    (l.foldl release q).sleepsOn u = 0 := by
  induction l generalizing q with
  | nil => simp at hu
  | cons t l ih =>
    by_cases hul : u ∈ l
    · exact ih hul
    · have hut : u = t := (List.mem_cons.mp hu).resolve_right hul
      subst hut
      rw [List.foldl_cons, (foldl_release_of_not_mem hul).1, release_sleepsOn, Function.update_self]

/-- After `sleepq_wake_all` nobody waits for the resource. -/
lemma wakeAll_sleepsOn_ne (hq : q.Inv n) (hr : r ≠ 0) (u : ℤ) : (q.wakeAll r).sleepsOn u ≠ r := by
  intro hu
  have hmem : u ∉ q.waiters r := by
    intro hmem
    rw [wakeAll, foldl_release_sleepsOn_of_mem hmem] at hu
    exact hr hu.symm
  rw [(wakeAll_of_not_mem hmem).1] at hu
  exact hmem ((mem_waiters hq hr).mpr hu)

/-- A wake-up does not stop a thread that still runs. -/
lemma release_state_running (hu : q.state u = .running) : (q.release t).state u = .running := by
  by_cases hut : u = t
  · subst hut
    simp [release, awaken, setChain, setSleepsOn, hu]
  · rw [release_state_of_ne hut, hu]

end Osm.Kernel.Threads
