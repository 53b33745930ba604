import Osm.Kernel.Waiters

/-!
# What a wake-up changes

`sleepq_wake` takes the first thread that sleeps on a resource out of its chain, and
`sleepq_wake_all` all of them. The other threads keep their places on the chains and their fields,
and those woken up that have gone to sleep already are appended to the ready list in the order of
the chain.
-/

namespace Osm.Kernel

open Osm.Core

namespace Threads

variable {q : Threads} {t u : ℤ} {r : UInt32}

/-- The threads of a list have been taken out of the chain in slot `h`, and nothing else has
changed. -/
structure Woken (q q' : Threads) (h : Fin sleepqHashtableSize) (woken : List ℤ) : Prop where
  chain    : q'.chain = Function.update q.chain h ((q.chain h).filter fun t => t ∉ woken)
  sleepsOn : ∀ t, q'.sleepsOn t = if t ∈ woken then 0 else q.sleepsOn t
  state    : ∀ t, q'.state t =
    if t ∈ woken ∧ q.state t = .sleeping then .ready else q.state t
  ready    : q'.ready = q.ready ++ woken.filter fun t => q.state t = .sleeping
  process  : q'.process = q.process
  current  : q'.current = q.current

/-! ### Taking threads out of a chain one after the other -/

lemma release_state (q : Threads) (t u : ℤ) :
    (q.release t).state u = if u = t ∧ q.state u = .sleeping then .ready else q.state u := by
  by_cases hut : u = t
  · subst hut
    by_cases hst : q.state u = .sleeping
    · simp [release, awaken, setChain, setSleepsOn, setState, addReady, hst]
    · simp [release, awaken, setChain, setSleepsOn, hst]
  · rw [release_state_of_ne hut, if_neg fun h => hut h.1]

lemma release_ready (q : Threads) (t : ℤ) :
    (q.release t).ready = q.ready ++ [t].filter fun t => q.state t = .sleeping := by
  by_cases hst : q.state t = .sleeping
  · simp [release, awaken, setChain, setSleepsOn, setState, addReady, hst]
  · simp [release, awaken, setChain, setSleepsOn, hst]

lemma release_current (q : Threads) (t : ℤ) : (q.release t).current = q.current := by
  simp only [release, awaken]
  split <;> rfl

lemma woken_nil (q : Threads) (h : Fin sleepqHashtableSize) : Woken q q h [] where
  chain := by simp
  sleepsOn t := by simp
  state t := by simp
  ready := by simp
  process := rfl
  current := rfl

/-- One more thread is taken out first. -/
lemma Woken.cons {q' : Threads} {l : List ℤ} (ht : q.sleepsOn t = r) (htl : t ∉ l)
    (hnodup : (q.chain (sleepqHash r)).Nodup) (h : Woken (q.release t) q' (sleepqHash r) l) :
    Woken q q' (sleepqHash r) (t :: l) where
  chain := by
    have herase : (q.release t).chain =
        Function.update q.chain (sleepqHash r) ((q.chain (sleepqHash r)).filter (· != t)) := by
      rw [release_chain, ht, hnodup.erase_eq_filter]
    rw [h.chain, herase, Function.update_self, Function.update_idem, List.filter_filter]
    congr 1
    refine List.filter_congr fun u _ => ?_
    by_cases hut : u = t <;> simp [hut]
  sleepsOn u := by
    rw [h.sleepsOn, release_sleepsOn, Function.update_apply]
    by_cases hut : u = t
    · simp [hut]
    · simp [hut]
  state u := by
    rw [h.state, release_state]
    by_cases hut : u = t
    · subst hut
      simp [htl]
    · simp [hut]
  ready := by
    have hrest : (l.filter fun t' => (q.release t).state t' = .sleeping) =
        l.filter fun t' => q.state t' = .sleeping := by
      refine List.filter_congr fun u hu => ?_
      have hut : u ≠ t := fun hut => htl (hut ▸ hu)
      rw [release_state_of_ne hut]
    rw [h.ready, release_ready, hrest, List.append_assoc, ← List.filter_append]
    rfl
  process := h.process.trans (q.release_process t)
  current := h.current.trans (q.release_current t)

/-- Taking threads out that sleep on one resource. -/
lemma woken_foldl_release {l : List ℤ} (hl : ∀ t ∈ l, q.sleepsOn t = r) (hdistinct : l.Nodup)
    (hnodup : (q.chain (sleepqHash r)).Nodup) :
    Woken q (l.foldl release q) (sleepqHash r) l := by
  induction l generalizing q with
  | nil => exact woken_nil q _
  | cons t l ih =>
    obtain ⟨ht, hl⟩ := List.forall_mem_cons.mp hl
    obtain ⟨htl, hdistinct⟩ := List.nodup_cons.mp hdistinct
    refine Woken.cons ht htl hnodup (ih (fun u hu => ?_) hdistinct ?_)
    · have hut : u ≠ t := fun hut => htl (hut ▸ hu)
      rw [release_sleepsOn, Function.update_of_ne hut]
      exact hl u hu
    · rw [release_chain, ht, Function.update_self]
      exact hnodup.erase t

end Threads

variable {s : State} {q : Threads} {r : UInt32}

namespace Represents

lemma woken_waiters (h : Represents s q) {l : List ℤ} (hl : l.Sublist (q.waiters r)) :
    q.Woken (l.foldl Threads.release q) (sleepqHash r) l := by
  have hnodup := (h.chain (sleepqHash r)).nodup
  refine Threads.woken_foldl_release (fun t ht => ?_) ((hnodup.filter _).sublist hl) hnodup
  simpa using (List.mem_filter.mp (hl.subset ht)).2

end Represents

/-- `sleepq_wake` takes the first thread that sleeps on the resource out of its chain, if there is
one, and `sleepq_wake_all` takes out all of them. -/
theorem sleepqWake_woken (h : Represents s q) (r : UInt32) :
    (∃ s' q', sleepqWake s r = some s' ∧ Represents s' q' ∧
      q.Woken q' (sleepqHash r) ((q.waiters r).take 1) ∧ (q.waiters r = [] → s' = s)) ∧
    ∃ s' q', sleepqWakeAll s r = some s' ∧ Represents s' q' ∧
      q.Woken q' (sleepqHash r) (q.waiters r) := by
  constructor
  · obtain ⟨s', hwake, hrep⟩ := h.sleepqWake r
    refine ⟨s', _, hwake, hrep, ?_, fun hnil => ?_⟩
    · rw [Threads.wake_eq_foldl]
      exact h.woken_waiters (List.take_sublist 1 _)
    · rw [h.sleepqWake_of_nil hnil] at hwake
      exact (Option.some.inj hwake).symm
  · obtain ⟨s', hwake, hrep⟩ := h.sleepqWakeAll r
    exact ⟨s', _, hwake, hrep, h.woken_waiters (List.Sublist.refl _)⟩

/-- Two threads sleep in one slot: the first on the resource 255, the second on the resource 128. -/
def twoSleepers : Threads where
  state t     := if t = 1 ∨ t = 2 then .sleeping else .free
  sleepsOn t  := if t = 1 then 255 else if t = 2 then 128 else 0
  pagetable _ := 0
  processId _ := -1
  ready       := []
  chain h     := if h = sleepqHash 128 then [1, 2] else []
  current _   := idleThreadTid

/-- A state of the kernel with these threads. -/
def twoSleepersState : State where
  threadTable t     := { state := twoSleepers.state t, sleepsOn := twoSleepers.sleepsOn t,
                         next := if t = 1 then 2 else -1 }
  readyHead         := -1
  readyTail         := -1
  sleepqHashtable h := if h = sleepqHash 128 then 1 else -1
  currentThread _   := idleThreadTid
  nextTid           := 3

lemma represents_twoSleepers : Represents twoSleepersState twoSleepers where
  state _ := rfl
  sleepsOn _ := rfl
  pagetable _ := rfl
  processId _ := rfl
  current _ := rfl
  ready := show (-1 : ℤ) < 0 by decide
  readyTail := rfl
  chain h := by
    by_cases hh : h = sleepqHash 128
    · subst hh
      exact ⟨rfl, by decide, rfl, by decide, show (-1 : ℤ) ≤ 0 by decide⟩
    · simp [twoSleepersState, twoSleepers, hh]
  tid t ht := by
    rcases ht with ht | ⟨h, ht⟩
    · cases ht
    · simp only [twoSleepers] at ht
      split_ifs at ht
      · simp only [List.mem_cons, List.not_mem_nil, or_false] at ht
        rcases ht with rfl | rfl <;> decide
      · cases ht
  ready_chain _ _ ht := nomatch ht
  chain_chain t h h' ht ht' := by
    simp only [twoSleepers] at ht ht'
    split_ifs at ht ht' with hh hh'
    · exact hh.trans hh'.symm
    · cases ht'
    · cases ht
    · cases ht

/-- The second thread of the chain is woken up. -/
theorem sleepqWake_woken_second : ∃ s' q', sleepqWake twoSleepersState 128 = some s' ∧
    Represents s' q' ∧ q'.chain (sleepqHash 128) = [1] ∧ q'.ready = [2] := by
  obtain ⟨⟨s', q', hwake, hrep, hwoken, -⟩, -⟩ := sleepqWake_woken represents_twoSleepers 128
  refine ⟨s', q', hwake, hrep, ?_, ?_⟩
  · rw [hwoken.chain, Function.update_self]
    decide
  · rw [hwoken.ready]
    decide

end Osm.Kernel
