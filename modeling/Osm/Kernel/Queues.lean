import Osm.Core.Linked
import Osm.Kernel.Thread
import Mathlib.Data.Int.Interval

/-!
# Thread queues without pointers

`Threads` is what the thread table, the scheduler and the sleep queue are for: a ready list and
a chain of waiting threads for every slot of the hash table, as plain lists, next to the fields
of the threads. Its operations say which thread moves from which list to which.

`Represents s q` relates a state of the kernel to it: the lists of `q` are the linked lists found
in `s`, and no thread is on two of them. The second half of the file shows that every function
of the kernel carries out the operation of the same name.
-/

namespace Osm.Kernel

open Osm.Core

/-- The threads and the lists they are on. -/
structure Threads where
  state     : ℤ → ThreadState
  sleepsOn  : ℤ → UInt32
  pagetable : ℤ → ℕ
  processId : ℤ → ℤ
  ready     : List ℤ
  chain     : Fin sleepqHashtableSize → List ℤ
  current   : Fin configMaxCpus → ℤ

namespace Threads

/-- The thread is on the ready list or on a chain of the sleep queue. -/
def OnList (q : Threads) (t : ℤ) : Prop := t ∈ q.ready ∨ ∃ h, t ∈ q.chain h

/-- The threads that sleep on a resource, in the order of their chain. -/
def waiters (q : Threads) (r : UInt32) : List ℤ :=
  (q.chain (sleepqHash r)).filter fun t => q.sleepsOn t = r

def setState (q : Threads) (t : ℤ) (st : ThreadState) : Threads :=
  { q with state := Function.update q.state t st }

def setSleepsOn (q : Threads) (t : ℤ) (r : UInt32) : Threads :=
  { q with sleepsOn := Function.update q.sleepsOn t r }

def setChain (q : Threads) (h : Fin sleepqHashtableSize) (l : List ℤ) : Threads :=
  { q with chain := Function.update q.chain h l }

/-- Append a thread to the ready list. -/
def addReady (q : Threads) (t : ℤ) : Threads := { q with ready := q.ready ++ [t] }

/-- Take a thread off its CPU. -/
def retire (q : Threads) (t : ℤ) : Threads :=
  if q.state t = .dying then q.setState t .free
  else if q.sleepsOn t ≠ 0 then q.setState t .sleeping
  else (if t ≠ idleThreadTid then q.addReady t else q).setState t .ready

/-- Run a thread on a CPU. -/
def dispatch (q : Threads) (cpu : Fin configMaxCpus) (t : ℤ) : Threads :=
  { q.setState t .running with current := Function.update q.current cpu t }

/-- Run the first ready thread, or the idle thread, on a CPU. -/
def dispatchFirst (q : Threads) (cpu : Fin configMaxCpus) : Threads :=
  match q.ready with
  | []     => q.dispatch cpu idleThreadTid
  | t :: l => { q with ready := l }.dispatch cpu t

def schedule (q : Threads) (cpu : Fin configMaxCpus) : Threads :=
  (q.retire (q.current cpu)).dispatchFirst cpu

def create (q : Threads) (t : ℤ) : Threads :=
  { q with
    state     := Function.update q.state t .nonready
    sleepsOn  := Function.update q.sleepsOn t 0
    pagetable := Function.update q.pagetable t 0
    processId := Function.update q.processId t (-1) }

def run (q : Threads) (t : ℤ) : Threads := (q.addReady t).setState t .ready

def finish (q : Threads) (cpu : Fin configMaxCpus) : Threads :=
  q.setState (q.current cpu) .dying

/-- Append a thread to the chain of a resource. -/
def sleep (q : Threads) (t : ℤ) (r : UInt32) : Threads :=
  (q.setSleepsOn t r).setChain (sleepqHash r) (q.chain (sleepqHash r) ++ [t])

/-- End the wait of a thread that is on no chain any more. -/
def awaken (q : Threads) (t : ℤ) : Threads :=
  if q.state t = .sleeping then ((q.setSleepsOn t 0).setState t .ready).addReady t
  else q.setSleepsOn t 0

/-- Take a thread out of its chain and end its wait. -/
def release (q : Threads) (t : ℤ) : Threads :=
  let h := sleepqHash (q.sleepsOn t)
  (q.setChain h ((q.chain h).erase t)).awaken t

def wake (q : Threads) (r : UInt32) : Threads :=
  match q.waiters r with
  | []     => q
  | t :: _ => q.release t

def wakeAll (q : Threads) (r : UInt32) : Threads := (q.waiters r).foldl release q

/-- The fields of a thread that belong to its process. -/
def process (q : Threads) (t : ℤ) : ℕ × ℤ := (q.pagetable t, q.processId t)

/-- Assign to the fields of a thread that belong to its process. -/
def setProcess (q : Threads) (t : ℤ) (pagetable : ℕ) (processId : ℤ) : Threads :=
  { q with
    pagetable := Function.update q.pagetable t pagetable
    processId := Function.update q.processId t processId }

lemma schedule_process (q : Threads) (cpu : Fin configMaxCpus) :
    (q.schedule cpu).process = q.process := by
  rw [schedule, dispatchFirst, dispatch, retire, setState, addReady]
  split <;> split_ifs <;> rfl

lemma release_process (q : Threads) (t : ℤ) : (q.release t).process = q.process := by
  simp only [release, awaken]
  split <;> rfl

lemma foldl_release_process (l : List ℤ) (q : Threads) :
    (l.foldl release q).process = q.process := by
  induction l generalizing q with
  | nil => rfl
  | cons t l ih => rw [List.foldl_cons, ih, release_process]

lemma wake_eq_foldl (q : Threads) (r : UInt32) :
    q.wake r = ((q.waiters r).take 1).foldl release q := by
  rw [wake]
  cases q.waiters r with
  | nil => rfl
  | cons t l => simp

lemma wake_process (q : Threads) (r : UInt32) : (q.wake r).process = q.process := by
  rw [wake_eq_foldl, foldl_release_process]

lemma wakeAll_process (q : Threads) (r : UInt32) : (q.wakeAll r).process = q.process :=
  foldl_release_process _ q

lemma pagetable_of_process {q q' : Threads} (h : q'.process = q.process) (t : ℤ) :
    q'.pagetable t = q.pagetable t := congrArg Prod.fst (congrFun h t)

lemma processId_of_process {q q' : Threads} (h : q'.process = q.process) (t : ℤ) :
    q'.processId t = q.processId t := congrArg Prod.snd (congrFun h t)

lemma release_sleepsOn (q : Threads) (t : ℤ) :
    (q.release t).sleepsOn = Function.update q.sleepsOn t 0 := by
  simp only [release, awaken]
  split <;> rfl

lemma release_chain (q : Threads) (t : ℤ) :
    (q.release t).chain = Function.update q.chain (sleepqHash (q.sleepsOn t))
      ((q.chain (sleepqHash (q.sleepsOn t))).erase t) := by
  simp only [release, awaken]
  split <;> rfl

end Threads

/-- The lists of `q` are the linked lists of the kernel state `s`. -/
structure Represents (s : State) (q : Threads) : Prop where
  state : ∀ t, (s.threadTable t).state = q.state t
  sleepsOn : ∀ t, (s.threadTable t).sleepsOn = q.sleepsOn t
  pagetable : ∀ t, (s.threadTable t).pagetable = q.pagetable t
  processId : ∀ t, (s.threadTable t).processId = q.processId t
  current : ∀ cpu, s.currentThread cpu = q.current cpu
  ready : Linked s.next (· < 0) s.readyHead q.ready
  readyTail : s.readyTail = q.ready.getLast?.getD (-1)
  chain : ∀ h, Linked s.next (· ≤ 0) (s.sleepqHashtable h) (q.chain h)
  tid : ∀ t, q.OnList t → 0 < t ∧ t < configMaxThreads
  ready_chain : ∀ t h, t ∈ q.ready → t ∉ q.chain h
  chain_chain : ∀ t h h', t ∈ q.chain h → t ∈ q.chain h' → h = h'

namespace Represents

variable {s : State} {q : Threads} {t : ℤ}

/-! ### Updates of single fields -/

lemma setState (h : Represents s q) (t : ℤ) (st : ThreadState) :
    Represents (s.setState t st) (q.setState t st) where
  state u := by simp [Threads.setState, Function.update_apply, h.state]
  sleepsOn u := by simp [Threads.setState, h.sleepsOn]
  pagetable u := by simp [Threads.setState, h.pagetable]
  processId u := by simp [Threads.setState, h.processId]
  current := h.current
  ready := h.ready.congr fun u _ => s.setState_next t u st
  readyTail := h.readyTail
  chain k := (h.chain k).congr fun u _ => s.setState_next t u st
  tid := h.tid
  ready_chain := h.ready_chain
  chain_chain := h.chain_chain

lemma setSleepsOn (h : Represents s q) (t : ℤ) (r : UInt32) :
    Represents (s.setSleepsOn t r) (q.setSleepsOn t r) where
  state u := by simp [Threads.setSleepsOn, h.state]
  sleepsOn u := by simp [Threads.setSleepsOn, Function.update_apply, h.sleepsOn]
  pagetable u := by simp [Threads.setSleepsOn, h.pagetable]
  processId u := by simp [Threads.setSleepsOn, h.processId]
  current := h.current
  ready := h.ready.congr fun u _ => s.setSleepsOn_next t u r
  readyTail := h.readyTail
  chain k := (h.chain k).congr fun u _ => s.setSleepsOn_next t u r
  tid := h.tid
  ready_chain := h.ready_chain
  chain_chain := h.chain_chain

/-- Fields that belong to the process of a thread. -/
lemma modifyThread (h : Represents s q) (t : ℤ) {f : Thread → Thread}
    (hstate : ∀ th, (f th).state = th.state) (hsleeps : ∀ th, (f th).sleepsOn = th.sleepsOn)
    (hnext : ∀ th, (f th).next = th.next) :
    Represents (s.modifyThread t f)
      (q.setProcess t (f (s.threadTable t)).pagetable (f (s.threadTable t)).processId) := by
  have hrow := s.threadTable_modifyThread t
  have hsucc : ∀ u, (s.modifyThread t f).next u = s.next u := by
    intro u
    rw [State.next, hrow]
    split
    · exact hnext _
    · rfl
  refine ⟨fun u => ?_, fun u => ?_, fun u => ?_, fun u => ?_, h.current, ?_, h.readyTail,
    fun k => ?_, h.tid, h.ready_chain, h.chain_chain⟩
  · rw [hrow]
    split
    · exact (hstate _).trans (h.state u)
    · exact h.state u
  · rw [hrow]
    split
    · exact (hsleeps _).trans (h.sleepsOn u)
    · exact h.sleepsOn u
  · rw [hrow]
    split
    · subst u; simp [Threads.setProcess]
    · simp [Threads.setProcess, *, h.pagetable]
  · rw [hrow]
    split
    · subst u; simp [Threads.setProcess]
    · simp [Threads.setProcess, *, h.processId]
  · exact h.ready.congr fun u _ => hsucc u
  · exact (h.chain k).congr fun u _ => hsucc u

/-- The successor of a thread that is on no list does not matter. -/
lemma setNext (h : Represents s q) (hoff : ¬ q.OnList t) (n : ℤ) :
    Represents (s.setNext t n) q where
  state u := by simp [h.state]
  sleepsOn u := by simp [h.sleepsOn]
  pagetable u := by simp [h.pagetable]
  processId u := by simp [h.processId]
  current := h.current
  ready := h.ready.congr fun u hu => by
    rw [State.setNext_next, if_neg]
    rintro rfl
    exact hoff (Or.inl hu)
  readyTail := h.readyTail
  chain k := (h.chain k).congr fun u hu => by
    rw [State.setNext_next, if_neg]
    rintro rfl
    exact hoff (Or.inr ⟨k, hu⟩)
  tid := h.tid
  ready_chain := h.ready_chain
  chain_chain := h.chain_chain

/-! ### The scheduler -/

lemma schedulerAddToReadyList (h : Represents s q) (htid : 0 < t ∧ t < configMaxThreads)
    (hoff : ¬ q.OnList t) :
    ∃ s', Kernel.schedulerAddToReadyList s t = some s' ∧ Represents s' (q.addReady t) := by
  have hidle : t ≠ idleThreadTid := by simp only [idleThreadTid]; omega
  have hoffChain : ∀ k, t ∉ q.chain k := fun k hk => hoff (Or.inr ⟨k, hk⟩)
  have htid' : ∀ u, (q.addReady t).OnList u → 0 < u ∧ u < configMaxThreads := by
    rintro u (hu | hu)
    · rcases List.mem_append.mp hu with hu | hu
      · exact h.tid u (Or.inl hu)
      · rw [List.mem_singleton.mp hu]; exact htid
    · exact h.tid u (Or.inr hu)
  have hdisj : ∀ u k, u ∈ (q.addReady t).ready → u ∉ q.chain k := by
    intro u k hu
    rcases List.mem_append.mp hu with hu | hu
    · exact h.ready_chain u k hu
    · rw [List.mem_singleton.mp hu]; exact hoffChain k
  rw [Kernel.schedulerAddToReadyList]
  rw [if_neg hidle, if_neg (not_not.mpr ⟨by omega, htid.2⟩)]
  rcases List.eq_nil_or_concat q.ready with hempty | ⟨l, p, hlast⟩
  · -- the list was empty: its tail is negative
    have htail : s.readyTail < 0 := by rw [h.readyTail, hempty]; decide
    rw [if_pos htail]
    have hnext := h.setNext hoff (-1)
    refine ⟨_, rfl, { hnext with
      ready := ?_, readyTail := ?_, tid := htid', ready_chain := hdisj }⟩
    · simp only [Threads.addReady, hempty, List.nil_append]
      exact ⟨rfl, by omega, by change (s.setNext t (-1)).next t < 0; simp⟩
    · simp [Threads.addReady]
  · -- otherwise the tail is the last thread of the list
    rw [List.concat_eq_append] at hlast
    have hmem : p ∈ q.ready := by rw [hlast]; simp
    have hp := h.tid p (Or.inl hmem)
    have hpt : p ≠ t := fun hpt => hoff (Or.inl (hpt ▸ hmem))
    have htail : s.readyTail = p := by rw [h.readyTail, hlast]; simp
    rw [if_neg (by omega), htail]
    have hsucc : ∀ u, u ≠ t → u ≠ p → ((s.setNext p t).setNext t (-1)).next u = s.next u := by
      intro u hut hup
      simp [hut, hup]
    refine ⟨_, rfl, ⟨?_, ?_, ?_, ?_, h.current, ?_, ?_, ?_, htid', hdisj, h.chain_chain⟩⟩
    · intro u; simp [h.state, Threads.addReady]
    · intro u; simp [h.sleepsOn, Threads.addReady]
    · intro u; simp [h.pagetable, Threads.addReady]
    · intro u; simp [h.processId, Threads.addReady]
    · have hready := hlast ▸ h.ready
      have hnodup := hready.nodup
      simp only [Threads.addReady, hlast]
      refine hready.snoc (fun u hu => hsucc u ?_ ?_) ?_ (by omega) ?_
      · rintro rfl
        exact hoff (Or.inl (by rw [hlast]; exact List.mem_append_left _ hu))
      · rintro rfl
        exact (List.nodup_append.mp hnodup).2.2 u hu u (by simp) rfl
      · change ((s.setNext p t).setNext t (-1)).next p = t
        simp [hpt]
      · change ((s.setNext p t).setNext t (-1)).next t < 0
        simp
    · simp [Threads.addReady]
    · intro k
      refine (h.chain k).congr fun u hu => hsucc u ?_ ?_
      · rintro rfl; exact hoffChain k hu
      · rintro rfl; exact h.ready_chain u k hmem hu

lemma schedulerRemoveFirstReady_nil (h : Represents s q) (hready : q.ready = []) :
    Kernel.schedulerRemoveFirstReady s = some (s, idleThreadTid) := by
  have hhead : s.readyHead < 0 := by
    have hlinked := h.ready
    rw [hready] at hlinked
    exact hlinked
  have hidle : s.readyHead ≠ idleThreadTid := by simp only [idleThreadTid]; omega
  rw [Kernel.schedulerRemoveFirstReady]
  simp only [if_neg hidle, if_pos hhead]

lemma schedulerRemoveFirstReady_cons {l : List ℤ} (h : Represents s q) (hready : q.ready = t :: l)
    (hst : q.state t = .ready) :
    ∃ s', Kernel.schedulerRemoveFirstReady s = some (s', t) ∧
      Represents s' { q with ready := l } := by
  have hlinked := h.ready
  rw [hready] at hlinked
  obtain ⟨hhead, hpos, htail⟩ := hlinked
  have hmem : t ∈ q.ready := by rw [hready]; exact List.mem_cons_self
  have hrange := h.tid t (Or.inl hmem)
  have hidle : t ≠ idleThreadTid := by simp only [idleThreadTid]; omega
  have hst' : (s.threadTable t).state = .ready := (h.state t).trans hst
  have htid' : ∀ u, Threads.OnList { q with ready := l } u → 0 < u ∧ u < configMaxThreads := by
    rintro u (hu | hu)
    · exact h.tid u (Or.inl (by rw [hready]; exact List.mem_cons_of_mem _ hu))
    · exact h.tid u (Or.inr hu)
  have hdisj : ∀ u k, u ∈ l → u ∉ q.chain k := fun u k hu =>
    h.ready_chain u k (by rw [hready]; exact List.mem_cons_of_mem _ hu)
  rw [Kernel.schedulerRemoveFirstReady]
  simp only [hhead, if_neg hidle, if_neg hpos, hst', ne_eq, not_true_eq_false, if_false]
  refine ⟨_, rfl, ?_⟩
  -- the last thread of the remaining list is the tail, unless that list is empty
  cases l with
  | nil =>
    have hlast : s.readyTail = t := by rw [h.readyTail, hready]; rfl
    rw [if_pos hlast]
    exact { h with ready := htail, readyTail := rfl, tid := htid', ready_chain := hdisj }
  | cons u l =>
    have hlast : s.readyTail = (u :: l).getLast?.getD (-1) := by
      rw [h.readyTail, hready, List.getLast?_cons_cons]
    have hne : s.readyTail ≠ t := by
      have hnodup := hready ▸ h.ready.nodup
      intro heq
      refine (List.nodup_cons.mp hnodup).1 ?_
      have hgetLast := List.getLast?_eq_some_getLast (l := u :: l) (by simp)
      rw [hgetLast, Option.getD_some, heq] at hlast
      rw [hlast]
      exact List.getLast_mem _
    rw [if_neg hne]
    exact { h with ready := htail, readyTail := hlast, tid := htid', ready_chain := hdisj }

lemma schedulerAddReady (h : Represents s q) (htid : 0 < t ∧ t < configMaxThreads)
    (hoff : ¬ q.OnList t) :
    ∃ s', Kernel.schedulerAddReady s t = some s' ∧ Represents s' (q.run t) := by
  obtain ⟨s', hs', hrep⟩ := h.schedulerAddToReadyList htid hoff
  refine ⟨s'.setState t .ready, ?_, hrep.setState t .ready⟩
  simp [Kernel.schedulerAddReady, hs']

lemma schedulerRetire (h : Represents s q)
    (hadd : q.state t ≠ .dying → q.sleepsOn t = 0 → t ≠ idleThreadTid →
      (0 < t ∧ t < configMaxThreads) ∧ ¬ q.OnList t) :
    ∃ s', Kernel.schedulerRetire s t = some s' ∧ Represents s' (q.retire t) := by
  rw [Kernel.schedulerRetire, Threads.retire]
  rw [h.state, h.sleepsOn]
  by_cases hdying : q.state t = .dying
  · rw [if_pos hdying, if_pos hdying]
    exact ⟨_, rfl, h.setState t .free⟩
  rw [if_neg hdying, if_neg hdying]
  by_cases hsleeps : q.sleepsOn t ≠ 0
  · rw [if_pos hsleeps, if_pos hsleeps]
    exact ⟨_, rfl, h.setState t .sleeping⟩
  rw [if_neg hsleeps, if_neg hsleeps]
  by_cases hidle : t ≠ idleThreadTid
  · obtain ⟨htid, hoff⟩ := hadd hdying (not_not.mp hsleeps) hidle
    obtain ⟨s', hs', hrep⟩ := h.schedulerAddToReadyList htid hoff
    rw [if_pos hidle, if_pos hidle, hs']
    exact ⟨_, rfl, hrep.setState t .ready⟩
  · rw [if_neg hidle, if_neg hidle]
    exact ⟨_, rfl, h.setState t .ready⟩

lemma dispatch (h : Represents s q) (cpu : Fin configMaxCpus) (t : ℤ) :
    Represents { s.setState t .running with
      currentThread := Function.update (s.setState t .running).currentThread cpu t }
      (q.dispatch cpu t) := by
  have hst := h.setState t .running
  refine { hst with current := fun c => ?_ }
  have hcur : (s.setState t .running).currentThread = q.current := funext hst.current
  simp only [hcur, Threads.dispatch]

lemma schedulerSchedule (h : Represents s q) (cpu : Fin configMaxCpus)
    (hadd : ∀ t, t = q.current cpu → q.state t ≠ .dying → q.sleepsOn t = 0 →
      t ≠ idleThreadTid → (0 < t ∧ t < configMaxThreads) ∧ ¬ q.OnList t)
    (hready : ∀ t ∈ (q.retire (q.current cpu)).ready,
      (q.retire (q.current cpu)).state t = .ready) :
    ∃ s', Kernel.schedulerSchedule s cpu = some s' ∧ Represents s' (q.schedule cpu) := by
  obtain ⟨s₁, hs₁, hrep₁⟩ := h.schedulerRetire (hadd _ rfl)
  rw [← h.current] at hs₁ hready hrep₁
  rw [Kernel.schedulerSchedule, Threads.schedule, Threads.dispatchFirst]
  rw [hs₁, ← h.current]
  cases hq : (q.retire (s.currentThread cpu)).ready with
  | nil =>
    simp only [Option.bind_eq_bind, Option.bind_some, hrep₁.schedulerRemoveFirstReady_nil hq]
    exact ⟨_, rfl, hrep₁.dispatch cpu idleThreadTid⟩
  | cons t l =>
    obtain ⟨s₂, hs₂, hrep₂⟩ := hrep₁.schedulerRemoveFirstReady_cons hq
      (hready t (by rw [hq]; exact List.mem_cons_self))
    simp only [Option.bind_eq_bind, Option.bind_some, hs₂]
    exact ⟨_, rfl, hrep₂.dispatch cpu t⟩

/-! ### Threads -/

lemma findFreeTid_some (htid : findFreeTid s = some t) :
    0 < t ∧ t < configMaxThreads ∧ (s.threadTable t).state = .free := by
  have hmem := List.mem_of_find?_eq_some htid
  have hfound := List.find?_some htid
  have hprop : t ≠ 0 ∧ (s.threadTable t).state = .free := of_decide_eq_true hfound
  obtain ⟨i, -, rfl⟩ := List.mem_map.mp hmem
  have hnonneg := Int.emod_nonneg ((i : ℤ) + s.nextTid)
    (by decide : (configMaxThreads : ℤ) ≠ 0)
  have hlt := Int.emod_lt_of_pos ((i : ℤ) + s.nextTid) (by decide : 0 < (configMaxThreads : ℤ))
  exact ⟨by omega, hlt, hprop.2⟩

lemma threadCreate (h : Represents s q) (htid : findFreeTid s = some t) (hoff : ¬ q.OnList t) :
    Represents (Kernel.threadCreate s).1 (q.create t) := by
  have hfield : ∀ u, (Kernel.threadCreate s).1.threadTable u =
      if u = t then { state := .nonready } else s.threadTable u := by
    intro u
    simp only [Kernel.threadCreate, htid]
    exact s.threadTable_modifyThread t u _
  have hnext : ∀ u, u ≠ t → (Kernel.threadCreate s).1.next u = s.next u := by
    intro u hu
    rw [State.next, hfield, if_neg hu, State.next]
  have hrest : (Kernel.threadCreate s).1.currentThread = s.currentThread ∧
      (Kernel.threadCreate s).1.readyHead = s.readyHead ∧
      (Kernel.threadCreate s).1.readyTail = s.readyTail ∧
      (Kernel.threadCreate s).1.sleepqHashtable = s.sleepqHashtable := by
    simp only [Kernel.threadCreate, htid]
    exact ⟨rfl, rfl, rfl, rfl⟩
  obtain ⟨hcurrent, hhead, htail, hhash⟩ := hrest
  refine ⟨?_, ?_, ?_, ?_, fun c => ?_, ?_, ?_, fun k => ?_, h.tid, h.ready_chain, h.chain_chain⟩
  · intro u; rw [hfield]; simp only [Threads.create, Function.update_apply, ← h.state]; split <;> rfl
  · intro u; rw [hfield]; simp only [Threads.create, Function.update_apply, ← h.sleepsOn]; split <;> rfl
  · intro u; rw [hfield]; simp only [Threads.create, Function.update_apply, ← h.pagetable]; split <;> rfl
  · intro u; rw [hfield]; simp only [Threads.create, Function.update_apply, ← h.processId]; split <;> rfl
  · rw [hcurrent]; exact h.current c
  · rw [hhead]
    refine h.ready.congr fun u hu => hnext u ?_
    rintro rfl; exact hoff (Or.inl hu)
  · rw [htail]; exact h.readyTail
  · rw [hhash]
    refine (h.chain k).congr fun u hu => hnext u ?_
    rintro rfl; exact hoff (Or.inr ⟨k, hu⟩)

lemma threadFinish (h : Represents s q) (cpu : Fin configMaxCpus)
    (hpt : q.pagetable (q.current cpu) = 0) :
    ∃ s', Kernel.threadFinish s cpu = some s' ∧ Represents s' (q.finish cpu) := by
  refine ⟨s.setState (s.currentThread cpu) .dying, ?_, ?_⟩
  · rw [← h.current, ← h.pagetable] at hpt
    simp [Kernel.threadFinish, hpt]
  · rw [h.current]
    exact h.setState _ _

/-! ### The sleep queue -/

/-- Duplicate-free lists of threads are shorter than the thread table. -/
lemma length_lt {l : List ℤ} (hnodup : l.Nodup)
    (htid : ∀ u ∈ l, 0 < u ∧ u < (configMaxThreads : ℤ)) : l.length < configMaxThreads := by
  have hsub : l.toFinset ⊆ Finset.Ioo 0 (configMaxThreads : ℤ) := by
    intro u hu
    exact Finset.mem_Ioo.mpr (htid u (List.mem_toFinset.mp hu))
  have hcard := Finset.card_le_card hsub
  rw [List.toFinset_card_of_nodup hnodup, Int.card_Ioo] at hcard
  simp only [configMaxThreads] at hcard ⊢
  omega

lemma chain_length_lt (h : Represents s q) (k : Fin sleepqHashtableSize) :
    (q.chain k).length < configMaxThreads :=
  length_lt (h.chain k).nodup fun u hu => h.tid u (Or.inr ⟨k, hu⟩)

/-- The loop of `sleepq_add` stops at the last thread of the chain. -/
lemma loop_chainEndStep {a p : ℤ} {l : List ℤ} (hl : Linked s.next (· ≤ 0) a (l ++ [p]))
    {fuel : ℕ} (hfuel : l.length < fuel) : loop (chainEndStep s) fuel a = some p := by
  induction l generalizing a fuel with
  | nil =>
    obtain ⟨rfl, -, hend⟩ := hl
    obtain ⟨fuel, rfl⟩ : ∃ n, fuel = n + 1 := ⟨fuel - 1, by simp at hfuel; omega⟩
    refine loop_inr ?_ fuel
    exact if_neg (not_lt.mpr hend)
  | cons x l ih =>
    obtain ⟨rfl, -, hrest⟩ := hl
    obtain ⟨fuel, rfl⟩ : ∃ n, fuel = n + 1 := ⟨fuel - 1, by simp at hfuel; omega⟩
    have hpos : 0 < s.next a := by
      cases l with
      | nil => rw [hrest.1]; exact not_le.mp hrest.2.1
      | cons y l => rw [hrest.1]; exact not_le.mp hrest.2.1
    have hstep : chainEndStep s a = .inl (s.next a) := if_pos hpos
    rw [loop_inl hstep]
    exact ih hrest (by simpa using hfuel)

/-- A thread on no list is put at the end of a chain. -/
lemma setChain_snoc {h : Fin sleepqHashtableSize} {s' : State} (hrep : Represents s q)
    (htid : 0 < t ∧ t < configMaxThreads) (hoff : ¬ q.OnList t)
    (hfields : ∀ u, (s'.threadTable u).state = (s.threadTable u).state ∧
      (s'.threadTable u).sleepsOn = (s.threadTable u).sleepsOn ∧
      (s'.threadTable u).pagetable = (s.threadTable u).pagetable ∧
      (s'.threadTable u).processId = (s.threadTable u).processId)
    (hcurrent : s'.currentThread = s.currentThread) (hhead : s'.readyHead = s.readyHead)
    (htail : s'.readyTail = s.readyTail)
    (hnext : ∀ u, u ∉ q.chain h → u ≠ t → s'.next u = s.next u)
    (hhash : ∀ k, k ≠ h → s'.sleepqHashtable k = s.sleepqHashtable k)
    (hlinked : Linked s'.next (· ≤ 0) (s'.sleepqHashtable h) (q.chain h ++ [t])) :
    Represents s' (q.setChain h (q.chain h ++ [t])) := by
  have hmem : ∀ u k, u ∈ (q.setChain h (q.chain h ++ [t])).chain k →
      u ∈ q.chain k ∨ (k = h ∧ u = t) := by
    intro u k hu
    by_cases hk : k = h
    · subst hk
      simp only [Threads.setChain, Function.update_self, List.mem_append,
        List.mem_singleton] at hu
      exact hu.imp id fun hut => ⟨rfl, hut⟩
    · simp only [Threads.setChain, Function.update_of_ne hk] at hu
      exact Or.inl hu
  refine ⟨fun u => ?_, fun u => ?_, fun u => ?_, fun u => ?_, fun c => ?_, ?_, ?_, fun k => ?_,
    ?_, ?_, ?_⟩
  · rw [(hfields u).1]; exact hrep.state u
  · rw [(hfields u).2.1]; exact hrep.sleepsOn u
  · rw [(hfields u).2.2.1]; exact hrep.pagetable u
  · rw [(hfields u).2.2.2]; exact hrep.processId u
  · rw [hcurrent]; exact hrep.current c
  · rw [hhead]
    refine hrep.ready.congr fun u hu => hnext u (hrep.ready_chain u h hu) ?_
    rintro rfl; exact hoff (Or.inl hu)
  · rw [htail]; exact hrep.readyTail
  · by_cases hk : k = h
    · subst hk
      simpa only [Threads.setChain, Function.update_self] using hlinked
    · simp only [Threads.setChain, Function.update_of_ne hk]
      rw [hhash k hk]
      refine (hrep.chain k).congr fun u hu => hnext u ?_ ?_
      · exact fun hu' => hk (hrep.chain_chain u k h hu hu')
      · rintro rfl; exact hoff (Or.inr ⟨k, hu⟩)
  · rintro u (hu | ⟨k, hu⟩)
    · exact hrep.tid u (Or.inl hu)
    · rcases hmem u k hu with hu | ⟨-, rfl⟩
      · exact hrep.tid u (Or.inr ⟨k, hu⟩)
      · exact htid
  · intro u k hu hu'
    rcases hmem u k hu' with hu' | ⟨-, rfl⟩
    · exact hrep.ready_chain u k hu hu'
    · exact hoff (Or.inl hu)
  · intro u k k' hu hu'
    rcases hmem u k hu with hk | ⟨hk, hut⟩ <;> rcases hmem u k' hu' with hk' | ⟨hk', hut'⟩
    · exact hrep.chain_chain u k k' hk hk'
    · exact absurd (Or.inr ⟨k, hut' ▸ hk⟩) hoff
    · exact absurd (Or.inr ⟨k', hut ▸ hk'⟩) hoff
    · exact hk.trans hk'.symm

lemma sleepqAdd (h : Represents s q) {cpu : Fin configMaxCpus} (hcur : q.current cpu = t)
    (htid : 0 < t ∧ t < configMaxThreads) (hoff : ¬ q.OnList t) (r : UInt32) :
    ∃ s', Kernel.sleepqAdd s cpu r = some s' ∧ Represents s' (q.sleep t r) := by
  have hidle : t ≠ idleThreadTid := by simp only [idleThreadTid]; omega
  have hself : s.currentThread cpu = t := (h.current cpu).trans hcur
  have h₁ : Represents ((s.setNext t (-1)).setSleepsOn t r) (q.setSleepsOn t r) :=
    (h.setNext hoff (-1)).setSleepsOn t r
  rw [Kernel.sleepqAdd]
  simp only [hself, if_neg hidle]
  generalize hs₁ : (s.setNext t (-1)).setSleepsOn t r = s₁ at h₁ ⊢
  have hnextt : s₁.next t = -1 := by rw [← hs₁]; simp
  rcases List.eq_nil_or_concat (q.chain (sleepqHash r)) with hempty | ⟨l, p, hlast⟩
  · have hle : s₁.sleepqHashtable (sleepqHash r) ≤ 0 := by
      have hlinked := h₁.chain (sleepqHash r)
      simp only [Threads.setSleepsOn, hempty] at hlinked
      exact hlinked
    rw [if_pos hle]
    refine ⟨_, rfl, h₁.setChain_snoc htid hoff (fun _ => ⟨rfl, rfl, rfl, rfl⟩) rfl rfl rfl
      (fun _ _ _ => rfl) (fun k hk => by simp [hk]) ?_⟩
    simp only [Threads.setSleepsOn, hempty, List.nil_append, Function.update_self]
    refine ⟨rfl, by omega, ?_⟩
    change s₁.next t ≤ 0
    omega
  · rw [List.concat_eq_append] at hlast
    have hlinked := h₁.chain (sleepqHash r)
    simp only [Threads.setSleepsOn, hlast] at hlinked
    have hpos : ¬ s₁.sleepqHashtable (sleepqHash r) ≤ 0 := by
      cases l with
      | nil => rw [hlinked.1]; exact hlinked.2.1
      | cons x l => rw [hlinked.1]; exact hlinked.2.1
    have hlen := h.chain_length_lt (sleepqHash r)
    rw [hlast, List.length_append] at hlen
    rw [if_neg hpos, loop_chainEndStep hlinked (by omega)]
    have hmem : p ∈ q.chain (sleepqHash r) := by rw [hlast]; simp
    have hpt : t ≠ p := by
      rintro rfl; exact hoff (Or.inr ⟨_, hmem⟩)
    refine ⟨_, rfl, h₁.setChain_snoc htid hoff (fun u => by simp) rfl rfl rfl
      (fun u hu _ => ?_) (fun _ _ => rfl) ?_⟩
    · rw [State.setNext_next, if_neg]
      rintro rfl; exact hu hmem
    · simp only [Threads.setSleepsOn, hlast]
      refine hlinked.snoc (fun u hu => ?_) (by simp) (by omega) ?_
      · rw [State.setNext_next, if_neg]
        rintro rfl
        exact (List.nodup_append.mp hlinked.nodup).2.2 u hu u (by simp) rfl
      · rw [State.setNext_next, if_neg hpt]; omega

/-- The search passes over threads that sleep on other resources. -/
lemma findSleeper_loop_append {r : UInt32} {l₁ l₂ : List ℤ} {first : ℤ} (prev : ℤ)
    (hl : Linked s.next (· ≤ 0) first (l₁ ++ l₂))
    (hne : ∀ u ∈ l₁, (s.threadTable u).sleepsOn ≠ r) (fuel : ℕ) :
    ∃ first', Linked s.next (· ≤ 0) first' l₂ ∧
      loop (findSleeperStep s r) (l₁.length + fuel) (prev, first) =
        loop (findSleeperStep s r) fuel (l₁.getLast?.getD prev, first') := by
  induction l₁ generalizing first prev with
  | nil => exact ⟨first, hl, by simp⟩
  | cons x l₁ ih =>
    obtain ⟨rfl, hpos, hrest⟩ := hl
    have hstep : findSleeperStep s r (prev, first) = .inl (first, s.next first) :=
      if_pos ⟨not_le.mp hpos, hne first List.mem_cons_self⟩
    obtain ⟨first', hlinked, hloop⟩ :=
      ih first hrest fun u hu => hne u (List.mem_cons_of_mem _ hu)
    refine ⟨first', hlinked, ?_⟩
    rw [List.length_cons, Nat.add_right_comm, loop_inl hstep, hloop]
    cases l₁ with
    | nil => rfl
    | cons y l₁ => simp [List.getLast?_eq_some_getLast]

lemma findSleeper_none {r : UInt32} {l : List ℤ} {first : ℤ} (prev : ℤ)
    (hl : Linked s.next (· ≤ 0) first l) (hne : ∀ u ∈ l, (s.threadTable u).sleepsOn ≠ r)
    (hlen : l.length < configMaxThreads) :
    ∃ first' ≤ 0, findSleeper s r prev first = some (l.getLast?.getD prev, first') := by
  obtain ⟨fuel, hfuel⟩ : ∃ n, configMaxThreads = l.length + (n + 1) :=
    ⟨configMaxThreads - l.length - 1, by omega⟩
  rw [← List.append_nil l] at hl
  obtain ⟨first', hend, hloop⟩ := findSleeper_loop_append prev hl hne (fuel + 1)
  refine ⟨first', hend, ?_⟩
  rw [findSleeper, hfuel, hloop]
  have hstop : findSleeperStep s r (l.getLast?.getD prev, first') =
      .inr (l.getLast?.getD prev, first') := if_neg fun hpos => absurd hend (not_le.mpr hpos.1)
  exact loop_inr hstop fuel

lemma findSleeper_some {r : UInt32} {l₁ l₂ : List ℤ} {first : ℤ} (prev : ℤ)
    (hl : Linked s.next (· ≤ 0) first (l₁ ++ t :: l₂))
    (hne : ∀ u ∈ l₁, (s.threadTable u).sleepsOn ≠ r) (ht : (s.threadTable t).sleepsOn = r)
    (hlen : l₁.length < configMaxThreads) :
    findSleeper s r prev first = some (l₁.getLast?.getD prev, t) := by
  obtain ⟨fuel, hfuel⟩ : ∃ n, configMaxThreads = l₁.length + (n + 1) :=
    ⟨configMaxThreads - l₁.length - 1, by omega⟩
  obtain ⟨first', hfound, hloop⟩ := findSleeper_loop_append prev hl hne (fuel + 1)
  obtain ⟨rfl, -, -⟩ := hfound
  rw [findSleeper, hfuel, hloop]
  have hstop : findSleeperStep s r (l₁.getLast?.getD prev, first') =
      .inr (l₁.getLast?.getD prev, first') := if_neg fun hother => hother.2 ht
  exact loop_inr hstop fuel

/-- A thread is taken out of its chain. -/
lemma sleepqUnlink {h : Fin sleepqHashtableSize} {l₁ l₂ : List ℤ} (hrep : Represents s q)
    (hchain : q.chain h = l₁ ++ t :: l₂) :
    Represents (Kernel.sleepqUnlink s h (l₁.getLast?.getD (-1)) t) (q.setChain h (l₁ ++ l₂)) := by
  have hsub : ∀ u k, u ∈ (q.setChain h (l₁ ++ l₂)).chain k → u ∈ q.chain k := by
    intro u k hu
    by_cases hk : k = h
    · subst hk
      rw [hchain]
      simp only [Threads.setChain, Function.update_self, List.mem_append] at hu
      simp only [List.mem_append, List.mem_cons]
      tauto
    · simpa only [Threads.setChain, Function.update_of_ne hk] using hu
  have htid : ∀ u, (q.setChain h (l₁ ++ l₂)).OnList u → 0 < u ∧ u < configMaxThreads := by
    rintro u (hu | ⟨k, hu⟩)
    · exact hrep.tid u (Or.inl hu)
    · exact hrep.tid u (Or.inr ⟨k, hsub u k hu⟩)
  have hdisj : ∀ u k, u ∈ q.ready → u ∉ (q.setChain h (l₁ ++ l₂)).chain k :=
    fun u k hu hu' => hrep.ready_chain u k hu (hsub u k hu')
  have hinj : ∀ u k k', u ∈ (q.setChain h (l₁ ++ l₂)).chain k →
      u ∈ (q.setChain h (l₁ ++ l₂)).chain k' → k = k' :=
    fun u k k' hu hu' => hrep.chain_chain u k k' (hsub u k hu) (hsub u k' hu')
  have hlinked := hchain ▸ hrep.chain h
  rcases List.eq_nil_or_concat l₁ with hnil | ⟨l, p, hlast⟩
  · -- the first thread of the chain: the slot is changed
    subst hnil
    have hsucc : Linked s.next (· ≤ 0) (s.next t) l₂ := hlinked.2.2
    refine { hrep with chain := fun k => ?_, tid := htid, ready_chain := hdisj, chain_chain := hinj }
    change Linked s.next (· ≤ 0) (Function.update s.sleepqHashtable h (s.next t) k) _
    by_cases hk : k = h
    · subst hk
      simpa only [Threads.setChain, Function.update_self, List.nil_append] using hsucc
    · simp only [Threads.setChain, Function.update_of_ne hk]
      exact hrep.chain k
  · -- otherwise the successor of the thread before it
    rw [List.concat_eq_append] at hlast
    subst hlast
    have hmem : p ∈ q.chain h := by rw [hchain]; simp
    have hp := (hrep.tid p (Or.inr ⟨h, hmem⟩)).1
    have hprev : (l ++ [p]).getLast?.getD (-1) = p := by simp
    rw [hprev, Kernel.sleepqUnlink, if_neg (by omega)]
    have hoff : ∀ u, u ≠ p → (s.setNext p (s.next t)).next u = s.next u :=
      fun u hu => by rw [State.setNext_next, if_neg hu]
    refine ⟨fun u => ?_, fun u => ?_, fun u => ?_, fun u => ?_, hrep.current, ?_,
      hrep.readyTail, fun k => ?_, htid, hdisj, hinj⟩
    · rw [State.setNext_state]; exact hrep.state u
    · rw [State.setNext_sleepsOn]; exact hrep.sleepsOn u
    · rw [State.setNext_pagetable]; exact hrep.pagetable u
    · rw [State.setNext_processId]; exact hrep.processId u
    · refine hrep.ready.congr fun u hu => hoff u ?_
      rintro rfl; exact hrep.ready_chain u h hu hmem
    · by_cases hk : k = h
      · subst hk
        have hnodup := hlinked.nodup
        rw [List.append_assoc] at hlinked hnodup
        simp only [Threads.setChain, Function.update_self, List.append_assoc]
        refine hlinked.unlink (fun u hu => hoff u ?_)
          ((State.setNext_next s p p _).trans (if_pos rfl))
        rintro rfl
        simp only [List.mem_append] at hu
        simp only [List.singleton_append, List.nodup_append, List.nodup_cons, List.mem_cons,
          not_or] at hnodup
        rcases hu with hu | hu
        · exact hnodup.2.2 u hu u (Or.inl rfl) rfl
        · exact hnodup.2.1.1.2 hu
      · simp only [Threads.setChain, Function.update_of_ne hk]
        refine (hrep.chain k).congr fun u hu => hoff u ?_
        rintro rfl; exact hk (hrep.chain_chain u k h hu hmem)

lemma sleepqRelease (h : Represents s q) (htid : 0 < t ∧ t < configMaxThreads)
    (hoff : ¬ q.OnList t) :
    ∃ s', Kernel.sleepqRelease s t = some s' ∧ Represents s' (q.awaken t) := by
  have h₁ : Represents ((s.setSleepsOn t 0).setNext t (-1)) (q.setSleepsOn t 0) :=
    (h.setSleepsOn t 0).setNext hoff (-1)
  rw [Kernel.sleepqRelease, Threads.awaken]
  have hst : (((s.setSleepsOn t 0).setNext t (-1)).threadTable t).state = q.state t := h₁.state t
  by_cases hsleeping : q.state t = .sleeping
  · simp only [hst, if_pos hsleeping]
    exact (h₁.setState t .ready).schedulerAddToReadyList htid hoff
  · simp only [hst, if_neg hsleeping]
    exact ⟨_, rfl, h₁⟩

/-- Unlinking and releasing a thread together carry out `Threads.release`. -/
lemma sleepqRelease_unlink {r : UInt32} {l₁ l₂ : List ℤ} (h : Represents s q)
    (ht : q.sleepsOn t = r) (hchain : q.chain (sleepqHash r) = l₁ ++ t :: l₂) :
    ∃ s', Kernel.sleepqRelease
        (Kernel.sleepqUnlink s (sleepqHash r) (l₁.getLast?.getD (-1)) t) t = some s' ∧
      Represents s' (q.release t) := by
  have hmem : t ∈ q.chain (sleepqHash r) := by rw [hchain]; simp
  have hnodup := hchain ▸ (h.chain (sleepqHash r)).nodup
  rw [List.nodup_append, List.nodup_cons] at hnodup
  obtain ⟨-, ⟨hl₂, -⟩, hl₁⟩ := hnodup
  have htl₁ : t ∉ l₁ := fun hmem₁ => hl₁ t hmem₁ t List.mem_cons_self rfl
  have herase : (q.chain (sleepqHash r)).erase t = l₁ ++ l₂ := by
    rw [hchain, List.erase_append_right _ htl₁, List.erase_cons_head]
  have hoff : ¬ (q.setChain (sleepqHash r) (l₁ ++ l₂)).OnList t := by
    rintro (hready | ⟨k, hk⟩)
    · exact h.ready_chain t _ hready hmem
    · by_cases hkr : k = sleepqHash r
      · subst hkr
        simp only [Threads.setChain, Function.update_self, List.mem_append] at hk
        exact hk.elim htl₁ hl₂
      · simp only [Threads.setChain, Function.update_of_ne hkr] at hk
        exact hkr (h.chain_chain t k _ hk hmem)
  have hres := (h.sleepqUnlink hchain).sleepqRelease (h.tid t (Or.inr ⟨_, hmem⟩)) hoff
  rw [Threads.release, ht]
  simpa only [herase] using hres

/-- Nothing changes if nobody sleeps on the resource. -/
lemma sleepqWake_of_nil {r : UInt32} (h : Represents s q) (hw : q.waiters r = []) :
    Kernel.sleepqWake s r = some s := by
  have hne : ∀ u ∈ q.chain (sleepqHash r), (s.threadTable u).sleepsOn ≠ r := by
    intro u hu
    have hnone := List.filter_eq_nil_iff.mp hw u hu
    rw [h.sleepsOn]
    simpa using hnone
  obtain ⟨first, hfirst, hfind⟩ :=
    findSleeper_none (-1) (h.chain (sleepqHash r)) hne (h.chain_length_lt _)
  rw [Kernel.sleepqWake]
  simp only [Option.bind_eq_bind, hfind, Option.bind_some, if_neg (not_lt.mpr hfirst)]
  rfl

lemma sleepqWake (h : Represents s q) (r : UInt32) :
    ∃ s', Kernel.sleepqWake s r = some s' ∧ Represents s' (q.wake r) := by
  have hlen := h.chain_length_lt (sleepqHash r)
  have hlinked := h.chain (sleepqHash r)
  rw [Threads.wake]
  cases hw : q.waiters r with
  | nil => exact ⟨s, h.sleepqWake_of_nil hw, h⟩
  | cons t ts =>
    rw [Kernel.sleepqWake]
    obtain ⟨l₁, l₂, hchain, hne, ht, -⟩ := List.filter_eq_cons_iff.mp hw
    simp only [decide_eq_true_eq] at hne ht
    have hpos : 0 < t := (h.tid t (Or.inr ⟨sleepqHash r, by rw [hchain]; simp⟩)).1
    rw [hchain] at hlinked hlen
    rw [List.length_append] at hlen
    have hfind := findSleeper_some (-1) hlinked (fun u hu => h.sleepsOn u ▸ hne u hu)
      ((h.sleepsOn t).trans ht) (by omega)
    simp only [Option.bind_eq_bind, hfind, Option.bind_some, if_pos hpos]
    exact h.sleepqRelease_unlink ht hchain

/-- The loop invariant of `sleepq_wake_all`: the threads before `first` sleep on other
resources, and waking the remaining ones gives the final result. -/
def WakeAllInv (q : Threads) (r : UInt32) (j : ℕ) : State × ℤ × ℤ → Prop
  | (s, prev, first) => ∃ q' done rest, Represents s q' ∧
    q'.chain (sleepqHash r) = done ++ rest ∧ (∀ u ∈ done, q'.sleepsOn u ≠ r) ∧
    prev = done.getLast?.getD (-1) ∧ Linked s.next (· ≤ 0) first rest ∧
    (rest.filter fun u => q'.sleepsOn u = r).foldl Threads.release q' = q.wakeAll r ∧
    j = rest.length

lemma wakeAllStep_spec {r : UInt32} {j : ℕ} {x : State × ℤ × ℤ} (hinv : WakeAllInv q r j x) :
    RoundOk (WakeAllInv q r) (fun res => ∃ s', res = some s' ∧ Represents s' (q.wakeAll r)) j
      (wakeAllStep r x) := by
  obtain ⟨s, prev, first⟩ := x
  obtain ⟨q', done, rest, hrep, hchain, hdone, rfl, hlinked, hfold, rfl⟩ := hinv
  have hlen := hrep.chain_length_lt (sleepqHash r)
  rw [hchain, List.length_append] at hlen
  have hlast : ∀ l : List ℤ, l.getLast?.getD (done.getLast?.getD (-1)) =
      (done ++ l).getLast?.getD (-1) := by
    intro l
    rcases List.eq_nil_or_concat l with rfl | ⟨l, p, rfl⟩
    · simp
    · simp
  rw [wakeAllStep]
  by_cases hpos : first > 0
  case neg =>
    -- the end of the chain
    have hrest : rest = [] := by
      cases rest with
      | nil => rfl
      | cons y rest => exact absurd (hlinked.1 ▸ not_lt.mp hpos) hlinked.2.1
    subst hrest
    simp only [if_neg hpos]
    exact ⟨s, rfl, hfold ▸ hrep⟩
  simp only [if_pos hpos]
  have hne0 : rest ≠ [] := by
    rintro rfl
    exact absurd hpos (not_lt.mpr hlinked)
  have hrestlen : 0 < rest.length := List.length_pos_iff.mpr hne0
  cases hw : rest.filter (fun u => q'.sleepsOn u = r) with
  | nil =>
    have hne : ∀ u ∈ rest, q'.sleepsOn u ≠ r := by
      intro u hu
      simpa using List.filter_eq_nil_iff.mp hw u hu
    obtain ⟨first', hfirst', hfind⟩ := findSleeper_none (done.getLast?.getD (-1))
      hlinked (fun u hu => hrep.sleepsOn u ▸ hne u hu) (by omega)
    simp only [hfind, if_neg (not_lt.mpr hfirst')]
    refine ⟨0, hrestlen, q', done ++ rest, [], hrep, by rw [hchain, List.append_nil], ?_,
      hlast rest, hfirst', ?_, rfl⟩
    · intro u hu
      exact (List.mem_append.mp hu).elim (hdone u) (hne u)
    · rw [← hfold, hw]; rfl
  | cons t ts =>
    obtain ⟨l₁, l₂, rfl, hne, ht, hts⟩ := List.filter_eq_cons_iff.mp hw
    simp only [decide_eq_true_eq] at hne ht
    rw [← List.append_assoc] at hchain
    have hmem : t ∈ q'.chain (sleepqHash r) := by rw [hchain]; simp
    have htpos : 0 < t := (hrep.tid t (Or.inr ⟨_, hmem⟩)).1
    rw [List.length_append] at hlen
    have hfind := findSleeper_some (done.getLast?.getD (-1)) hlinked
      (fun u hu => hrep.sleepsOn u ▸ hne u hu) ((hrep.sleepsOn t).trans ht) (by omega)
    obtain ⟨s', hs', hrep'⟩ := hrep.sleepqRelease_unlink ht hchain
    simp only [hfind, if_pos htpos, hlast, hs']
    have hnodup := hchain ▸ (hrep.chain (sleepqHash r)).nodup
    rw [List.nodup_append, List.nodup_cons] at hnodup
    obtain ⟨-, ⟨hl₂, -⟩, hl₁⟩ := hnodup
    have htnot : t ∉ done ++ l₁ := fun hmem => hl₁ t hmem t List.mem_cons_self rfl
    have hchain' : (q'.release t).chain (sleepqHash r) = done ++ l₁ ++ l₂ := by
      rw [Threads.release_chain, ht, Function.update_self, hchain,
        List.erase_append_right _ htnot, List.erase_cons_head]
    have hsleeps : ∀ u, u ≠ t → (q'.release t).sleepsOn u = q'.sleepsOn u := by
      intro u hu
      rw [Threads.release_sleepsOn, Function.update_of_ne hu]
    refine ⟨l₂.length, ?_, q'.release t, done ++ l₁, l₂, hrep', hchain', ?_, rfl, ?_, ?_, rfl⟩
    · simp only [List.length_append, List.length_cons]; omega
    · intro u hu
      rw [hsleeps u (fun hut => htnot (hut ▸ hu))]
      exact (List.mem_append.mp hu).elim (hdone u) (hne u)
    · exact Linked.transfer hlinked.suffix.2.2 (hchain' ▸ hrep'.chain (sleepqHash r))
    · rw [← hfold, hw, List.foldl_cons, ← hts]
      congr 1
      refine List.filter_congr fun u hu => ?_
      rw [hsleeps u (fun hut => hl₂ (hut ▸ hu))]

lemma sleepqWakeAll (h : Represents s q) (r : UInt32) :
    ∃ s', Kernel.sleepqWakeAll s r = some s' ∧ Represents s' (q.wakeAll r) := by
  have hinit : WakeAllInv q r (q.chain (sleepqHash r)).length
      (s, -1, s.sleepqHashtable (sleepqHash r)) :=
    ⟨q, [], _, h, rfl, by simp, rfl, h.chain _, rfl, rfl⟩
  obtain ⟨res, hloop, s', rfl, hrep⟩ := loop_spec (WakeAllInv q r)
    (fun res => ∃ s', res = some s' ∧ Represents s' (q.wakeAll r))
    (fun _ _ hinv => wakeAllStep_spec hinv) configMaxThreads _ _ hinit (h.chain_length_lt _)
  refine ⟨s', ?_, hrep⟩
  rw [Kernel.sleepqWakeAll, hloop, Option.join_some]

end Represents

end Osm.Kernel
