import Osm.Net.Pop

/-!
# Eviction from the POP queue

When no slot of the queue is empty, `pop_push_frame` replaces the frame with the smallest timestamp.
This is the oldest frame as long as the clock has not wrapped around between two of the frames, and
a younger one otherwise.
-/

namespace Osm.Net

/-- What `pop_push_frame` leaves behind: the queue, the frame that it has freed, and whether it has
accepted the new frame. -/
structure Pushed where
  queue    : PopQueue
  freed    : Option ℕ
  accepted : Bool

/-- `pop_push_frame`, when the clock is `now` at the choice of the slot and `later` at the end. -/
def popPushFrame (queue : PopQueue) (fromaddr : UInt32) (frame : ℕ) (now later : UInt32) : Pushed :=
  match queue.pushSlot now with
  | none      => ⟨queue, none, false⟩
  | some slot =>
    ⟨Function.update queue slot ⟨some frame, none, later, fromaddr, false⟩, (queue slot).frame, true⟩

/-- The age of the frame in a slot. -/
def PopQueue.age (queue : PopQueue) (now : UInt32) (i : ℕ) : UInt32 := now - (queue i).timestamp

/-- The slot may be chosen for a new frame. -/
def PopQueue.Idle (queue : PopQueue) (i : ℕ) : Prop :=
  i < configPopQueueSize ∧ (queue i).busy = false

/-- A new frame is accepted if and only if some frame is old enough, and it takes the place of the
oldest one. -/
structure EvictsOldest (queue : PopQueue) (fromaddr : UInt32) (frame : ℕ) (now later : UInt32) :
    Prop where
  accepts : (popPushFrame queue fromaddr frame now later).accepted = true ↔
    ∃ i, queue.Idle i ∧ configPopQueueMinAge ≤ queue.age now i
  evicts  : (popPushFrame queue fromaddr frame now later).accepted = true →
    ∃ slot, queue.pushSlot now = some slot ∧ queue.Idle slot ∧
      (∀ i, queue.Idle i → queue.age now i ≤ queue.age now slot) ∧
      (popPushFrame queue fromaddr frame now later).freed = (queue slot).frame ∧
      (popPushFrame queue fromaddr frame now later).queue =
        Function.update queue slot ⟨some frame, none, later, fromaddr, false⟩

/-- The clock has not wrapped around between the times of two frames, or no frame is old enough. -/
def AgesOrdered (queue : PopQueue) (now : UInt32) : Prop :=
  (∀ i j, queue.Idle i → queue.Idle j → (queue i).timestamp ≤ now → (queue j).timestamp ≤ now) ∨
    ∀ i, queue.Idle i → queue.age now i < configPopQueueMinAge

variable {header : ℕ → PopHeader} {queue : PopQueue} {fromaddr now later : UInt32}
  {frame slot i j : ℕ}

/-! ### The search for the oldest frame -/

/-- The candidates that have been looked at are not before the one that is kept. -/
lemma foldl_olderSlot_le {l : List ℕ} {oldest : Option ℕ}
    (h : l.foldl queue.olderSlot oldest = some slot) :
    (∀ k, oldest = some k → (queue slot).timestamp ≤ (queue k).timestamp) ∧
      ∀ i ∈ l, (queue i).busy = false → (queue slot).timestamp ≤ (queue i).timestamp := by
  induction l generalizing oldest with
  | nil =>
    refine ⟨fun k hk => ?_, List.forall_mem_nil _⟩
    cases hk.symm.trans h
    exact UInt32.le_refl _
  | cons i l ih =>
    obtain ⟨hkept, hrest⟩ := ih h
    rw [List.forall_mem_cons]
    by_cases hbusy : (queue i).busy = true
    · unfold PopQueue.olderSlot at hkept
      rw [if_pos hbusy] at hkept
      refine ⟨hkept, fun hidle => ?_, hrest⟩
      rw [hbusy] at hidle
      cases hidle
    · unfold PopQueue.olderSlot at hkept
      rw [if_neg hbusy] at hkept
      cases oldest with
      | none => exact ⟨nofun, fun _ => hkept i rfl, hrest⟩
      | some k =>
        dsimp only at hkept
        split_ifs at hkept with hlt
        · refine ⟨fun k' hk' => ?_, fun _ => hkept i rfl, hrest⟩
          cases hk'
          exact UInt32.le_trans (hkept i rfl) (UInt32.le_of_lt hlt)
        · refine ⟨fun k' hk' => ?_, fun _ => ?_, hrest⟩
          · cases hk'
            exact hkept k rfl
          · exact UInt32.le_trans (hkept k rfl) (UInt32.not_lt.mp hlt)

lemma foldl_olderSlot_eq_none {l : List ℕ} {oldest : Option ℕ}
    (h : l.foldl queue.olderSlot oldest = none) :
    oldest = none ∧ ∀ i ∈ l, (queue i).busy = true := by
  induction l generalizing oldest with
  | nil => exact ⟨h, List.forall_mem_nil _⟩
  | cons i l ih =>
    obtain ⟨hround, hrest⟩ := ih h
    unfold PopQueue.olderSlot at hround
    split_ifs at hround with hbusy
    · exact ⟨hround, List.forall_mem_cons.mpr ⟨hbusy, hrest⟩⟩
    · cases oldest with
      | none => cases hround
      | some k =>
        dsimp only at hround
        split_ifs at hround

/-- Without an empty slot `pop_push_frame` looks at the smallest timestamp. -/
lemma pushSlot_cases (hfull : ∀ i < configPopQueueSize, (queue i).frame ≠ none) :
    (queue.pushSlot now = none ∧ ∀ i, ¬ queue.Idle i) ∨
      ∃ slot, queue.Idle slot ∧
        (∀ i, queue.Idle i → (queue slot).timestamp ≤ (queue i).timestamp) ∧
        queue.pushSlot now =
          if queue.age now slot < configPopQueueMinAge then none else some slot := by
  have hfree : queue.freeSlot = none := by
    simpa [PopQueue.freeSlot, List.find?_eq_none] using hfull
  cases hold : queue.oldestSlot with
  | none =>
    refine .inl ⟨by rw [PopQueue.pushSlot, hfree, hold], fun i hidle => ?_⟩
    have hbusy := (foldl_olderSlot_eq_none hold).2 i (List.mem_range.mpr hidle.1)
    rw [hidle.2] at hbusy
    cases hbusy
  | some slot =>
    refine .inr ⟨slot, PopQueue.oldestSlot_eq_some hold, fun i hidle => ?_, ?_⟩
    · exact (foldl_olderSlot_le hold).2 i (List.mem_range.mpr hidle.1) hidle.2
    · rw [PopQueue.pushSlot, hfree, hold]
      rfl

/-! ### Ages and timestamps -/

/-- On the same side of the clock the smaller timestamp is the greater age. -/
lemma age_le_of_timestamp_le (hle : (queue slot).timestamp ≤ (queue i).timestamp)
    (hside : (queue slot).timestamp ≤ now → (queue i).timestamp ≤ now) :
    queue.age now i ≤ queue.age now slot := by
  rw [UInt32.le_iff_toNat_le] at hle hside ⊢
  rw [UInt32.le_iff_toNat_le] at hside
  rw [PopQueue.age, PopQueue.age, UInt32.toNat_sub, UInt32.toNat_sub]
  have hnow := now.toNat_lt
  have hi := (queue i).timestamp.toNat_lt
  omega

/-- A timestamp before the wrap of the clock is older than one behind it. -/
lemma age_lt_of_wrapped (hbehind : (queue slot).timestamp ≤ now)
    (hbefore : ¬ (queue i).timestamp ≤ now) : queue.age now slot < queue.age now i := by
  rw [UInt32.le_iff_toNat_le] at hbehind hbefore
  rw [UInt32.lt_iff_toNat_lt, PopQueue.age, PopQueue.age, UInt32.toNat_sub, UInt32.toNat_sub]
  have hi := (queue i).timestamp.toNat_lt
  omega

/-! ### The new frame -/

lemma popPushFrame_of_none (h : queue.pushSlot now = none) :
    popPushFrame queue fromaddr frame now later = ⟨queue, none, false⟩ := by
  rw [popPushFrame, h]

lemma popPushFrame_of_some (h : queue.pushSlot now = some slot) :
    popPushFrame queue fromaddr frame now later =
      ⟨Function.update queue slot ⟨some frame, none, later, fromaddr, false⟩, (queue slot).frame,
        true⟩ := by
  rw [popPushFrame, h]

/-- The smallest timestamp belongs to the oldest frame, unless the clock has wrapped around between
the times of two frames. -/
lemma age_le_iff (hidle : queue.Idle slot)
    (hmin : ∀ i, queue.Idle i → (queue slot).timestamp ≤ (queue i).timestamp) :
    (∀ i, queue.Idle i → queue.age now i ≤ queue.age now slot) ↔
      ∀ i j, queue.Idle i → queue.Idle j → (queue i).timestamp ≤ now →
        (queue j).timestamp ≤ now := by
  constructor
  · intro hmax i j hi hj hbehind
    by_contra hbefore
    have hslot : (queue slot).timestamp ≤ now := UInt32.le_trans (hmin i hi) hbehind
    exact absurd (hmax j hj) (UInt32.not_le.mpr (age_lt_of_wrapped hslot hbefore))
  · exact fun hsides i hi => age_le_of_timestamp_le (hmin i hi) (hsides slot i hidle hi)

/-- A full queue evicts its oldest frame if and only if the clock has not wrapped around between the
times of two frames, or no frame is old enough. -/
theorem evictsOldest_iff (hfull : ∀ i < configPopQueueSize, (queue i).frame ≠ none) :
    EvictsOldest queue fromaddr frame now later ↔ AgesOrdered queue now := by
  rcases @pushSlot_cases queue now hfull with ⟨hnone, hbusy⟩ | ⟨slot, hidle, hmin, hslot⟩
  · refine iff_of_true ⟨?_, ?_⟩ (.inr fun i hi => absurd hi (hbusy i))
    · rw [popPushFrame_of_none hnone]
      exact iff_of_false nofun fun ⟨i, hi, _⟩ => hbusy i hi
    · rw [popPushFrame_of_none hnone]
      exact nofun
  · by_cases hyoung : queue.age now slot < configPopQueueMinAge
    · rw [if_pos hyoung] at hslot
      constructor
      · intro h
        refine .inr fun i hi => UInt32.not_le.mp fun hle => ?_
        have haccepts := h.accepts.mpr ⟨i, hi, hle⟩
        rw [popPushFrame_of_none hslot] at haccepts
        cases haccepts
      · intro hages
        have hnot : ∀ i, queue.Idle i → queue.age now i < configPopQueueMinAge := by
          rcases hages with hsides | hnot
          · exact fun i hi =>
              UInt32.lt_of_le_of_lt ((age_le_iff hidle hmin).mpr hsides i hi) hyoung
          · exact hnot
        constructor
        · rw [popPushFrame_of_none hslot]
          exact iff_of_false nofun fun ⟨i, hi, hle⟩ => absurd (hnot i hi) (UInt32.not_lt.mpr hle)
        · rw [popPushFrame_of_none hslot]
          exact nofun
    · rw [if_neg hyoung] at hslot
      have hresult := @popPushFrame_of_some queue fromaddr now later frame slot hslot
      constructor
      · intro h
        obtain ⟨slot', hslot', -, hmax, -⟩ := h.evicts (by rw [hresult])
        cases hslot.symm.trans hslot'
        exact .inl ((age_le_iff hidle hmin).mp hmax)
      · intro hages
        rcases hages with hsides | hnot
        · refine ⟨?_, fun _ => ⟨slot, hslot, hidle, (age_le_iff hidle hmin).mpr hsides, ?_, ?_⟩⟩
          · rw [hresult]
            exact iff_of_true rfl ⟨slot, hidle, UInt32.not_lt.mp hyoung⟩
          · rw [hresult]
          · rw [hresult]
        · exact absurd (hnot slot hidle) hyoung

/-- A queue whose frames have the given timestamps. -/
def fullQueue (timestamp : ℕ → UInt32) : PopQueue := fun i => ⟨some i, none, timestamp i, 0, false⟩

/-- All frames are equally old. -/
theorem evictsOldest_equal : EvictsOldest (fullQueue fun _ => 100) 5 40 1000 1000 :=
  (evictsOldest_iff (fun i _ => by simp [fullQueue])).mpr (.inl fun _ _ _ _ h => h)

/-- The clock has wrapped around after the frame of the first slot, and the second one is
replaced. -/
theorem evictsOldest_wrapped :
    (∀ i, (fullQueue fun i => if i = 0 then 0xffffff00 else 100).age 500 i < 2 ^ 31) ∧
      ¬ EvictsOldest (fullQueue fun i => if i = 0 then 0xffffff00 else 100) 5 40 500 500 := by
  refine ⟨fun i => ?_, fun h => ?_⟩
  · rw [PopQueue.age, fullQueue]
    dsimp only
    split_ifs <;> decide
  · obtain ⟨slot, hslot, -, hmax, -⟩ := h.evicts (by decide)
    have hone : (1 : ℕ) = slot := Option.some.inj ((by decide : _ = some 1).symm.trans hslot)
    subst hone
    exact absurd (hmax 0 ⟨by decide, rfl⟩) (by decide)

end Osm.Net
