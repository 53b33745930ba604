import Osm.Proc.UsrSem

/-!
# Handles and names of the user semaphores

User programs open, lower, raise and destroy user semaphores in any order and pass any values as
handles. As long as no creation of a kernel semaphore fails and no value hits a word between two
slots that looks like a slot in use, the slots in use are those of the handles that have been
returned and not destroyed since, each with a kernel semaphore of its own. If also the names fit
into their fields, the table is a map from names to handles.
-/

namespace Osm.Proc

open Osm.Core Osm.Lib Osm.Kernel

/-- The handles that `usr_sem_open` has returned for new semaphores and that have not been
destroyed since, each with the name it was opened under. -/
abbrev Live := UInt32 → Option (List UInt8)

/-- A slot in use: its handle is live, it has the name as far as it fits, and its kernel semaphore
is reserved. -/
structure Holds (L : UsrSemLayout) (s : UsrSemState) (live : Live) (i : ℕ) (name : List UInt8)
    (sem : Sem) : Prop where
  live    : live (L.handle i) = some name
  slot    : SlotIs L s.memory i usrSemUsed (name.take (maxUsrSemName - 1))
    (semaphoreAddress L.semaphoreTable sem)
  created : s.Created sem

/-- A call of `usr_sem_open` that comes to create a kernel semaphore finds a free one. -/
def Available (L : UsrSemLayout) (s : UsrSemState) (name : List UInt8) : Prop :=
  (findName L s.memory name).isSome ∨ findFree L s.memory = none ∨ ∃ sem, ¬ s.Created sem

/-- A value passed as a handle that lies in the table is the address of a slot, or that of an
aligned word which is not `USR_SEM_USED`. -/
def Harmless (L : UsrSemLayout) (s : UsrSemState) (p : UInt32) : Prop :=
  findSem L p = none ∨ (∃ i < maxUsrSem, p = L.handle i) ∨
    (p.toNat % 4 = 0 ∧ s.memory.readWord p.toNat ≠ usrSemUsed)

/-- One call, with `Ok` holding of the names of the semaphores to be created. Other kernel code,
in the last clause, does anything with semaphores but give back those of the live handles. -/
inductive UsrSemStep (L : UsrSemLayout) (Ok : UsrSemState → List UInt8 → Prop) :
    UsrSemState × Live → UsrSemState × Live → Prop
  | create {s s' : UsrSemState} {live : Live} {cpu : Fin configMaxCpus} {name : List UInt8}
      {value : ℤ} {p : UInt32} (hcaller : 0 ≤ s.kernel.currentThread cpu) (hname : 0 ∉ name)
      (hvalue : 0 ≤ value) (hok : Ok s name) (hsem : Available L s name)
      (hexec : usrSemOpen L s cpu name value = some (s', p)) :
      UsrSemStep L Ok (s, live)
        (s', if p = 0 then live else Function.update live p (some name))
  | find {s s' : UsrSemState} {live : Live} {cpu : Fin configMaxCpus} {name : List UInt8}
      {value : ℤ} {p : UInt32} (hname : 0 ∉ name) (hvalue : value < 0)
      (hexec : usrSemOpen L s cpu name value = some (s', p)) :
      UsrSemStep L Ok (s, live) (s', live)
  | p {s s' : UsrSemState} {live : Live} {cpu : Fin configMaxCpus} {p : UInt32} {ret : ℤ}
      (hp : Harmless L s p) (hexec : usrSemP L s cpu p = some (s', ret)) :
      UsrSemStep L Ok (s, live) (s', live)
  | v {s s' : UsrSemState} {live : Live} {p : UInt32} {ret : ℤ}
      (hp : Harmless L s p) (hexec : usrSemV L s p = some (s', ret)) :
      UsrSemStep L Ok (s, live) (s', live)
  | destroy {s s' : UsrSemState} {live : Live} {p : UInt32} {ret : ℤ}
      (hp : Harmless L s p) (hexec : usrSemDestroy L s p = some (s', ret)) :
      UsrSemStep L Ok (s, live) (s', if ret = 0 then live else Function.update live p none)
  | others {s : UsrSemState} {live : Live} {sems : SemState}
      (hkeep : ∀ i < maxUsrSem, ∀ name sem, Holds L s live i name sem → sems.Created sem) :
      UsrSemStep L Ok (s, live) ({ s with toSemState := sems }, live)

/-- The states after any sequence of calls. -/
def UsrSemRun (L : UsrSemLayout) (Ok : UsrSemState → List UInt8 → Prop) (s : UsrSemState)
    (live : Live) : Prop :=
  ∃ s₀, Relation.ReflTransGen (UsrSemStep L Ok) (usrSemInit L s₀, fun _ => none) (s, live)

/-- The slots in use are those of the live handles, each with a kernel semaphore of its own. -/
structure UsrSemInv (L : UsrSemLayout) (s : UsrSemState) (live : Live) : Prop where
  slot    : ∀ i < maxUsrSem,
    live (L.handle i) = none ∧ s.memory.readWord (L.slot i) = usrSemFree ∨
      ∃ name sem, Holds L s live i name sem
  handles : ∀ p name, live p = some name → ∃ i < maxUsrSem, p = L.handle i
  apart   : ∀ i < maxUsrSem, ∀ j < maxUsrSem, (live (L.handle i)).isSome →
    (live (L.handle j)).isSome →
    s.memory.readWord (L.slot i + 36) = s.memory.readWord (L.slot j + 36) → i = j

/-! ### The functions called -/

section

variable {L : UsrSemLayout} {s s' : UsrSemState} {live : Live} {i : ℕ} {name name' : List UInt8}
  {sem : Sem} {p : UInt32} {value : ℤ} {cpu : Fin configMaxCpus}

lemma exists_semaphoreCreate {m : SemState} (hfree : ∃ sem, ¬ m.Created sem) (hvalue : 0 ≤ value) :
    ∃ m' sem, semaphoreCreate m cpu value = some (m', some sem) := by
  obtain ⟨sem, hsem⟩ := hfree
  have hfree : (m.semaphoreTable sem).creator = -1 := not_not.mp hsem
  rw [semaphoreCreate, if_neg (Int.not_lt.mpr hvalue)]
  cases hfind : ((List.finRange configMaxSemaphores).map (m.next + ·)).find?
      fun sem => (m.semaphoreTable sem).creator = -1 with
  | none =>
    have hmem : sem ∈ (List.finRange configMaxSemaphores).map (m.next + ·) := by
      refine List.mem_map.mpr ⟨sem - m.next, List.mem_finRange _, Fin.ext ?_⟩
      have hnext := m.next.isLt
      have hlt := sem.isLt
      rw [Fin.val_add, Fin.sub_def]
      simp only [configMaxSemaphores] at hnext hlt ⊢
      omega
    exact absurd (decide_eq_true hfree) (List.find?_eq_none.mp hfind sem hmem)
  | some sem' => exact ⟨_, sem', rfl⟩

lemma findFree_some (h : findFree L s.memory = some i) :
    i < maxUsrSem ∧ s.memory.readWord (L.slot i) = usrSemFree := by
  have hfound := List.find?_some h
  exact ⟨List.mem_range.mp (List.mem_of_find?_eq_some h), of_decide_eq_true hfound⟩

namespace Holds

/-- A slot in use is found under its name, cut to the length of the field, and no other. -/
lemma found_iff (h : Holds L s live i name sem) (hname : 0 ∉ name') :
    (s.memory.readWord (L.slot i) = usrSemUsed ∧ stringcmp s.memory (L.slot i + 4) name' = 0) ↔
      name.take (maxUsrSemName - 1) = name' := by
  have hlt : (stringAt s.memory (L.slot i + 4) maxUsrSemName).length < maxUsrSemName := by
    rw [h.slot.name, List.length_take]
    exact Nat.lt_of_le_of_lt (Nat.min_le_left _ _) (by decide)
  rw [stringcmp_eq_zero_iff_of_lt hname hlt, h.slot.name, h.slot.state]
  exact and_iff_right rfl

end Holds

namespace UsrSemInv

lemma holds_of_used (h : UsrSemInv L s live) (hi : i < maxUsrSem)
    (hused : s.memory.readWord (L.slot i) = usrSemUsed) :
    ∃ name sem, Holds L s live i name sem := by
  rcases h.slot i hi with ⟨-, hfree⟩ | hholds
  · rw [hused] at hfree
    exact absurd hfree (by decide)
  · exact hholds

lemma findName_some (h : UsrSemInv L s live) (hname : 0 ∉ name)
    (hfind : findName L s.memory name = some i) : i < maxUsrSem ∧
      ∃ name' sem, Holds L s live i name' sem ∧ name'.take (maxUsrSemName - 1) = name := by
  have hi := List.mem_range.mp (List.mem_of_find?_eq_some hfind)
  have hfound := List.find?_some hfind
  have hfound' : s.memory.readWord (L.slot i) = usrSemUsed ∧
      stringcmp s.memory (L.slot i + 4) name = 0 := of_decide_eq_true hfound
  obtain ⟨name', sem, hholds⟩ := h.holds_of_used hi hfound'.1
  exact ⟨hi, name', sem, hholds, (hholds.found_iff hname).mp hfound'⟩

lemma findName_none (hname : 0 ∉ name) (hfind : findName L s.memory name = none)
    (hi : i < maxUsrSem) (hholds : Holds L s live i name' sem) :
    name'.take (maxUsrSemName - 1) ≠ name := by
  intro heq
  have hnot := List.find?_eq_none.mp hfind i (List.mem_range.mpr hi)
  exact hnot (decide_eq_true ((hholds.found_iff hname).mpr heq))

/-- A live handle is the handle of a slot in use. -/
lemma holds_of_live (h : UsrSemInv L s live) (hlive : live p = some name) :
    ∃ i < maxUsrSem, p = L.handle i ∧ ∃ sem, Holds L s live i name sem := by
  obtain ⟨i, hi, rfl⟩ := h.handles p name hlive
  rcases h.slot i hi with ⟨hnone, -⟩ | ⟨name', sem, hholds⟩
  · rw [hlive] at hnone
    cases hnone
  · obtain rfl : name = name' := Option.some.inj (hlive.symm.trans hholds.live)
    exact ⟨i, hi, rfl, sem, hholds⟩

end UsrSemInv

lemma Holds.usedSem (h : Holds L s live i name sem) (hi : i < maxUsrSem) :
    usedSem L s (L.handle i) = some (some (L.slot i, sem)) := by
  obtain ⟨hslot, hsem⟩ := L.loadWord_slot s.memory i
  rw [h.slot.state] at hslot
  rw [h.slot.kernelSem] at hsem
  simp [Proc.usedSem, L.findSem_handle hi, hslot, hsem, L.semAt_semaphoreAddress]

lemma usedSem_of_not_used {a : ℕ} {state : UInt32} (hp : findSem L p = some a)
    (hload : loadWord s.memory a = some state) (hne : state ≠ usrSemUsed) :
    usedSem L s p = some none := by
  simp [usedSem, hp, hload, hne]

/-- A value that is no live handle is answered with an error. -/
lemma UsrSemInv.usedSem_of_none (h : UsrSemInv L s live) (hp : Harmless L s p)
    (hlive : live p = none) : usedSem L s p = some none := by
  rcases hp with hout | ⟨i, hi, rfl⟩ | ⟨hword, hnot⟩
  · rw [usedSem, hout]
  · rcases h.slot i hi with ⟨-, hfree⟩ | ⟨name, sem, hholds⟩
    · have hload := (L.loadWord_slot s.memory i).1
      rw [hfree] at hload
      exact usedSem_of_not_used (L.findSem_handle hi) hload (by decide)
    · rw [hholds.live] at hlive
      cases hlive
  · cases hfind : findSem L p with
    | none => rw [usedSem, hfind]
    | some a =>
      have ha : a = p.toNat := by
        rw [findSem] at hfind
        split_ifs at hfind
        exact (Option.some.inj hfind).symm
      subst ha
      exact usedSem_of_not_used hfind (if_pos hword) hnot

/-! ### The steps -/

/-- A new semaphore in a slot, when the kernel semaphores have become `sems`. -/
def UsrSemState.fill (L : UsrSemLayout) (s : UsrSemState) (sems : SemState) (i : ℕ)
    (name : List UInt8) (sem : Sem) : UsrSemState :=
  { toSemState := sems
    memory     := fillSlot L s.memory i name (semaphoreAddress L.semaphoreTable sem) }

/-- The semaphore in a slot has been destroyed. -/
def UsrSemState.free (L : UsrSemLayout) (s : UsrSemState) (i : ℕ) (sem : Sem) : UsrSemState :=
  { toSemState := semaphoreDestroy s.toSemState sem
    memory     := s.memory.writeWord (L.slot i) usrSemFree }

lemma Holds.congr {live' : Live} (h : Holds L s live i name sem)
    (hmem : ∀ x, L.slot i ≤ x → x < L.slot i + 40 → s'.memory x = s.memory x)
    (hlive : live' (L.handle i) = live (L.handle i)) (hsem : s'.Created sem) :
    Holds L s' live' i name sem where
  live := by rw [hlive, h.live]
  slot := by
    have hslot := slotIs_congr hmem
    rw [h.slot.state, h.slot.name, h.slot.kernelSem] at hslot
    exact hslot
  created := hsem

namespace UsrSemInv

/-- Only the kernel semaphores have changed, and those of the live handles are reserved still. -/
lemma withSems {sems : SemState} (h : UsrSemInv L s live)
    (hkeep : ∀ i < maxUsrSem, ∀ name sem, Holds L s live i name sem → sems.Created sem) :
    UsrSemInv L { s with toSemState := sems } live where
  slot i hi := by
    rcases h.slot i hi with hfree | ⟨name, sem, hholds⟩
    · exact .inl hfree
    · exact .inr ⟨name, sem, hholds.congr (fun _ _ _ => rfl) rfl (hkeep i hi name sem hholds)⟩
  handles := h.handles
  apart := h.apart

/-- A slot is changed, with its handle, and the other slots keep what they have. -/
lemma change {live' : Live} (h : UsrSemInv L s live) (hi : i < maxUsrSem)
    (hmem : ∀ j < maxUsrSem, j ≠ i → ∀ x, L.slot j ≤ x → x < L.slot j + 40 →
      s'.memory x = s.memory x)
    (hlive : ∀ p, p ≠ L.handle i → live' p = live p)
    (hsem : ∀ j < maxUsrSem, j ≠ i → ∀ name sem, Holds L s live j name sem → s'.Created sem)
    (hslot : live' (L.handle i) = none ∧ s'.memory.readWord (L.slot i) = usrSemFree ∨
      ∃ name sem, Holds L s' live' i name sem ∧ ¬ s.Created sem) :
    UsrSemInv L s' live' := by
  have hother : ∀ j < maxUsrSem, j ≠ i → live' (L.handle j) = live (L.handle j) := by
    intro j hj hne
    exact hlive _ fun heq => hne (L.handle_inj hj hi heq)
  have hword : ∀ j < maxUsrSem, j ≠ i →
      s'.memory.readWord (L.slot j + 36) = s.memory.readWord (L.slot j + 36) := by
    intro j hj hne
    exact (slotIs_congr (hmem j hj hne)).kernelSem
  -- the semaphore of the changed slot was free, so no other slot has it
  have hnew : ∀ j < maxUsrSem, j ≠ i → (live' (L.handle i)).isSome → (live' (L.handle j)).isSome →
      s'.memory.readWord (L.slot i + 36) ≠ s'.memory.readWord (L.slot j + 36) := by
    intro j hj hne hsome hsome' heq
    rcases hslot with ⟨hnone, -⟩ | ⟨name, sem, hholds, hfree⟩
    · rw [hnone] at hsome
      cases hsome
    · rw [hother j hj hne] at hsome'
      rcases h.slot j hj with ⟨hnone, -⟩ | ⟨name', sem', hholds'⟩
      · rw [hnone] at hsome'
        cases hsome'
      · rw [hword j hj hne, hholds.slot.kernelSem, hholds'.slot.kernelSem] at heq
        rw [semaphoreAddress_injective L.sem_le heq] at hfree
        exact hfree hholds'.created
  constructor
  case slot =>
    intro j hj
    by_cases hne : j = i
    · subst hne
      exact hslot.imp_right fun ⟨name, sem, hholds, _⟩ => ⟨name, sem, hholds⟩
    · rcases h.slot j hj with ⟨hnone, hfree⟩ | ⟨name, sem, hholds⟩
      · refine .inl ⟨by rw [hother j hj hne, hnone], ?_⟩
        rw [(slotIs_congr (hmem j hj hne)).state, hfree]
      · exact .inr ⟨name, sem, hholds.congr (hmem j hj hne) (hother j hj hne)
          (hsem j hj hne name sem hholds)⟩
  case handles =>
    intro p name hp
    by_cases hpi : p = L.handle i
    · exact ⟨i, hi, hpi⟩
    · rw [hlive p hpi] at hp
      exact h.handles p name hp
  case apart =>
    intro j hj k hk hsome hsome' heq
    by_cases hji : j = i <;> by_cases hki : k = i
    · rw [hji, hki]
    · subst hji
      exact absurd heq (hnew k hk hki hsome hsome')
    · subst hki
      exact absurd heq.symm (hnew j hj hji hsome' hsome)
    · rw [hother j hj hji] at hsome
      rw [hother k hk hki] at hsome'
      rw [hword j hj hji, hword k hk hki] at heq
      exact h.apart j hj k hk hsome hsome' heq

/-- A semaphore is created in a free slot. -/
lemma fill {m : SemState} (h : UsrSemInv L s live) (hcaller : 0 ≤ s.kernel.currentThread cpu)
    (hname : 0 ∉ name) (hfind : findFree L s.memory = some i)
    (hcreate : semaphoreCreate s.toSemState cpu value = some (m, some sem)) :
    Holds L (s.fill L m i name sem) (Function.update live (L.handle i) (some name)) i name sem ∧
    UsrSemInv L (s.fill L m i name sem) (Function.update live (L.handle i) (some name)) := by
  obtain ⟨hi, -⟩ := findFree_some hfind
  obtain ⟨-, ⟨hres, -⟩ | ⟨sem', hres, hfree, hm⟩⟩ := semaphoreCreate_cases hcreate
  · cases hres
  obtain rfl : sem = sem' := Option.some.inj hres
  have hcreated : m.Created sem := by
    have hcreator : s.kernel.currentThread cpu ≠ -1 := by omega
    rw [hm]
    simpa only [SemState.Created, Function.update_self] using hcreator
  have hkeep : ∀ sem', s.Created sem' → m.Created sem' := by
    intro sem' hsem'
    have hne : sem' ≠ sem := by
      rintro rfl
      exact hsem' hfree
    rw [hm]
    simpa only [SemState.Created, Function.update_of_ne hne] using hsem'
  have hholds : Holds L (s.fill L m i name sem)
      (Function.update live (L.handle i) (some name)) i name sem :=
    ⟨Function.update_self _ _ _, slotIs_fillSlot hname, hcreated⟩
  refine ⟨hholds, h.change hi ?_ ?_ ?_ (.inr ⟨name, sem, hholds, fun hcr => hcr hfree⟩)⟩
  · exact fun j _ hne x hlo hhi => fillSlot_of_ne hne hlo hhi
  · exact fun p hp => Function.update_of_ne hp _ _
  · exact fun j _ _ name' sem' hholds' => hkeep sem' hholds'.created

/-- A live handle is destroyed. -/
lemma free (h : UsrSemInv L s live) (hi : i < maxUsrSem) (hholds : Holds L s live i name sem) :
    UsrSemInv L (s.free L i sem) (Function.update live (L.handle i) none) := by
  refine h.change hi ?_ ?_ ?_ (.inl ⟨Function.update_self _ _ _, ?_⟩)
  · exact fun j _ hne x hlo hhi => writeWord_slot_of_ne hne hlo hhi
  · exact fun p hp => Function.update_of_ne hp _ _
  · intro j hj hne name' sem' hholds'
    have hsem : sem' ≠ sem := by
      rintro rfl
      refine hne (h.apart j hj i hi (by rw [hholds'.live]; rfl) (by rw [hholds.live]; rfl) ?_)
      rw [hholds'.slot.kernelSem, hholds.slot.kernelSem]
    have hcr : (s.semaphoreTable sem').creator ≠ -1 := hholds'.created
    simpa only [SemState.Created, UsrSemState.free, semaphoreDestroy,
      Function.update_of_ne hsem] using hcr
  · exact Memory.readWord_writeWord_self _ _ _

end UsrSemInv

/-- `usr_sem_open` for an existing semaphore. -/
lemma usrSemOpen_of_neg (hvalue : value < 0) : usrSemOpen L s cpu name value =
    some (s, (findName L s.memory name).elim 0 L.handle) := by
  rw [usrSemOpen, if_pos hvalue]
  cases findName L s.memory name <;> rfl

/-- `usr_sem_open` for a new semaphore. -/
lemma usrSemOpen_of_nonneg (cpu : Fin configMaxCpus) (hvalue : 0 ≤ value)
    (hsem : Available L s name) :
    (usrSemOpen L s cpu name value = some (s, 0) ∧
        ((findName L s.memory name).isSome ∨ findFree L s.memory = none)) ∨
      ∃ i sems sem, findName L s.memory name = none ∧ findFree L s.memory = some i ∧
        semaphoreCreate s.toSemState cpu value = some (sems, some sem) ∧
        usrSemOpen L s cpu name value = some (s.fill L sems i name sem, L.handle i) := by
  rw [usrSemOpen, if_neg (Int.not_lt.mpr hvalue)]
  cases hname : findName L s.memory name with
  | some i => exact .inl ⟨rfl, .inl rfl⟩
  | none =>
    cases hfree : findFree L s.memory with
    | none => exact .inl ⟨rfl, .inr rfl⟩
    | some i =>
      obtain ⟨sems, sem, hcreate⟩ := @exists_semaphoreCreate value cpu s.toSemState (by
        rcases hsem with hsome | hnone | hsem
        · rw [hname] at hsome
          cases hsome
        · rw [hfree] at hnone
          cases hnone
        · exact hsem) hvalue
      refine .inr ⟨i, sems, sem, rfl, rfl, hcreate, ?_⟩
      simp only [hcreate, Option.bind_eq_bind, Option.bind_some, Option.elim_some]
      rfl

lemma usrSemP_of_used {a : ℕ} (h : usedSem L s p = some (some (a, sem))) :
    usrSemP L s cpu p = (semaphoreP L.semaphoreTable s.toSemState cpu sem).map
      fun sems => ({ s with toSemState := sems }, 0) := by
  rw [usrSemP, h, Option.map_eq_bind]
  rfl

lemma usrSemV_of_used {a : ℕ} (h : usedSem L s p = some (some (a, sem))) :
    usrSemV L s p = (semaphoreV L.semaphoreTable s.toSemState sem).map
      fun sems => ({ s with toSemState := sems }, 0) := by
  rw [usrSemV, h, Option.map_eq_bind]
  rfl

lemma usrSemDestroy_of_used {i : ℕ} (h : usedSem L s p = some (some (L.slot i, sem))) :
    usrSemDestroy L s p =
      if (s.semaphoreTable sem).value < 0 then some (s, 0) else some (s.free L i sem, 1) := by
  rw [usrSemDestroy, h]
  rfl

/-- A value that is no live handle is answered with an error, and nothing changes. -/
lemma answers_of_not_used (cpu : Fin configMaxCpus) (h : usedSem L s p = some none) :
    usrSemP L s cpu p = some (s, usrSemErrorNotInUse) ∧
      usrSemV L s p = some (s, usrSemErrorNotInUse) ∧ usrSemDestroy L s p = some (s, 0) := by
  rw [usrSemP, usrSemV, usrSemDestroy, h]
  exact ⟨rfl, rfl, rfl⟩

/-- What a value passed as a handle refers to. -/
lemma UsrSemInv.usedSem_cases (h : UsrSemInv L s live) (hp : Harmless L s p) :
    (live p = none ∧ usedSem L s p = some none) ∨
      ∃ i < maxUsrSem, p = L.handle i ∧ ∃ name sem, Holds L s live i name sem ∧
        usedSem L s p = some (some (L.slot i, sem)) := by
  cases hlive : live p with
  | none => exact .inl ⟨rfl, h.usedSem_of_none hp hlive⟩
  | some name =>
    obtain ⟨i, hi, rfl, sem, hholds⟩ := h.holds_of_live hlive
    exact .inr ⟨i, hi, rfl, name, sem, hholds, hholds.usedSem hi⟩

/-- Every step keeps the invariant. -/
lemma UsrSemStep.inv {Ok : UsrSemState → List UInt8 → Prop} {live' : Live}
    (hstep : UsrSemStep L Ok (s, live) (s', live')) (h : UsrSemInv L s live) :
    UsrSemInv L s' live' := by
  cases hstep with
  | create hcaller hname hvalue hok hsem hexec =>
    obtain ⟨hopen, -⟩ | ⟨i, sems, sem, -, hfree, hcreate, hopen⟩ :=
      usrSemOpen_of_nonneg _ hvalue hsem
    · cases hopen.symm.trans hexec
      rw [if_pos rfl]
      exact h
    · cases hopen.symm.trans hexec
      rw [if_neg (L.handle_ne_zero (findFree_some hfree).1)]
      exact (h.fill hcaller hname hfree hcreate).2
  | find hname hvalue hexec =>
    cases (usrSemOpen_of_neg hvalue).symm.trans hexec
    exact h
  | p hp hexec =>
    obtain ⟨-, hnone⟩ | ⟨i, -, -, name, sem, -, hused⟩ := h.usedSem_cases hp
    · cases (answers_of_not_used _ hnone).1.symm.trans hexec
      exact h
    · rw [usrSemP_of_used hused] at hexec
      obtain ⟨sems, hp, hres⟩ := Option.map_eq_some_iff.mp hexec
      cases hres
      obtain ⟨kernel, rfl, -⟩ := semaphoreP_cases hp
      exact h.withSems fun j _ name sem hholds => SemState.created_setValue.mpr hholds.created
  | v hp hexec =>
    obtain ⟨-, hnone⟩ | ⟨i, -, -, name, sem, -, hused⟩ := h.usedSem_cases hp
    · cases (answers_of_not_used 0 hnone).2.1.symm.trans hexec
      exact h
    · rw [usrSemV_of_used hused] at hexec
      obtain ⟨sems, hv, hres⟩ := Option.map_eq_some_iff.mp hexec
      cases hres
      obtain ⟨kernel, rfl, -⟩ := semaphoreV_cases hv
      exact h.withSems fun j _ name sem hholds => SemState.created_setValue.mpr hholds.created
  | destroy hp hexec =>
    obtain ⟨-, hnone⟩ | ⟨i, hi, rfl, name, sem, hholds, hused⟩ := h.usedSem_cases hp
    · cases (answers_of_not_used 0 hnone).2.2.symm.trans hexec
      exact h
    · rw [usrSemDestroy_of_used hused] at hexec
      split_ifs at hexec
      · cases hexec
        exact h
      · cases hexec
        exact h.free hi hholds
  | others hkeep => exact h.withSems hkeep

lemma readWord_usrSemInit (L : UsrSemLayout) (s : UsrSemState) (hi : i < maxUsrSem) :
    (usrSemInit L s).memory.readWord (L.slot i) = usrSemFree := by
  have hloop : ∀ n, i < n → ((List.range n).foldl
      (fun (m : Memory) j => m.writeWord (L.slot j) usrSemFree) s.memory).readWord (L.slot i) =
      usrSemFree := by
    intro n
    induction n with
    | zero => exact fun hlt => absurd hlt (Nat.not_lt_zero i)
    | succ n ih =>
      intro hlt
      rw [List.range_succ, List.foldl_append, List.foldl_cons, List.foldl_nil]
      by_cases hin : i = n
      · rw [hin, Memory.readWord_writeWord_self]
      · rw [Memory.readWord_writeWord_of_ne (by rw [UsrSemLayout.slot, UsrSemLayout.slot]; omega)]
        exact ih (by omega)
  exact hloop maxUsrSem hi

lemma usrSemInit_inv (L : UsrSemLayout) (s : UsrSemState) :
    UsrSemInv L (usrSemInit L s) fun _ => none where
  slot i hi := .inl ⟨rfl, readWord_usrSemInit L s hi⟩
  handles p name hp := by cases hp
  apart i _ j _ hsome := by cases hsome

lemma UsrSemRun.inv {Ok : UsrSemState → List UInt8 → Prop} (hrun : UsrSemRun L Ok s live) :
    UsrSemInv L s live := by
  obtain ⟨s₀, hrun⟩ := hrun
  have hinv : ∀ x, Relation.ReflTransGen (UsrSemStep L Ok) (usrSemInit L s₀, fun _ => none) x →
      UsrSemInv L x.1 x.2 := by
    intro x hx
    induction hx with
    | refl => exact usrSemInit_inv L s₀
    | tail _ hstep ih => exact hstep.inv ih
  exact hinv _ hrun

lemma findName_usrSemInit (L : UsrSemLayout) (s : UsrSemState) (hname : 0 ∉ name) :
    findName L (usrSemInit L s).memory name = none := by
  cases hfind : findName L (usrSemInit L s).memory name with
  | none => rfl
  | some i =>
    obtain ⟨-, name', sem, hholds, -⟩ := (usrSemInit_inv L s).findName_some hname hfind
    cases hholds.live

lemma exists_findFree_usrSemInit (L : UsrSemLayout) (s : UsrSemState) :
    ∃ i, findFree L (usrSemInit L s).memory = some i := by
  rw [← Option.ne_none_iff_exists']
  intro hfull
  have hslot : (usrSemInit L s).memory.readWord (L.slot 0) = usrSemFree :=
    readWord_usrSemInit L s (by decide)
  exact List.find?_eq_none.mp hfull 0 (List.mem_range.mpr (by decide)) (decide_eq_true hslot)

/-- The first call creates a semaphore. -/
lemma usrSemOpen_usrSemInit (L : UsrSemLayout) {s₀ : UsrSemState} (hfree : ∃ sem, ¬ s₀.Created sem)
    (hname : 0 ∉ name) (hvalue : 0 ≤ value) : Available L (usrSemInit L s₀) name ∧
      ∃ i sems sem, findFree L (usrSemInit L s₀).memory = some i ∧
        semaphoreCreate s₀.toSemState cpu value = some (sems, some sem) ∧
        usrSemOpen L (usrSemInit L s₀) cpu name value =
          some ((usrSemInit L s₀).fill L sems i name sem, L.handle i) := by
  have hsem : Available L (usrSemInit L s₀) name := .inr (.inr hfree)
  refine ⟨hsem, ?_⟩
  obtain ⟨-, hsome | hfull⟩ | ⟨i, sems, sem, -, hfree, hcreate, hopen⟩ :=
    usrSemOpen_of_nonneg cpu hvalue hsem
  · rw [findName_usrSemInit L s₀ hname] at hsome
    cases hsome
  · obtain ⟨i, hi⟩ := exists_findFree_usrSemInit L s₀
    rw [hfull] at hi
    cases hi
  · exact ⟨i, sems, sem, hfree, hcreate, hopen⟩

/-- Without a free kernel semaphore a new user semaphore gets the address `NULL` for it. -/
lemma usrSemOpen_of_created (hall : ∀ sem, s.Created sem) (hvalue : 0 ≤ value)
    (hfind : findName L s.memory name = none) (hfree : findFree L s.memory = some i) :
    usrSemOpen L s cpu name value = some ({ s with memory := fillSlot L s.memory i name 0 },
      L.handle i) := by
  have hcreate : semaphoreCreate s.toSemState cpu value = some (s.toSemState, none) := by
    have hnone : ((List.finRange configMaxSemaphores).map (s.next + ·)).find?
        (fun sem => (s.semaphoreTable sem).creator = -1) = none :=
      List.find?_eq_none.mpr fun sem _ hsem => hall sem (of_decide_eq_true hsem)
    rw [semaphoreCreate, if_neg (Int.not_lt.mpr hvalue), hnone]
  rw [usrSemOpen, if_neg (Int.not_lt.mpr hvalue), hfind, hfree]
  simp only [hcreate, Option.bind_eq_bind, Option.bind_some, Option.elim_none]
  rfl

end

lemma sample_sem_pos : 0 < (0x80020000 : UInt32).toNat := by decide

lemma sample_sem_le : (0x80020000 : UInt32).toNat + 12 * configMaxSemaphores ≤ 2 ^ 32 := by decide

/-- The table of the user semaphores behind that of the kernel semaphores. -/
def UsrSemLayout.sample : UsrSemLayout where
  usrSemTable    := 0x80030000
  semaphoreTable := 0x80020000
  aligned := by decide
  usr_pos := by decide
  usr_le  := by decide
  sem_pos := sample_sem_pos
  sem_le  := sample_sem_le

/-- No kernel semaphore is reserved. -/
def UsrSemState.sample : UsrSemState where
  toSemState := semaphoreInit initialState
  memory     := fun _ => 0

/-! ### Handles -/

/-- A handle designates a slot in use whose kernel semaphore is reserved. -/
def Designates (L : UsrSemLayout) (s : UsrSemState) (p : UInt32) (sem : Sem) : Prop :=
  ∃ i < maxUsrSem, p = L.handle i ∧ s.memory.readWord (L.slot i) = usrSemUsed ∧
    s.memory.readWord (L.slot i + 36) = semaphoreAddress L.semaphoreTable sem ∧ s.Created sem

section

variable {L : UsrSemLayout} {s s' : UsrSemState} {live : Live} {i : ℕ} {name : List UInt8}
  {sem : Sem} {p : UInt32} {value : ℤ} {cpu : Fin configMaxCpus}

lemma Holds.designates (h : Holds L s live i name sem) (hi : i < maxUsrSem) :
    Designates L s (L.handle i) sem :=
  ⟨i, hi, rfl, h.slot.state, h.slot.kernelSem, h.created⟩

/-- After any run in which no creation of a kernel semaphore fails and no value inside the table
that is passed as a handle hits a word with the value `USR_SEM_USED` between two slots: the live
handles designate slots whose kernel semaphores are reserved, so does what `usr_sem_open` returns,
and if it returns `NULL` the table is unchanged. The other functions act on the semaphore of a
live handle and answer every other value with an error. -/
theorem usrSem_handles_valid (hrun : UsrSemRun L (fun _ _ => True) s live) :
    (∀ p name, live p = some name → ∃ sem, Designates L s p sem) ∧
    (∀ cpu name value, 0 ≤ s.kernel.currentThread cpu → 0 ∉ name →
      (0 ≤ value → Available L s name) →
      ∃ s' p, usrSemOpen L s cpu name value = some (s', p) ∧ (p = 0 → s' = s) ∧
        (p ≠ 0 → ∃ sem, Designates L s' p sem)) ∧
    (∀ cpu p, Harmless L s p → live p = none →
      usrSemP L s cpu p = some (s, usrSemErrorNotInUse) ∧
        usrSemV L s p = some (s, usrSemErrorNotInUse) ∧ usrSemDestroy L s p = some (s, 0)) ∧
    (∀ cpu p name, live p = some name → ∃ sem, Designates L s p sem ∧
      usrSemP L s cpu p = (semaphoreP L.semaphoreTable s.toSemState cpu sem).map
        (fun sems => ({ s with toSemState := sems }, 0)) ∧
      usrSemV L s p = (semaphoreV L.semaphoreTable s.toSemState sem).map
        (fun sems => ({ s with toSemState := sems }, 0)) ∧
      ((s.semaphoreTable sem).value < 0 → usrSemDestroy L s p = some (s, 0)) ∧
      (0 ≤ (s.semaphoreTable sem).value → ∃ s', usrSemDestroy L s p = some (s', 1) ∧
        s'.toSemState = semaphoreDestroy s.toSemState sem)) := by
  have h := hrun.inv
  refine ⟨fun p name hlive => ?_, fun cpu name value hcaller hname hsem => ?_,
    fun cpu p hp hlive => ?_, fun cpu p name hlive => ?_⟩
  · obtain ⟨i, hi, rfl, sem, hholds⟩ := h.holds_of_live hlive
    exact ⟨sem, hholds.designates hi⟩
  · rcases lt_or_ge value 0 with hneg | hvalue
    · refine ⟨s, _, usrSemOpen_of_neg hneg, fun _ => rfl, fun hne => ?_⟩
      cases hfind : findName L s.memory name with
      | none =>
        rw [hfind] at hne
        exact absurd rfl hne
      | some i =>
        obtain ⟨hi, name', sem, hholds, -⟩ := h.findName_some hname hfind
        exact ⟨sem, hholds.designates hi⟩
    · obtain ⟨hopen, -⟩ | ⟨i, sems, sem, -, hfree, hcreate, hopen⟩ :=
        usrSemOpen_of_nonneg cpu hvalue (hsem hvalue)
      · exact ⟨s, 0, hopen, fun _ => rfl, fun hne => absurd rfl hne⟩
      · have hi := (findFree_some hfree).1
        refine ⟨_, _, hopen, fun hzero => absurd hzero (L.handle_ne_zero hi), fun _ => ?_⟩
        exact ⟨sem, (h.fill hcaller hname hfree hcreate).1.designates hi⟩
  · exact answers_of_not_used cpu (h.usedSem_of_none hp hlive)
  · obtain ⟨i, hi, rfl, sem, hholds⟩ := h.holds_of_live hlive
    have hused := hholds.usedSem hi
    have hdestroy := usrSemDestroy_of_used hused
    refine ⟨sem, hholds.designates hi, usrSemP_of_used hused, usrSemV_of_used hused, ?_, ?_⟩
    · intro hneg
      rw [hdestroy, if_pos hneg]
    · intro hnonneg
      rw [hdestroy, if_neg (Int.not_lt.mpr hnonneg)]
      exact ⟨_, rfl, rfl⟩

/-- All kernel semaphores are reserved, and a program opens a new user semaphore. It gets a handle
to a slot without a kernel semaphore. -/
theorem usrSem_handles_valid_noSemaphore : ∃ s s' p,
    (∀ sem, s.Created sem) ∧ UsrSemRun UsrSemLayout.sample (fun _ _ => True) s (fun _ => none) ∧
    usrSemOpen UsrSemLayout.sample s 0 [0x61] 0 = some (s', p) ∧ p ≠ 0 ∧
    ∀ sem, ¬ Designates UsrSemLayout.sample s' p sem := by
  obtain ⟨s, hs⟩ : ∃ s : UsrSemState, s =
      { UsrSemState.sample with semaphoreTable := fun _ => { value := 0, creator := 1 } } :=
    ⟨_, rfl⟩
  have hall : ∀ sem, (usrSemInit UsrSemLayout.sample s).Created sem := by
    intro sem
    rw [hs]
    exact (by decide : (1 : ℤ) ≠ -1)
  have hname : (0 : UInt8) ∉ [0x61] := by decide
  obtain ⟨i, hfree⟩ := exists_findFree_usrSemInit UsrSemLayout.sample s
  have hi := (findFree_some hfree).1
  refine ⟨_, _, _, hall, ⟨s, .refl⟩,
    usrSemOpen_of_created hall le_rfl (findName_usrSemInit _ s hname) hfree,
    UsrSemLayout.sample.handle_ne_zero hi, ?_⟩
  rintro sem ⟨j, hj, heq, -, hsem, -⟩
  rw [← UsrSemLayout.sample.handle_inj hi hj heq, (slotIs_fillSlot hname).kernelSem] at hsem
  exact semaphoreAddress_ne_zero UsrSemLayout.sample.sem_pos UsrSemLayout.sample.sem_le sem
    hsem.symm

/-- The states in which one user semaphore has been opened. -/
lemma exists_usrSemRun (Ok : UsrSemState → List UInt8 → Prop) (hok : ∀ s, Ok s [0x61]) :
    ∃ s live p, UsrSemRun UsrSemLayout.sample Ok s live ∧ live p = some [0x61] ∧
      live 0 = none := by
  have hname : (0 : UInt8) ∉ [0x61] := by decide
  obtain ⟨hsem, i, sems, sem, hfree, hcreate, hopen⟩ :=
    @usrSemOpen_usrSemInit [0x61] 0 0 UsrSemLayout.sample UsrSemState.sample
      ⟨0, fun hcreated => hcreated rfl⟩ hname le_rfl
  have hne := UsrSemLayout.sample.handle_ne_zero (findFree_some hfree).1
  have hstep := @UsrSemStep.create UsrSemLayout.sample Ok _ _ (fun _ => none) 0 [0x61] 0 _
    (by decide) hname le_rfl (hok _) hsem hopen
  rw [if_neg hne] at hstep
  exact ⟨_, _, _, ⟨UsrSemState.sample, .single hstep⟩, Function.update_self _ _ _,
    Function.update_of_ne hne.symm _ _⟩

/-- A program opens a new user semaphore; `NULL` is answered with an error. -/
theorem usrSem_handles_valid_one : ∃ s live p sem,
    UsrSemRun UsrSemLayout.sample (fun _ _ => True) s live ∧ live p = some [0x61] ∧
    Designates UsrSemLayout.sample s p sem ∧
    usrSemV UsrSemLayout.sample s 0 = some (s, usrSemErrorNotInUse) := by
  obtain ⟨s, live, p, hrun, hlive, hzero⟩ := exists_usrSemRun (fun _ _ => True) fun _ => trivial
  obtain ⟨hhandles, -, hother, -⟩ := usrSem_handles_valid hrun
  obtain ⟨sem, hsem⟩ := hhandles p _ hlive
  have hout : findSem UsrSemLayout.sample 0 = none := if_neg (by decide)
  exact ⟨s, live, p, sem, hrun, hlive, hsem, (hother 0 0 (.inl hout) hzero).2.1⟩

/-! ### Names -/

/-- The names of the live handles fit into their fields and are different. -/
structure NamesApart (live : Live) : Prop where
  short : ∀ p name, live p = some name → name.length < maxUsrSemName
  apart : ∀ p p' name, live p = some name → live p' = some name → p = p'

lemma NamesApart.take_eq (h : NamesApart live) (hlive : live p = some name) :
    name.take (maxUsrSemName - 1) = name :=
  List.take_of_length_le (Nat.le_pred_of_lt (h.short p name hlive))

/-- The name fits into its field, or there is no free slot for it. -/
def ShortOrFull (L : UsrSemLayout) (s : UsrSemState) (name : List UInt8) : Prop :=
  name.length < maxUsrSemName ∨ findFree L s.memory = none

/-- A live handle is found under its name. -/
lemma UsrSemInv.findName_of_live (h : UsrSemInv L s live) (hnames : NamesApart live)
    (hname : 0 ∉ name) (hlive : live p = some name) :
    ∃ i < maxUsrSem, p = L.handle i ∧ findName L s.memory name = some i := by
  obtain ⟨i, hi, rfl, sem, hholds⟩ := h.holds_of_live hlive
  refine ⟨i, hi, rfl, ?_⟩
  cases hfind : findName L s.memory name with
  | none => exact absurd (hnames.take_eq hlive) (findName_none hname hfind hi hholds)
  | some j =>
    obtain ⟨hj, name', sem', hholds', heq⟩ := h.findName_some hname hfind
    rw [hnames.take_eq hholds'.live] at heq
    rw [L.handle_inj hi hj (hnames.apart _ _ _ hlive (heq ▸ hholds'.live))]

/-- A name that is found is that of a live handle. -/
lemma UsrSemInv.findName_of_not_live (h : UsrSemInv L s live) (hnames : NamesApart live)
    (hname : 0 ∉ name) (hlive : ∀ p, live p ≠ some name) : findName L s.memory name = none := by
  cases hfind : findName L s.memory name with
  | none => rfl
  | some i =>
    obtain ⟨hi, name', sem, hholds, heq⟩ := h.findName_some hname hfind
    rw [hnames.take_eq hholds.live] at heq
    exact absurd (heq ▸ hholds.live) (hlive _)

lemma UsrSemStep.names {live' : Live} (hstep : UsrSemStep L (ShortOrFull L) (s, live) (s', live'))
    (h : UsrSemInv L s live) (hnames : NamesApart live) : NamesApart live' := by
  cases hstep with
  | @create _ _ _ cpu name _ p hcaller hname hvalue hok hsem hexec =>
    obtain ⟨hopen, -⟩ | ⟨i, sems, sem, hfind, hfree, hcreate, hopen⟩ :=
      usrSemOpen_of_nonneg _ hvalue hsem
    · cases hopen.symm.trans hexec
      rw [if_pos rfl]
      exact hnames
    · cases hopen.symm.trans hexec
      rw [if_neg (L.handle_ne_zero (findFree_some hfree).1)]
      have hshort : name.length < maxUsrSemName := by
        rcases hok with hshort | hfull
        · exact hshort
        · rw [hfree] at hfull
          cases hfull
      -- nothing was found under the name, so no live handle has it
      have hnew : ∀ p, live p ≠ some name := by
        intro p hlive
        obtain ⟨j, -, -, hfind'⟩ := h.findName_of_live hnames hname hlive
        rw [hfind] at hfind'
        cases hfind'
      constructor
      case short =>
        intro p name' hp
        by_cases hpi : p = L.handle i
        · rw [hpi, Function.update_self] at hp
          cases hp
          exact hshort
        · rw [Function.update_of_ne hpi] at hp
          exact hnames.short p name' hp
      case apart =>
        intro p p' name' hp hp'
        by_cases hpi : p = L.handle i <;> by_cases hpi' : p' = L.handle i
        · rw [hpi, hpi']
        · rw [hpi, Function.update_self] at hp
          rw [Function.update_of_ne hpi'] at hp'
          cases hp
          exact absurd hp' (hnew p')
        · rw [Function.update_of_ne hpi] at hp
          rw [hpi', Function.update_self] at hp'
          cases hp'
          exact absurd hp (hnew p)
        · rw [Function.update_of_ne hpi] at hp
          rw [Function.update_of_ne hpi'] at hp'
          exact hnames.apart p p' name' hp hp'
  | @destroy _ _ _ p _ hp hexec =>
    split_ifs
    · exact hnames
    · have hkeep : ∀ q name, Function.update live p none q = some name → live q = some name := by
        intro q name hq
        rw [Function.update_apply] at hq
        split_ifs at hq
        exact hq
      exact ⟨fun q name hq => hnames.short q name (hkeep q name hq), fun q q' name hq hq' =>
        hnames.apart q q' name (hkeep q name hq) (hkeep q' name hq')⟩
  | find => exact hnames
  | p => exact hnames
  | v => exact hnames
  | others => exact hnames

lemma UsrSemRun.names (hrun : UsrSemRun L (ShortOrFull L) s live) : NamesApart live := by
  obtain ⟨s₀, hrun⟩ := hrun
  have hnames : ∀ x, Relation.ReflTransGen (UsrSemStep L (ShortOrFull L))
      (usrSemInit L s₀, fun _ => none) x → UsrSemInv L x.1 x.2 ∧ NamesApart x.2 := by
    intro x hx
    induction hx with
    | refl =>
      refine ⟨usrSemInit_inv L s₀, ?_, ?_⟩
      · intro p name hp
        cases hp
      · intro p p' name hp
        cases hp
    | tail _ hstep ih => exact ⟨hstep.inv ih.1, hstep.names ih.1 ih.2⟩
  exact (hnames _ hrun).2

/-- After any run in which no semaphore is created under a name of 32 or more characters, the user
semaphores are a map from names: `usr_sem_open` for an existing semaphore returns the live handle
that was opened under the name, or `NULL` if there is none; for a new semaphore it returns `NULL`
if there is one; and two live handles have different names. -/
theorem usrSem_map (hrun : UsrSemRun L (ShortOrFull L) s live) (hname : 0 ∉ name) :
    (∀ p, live p = some name → ∀ cpu,
      (∀ value < 0, usrSemOpen L s cpu name value = some (s, p)) ∧
      (∀ value ≥ 0, usrSemOpen L s cpu name value = some (s, 0))) ∧
    ((∀ p, live p ≠ some name) →
      ∀ cpu, ∀ value < 0, usrSemOpen L s cpu name value = some (s, 0)) ∧
    (∀ p p', live p = some name → live p' = some name → p = p') := by
  have h := hrun.inv
  have hnames := hrun.names
  refine ⟨fun p hlive cpu => ?_, fun hlive cpu value hvalue => ?_,
    fun p p' hp hp' => hnames.apart p p' name hp hp'⟩
  · obtain ⟨i, hi, rfl, hfind⟩ := h.findName_of_live hnames hname hlive
    refine ⟨fun value hvalue => ?_, fun value hvalue => ?_⟩
    · rw [usrSemOpen_of_neg hvalue, hfind, Option.elim_some]
    · rw [usrSemOpen, if_neg (Int.not_lt.mpr hvalue), hfind]
  · rw [usrSemOpen_of_neg hvalue, h.findName_of_not_live hnames hname hlive, Option.elim_none]

/-- A semaphore is found under the name that it was opened under. -/
theorem usrSem_map_one : ∃ s live p,
    UsrSemRun UsrSemLayout.sample (ShortOrFull UsrSemLayout.sample) s live ∧
    live p = some [0x61] ∧ usrSemOpen UsrSemLayout.sample s 0 [0x61] (-1) = some (s, p) ∧
    usrSemOpen UsrSemLayout.sample s 0 [0x61] 1 = some (s, 0) := by
  obtain ⟨s, live, p, hrun, hlive, -⟩ :=
    exists_usrSemRun (ShortOrFull UsrSemLayout.sample) fun _ => .inl (by decide)
  have hname : (0 : UInt8) ∉ [0x61] := by decide
  obtain ⟨hfound, -⟩ := usrSem_map hrun hname
  obtain ⟨hneg, hnonneg⟩ := hfound p hlive 0
  exact ⟨s, live, p, hrun, hlive, hneg (-1) (by decide), hnonneg 1 (by decide)⟩

/-- A semaphore is opened under a name of 32 characters and not found under it. -/
theorem usrSem_map_longName : ∃ s s' p,
    UsrSemRun UsrSemLayout.sample (fun _ _ => True) s (fun _ => none) ∧
    usrSemOpen UsrSemLayout.sample s 0 (List.replicate 32 0x61) 0 = some (s', p) ∧ p ≠ 0 ∧
    usrSemOpen UsrSemLayout.sample s' 0 (List.replicate 32 0x61) (-1) = some (s', 0) := by
  have hname : (0 : UInt8) ∉ List.replicate 32 0x61 := by decide
  obtain ⟨-, i, sems, sem, hfree, hcreate, hopen⟩ :=
    @usrSemOpen_usrSemInit (List.replicate 32 0x61) 0 0 UsrSemLayout.sample UsrSemState.sample
      ⟨0, fun hcreated => hcreated rfl⟩ hname le_rfl
  refine ⟨_, _, _, ⟨UsrSemState.sample, .refl⟩, hopen,
    UsrSemLayout.sample.handle_ne_zero (findFree_some hfree).1, ?_⟩
  have h := ((usrSemInit_inv UsrSemLayout.sample UsrSemState.sample).fill (by decide) hname hfree
    hcreate).2
  rw [usrSemOpen_of_neg (by decide)]
  cases hfind : findName UsrSemLayout.sample _ (List.replicate 32 0x61) with
  | none => rfl
  | some j =>
    -- what is found under the name has been cut to 31 characters
    obtain ⟨-, name', sem', -, heq⟩ := h.findName_some hname hfind
    have hlen := congrArg List.length heq
    rw [List.length_take, List.length_replicate] at hlen
    have hle := Nat.min_le_left (maxUsrSemName - 1) name'.length
    rw [hlen] at hle
    exact absurd hle (by decide)

end

end Osm.Proc
