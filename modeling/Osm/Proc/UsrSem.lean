import Osm.Kernel.Semaphore
import Osm.Lib.Libc

/-!
# Semaphores for user programs

A model of `proc/usr_sem.c`. The table of the user semaphores lies in kernel memory; a handle is
the address of a slot of the table, and a user program may pass any value as a handle. A slot has
40 bytes: its state, the name in 32 bytes, and the address of a kernel semaphore.

A result `none` stands for an access to a word that is not aligned, for a use of memory that is no
kernel semaphore as one, and for the failures of the semaphore functions themselves. `usr_sem_p` is
given up to the call of `thread_switch`, like `semaphore_P`.
-/

namespace Osm.Proc

open Osm.Core Osm.Lib Osm.Kernel

/-- `MAX_USR_SEM`. -/
def maxUsrSem : ℕ := 32

/-- `MAX_USR_SEM_NAME`. -/
def maxUsrSemName : ℕ := 32

/-- `USR_SEM_ERROR_NOT_IN_USE`. -/
def usrSemErrorNotInUse : ℤ := -1

/-- `USR_SEM_FREE`. -/
def usrSemFree : UInt32 := 0

/-- `USR_SEM_USED`. -/
def usrSemUsed : UInt32 := 1

/-- Where the table of the user semaphores and that of the kernel semaphores are. -/
structure UsrSemLayout where
  usrSemTable    : ℕ
  semaphoreTable : UInt32
  aligned : usrSemTable % 4 = 0
  usr_pos : 0 < usrSemTable
  usr_le  : usrSemTable + 40 * maxUsrSem ≤ 2 ^ 32
  sem_pos : 0 < semaphoreTable.toNat
  sem_le  : semaphoreTable.toNat + 12 * configMaxSemaphores ≤ 2 ^ 32

/-- The kernel with its semaphores, and the memory that holds the table of the user semaphores. -/
structure UsrSemState extends SemState where
  memory : Memory

namespace UsrSemLayout

variable (L : UsrSemLayout)

/-- The address of a slot of the table. -/
def slot (i : ℕ) : ℕ := L.usrSemTable + 40 * i

/-- The handle of a slot. -/
def handle (i : ℕ) : UInt32 := UInt32.ofNat (L.slot i)

/-- The kernel semaphore at an address. -/
def semAt (p : UInt32) : Option Sem :=
  (List.finRange configMaxSemaphores).find? fun sem => semaphoreAddress L.semaphoreTable sem = p

end UsrSemLayout

/-- Load a word; an address that is not aligned is an address error. -/
def loadWord (m : Memory) (a : ℕ) : Option UInt32 := if a % 4 = 0 then some (m.readWord a) else none

/-- The state after `usr_sem_init`, in a memory with any contents. -/
def usrSemInit (L : UsrSemLayout) (s : UsrSemState) : UsrSemState :=
  { s with
    memory := (List.range maxUsrSem).foldl (fun m i => m.writeWord (L.slot i) usrSemFree) s.memory }

/-- `find_sem`: the address of the block, `none` for `NULL`. -/
def findSem (L : UsrSemLayout) (p : UInt32) : Option ℕ :=
  if L.usrSemTable ≤ p.toNat ∧ p.toNat < L.usrSemTable + 40 * maxUsrSem then some p.toNat else none

/-- The search of `usr_sem_open` for a semaphore in use under a name. -/
def findName (L : UsrSemLayout) (m : Memory) (name : List UInt8) : Option ℕ :=
  (List.range maxUsrSem).find? fun i =>
    m.readWord (L.slot i) = usrSemUsed ∧ stringcmp m (L.slot i + 4) name = 0

/-- The search of `usr_sem_open` for a free slot. -/
def findFree (L : UsrSemLayout) (m : Memory) : Option ℕ :=
  (List.range maxUsrSem).find? fun i => m.readWord (L.slot i) = usrSemFree

/-- What `usr_sem_open` writes to a free slot, for the address that `semaphore_create` returns. -/
def fillSlot (L : UsrSemLayout) (m : Memory) (i : ℕ) (name : List UInt8) (kernelSem : UInt32) :
    Memory :=
  let m := m.writeWord (L.slot i) usrSemUsed
  let m := stringcopy m (L.slot i + 4) name maxUsrSemName
  m.writeWord (L.slot i + 36) kernelSem

/-- `usr_sem_open`. -/
def usrSemOpen (L : UsrSemLayout) (s : UsrSemState) (thisCpu : Fin configMaxCpus)
    (name : List UInt8) (value : ℤ) : Option (UsrSemState × UInt32) :=
  if value < 0 then
    match findName L s.memory name with
    | some i => some (s, L.handle i)
    | none   => some (s, 0)
  else match findName L s.memory name with
  | some _ => some (s, 0)
  | none   =>
    match findFree L s.memory with
    | none   => some (s, 0)
    | some i => do
      let (sems, sem) ← semaphoreCreate s.toSemState thisCpu value
      let kernelSem := sem.elim 0 (semaphoreAddress L.semaphoreTable)
      let memory := fillSlot L s.memory i name kernelSem
      return ({ toSemState := sems, memory }, L.handle i)

/-- What `usr_sem_p`, `usr_sem_v` and `usr_sem_destroy` do first: the block and its kernel
semaphore, `none` inside if the value passed is answered with an error. -/
def usedSem (L : UsrSemLayout) (s : UsrSemState) (p : UInt32) : Option (Option (ℕ × Sem)) :=
  match findSem L p with
  | none   => some none
  | some a => do
    let state ← loadWord s.memory a
    if state ≠ usrSemUsed then return none
    else
      let kernelSem ← loadWord s.memory (a + 36)
      let sem ← L.semAt kernelSem
      return some (a, sem)

/-- `usr_sem_p`. -/
def usrSemP (L : UsrSemLayout) (s : UsrSemState) (thisCpu : Fin configMaxCpus) (p : UInt32) :
    Option (UsrSemState × ℤ) := do
  match ← usedSem L s p with
  | none          => return (s, usrSemErrorNotInUse)
  | some (_, sem) =>
    let sems ← semaphoreP L.semaphoreTable s.toSemState thisCpu sem
    return ({ s with toSemState := sems }, 0)

/-- `usr_sem_v`. -/
def usrSemV (L : UsrSemLayout) (s : UsrSemState) (p : UInt32) : Option (UsrSemState × ℤ) := do
  match ← usedSem L s p with
  | none          => return (s, usrSemErrorNotInUse)
  | some (_, sem) =>
    let sems ← semaphoreV L.semaphoreTable s.toSemState sem
    return ({ s with toSemState := sems }, 0)

/-- `usr_sem_destroy`. -/
def usrSemDestroy (L : UsrSemLayout) (s : UsrSemState) (p : UInt32) :
    Option (UsrSemState × ℤ) := do
  match ← usedSem L s p with
  | none          => return (s, 0)
  | some (a, sem) =>
    if (s.semaphoreTable sem).value < 0 then return (s, 0)
    else
      let sems := semaphoreDestroy s.toSemState sem
      return ({ toSemState := sems, memory := s.memory.writeWord a usrSemFree }, 1)

/-! ### Addresses and slots -/

namespace UsrSemLayout

variable {L : UsrSemLayout} {i j : ℕ}

lemma slot_add_le (hi : i < maxUsrSem) : L.slot i + 40 ≤ 2 ^ 32 := by
  have hle := L.usr_le
  rw [slot]
  simp only [maxUsrSem] at hi hle
  omega

lemma toNat_handle (hi : i < maxUsrSem) : (L.handle i).toNat = L.slot i := by
  have hle := L.slot_add_le hi
  rw [handle, UInt32.toNat_ofNat', Nat.mod_eq_of_lt (by omega)]

lemma handle_inj (hi : i < maxUsrSem) (hj : j < maxUsrSem) (h : L.handle i = L.handle j) :
    i = j := by
  have hnat := congrArg UInt32.toNat h
  rw [L.toNat_handle hi, L.toNat_handle hj, slot, slot] at hnat
  omega

lemma handle_ne_zero (hi : i < maxUsrSem) : L.handle i ≠ 0 := by
  intro h
  have hnat := congrArg UInt32.toNat h
  have hpos := L.usr_pos
  rw [L.toNat_handle hi, slot, UInt32.toNat_zero] at hnat
  omega

lemma loadWord_slot (L : UsrSemLayout) (m : Memory) (i : ℕ) :
    loadWord m (L.slot i) = some (m.readWord (L.slot i)) ∧
      loadWord m (L.slot i + 36) = some (m.readWord (L.slot i + 36)) := by
  have haligned := L.aligned
  have hslot : L.slot i % 4 = 0 := by
    rw [slot]
    omega
  exact ⟨if_pos hslot, if_pos (by omega)⟩

lemma findSem_handle (hi : i < maxUsrSem) : findSem L (L.handle i) = some (L.slot i) := by
  rw [findSem, L.toNat_handle hi, slot]
  exact if_pos ⟨by omega, by omega⟩

lemma semAt_semaphoreAddress (L : UsrSemLayout) (sem : Sem) :
    L.semAt (semaphoreAddress L.semaphoreTable sem) = some sem := by
  have hinj := semaphoreAddress_injective L.sem_le
  rw [semAt]
  cases hfind : (List.finRange configMaxSemaphores).find?
      fun sem' => semaphoreAddress L.semaphoreTable sem' =
        semaphoreAddress L.semaphoreTable sem with
  | none =>
    have hnot := List.find?_eq_none.mp hfind sem (List.mem_finRange sem)
    simp at hnot
  | some sem' =>
    have hfound := List.find?_some hfind
    rw [hinj (of_decide_eq_true hfound)]

end UsrSemLayout

/-- The words and the name of a slot. -/
structure SlotIs (L : UsrSemLayout) (m : Memory) (i : ℕ) (state : UInt32) (name : List UInt8)
    (kernelSem : UInt32) : Prop where
  state     : m.readWord (L.slot i) = state
  name      : stringAt m (L.slot i + 4) maxUsrSemName = name
  kernelSem : m.readWord (L.slot i + 36) = kernelSem

section

variable {L : UsrSemLayout} {m m' : Memory} {i j : ℕ} {name : List UInt8} {kernelSem : UInt32}

lemma slotIs_congr (h : ∀ x, L.slot j ≤ x → x < L.slot j + 40 → m' x = m x) :
    SlotIs L m' j (m.readWord (L.slot j)) (stringAt m (L.slot j + 4) maxUsrSemName)
      (m.readWord (L.slot j + 36)) where
  state := Memory.readWord_congr fun x h₁ h₂ => h x (by omega) (by omega)
  name := by
    refine stringAt_congr fun x h₁ h₂ => h x (by omega) ?_
    rw [maxUsrSemName] at h₂
    omega
  kernelSem := Memory.readWord_congr fun x h₁ h₂ => h x (by omega) (by omega)

/-- A slot that has been filled. -/
lemma slotIs_fillSlot (hname : 0 ∉ name) :
    SlotIs L (fillSlot L m i name kernelSem) i usrSemUsed (name.take (maxUsrSemName - 1))
      kernelSem := by
  constructor
  case state =>
    rw [fillSlot, Memory.readWord_writeWord_of_ne (by omega),
      Memory.readWord_congr (m := m.writeWord (L.slot i) usrSemUsed)
        fun x _ hx => stringcopy_of_outside (by decide) (by omega),
      Memory.readWord_writeWord_self]
  case name =>
    rw [fillSlot, stringAt_congr fun x _ hx => Memory.writeWord_of_outside (by
      rw [maxUsrSemName] at hx
      omega)]
    exact stringAt_stringcopy_take hname
  case kernelSem => rw [fillSlot, Memory.readWord_writeWord_self]

/-- Filling a slot leaves the other slots alone. -/
lemma fillSlot_of_ne (h : j ≠ i) {x : ℕ} (hlo : L.slot j ≤ x) (hhi : x < L.slot j + 40) :
    fillSlot L m i name kernelSem x = m x := by
  rw [UsrSemLayout.slot] at hlo hhi
  have hne : x < L.slot i ∨ L.slot i + 40 ≤ x := by
    rw [UsrSemLayout.slot]
    omega
  rw [fillSlot, Memory.writeWord_of_outside (by omega),
    stringcopy_of_outside (by decide) (by rw [maxUsrSemName]; omega),
    Memory.writeWord_of_outside (by omega)]

/-- Freeing a slot leaves the other slots alone. -/
lemma writeWord_slot_of_ne (h : j ≠ i) {w : UInt32} {x : ℕ} (hlo : L.slot j ≤ x)
    (hhi : x < L.slot j + 40) : m.writeWord (L.slot i) w x = m x := by
  rw [UsrSemLayout.slot] at hlo hhi
  refine Memory.writeWord_of_outside ?_
  rw [UsrSemLayout.slot]
  omega

end

end Osm.Proc
