import Osm.Kernel.Thread

/-!
# Semaphores

A model of `kernel/semaphore.c`. Semaphores are rows of a table; a waiting thread sleeps on the
address of the row. `semaphore_P` is given up to the call of `thread_switch` that follows a
`sleepq_add`: the switch is a `schedulerSchedule` on the same CPU.

The value is a C `int`, which wraps around; a result `none` stands for a failed assertion.
-/

namespace Osm.Kernel

/-- `CONFIG_MAX_SEMAPHORES`. -/
def configMaxSemaphores : ℕ := 128

instance : NeZero configMaxSemaphores := ⟨by decide⟩

/-- A semaphore, given by its index in the table. -/
abbrev Sem := Fin configMaxSemaphores

/-- A row of the table (`semaphore_t`); a negative `creator` marks a free row. -/
structure Semaphore where
  value   : ℤ
  creator : ℤ

/-- The kernel together with the semaphore table and the static variable of
`semaphore_create`. -/
structure SemState where
  kernel         : State
  semaphoreTable : Sem → Semaphore
  next           : Sem

namespace SemState

/-- `sem->value = value`. -/
def setValue (m : SemState) (sem : Sem) (value : ℤ) : SemState :=
  let row := { m.semaphoreTable sem with value := value }
  { m with semaphoreTable := Function.update m.semaphoreTable sem row }

/-- The row has been handed out. -/
def Created (m : SemState) (sem : Sem) : Prop := (m.semaphoreTable sem).creator ≠ -1

end SemState

/-- A number as an `int`. -/
def toInt (x : ℤ) : ℤ := x.bmod (2 ^ 32)

/-- The address of a row of the table; `semaphore_t` has 12 bytes. -/
def semaphoreAddress (base : UInt32) (sem : Sem) : UInt32 := base + 12 * UInt32.ofNat sem

/-- `semaphore_init`. -/
def semaphoreInit (kernel : State) : SemState where
  kernel         := kernel
  semaphoreTable := fun _ => { value := 0, creator := -1 }
  next           := 0

/-- `semaphore_create`: the new state and the row, `none` if there is no free one. -/
def semaphoreCreate (m : SemState) (thisCpu : Fin configMaxCpus) (value : ℤ) :
    Option (SemState × Option Sem) :=
  if value < 0 then none
  else match ((List.finRange configMaxSemaphores).map (m.next + ·)).find?
      fun sem => (m.semaphoreTable sem).creator = -1 with
  | none     => some (m, none)
  | some sem =>
    some ({ m with
      semaphoreTable := Function.update m.semaphoreTable sem
        { value := value, creator := m.kernel.currentThread thisCpu }
      next := sem + 1 }, some sem)

/-- `semaphore_destroy`. -/
def semaphoreDestroy (m : SemState) (sem : Sem) : SemState :=
  let row := { m.semaphoreTable sem with creator := -1 }
  { m with semaphoreTable := Function.update m.semaphoreTable sem row }

/-- `semaphore_P` by the thread running on the given CPU, without the switch. -/
def semaphoreP (base : UInt32) (m : SemState) (thisCpu : Fin configMaxCpus) (sem : Sem) :
    Option SemState := do
  let value := toInt ((m.semaphoreTable sem).value - 1)
  let m := m.setValue sem value
  if value < 0 then
    let kernel ← sleepqAdd m.kernel thisCpu (semaphoreAddress base sem)
    return { m with kernel := kernel }
  else return m

/-- `semaphore_V`. -/
def semaphoreV (base : UInt32) (m : SemState) (sem : Sem) : Option SemState := do
  let value := toInt ((m.semaphoreTable sem).value + 1)
  let m := m.setValue sem value
  if value ≤ 0 then
    let kernel ← sleepqWake m.kernel (semaphoreAddress base sem)
    return { m with kernel := kernel }
  else return m

lemma toInt_of_fits {x : ℤ} (hlow : -2 ^ 31 ≤ x) (hhigh : x < 2 ^ 31) : toInt x = x :=
  Int.bmod_eq_of_le (by omega) (by omega)

lemma toInt_lt (x : ℤ) : toInt x < 2 ^ 31 := Int.bmod_lt (by decide)

lemma SemState.created_setValue {m : SemState} {sem sem' : Sem} {value : ℤ} :
    (m.setValue sem value).Created sem' ↔ m.Created sem' := by
  by_cases hs : sem' = sem
  · subst hs; simp [SemState.Created, SemState.setValue]
  · simp [SemState.Created, SemState.setValue, hs]

/-- A change of a value leaves the semaphores that have been handed out as they are. -/
lemma SemState.created_congr {m m' : SemState} {sem : Sem} {value : ℤ}
    (htable : m'.semaphoreTable = (m.setValue sem value).semaphoreTable) (sem' : Sem) :
    m'.Created sem' ↔ m.Created sem' := by
  rw [SemState.Created, htable]
  exact created_setValue

/-- What `semaphore_create` does. -/
lemma semaphoreCreate_cases {m m' : SemState} {cpu : Fin configMaxCpus} {value : ℤ}
    {res : Option Sem} (h : semaphoreCreate m cpu value = some (m', res)) :
    0 ≤ value ∧ (res = none ∧ m' = m ∨
      ∃ sem, res = some sem ∧ (m.semaphoreTable sem).creator = -1 ∧
        m' = { m with
          semaphoreTable := Function.update m.semaphoreTable sem
            { value := value, creator := m.kernel.currentThread cpu }
          next := sem + 1 }) := by
  rw [semaphoreCreate] at h
  split_ifs at h with hvalue
  refine ⟨not_lt.mp hvalue, ?_⟩
  cases hfind : ((List.finRange configMaxSemaphores).map (m.next + ·)).find?
      fun sem => (m.semaphoreTable sem).creator = -1 with
  | none =>
    rw [hfind] at h
    cases h
    exact .inl ⟨rfl, rfl⟩
  | some sem =>
    rw [hfind] at h
    cases h
    have hfound := List.find?_some hfind
    exact .inr ⟨sem, rfl, of_decide_eq_true hfound, rfl⟩

/-- `semaphore_create` leaves the threads alone. -/
lemma semaphoreCreate_kernel {m m' : SemState} {cpu : Fin configMaxCpus} {value : ℤ}
    {res : Option Sem} (h : semaphoreCreate m cpu value = some (m', res)) :
    m'.kernel = m.kernel := by
  obtain ⟨-, ⟨-, rfl⟩ | ⟨sem, -, -, rfl⟩⟩ := semaphoreCreate_cases h <;> rfl

/-- What `semaphore_P` does. -/
lemma semaphoreP_cases {base : UInt32} {m m' : SemState} {cpu : Fin configMaxCpus} {sem : Sem}
    (h : semaphoreP base m cpu sem = some m') :
    ∃ kernel, m' =
        { m.setValue sem (toInt ((m.semaphoreTable sem).value - 1)) with kernel := kernel } ∧
      ((0 ≤ toInt ((m.semaphoreTable sem).value - 1) ∧ kernel = m.kernel) ∨
        (toInt ((m.semaphoreTable sem).value - 1) < 0 ∧
          sleepqAdd m.kernel cpu (semaphoreAddress base sem) = some kernel)) := by
  rw [semaphoreP] at h
  split_ifs at h with hneg
  · obtain ⟨kernel, hkernel, h⟩ := Option.bind_eq_some_iff.mp h
    exact ⟨kernel, (Option.some.inj h).symm, Or.inr ⟨hneg, hkernel⟩⟩
  · exact ⟨m.kernel, (Option.some.inj h).symm, Or.inl ⟨Int.not_lt.mp hneg, rfl⟩⟩

/-- What `semaphore_V` does. -/
lemma semaphoreV_cases {base : UInt32} {m m' : SemState} {sem : Sem}
    (h : semaphoreV base m sem = some m') :
    ∃ kernel, m' =
        { m.setValue sem (toInt ((m.semaphoreTable sem).value + 1)) with kernel := kernel } ∧
      ((0 < toInt ((m.semaphoreTable sem).value + 1) ∧ kernel = m.kernel) ∨
        (toInt ((m.semaphoreTable sem).value + 1) ≤ 0 ∧
          sleepqWake m.kernel (semaphoreAddress base sem) = some kernel)) := by
  rw [semaphoreV] at h
  split_ifs at h with hneg
  · obtain ⟨kernel, hkernel, h⟩ := Option.bind_eq_some_iff.mp h
    exact ⟨kernel, (Option.some.inj h).symm, Or.inr ⟨hneg, hkernel⟩⟩
  · exact ⟨m.kernel, (Option.some.inj h).symm, Or.inl ⟨Int.not_le.mp hneg, rfl⟩⟩

/-- The address of a row of an array that fits into the address space. -/
lemma toNat_rowAddress {base size : UInt32} {i n : ℕ} (hsize : 0 < size.toNat)
    (hfits : base.toNat + size.toNat * n ≤ 2 ^ 32) (hi : i < n) :
    (base + size * UInt32.ofNat i).toNat = base.toNat + size.toNat * i := by
  have hrow : size.toNat * i + size.toNat ≤ size.toNat * n := by
    rw [← Nat.mul_succ]
    exact Nat.mul_le_mul_left _ hi
  have hle : i ≤ size.toNat * i := Nat.le_mul_of_pos_left i hsize
  have hoffset : (size * UInt32.ofNat i).toNat = size.toNat * i := by
    rw [UInt32.toNat_mul, UInt32.toNat_ofNat', Nat.mod_eq_of_lt (by omega : i < 2 ^ 32)]
    exact Nat.mod_eq_of_lt (by omega)
  rw [UInt32.toNat_add, hoffset, Nat.mod_eq_of_lt (by omega)]

lemma toNat_semaphoreAddress {base : UInt32}
    (hbase : base.toNat + 12 * configMaxSemaphores ≤ 2 ^ 32) (sem : Sem) :
    (semaphoreAddress base sem).toNat = base.toNat + 12 * sem :=
  @toNat_rowAddress _ 12 _ _ (by decide) hbase sem.isLt

/-- Different rows have different addresses when the table fits into the address space. -/
lemma semaphoreAddress_injective {base : UInt32}
    (hbase : base.toNat + 12 * configMaxSemaphores ≤ 2 ^ 32) :
    Function.Injective (semaphoreAddress base) := by
  intro i j h
  have hval := congrArg UInt32.toNat h
  rw [toNat_semaphoreAddress hbase, toNat_semaphoreAddress hbase] at hval
  exact Fin.ext (by omega)

lemma semaphoreAddress_ne_zero {base : UInt32} (hpos : 0 < base.toNat)
    (hbase : base.toNat + 12 * configMaxSemaphores ≤ 2 ^ 32) (sem : Sem) :
    semaphoreAddress base sem ≠ 0 := by
  intro h
  have hval := congrArg UInt32.toNat h
  rw [toNat_semaphoreAddress hbase, UInt32.toNat_zero] at hval
  omega

end Osm.Kernel
