import Osm.Core.Simulation
import Mathlib.Algebra.BigOperators.Group.Finset.Basic
import Mathlib.Algebra.Order.BigOperators.Group.Finset
import Mathlib.Data.Finset.Card

/-!
# Stores of files

A store has files with names, each a string of bytes whose length is fixed when the file is made.
There is room for some number of files, a file takes an amount of space that depends on its length,
and there is so much space in total. A store that holds more than it has room for cannot be built.
-/

namespace Osm.Core

variable {Name Byte : Type*}

/-! ### Positions in strings -/

/-- The number of bytes that a request for `n` bytes at a position concerns, in a string of
`length` bytes. -/
def roomAt (length n : ℕ) (offset : ℤ) : ℕ := min n (length - offset.toNat)

/-- The bytes at a position. -/
def readAt (bytes : List Byte) (offset : ℤ) (n : ℕ) : List Byte :=
  (bytes.drop offset.toNat).take (roomAt bytes.length n offset)

/-- The string with other bytes at a position, as many of them as there is room for. -/
def writeAt (bytes : List Byte) (offset : ℤ) (data : List Byte) : List Byte :=
  let written := data.take (roomAt bytes.length data.length offset)
  bytes.take offset.toNat ++ written ++ bytes.drop (offset.toNat + written.length)

/-- The position is not in the string, nor at its end. -/
def Outside (bytes : List Byte) (offset : ℤ) : Prop := offset < 0 ∨ bytes.length < offset

instance (bytes : List Byte) (offset : ℤ) : Decidable (Outside bytes offset) :=
  inferInstanceAs (Decidable (_ ∨ _))

lemma length_readAt (bytes : List Byte) (offset : ℤ) (n : ℕ) :
    (readAt bytes offset n).length = roomAt bytes.length n offset := by
  simp [readAt, roomAt]

@[simp]
lemma length_writeAt {bytes : List Byte} {offset : ℤ} (data : List Byte)
    (h : ¬Outside bytes offset) : (writeAt bytes offset data).length = bytes.length := by
  rw [Outside, not_or] at h
  simp only [writeAt, roomAt, List.length_append, List.length_take, List.length_drop]
  omega

/-- What is written is read back. -/
lemma readAt_writeAt {bytes data : List Byte} {offset : ℤ} (h : ¬Outside bytes offset) :
    readAt (writeAt bytes offset data) offset data.length =
      data.take (roomAt bytes.length data.length offset) := by
  have hlength := length_writeAt data h
  rw [Outside, not_or] at h
  have htake : (bytes.take offset.toNat).length = offset.toNat := by
    rw [List.length_take]
    omega
  have hdrop : (writeAt bytes offset data).drop offset.toNat =
      data.take (roomAt bytes.length data.length offset) ++ bytes.drop
        (offset.toNat + (data.take (roomAt bytes.length data.length offset)).length) := by
    rw [writeAt, List.append_assoc, List.drop_left' htake]
  rw [readAt, hlength, hdrop]
  refine List.take_left' ?_
  rw [List.length_take, roomAt]
  omega

/-! ### Stores -/

/-- What a store has room for: a number of files, an amount of space and a length. -/
structure Quota where
  files   : ℕ
  space   : ℕ
  longest : ℕ
  /-- The space that a file of some length takes. -/
  cost    : ℕ → ℕ

/-- A store of files; the contents of a name without a file do not count. -/
structure FileStore (quota : Quota) (Name Byte : Type*) where
  names    : Finset Name
  contents : Name → List Byte
  few      : names.card ≤ quota.files
  fits     : ∑ name ∈ names, quota.cost (contents name).length ≤ quota.space

/-- What can be asked of a store. -/
inductive FileCall (Name Byte : Type*)
  | create (name : Name) (size : ℕ)
  | remove (name : Name)
  | read (name : Name) (offset : ℤ) (n : ℕ)
  | write (name : Name) (offset : ℤ) (data : List Byte)
  | getfree

/-- The name of the file that a call may change. -/
def FileCall.target : FileCall Name Byte → Option Name
  | .create name _  => some name
  | .remove name    => some name
  | .write name _ _ => some name
  | .read _ _ _     => none
  | .getfree        => none

/-- What a store answers. -/
inductive FileAnswer (Byte : Type*)
  | done
  | refused
  | missing
  | count (n : ℕ)
  | bytes (data : List Byte)

namespace FileStore

variable {quota : Quota}

/-- The space that the files take. -/
def used (S : FileStore quota Name Byte) : ℕ :=
  ∑ name ∈ S.names, quota.cost (S.contents name).length

/-- The space that is left. -/
def left (S : FileStore quota Name Byte) : ℕ := quota.space - S.used

/-- The store without files. -/
def empty (quota : Quota) (Name Byte : Type*) : FileStore quota Name Byte where
  names    := ∅
  contents := fun _ => []
  few      := Nat.zero_le _
  fits     := Nat.zero_le _

variable [DecidableEq Name]

/-- There is room for a new file. -/
structure Room (S : FileStore quota Name Byte) (name : Name) (size : ℕ) : Prop where
  new     : name ∉ S.names
  entry   : S.names.card < quota.files
  longest : size ≤ quota.longest
  space   : quota.cost size ≤ S.left

instance (S : FileStore quota Name Byte) (name : Name) (size : ℕ) :
    Decidable (S.Room name size) :=
  decidable_of_iff (name ∉ S.names ∧ S.names.card < quota.files ∧ size ≤ quota.longest ∧
    quota.cost size ≤ S.left)
    ⟨fun ⟨h₁, h₂, h₃, h₄⟩ => ⟨h₁, h₂, h₃, h₄⟩, fun ⟨h₁, h₂, h₃, h₄⟩ => ⟨h₁, h₂, h₃, h₄⟩⟩

/-- Contents of names outside a set do not count. -/
lemma sum_update_of_notMem {names : Finset Name} {name : Name} (h : name ∉ names)
    (contents : Name → List Byte) (data : List Byte) :
    ∑ other ∈ names, quota.cost (Function.update contents name data other).length =
      ∑ other ∈ names, quota.cost (contents other).length := by
  refine Finset.sum_congr rfl fun other hother => ?_
  rw [Function.update_of_ne (ne_of_mem_of_not_mem hother h)]

/-- A new file. -/
def insert (S : FileStore quota Name Byte) (name : Name) (data : List Byte)
    (h : S.Room name data.length) : FileStore quota Name Byte where
  names    := Insert.insert name S.names
  contents := Function.update S.contents name data
  few := by
    rw [Finset.card_insert_of_notMem h.new]
    exact h.entry
  fits := by
    have hspace := h.space
    have hfits := S.fits
    rw [left, used] at hspace
    rw [Finset.sum_insert h.new, Function.update_self, sum_update_of_notMem h.new]
    omega

/-- The store without a file. -/
def erase (S : FileStore quota Name Byte) (name : Name) : FileStore quota Name Byte where
  names    := S.names.erase name
  contents := S.contents
  few      := (Finset.card_le_card (Finset.erase_subset _ _)).trans S.few
  fits     := (Finset.sum_le_sum_of_subset (Finset.erase_subset _ _)).trans S.fits

/-- Other contents of the same length. -/
def overwrite (S : FileStore quota Name Byte) (name : Name) (data : List Byte)
    (h : data.length = (S.contents name).length) : FileStore quota Name Byte where
  names    := S.names
  contents := Function.update S.contents name data
  few      := S.few
  fits := by
    refine le_trans (Finset.sum_le_sum fun other _ => ?_) S.fits
    by_cases hother : other = name
    · rw [hother, Function.update_self, h]
    · rw [Function.update_of_ne hother]

/-- The answer of a store, and the store that it leaves. New files are filled with `zero`, and free
space is counted in units of `unit`. -/
def exec (zero : Byte) (unit : ℕ) :
    FileCall Name Byte → FileStore quota Name Byte → FileAnswer Byte × FileStore quota Name Byte
  | .create name size, S =>
    if h : S.Room name size then
      (.done, S.insert name (List.replicate size zero) (by rwa [List.length_replicate]))
    else (.refused, S)
  | .remove name, S => if name ∈ S.names then (.done, S.erase name) else (.missing, S)
  | .read name offset n, S =>
    if name ∉ S.names then (.missing, S)
    else if Outside (S.contents name) offset then (.refused, S)
    else (.bytes (readAt (S.contents name) offset n), S)
  | .write name offset data, S =>
    if name ∉ S.names then (.missing, S)
    else if h : Outside (S.contents name) offset then (.refused, S)
    else (.count (roomAt (S.contents name).length data.length offset),
      S.overwrite name (writeAt (S.contents name) offset data) (length_writeAt data h))
  | .getfree, S => (.count (unit * S.left), S)

/-! ### Frames -/

/-- The store has the file. -/
def Has (S : FileStore quota Name Byte) (name : Name) (data : List Byte) : Prop :=
  name ∈ S.names ∧ S.contents name = data

/-- A call leaves the other files as they are. -/
lemma Has.exec {zero : Byte} {unit : ℕ} {S : FileStore quota Name Byte} {name : Name}
    {data : List Byte} (h : S.Has name data) {call : FileCall Name Byte}
    (hother : call.target ≠ some name) : (exec zero unit call S).2.Has name data := by
  obtain ⟨hname, rfl⟩ := h
  cases call with
  | create other size =>
    have hne : name ≠ other := fun heq => hother (by rw [heq, FileCall.target])
    rw [FileStore.exec]
    split_ifs with hroom
    · exact ⟨Finset.mem_insert_of_mem hname, Function.update_of_ne hne _ _⟩
    · exact ⟨hname, rfl⟩
  | remove other =>
    have hne : name ≠ other := fun heq => hother (by rw [heq, FileCall.target])
    rw [FileStore.exec]
    split_ifs with hmem
    · exact ⟨Finset.mem_erase_of_ne_of_mem hne hname, rfl⟩
    · exact ⟨hname, rfl⟩
  | read other offset n =>
    rw [FileStore.exec]
    split_ifs <;> exact ⟨hname, rfl⟩
  | write other offset bytes =>
    have hne : name ≠ other := fun heq => hother (by rw [heq, FileCall.target])
    rw [FileStore.exec]
    split_ifs with hmem houtside
    · exact ⟨hname, rfl⟩
    · exact ⟨hname, Function.update_of_ne hne _ _⟩
    · exact ⟨hname, rfl⟩
  | getfree => exact ⟨hname, rfl⟩

lemma Has.exec_read (zero : Byte) (unit : ℕ) {S : FileStore quota Name Byte} {name : Name}
    {bytes : List Byte} (h : S.Has name bytes) {offset : ℤ} (hin : ¬Outside bytes offset) (n : ℕ) :
    FileStore.exec zero unit (.read name offset n) S = (.bytes (readAt bytes offset n), S) := by
  obtain ⟨hname, rfl⟩ := h
  rw [FileStore.exec, if_neg (not_not.mpr hname), if_neg hin]

/-- A call that writes is answered with a count if there is a file with the position; then the file
has been written. -/
lemma exec_write (zero : Byte) (unit : ℕ) (S : FileStore quota Name Byte) (name : Name)
    (offset : ℤ) (data : List Byte) :
    (exec zero unit (.write name offset data) S).1 = .missing ∨
      (exec zero unit (.write name offset data) S).1 = .refused ∨
      (exec zero unit (.write name offset data) S).1 =
          .count (roomAt (S.contents name).length data.length offset) ∧
        ¬Outside (S.contents name) offset ∧
        (exec zero unit (.write name offset data) S).2.Has name
          (writeAt (S.contents name) offset data) := by
  rw [FileStore.exec]
  split_ifs with hname houtside
  · exact .inr (.inl rfl)
  · exact .inr (.inr ⟨rfl, houtside, hname, Function.update_self _ _ _⟩)
  · exact .inl rfl

end FileStore

end Osm.Core
