import Osm.Proc.FileHandles
import Mathlib.Data.Fintype.EquivFin

/-!
# Rows of the table of open files are not lost

Without `process_fork`, a row of the table of open files belongs to one process at a time: to the
one that has it in its array, or that is in a call with it. When a process goes on to userland
after its executable is loaded, or finishes while files are open, rows are left that belong to
none; these are the only steps after which there are such rows.
-/

namespace Osm.Proc

open Osm.Fs (VfsState releaseFile fillFile)

variable {φ : Type} {s s' : FilesState φ} {p q : Pid} {row : ℕ} {a : FilesAction}

namespace FilesState

/-- A row belongs to a process. -/
def Has (s : FilesState φ) (p : Pid) (row : ℕ) : Prop := s.Holds p row ∨ s.Lists p row

/-- Each row in use belongs to a process. -/
def Accounted (s : FilesState φ) : Prop := ∀ row, s.InUse row → ∃ p, s.Has p row

/-- The steps that leave a row behind: `process_start` goes to userland, which does not close the
executable, and `process_finish`, which does not close the files of the process. -/
def Leaks (s : FilesState φ) : FilesAction → Prop
  | .loaded _   => True
  | .finish p _ => ∃ i, (s.table p).files i ≠ -1
  | _           => False

lemma SameProcess.has_iff (h : SameProcess s s' p) : s'.Has p row ↔ s.Has p row := by
  rw [Has, Has, Holds, Holds, h.pc, h.lists_iff]

end FilesState

def FilesAction.IsFork : FilesAction → Prop
  | .fork .. => True
  | _        => False

open FilesState

/-- The invariant of runs without `process_fork`. -/
structure RowsInv (s : FilesState φ) : Prop where
  bound : ∀ row, s.InUse row → row < configMaxOpenFiles
  inUse : ∀ p row, s.Has p row → s.InUse row
  alone : ∀ p q row, s.Has p row → s.Has q row → p = q
  apart : ∀ p row, s.Holds p row → ¬ s.Lists p row

/-- What a step of a process does to the rows: it takes a row that was not in use, or gives a row
back that the process held. -/
structure RowsEffect (s s' : FilesState φ) (p : Pid) : Prop where
  same   : ∀ q ≠ p, SameProcess s s' q
  gained : ∀ row, s'.InUse row → s.InUse row ∨ s'.Has p row ∧ row < configMaxOpenFiles
  kept   : ∀ row, s.InUse row → s'.InUse row ∨ s.Holds p row
  has    : ∀ row, s'.Has p row → s'.InUse row ∧ (s.Has p row ∨ ¬ s.InUse row)
  apart  : ∀ row, s'.Holds p row → ¬ s'.Lists p row

lemma RowsInv.step (hinv : RowsInv s) (h : RowsEffect s s' p) : RowsInv s' where
  bound row hrow := by
    rcases h.gained row hrow with hrow | ⟨-, hlt⟩
    · exact hinv.bound row hrow
    · exact hlt
  inUse q row hq := by
    by_cases hqp : q = p
    · subst hqp
      exact (h.has row hq).1
    have hq := (h.same q hqp).has_iff.mp hq
    rcases h.kept row (hinv.inUse q row hq) with hrow | hholds
    · exact hrow
    · exact absurd (hinv.alone q p row hq (.inl hholds)) hqp
  alone := by
    have hother : ∀ q row, s'.Has p row → s'.Has q row → q = p := by
      intro q row hp hq
      by_contra hqp
      have hq := (h.same q hqp).has_iff.mp hq
      rcases (h.has row hp).2 with hp | hfree
      · exact hqp (hinv.alone q p row hq hp)
      · exact hfree (hinv.inUse q row hq)
    intro q r row hq hr
    by_cases hqp : q = p
    · subst hqp
      exact (hother r row hq hr).symm
    by_cases hrp : r = p
    · subst hrp
      exact hother q row hr hq
    · exact hinv.alone q r row ((h.same q hqp).has_iff.mp hq) ((h.same r hrp).has_iff.mp hr)
  apart q row hq := by
    by_cases hqp : q = p
    · subst hqp
      exact h.apart row hq
    · rw [Holds, (h.same q hqp).pc] at hq
      rw [(h.same q hqp).lists_iff]
      exact hinv.apart q row hq

/-- A process still has the rows that it had, unless they are not in use any more. -/
def KeepsRows (s s' : FilesState φ) (p : Pid) : Prop :=
  ∀ row, s.Has p row → s'.InUse row → s'.Has p row

/-- The rows are accounted for after a step if and only if the process of the step has left none
of its rows behind. -/
lemma RowsEffect.accounted_iff (h : RowsEffect s s' p) (hinv : RowsInv s) (hacc : s.Accounted) :
    s'.Accounted ↔ KeepsRows s s' p := by
  constructor
  · intro hacc' row hp hrow
    obtain ⟨q, hq⟩ := hacc' row hrow
    by_cases hqp : q = p
    · exact hqp ▸ hq
    · exact absurd (hinv.alone q p row ((h.same q hqp).has_iff.mp hq) hp) hqp
  · intro hkeeps row hrow
    rcases h.gained row hrow with hrow' | ⟨hhas, -⟩
    · obtain ⟨q, hq⟩ := hacc row hrow'
      by_cases hqp : q = p
      · subst hqp
        exact ⟨q, hkeeps row hq hrow⟩
      · exact ⟨q, (h.same q hqp).has_iff.mpr hq⟩
    · exact ⟨p, hhas⟩

/-- Without `process_fork`, no process closes a file that another one has. -/
lemma RowsInv.closesUnshared (hinv : RowsInv s) : s.ClosesUnshared a := by
  intro p row _ hpc q hq
  have hholds : s.Holds p row := by
    rw [Holds, hpc]
    rfl
  rcases hq with hlists | ⟨id, hopens⟩
  · obtain rfl := hinv.alone p q row (.inl hholds) (.inr hlists)
    exact hinv.apart p row hholds hlists
  · have hq : s.Holds q row := by
      rcases hopens with ⟨loader, h⟩ | h <;> rw [Holds, h] <;> rfl
    obtain rfl := hinv.alone p q row (.inl hholds) (.inl hq)
    rcases hopens with ⟨loader, h⟩ | h <;> cases hpc.symm.trans h

/-! ### Effects of the steps -/

/-- A step that neither takes a row nor gives one back. -/
lemma RowsInv.effect_of_has (hinv : RowsInv s) (hsame : ∀ q ≠ p, SameProcess s s' q)
    (huse : ∀ row, s'.InUse row ↔ s.InUse row) (hhas : ∀ row, s'.Has p row → s.Has p row)
    (hapart : ∀ row, s'.Holds p row → ¬ s'.Lists p row) : RowsEffect s s' p where
  same   := hsame
  gained := fun row h => .inl ((huse row).mp h)
  kept   := fun row h => .inl ((huse row).mpr h)
  has    := fun row h => ⟨(huse row).mpr (hinv.inUse p row (hhas row h)), .inl (hhas row h)⟩
  apart  := hapart

/-- A step to a place at which the process holds at most the row that it held. -/
lemma RowsInv.effect_setPc (hinv : RowsInv s) {pc : IoPc} {vfs : VfsState φ}
    (hvfs : ∀ row, (vfs.files row).filesystem = (s.vfs.files row).filesystem)
    (hpc : ∀ row, pc.Holds row → s.Holds p row) :
    RowsEffect s (({ s with vfs } : FilesState φ).setPc p pc) p := by
  have hholds : ∀ row, (({ s with vfs } : FilesState φ).setPc p pc).Holds p row → s.Holds p row := by
    intro row h
    rw [Holds, setPc_pc] at h
    exact hpc row h
  apply hinv.effect_of_has
  · exact fun _ hq => ⟨rfl, rfl, Function.update_of_ne hq _ _, rfl⟩
  · intro row
    exact iff_of_eq (congrArg (· ≠ none) (hvfs row))
  · rintro row (h | h)
    · exact .inl (hholds row h)
    · exact .inr h
  · intro row h
    exact hinv.apart p row (hholds row h)

lemma releaseFile_inUse {r : ℕ} :
    ({ s with vfs := releaseFile s.vfs row } : FilesState φ).InUse r ↔ s.InUse r ∧ r ≠ row := by
  by_cases hr : r = row
  · subst hr
    simp [InUse, releaseFile_self]
  · simp [InUse, releaseFile_ne s.vfs hr, hr]

/-- A step that gives the row back that the process held. -/
lemma RowsInv.effect_release (hinv : RowsInv s) (hholds : s.Holds p row) :
    RowsEffect s (({ s with vfs := releaseFile s.vfs row } : FilesState φ).setPc p .user) p where
  same   := fun _ hq => ⟨rfl, rfl, Function.update_of_ne hq _ _, rfl⟩
  gained := fun r h => .inl (releaseFile_inUse.mp h).1
  kept   := fun r h => by
    by_cases hr : r = row
    · exact .inr (hr ▸ hholds)
    · exact .inl (releaseFile_inUse.mpr ⟨h, hr⟩)
  has    := fun r h => by
    rcases h with h | h
    · rw [Holds, setPc_pc] at h
      exact h.elim
    · have hlists : s.Lists p r := h
      have hr : r ≠ row := by
        rintro rfl
        exact hinv.apart p r hholds hlists
      exact ⟨releaseFile_inUse.mpr ⟨hinv.inUse p r (.inr hlists), hr⟩, .inl (.inr hlists)⟩
  apart  := fun r h => by
    rw [Holds, setPc_pc] at h
    exact h.elim

/-- The array of a process has room for a file that it opens. -/
lemma FilesInv.freeSlot_isSome (hinv : FilesInv s) (hrows : RowsInv s) {id : ℕ}
    (h : s.Opens p row id) : ∃ i, freeSlot (s.table p).files = some i := by
  have hp := hinv.process p
  obtain ⟨huse, -, hlists⟩ := hp.opens row id h
  have hrun : (s.table p).state = .running := by
    apply hp.running
    rcases h with ⟨loader, h⟩ | h <;> rw [h] <;> simp
  by_contra hfull
  have hne : ∀ i, (s.table p).files i ≠ -1 := by
    apply freeSlot_none
    exact Option.eq_none_iff_forall_ne_some.mpr fun i hi => hfull ⟨i, hi⟩
  -- The slots would hold all rows, and so the one that is being opened.
  choose r hr using fun i => hp.listed hrun i (hne i)
  have hinj : Function.Injective fun i =>
      (⟨r i, hrows.bound _ (hr i).2.1⟩ : Fin configMaxOpenFiles) := by
    intro i j hij
    have hij : r i = r j := congrArg Fin.val hij
    apply hp.once i j (hne i)
    rw [(hr i).1, (hr j).1, hij]
  obtain ⟨i, hi⟩ := Finite.surjective_of_injective hinj ⟨row, hrows.bound row huse⟩
  have hi : r i = row := congrArg Fin.val hi
  exact hlists ⟨hrun, i, by rw [(hr i).1, hi]⟩

lemma keepsRows_of_lists (hholds : ∀ row, s.Holds p row → s'.InUse row → s'.Has p row)
    (hlists : ∀ row, s.Lists p row → s'.Lists p row) : KeepsRows s s' p := by
  rintro row (h | h) hrow
  · exact hholds row h hrow
  · exact .inr (hlists row h)

lemma not_holds_of_pc {pc : IoPc} (hpc : s.pc p = pc) (h : ¬ pc.Holds row) : ¬ s.Holds p row := by
  rwa [Holds, hpc]

/-- A step between places at which no row is held. -/
lemma RowsInv.rows_setPc (hinv : RowsInv s) {pc : IoPc} (pc' : IoPc) (hpc : s.pc p = pc)
    (h : ∀ row, ¬ pc.Holds row) (h' : ∀ row, ¬ pc'.Holds row) :
    RowsEffect s (s.setPc p pc') p ∧ KeepsRows s (s.setPc p pc') p := by
  constructor
  · exact hinv.effect_setPc (fun _ => rfl) fun row hrow => absurd hrow (h' row)
  · apply keepsRows_of_lists
    · exact fun row hrow => absurd hrow (not_holds_of_pc hpc (h row))
    · exact fun _ hlists => hlists

lemma keepsRows_release {pc : IoPc} (hpc : ∀ r, s.Holds p r → r = row) :
    KeepsRows s (({ s with vfs := releaseFile s.vfs row } : FilesState φ).setPc p pc) p := by
  apply keepsRows_of_lists
  · intro r hr hrow
    exact absurd (hpc r hr) (releaseFile_inUse.mp hrow).2
  · exact fun _ h => h

/-- A step after which no row belongs to the process. -/
lemma RowsInv.effect_of_none (hinv : RowsInv s) (hsame : ∀ q ≠ p, SameProcess s s' q)
    (huse : ∀ row, s'.InUse row ↔ s.InUse row) (hnone : ∀ row, ¬ s'.Has p row) :
    RowsEffect s s' p :=
  hinv.effect_of_has hsame huse (fun row h => absurd h (hnone row))
    fun row h => absurd (.inl h) (hnone row)

lemma not_has_of_state (hpc : s.pc p = .gone) (hstate : (s.table p).state ≠ .running) :
    ¬ s.Has p row := by
  rintro (h | h)
  · exact not_holds_of_pc hpc id h
  · exact hstate h.1

/-- No row belongs to a process that starts. -/
lemma RowsInv.rows_spawn (hinv : RowsInv s) {pcb : Pcb} {pc : IoPc} (hgone : s.pc p = .gone)
    (hstate : (s.table p).state ≠ .running) (hpc : pc = .starting ∨ pc = .gone)
    (hempty : ∀ i, pcb.files i = -1) :
    RowsEffect s ((s.setPcb p pcb).setPc p pc) p ∧
      KeepsRows s ((s.setPcb p pcb).setPc p pc) p := by
  constructor
  · apply hinv.effect_of_none
    · exact fun q hq => (s.setPcb_same hq).setPc hq
    · exact fun _ => Iff.rfl
    · rintro row (h | ⟨-, i, hi⟩)
      · rw [Holds, setPc_pc] at h
        rcases hpc with rfl | rfl <;> exact h
      · have htable : ((s.setPcb p pcb).setPc p pc).table p = pcb := setPcb_table ..
        rw [htable, hempty] at hi
        omega
  · exact fun row h => absurd h (not_has_of_state hgone hstate)

/-- A step that takes a row. -/
lemma RowsInv.rows_reserve (hinv : RowsInv s) {vfs : VfsState φ} {pc : IoPc}
    (hrow : row < configMaxOpenFiles ∧ (s.vfs.files row).filesystem = none ∧
      (vfs.files row).filesystem ≠ none ∧
      ∀ r ≠ row, (vfs.files r).filesystem = (s.vfs.files r).filesystem)
    (hholds : ∀ r, ¬ s.Holds p r) (hpc : ∀ r, pc.Holds r ↔ row = r) :
    RowsEffect s ((s.takeRow row vfs).setPc p pc) p ∧
      KeepsRows s ((s.takeRow row vfs).setPc p pc) p := by
  obtain ⟨hlt, hfree, huse, hkeep⟩ := hrow
  have hfree' : ¬ s.InUse row := fun h => h hfree
  have hne : ∀ r, s.InUse r → r ≠ row := by
    rintro r h rfl
    exact hfree' h
  have huse' : ∀ r ≠ row, ((s.takeRow row vfs).setPc p pc).InUse r ↔ s.InUse r := by
    intro r hr
    exact iff_of_eq (congrArg (· ≠ none) (hkeep r hr))
  have hholds' : ∀ r, ((s.takeRow row vfs).setPc p pc).Holds p r ↔ row = r := by
    intro r
    rw [Holds, setPc_pc]
    exact hpc r
  refine ⟨⟨fun _ hq => ⟨rfl, rfl, Function.update_of_ne hq _ _, rfl⟩, ?_, ?_, ?_, ?_⟩, ?_⟩
  · intro r hr
    by_cases h : r = row
    · subst h
      exact .inr ⟨.inl ((hholds' r).mpr rfl), hlt⟩
    · exact .inl ((huse' r h).mp hr)
  · intro r hr
    exact .inl ((huse' r (hne r hr)).mpr hr)
  · rintro r (hr | hr)
    · obtain rfl := (hholds' r).mp hr
      exact ⟨huse, .inr hfree'⟩
    · have hlists : s.Lists p r := hr
      have hr := hinv.inUse p r (.inr hlists)
      exact ⟨(huse' r (hne r hr)).mpr hr, .inl (.inr hlists)⟩
  · intro r hr hlists
    obtain rfl := (hholds' r).mp hr
    exact hfree' (hinv.inUse p row (.inr hlists))
  · apply keepsRows_of_lists
    · exact fun r hr => absurd hr (hholds r)
    · exact fun _ h => h

/-- A row that is being opened goes to the array. -/
lemma RowsInv.rows_add (hinv : RowsInv s) {id : ℕ} {i : Fin configMaxOpenFiles}
    (hpc : s.pc p = .opened row id) (hrun : (s.table p).state = .running)
    (hfree : freeSlot (s.table p).files = some i) :
    RowsEffect s ((s.addHandle p row id).setPc p .user) p ∧
      KeepsRows s ((s.addHandle p row id).setPc p .user) p := by
  have hholds : ∀ r, s.Holds p r ↔ row = r := fun r => by
    rw [Holds, hpc]
    rfl
  have hnone : ∀ r, ¬ ((s.addHandle p row id).setPc p .user).Holds p r := fun r =>
    not_holds_of_pc (setPc_pc ..) not_false
  have hfiles : (((s.addHandle p row id).setPc p .user).table p).files =
      Function.update (s.table p).files i row := by
    rw [← processAddFile_some hfree]
    exact s.addHandle_files p row id
  have hstate : (((s.addHandle p row id).setPc p .user).table p).state = .running :=
    (s.addHandle_state p row id).trans hrun
  constructor
  · apply hinv.effect_of_has
    · exact fun q hq => (s.addHandle_same hq).setPc hq
    · exact fun _ => Iff.rfl
    · rintro r (h | ⟨-, j, hj⟩)
      · exact absurd h (hnone r)
      · rw [hfiles] at hj
        by_cases hji : j = i
        · subst hji
          rw [Function.update_self] at hj
          exact .inl ((hholds r).mpr (Int.ofNat_inj.mp hj))
        · rw [Function.update_of_ne hji] at hj
          exact .inr ⟨hrun, j, hj⟩
    · exact fun r h => absurd h (hnone r)
  · rintro r (h | ⟨-, j, hj⟩) -
    · obtain rfl := (hholds r).mp h
      exact .inr ⟨hstate, i, by rw [hfiles, Function.update_self]⟩
    · refine .inr ⟨hstate, j, ?_⟩
      have hji : j ≠ i := by
        rintro rfl
        have := freeSlot_some hfree
        omega
      rw [hfiles, Function.update_of_ne hji, hj]

/-- A row of the array goes to a call of `io_close`. -/
lemma RowsInv.rows_remove (hinv : RowsInv s) {file : ℤ} {i : Fin configMaxOpenFiles}
    (hpc : s.pc p = .user) (hrun : (s.table p).state = .running)
    (hslot : slotOf (s.table p).files file = some i)
    (honce : ∀ i j, (s.table p).files i ≠ -1 → (s.table p).files i = (s.table p).files j → i = j) :
    RowsEffect s ((s.setFiles p (processRemoveFile (s.table p).files file)).setPc p
      (.closing file)) p ∧
    KeepsRows s ((s.setFiles p (processRemoveFile (s.table p).files file)).setPc p
      (.closing file)) p := by
  have hi := slotOf_some hslot
  rw [processRemoveFile_some hslot]
  generalize hs' : (s.setFiles p (Function.update (s.table p).files i (-1))).setPc p
    (.closing file) = s'
  have hsame : ∀ q ≠ p, SameProcess s s' q := by
    subst hs'
    exact fun q hq => SameProcess.setPc (s.setPcb_same hq) hq
  have huse : ∀ r, s'.InUse r ↔ s.InUse r := by
    subst hs'
    exact fun _ => Iff.rfl
  have hholds : ∀ r : ℕ, s'.Holds p r ↔ file = r := by
    subst hs'
    intro r
    rw [Holds, setPc_pc]
    rfl
  have hlists : ∀ r : ℕ, s'.Lists p r ↔ ∃ j ≠ i, (s.table p).files j = r := by
    have htable : s'.table p =
        { s.table p with files := Function.update (s.table p).files i (-1) } := by
      subst hs'
      exact setPcb_table ..
    have hfiles : (s'.table p).files = Function.update (s.table p).files i (-1) := by rw [htable]
    have hstate : (s'.table p).state = .running := by rw [htable, hrun]
    intro r
    rw [FilesState.Lists, hfiles]
    constructor
    · rintro ⟨-, j, hj⟩
      have hji : j ≠ i := by
        rintro rfl
        rw [Function.update_self] at hj
        omega
      exact ⟨j, hji, by rwa [Function.update_of_ne hji] at hj⟩
    · rintro ⟨j, hji, hj⟩
      exact ⟨hstate, j, by rwa [Function.update_of_ne hji]⟩
  constructor
  · apply hinv.effect_of_has hsame huse
    · rintro r (h | h)
      · exact .inr ⟨hrun, i, hi.trans ((hholds r).mp h)⟩
      · obtain ⟨j, -, hj⟩ := (hlists r).mp h
        exact .inr ⟨hrun, j, hj⟩
    · intro r h h'
      obtain ⟨j, hji, hj⟩ := (hlists r).mp h'
      have hfile := (hholds r).mp h
      exact hji (honce j i (by omega) (by omega))
  · rintro r (h | ⟨-, j, hj⟩) -
    · exact absurd h (not_holds_of_pc hpc not_false)
    · by_cases hji : j = i
      · subst hji
        exact .inl ((hholds r).mpr (hi.symm.trans hj))
      · exact .inr ((hlists r).mpr ⟨j, hji, hj⟩)

/-- A process that finishes leaves behind what it has in its array. -/
lemma FilesInv.rows_finish (hinv : FilesInv s) (hrows : RowsInv s) {pcb : Pcb} {pid : ℤ}
    (hpc : s.pc p = .user) (hstate : pcb.state = .zombie)
    (hs' : s' = { s.setPc p .gone with
      table := processOrphan (Function.update s.table p pcb) pid }) :
    RowsEffect s s' p ∧ (KeepsRows s s' p ↔ ¬ ∃ i, (s.table p).files i ≠ -1) := by
  have hrun : (s.table p).state = .running := (hinv.process p).running (by rw [hpc]; simp)
  have huse : ∀ r, s'.InUse r ↔ s.InUse r := by
    subst hs'
    exact fun _ => Iff.rfl
  have hgone : s'.pc p = .gone := by
    subst hs'
    exact setPc_pc ..
  have hzombie : (s'.table p).state = .zombie := by
    subst hs'
    rw [(processOrphan_same _ pid p).1, Function.update_self, hstate]
  have hnone : ∀ r, ¬ s'.Has p r := fun r =>
    not_has_of_state hgone (by rw [hzombie]; simp)
  refine ⟨hrows.effect_of_none ?_ huse hnone, ?_⟩
  · subst hs'
    intro q hq
    have h := processOrphan_same (Function.update s.table p pcb) pid q
    rw [Function.update_of_ne hq] at h
    exact ⟨h.1, h.2, Function.update_of_ne hq _ _, rfl⟩
  constructor
  · rintro hkeeps ⟨i, hi⟩
    obtain ⟨row, hrow, hinuse, -⟩ := (hinv.process p).listed hrun i hi
    exact hnone row (hkeeps row (.inr ⟨hrun, i, hrow⟩) ((huse row).mpr hinuse))
  · rintro hempty r (h | ⟨-, i, hi⟩) -
    · exact absurd h (not_holds_of_pc hpc not_false)
    · exact absurd ⟨i, by omega⟩ hempty

lemma rows_of_keeps (hleaks : ¬ s.Leaks a) (h : RowsEffect s s' p ∧ KeepsRows s s' p) :
    ∃ p, RowsEffect s s' p ∧ (KeepsRows s s' p ↔ ¬ s.Leaks a) :=
  ⟨p, h.1, iff_of_true h.2 hleaks⟩

/-- What the steps do to the rows. -/
theorem FilesStep.rows (h : FilesStep s a s') (hfork : ¬ a.IsFork) (hinv : FilesInv s)
    (hrows : RowsInv s) : ∃ p, RowsEffect s s' p ∧ (KeepsRows s s' p ↔ ¬ s.Leaks a) := by
  cases h with
  | @spawn parent child executable thread hparent halloc =>
    have hfree := freeProcess_some halloc
    have hempty := (hinv.process child).empty hfree
    have hgone := hinv.gone (p := child) (by rw [hfree]; simp)
    exact rows_of_keeps not_false (hrows.rows_spawn hgone (by rw [hfree]; simp)
      (by cases thread <;> simp) hempty)
  | fork hpc halloc => exact absurd trivial hfork
  | @reserve p pathname volume filename row fs vfs hpc hpath hreserve =>
    have hholds : ∀ r, ¬ s.Holds p r := fun r => by
      rcases hpc with hpc | ⟨hpc, -⟩
      · exact not_holds_of_pc hpc id
      · exact not_holds_of_pc hpc id
    exact rows_of_keeps not_false (hrows.rows_reserve (reserveFile_spec hreserve) hholds fun _ => Iff.rfl)
  | @openFailed p row id fileid hpc hfailed =>
    have hholds : ∀ r, s.Holds p r ↔ row = r := fun r => by
      rw [Holds, hpc]
      rfl
    exact rows_of_keeps not_false ⟨hrows.effect_release ((hholds row).mpr rfl),
      keepsRows_release fun r hr => ((hholds r).mp hr).symm⟩
  | @openDone p row id loader fileid hpc hdone =>
    have hholds : ∀ r, s.Holds p r ↔ row = r := fun r => by
      rw [Holds, hpc]
      rfl
    refine rows_of_keeps not_false ⟨hrows.effect_setPc (fillFile_filesystem s.vfs row fileid)
      fun r hr => ?_, keepsRows_of_lists (fun r hr _ => ?_) fun _ h => h⟩
    · rw [hholds]
      cases loader <;> exact hr
    · left
      rw [Holds, setPc_pc]
      cases loader <;> exact (hholds r).mp hr
  | @add p row id hpc =>
    obtain ⟨i, hfree⟩ := hinv.freeSlot_isSome hrows (.inr hpc)
    exact rows_of_keeps not_false
      (hrows.rows_add hpc ((hinv.process p).running (by rw [hpc]; simp)) hfree)
  | @loaded p row hpc =>
    have hholds : s.Holds p row := by
      rw [Holds, hpc]
      rfl
    refine ⟨p, hrows.effect_setPc (fun _ => rfl) fun _ h => h.elim, iff_of_false ?_ ?_⟩
    · intro hkeeps
      rcases hkeeps row (.inl hholds) (hrows.inUse p row (.inl hholds)) with h | h
      · exact not_holds_of_pc (setPc_pc ..) id h
      · exact hrows.apart p row hholds h
    · exact not_not_intro trivial
  | @remove p file hpc hopen =>
    obtain ⟨i, hslot⟩ := Option.isSome_iff_exists.mp hopen
    exact rows_of_keeps not_false
      (hrows.rows_remove hpc ((hinv.process p).running (by rw [hpc]; simp)) hslot
        (hinv.process p).once)
  | @close p file row fs hpc hopen =>
    obtain ⟨rfl, -⟩ := Fs.vfsVerifyOpen_some hopen
    have hholds : ∀ r, s.Holds p r ↔ (row : ℤ) = r := fun r => by
      rw [Holds, hpc]
      rfl
    exact rows_of_keeps not_false ⟨hrows.effect_release ((hholds row).mpr rfl),
      keepsRows_release fun r hr => (Int.ofNat_inj.mp ((hholds r).mp hr)).symm⟩
  | @closeFailed p file hpc hopen =>
    refine rows_of_keeps not_false ⟨hrows.effect_setPc (fun _ => rfl) fun _ h => h.elim, ?_⟩
    apply keepsRows_of_lists
    · intro r hr hrow
      rw [Holds, hpc] at hr
      exact absurd (vfsVerifyOpen_none hopen hr (hrows.bound r hrow)) hrow
    · exact fun _ h => h
  | @check p file hpc hopen =>
    exact rows_of_keeps not_false (hrows.rows_setPc (.acting file) hpc (fun _ => id) fun _ => id)
  | @verify p file row fs hpc hopen =>
    exact rows_of_keeps not_false (hrows.rows_setPc (.verified row) hpc (fun _ => id) fun _ => id)
  | @verifyFailed p file hpc hopen =>
    exact rows_of_keeps not_false (hrows.rows_setPc .user hpc (fun _ => id) fun _ => id)
  | @move p row seekPosition hpc =>
    refine rows_of_keeps (p := p) not_false ⟨?_, fun _ h _ => h⟩
    apply hrows.effect_of_has
    · exact fun _ _ => ⟨rfl, rfl, rfl, rfl⟩
    · intro r
      exact iff_of_eq (congrArg (· ≠ none) (setSeek_filesystem s.vfs row seekPosition r))
    · exact fun _ h => h
    · exact fun r h => absurd h (not_holds_of_pc hpc id)
  | @«return» p row hpc =>
    exact rows_of_keeps not_false (hrows.rows_setPc .user hpc (fun _ => id) fun _ => id)
  | @finish p retval hpc =>
    exact ⟨p, hinv.rows_finish hrows hpc rfl rfl⟩
  | @join p child hpc hparent hzombie =>
    have hgone := hinv.gone (p := child) (by rw [hzombie]; simp)
    refine rows_of_keeps (p := child) not_false ?_
    constructor
    · apply hrows.effect_of_none (fun _ => s.setPcb_same) (fun _ => Iff.rfl)
      intro row
      exact @not_has_of_state _ (s.setPcb _ _) _ _ hgone (by rw [setPcb_table]; simp)
    · exact fun row h => absurd h (not_has_of_state hgone (by rw [hzombie]; simp))

/-! ### Runs -/

/-- A step of a run without `process_fork` that leaves no row behind. -/
def KeepsFiles (s : FilesState φ) (a : FilesAction) : Prop := ¬ a.IsFork ∧ ¬ s.Leaks a

lemma NoFiles.rows (h : NoFiles s) : RowsInv s ∧ s.Accounted := by
  have hnone : ∀ p row, ¬ s.Has p row := by
    rintro p row (hp | ⟨-, i, hi⟩)
    · rcases h.pc p with hpc | ⟨hpc, -⟩
      · exact not_holds_of_pc hpc not_false hp
      · exact not_holds_of_pc hpc not_false hp
    · rw [h.empty p i] at hi
      omega
  exact ⟨{
    bound := fun row hrow => absurd hrow (h.unused row)
    inUse := fun p row hp => absurd hp (hnone p row)
    alone := fun p _ row hp => absurd hp (hnone p row)
    apart := fun p row hp => absurd (.inl hp) (hnone p row) },
    fun row hrow => absurd hrow (h.unused row)⟩

/-- The rows are accounted for after a step if and only if it is none of the steps that leave a row
behind. -/
lemma FilesStep.accounted_iff (h : FilesStep s a s') (hfork : ¬ a.IsFork) (hinv : FilesInv s)
    (hrows : RowsInv s) (hacc : s.Accounted) : s'.Accounted ↔ ¬ s.Leaks a := by
  obtain ⟨p, heffect, hkeeps⟩ := h.rows hfork hinv hrows
  exact (heffect.accounted_iff hrows hacc).trans hkeeps

lemma FilesRun.inv {s₀ : FilesState φ} (hstart : NoFiles s₀) (hrun : FilesRun KeepsFiles s₀ s) :
    FilesInv s ∧ RowsInv s ∧ s.Accounted := by
  induction hrun with
  | refl => exact ⟨hstart.inv, hstart.rows⟩
  | tail _ hstep ih =>
    obtain ⟨a, hstep, hfork, hleaks⟩ := hstep
    obtain ⟨hinv, hrows, hacc⟩ := ih
    obtain ⟨p, heffect, -⟩ := hstep.rows hfork hinv hrows
    exact ⟨hinv.step hstep hrows.closesUnshared, hrows.step heffect,
      (hstep.accounted_iff hfork hinv hrows hacc).mpr hleaks⟩

/-- In every run without `process_fork` in which no process goes to userland from `process_start`
and no process finishes with open files, each row in use belongs to a call in progress or to the
array of a running process; the first of these steps leaves a row behind. -/
theorem rows_accounted {s₀ : FilesState φ} (hstart : NoFiles s₀)
    (hrun : FilesRun KeepsFiles s₀ s) :
    s.Accounted ∧ ∀ a s', FilesStep s a s' → ¬ a.IsFork → (s'.Accounted ↔ ¬ s.Leaks a) := by
  obtain ⟨hinv, hrows, hacc⟩ := hrun.inv hstart
  exact ⟨hacc, fun a s' hstep hfork => hstep.accounted_iff hfork hinv hrows hacc⟩

/-- The executable of the first process is open and read. -/
lemma boot_loading : ∃ s : FilesState Unit, FilesRun KeepsFiles boot s ∧ s.pc 0 = .loading 0 := by
  refine ⟨?_, ?run, ?pc⟩
  case run =>
    refine .head ⟨_, @FilesStep.spawn _ _ (-1) 0 (bootPath 'x') true (.inl rfl)
      (by decide +kernel), not_false, not_false⟩ ?_
    refine .head ⟨_, @FilesStep.reserve_first _ _ 0 0 (bootPath 'x') ['a'.toUInt8] ['x'.toUInt8]
      () (.inr (by decide +kernel)) rfl (by decide +kernel) rfl, not_false, not_false⟩ ?_
    refine .head ⟨_, @FilesStep.openDone _ _ 0 0 0 true 3 (by decide +kernel) (by decide),
      not_false, not_false⟩ ?_
    exact .refl
  case pc => decide +kernel

/-- While the executable of the first process is read, its row belongs to the process. -/
theorem rows_accounted_loading :
    ∃ s : FilesState Unit, FilesRun KeepsFiles boot s ∧ s.pc 0 = .loading 0 ∧ s.Accounted := by
  obtain ⟨s, hrun, hpc⟩ := boot_loading
  exact ⟨s, hrun, hpc, (rows_accounted boot_noFiles hrun).1⟩

/-- When the first process has started, the row of its executable is in use and belongs to none. -/
theorem executable_row_lost :
    ∃ s : FilesState Unit, FilesRun (fun _ a => ¬ a.IsFork) boot s ∧ s.pc 0 = .user ∧
      ¬ s.Accounted := by
  obtain ⟨s, hrun, hpc⟩ := boot_loading
  obtain ⟨hinv, hrows, hacc⟩ := hrun.inv boot_noFiles
  have hstep : FilesStep s (.loaded 0) (s.setPc 0 .user) := .loaded hpc
  refine ⟨_, .tail ?_ ⟨_, hstep, not_false⟩, setPc_pc .., ?_⟩
  · refine Relation.ReflTransGen.mono ?_ _ _ hrun
    rintro x y ⟨a, h, hfork, -⟩
    exact ⟨a, h, hfork⟩
  · intro hacc'
    exact (hstep.accounted_iff not_false hinv hrows hacc).mp hacc' trivial

end Osm.Proc
