import Osm.Proc.Files

/-!
# Handles stay bound to their files

A handle in the array of a process is the number of a row, and `process_fork` copies it without
taking the row a second time. As long as no row is given back that another process has, every
handle of a running process is the one of the open from which the process or an ancestor got it.
-/

namespace Osm.Proc

open Osm.Fs (VfsState vfsParsePathname reserveFile releaseFile fillFile vfsVerifyOpen)

variable {φ : Type} {s s' : FilesState φ} {p q : Pid} {row : ℕ}

namespace FilesState

/-- A process has a row in its array, or a call of it has just taken the row. -/
def Refers (s : FilesState φ) (p : Pid) (row : ℕ) : Prop :=
  s.Lists p row ∨ ∃ id, s.Opens p row id

/-- A process is as before, except for its parent, its executable and its memory. -/
structure SameProcess (s s' : FilesState φ) (p : Pid) : Prop where
  state : (s'.table p).state = (s.table p).state
  files : (s'.table p).files = (s.table p).files
  pc    : s'.pc p = s.pc p
  ids   : s'.ids p = s.ids p

namespace SameProcess

lemma lists_iff (h : SameProcess s s' p) : s'.Lists p row ↔ s.Lists p row := by
  rw [Lists, Lists, h.state, h.files]

lemma opens_iff (h : SameProcess s s' p) {id : ℕ} : s'.Opens p row id ↔ s.Opens p row id := by
  rw [Opens, Opens, h.pc]

lemma refers_iff (h : SameProcess s s' p) : s'.Refers p row ↔ s.Refers p row := by
  simp only [Refers, h.lists_iff, h.opens_iff]

end SameProcess

/-- A row is open for the same as before. -/
def SameRow (s s' : FilesState φ) (row : ℕ) : Prop :=
  (s'.InUse row ↔ s.InUse row) ∧ s'.opener row = s.opener row

end FilesState

open FilesState

/-- What holds for a single process: the files in its array are in use and from the opens that it
got them from, each is in one slot only, and the call in progress has a row of its own or one of
the array. -/
structure ProcessInv (s : FilesState φ) (p : Pid) : Prop where
  listed   : (s.table p).state = .running → ∀ i, (s.table p).files i ≠ -1 →
    ∃ row : ℕ, (s.table p).files i = row ∧ s.InUse row ∧ s.opener row = s.ids p i
  once     : ∀ i j, (s.table p).files i ≠ -1 → (s.table p).files i = (s.table p).files j → i = j
  opens    : ∀ row id, s.Opens p row id → s.InUse row ∧ s.opener row = id ∧ ¬ s.Lists p row
  running  : s.pc p ≠ .gone → (s.table p).state = .running
  acting   : ∀ file, s.pc p = .acting file → ∃ i, (s.table p).files i = file
  verified : ∀ row, s.pc p = .verified row → ∃ i, (s.table p).files i = row
  empty    : (s.table p).state = .free → ∀ i, (s.table p).files i = -1

/-- The invariant of runs: in addition, no other process refers to a row that is being opened. -/
structure FilesInv (s : FilesState φ) : Prop where
  process : ∀ p, ProcessInv s p
  apart   : ∀ p q row id, p ≠ q → s.Opens p row id → ¬ s.Refers q row

lemma ProcessInv.inUse_of_refers (h : ProcessInv s p) (hrefers : s.Refers p row) : s.InUse row := by
  rcases hrefers with ⟨hrun, i, hi⟩ | ⟨id, hopens⟩
  · obtain ⟨r, hr, huse, -⟩ := h.listed hrun i (by omega)
    obtain rfl : r = row := by omega
    exact huse
  · exact (h.opens row id hopens).1

/-- A process is not affected by what happens to other processes and other rows. -/
lemma ProcessInv.frame (h : ProcessInv s p) (hsame : SameProcess s s' p)
    (hrows : ∀ row, s.Refers p row → SameRow s s' row) : ProcessInv s' p where
  listed := by
    intro hrun i hi
    rw [hsame.state] at hrun
    rw [hsame.files] at hi ⊢
    obtain ⟨row, hrow, huse, hid⟩ := h.listed hrun i hi
    obtain ⟨huse', hid'⟩ := hrows row (.inl ⟨hrun, i, hrow⟩)
    exact ⟨row, hrow, huse'.mpr huse, by rw [hid', hid, hsame.ids]⟩
  once := by
    rw [hsame.files]
    exact h.once
  opens := by
    intro row id hopens
    have hopens := hsame.opens_iff.mp hopens
    obtain ⟨huse, hid, hlists⟩ := h.opens row id hopens
    obtain ⟨huse', hid'⟩ := hrows row (.inr ⟨id, hopens⟩)
    exact ⟨huse'.mpr huse, hid'.trans hid, fun hl => hlists (hsame.lists_iff.mp hl)⟩
  running := by
    rw [hsame.pc, hsame.state]
    exact h.running
  acting := by
    rw [hsame.pc, hsame.files]
    exact h.acting
  verified := by
    rw [hsame.pc, hsame.files]
    exact h.verified
  empty := by
    rw [hsame.state, hsame.files]
    exact h.empty

/-- A step of one process: it may touch rows that no other process refers to, and it may refer to
rows only that no other process is opening. -/
lemma FilesInv.frame (hinv : FilesInv s) (hsame : ∀ q ≠ p, SameProcess s s' q)
    (hrows : ∀ q ≠ p, ∀ row, s.Refers q row → SameRow s s' row) (hp : ProcessInv s' p)
    (hopens : ∀ row id, s'.Opens p row id → ∀ q ≠ p, ¬ s.Refers q row)
    (hlists : ∀ row, s'.Lists p row → ∀ q ≠ p, ∀ id, ¬ s.Opens q row id) : FilesInv s' where
  process q := by
    by_cases hq : q = p
    · exact hq ▸ hp
    · exact (hinv.process q).frame (hsame q hq) (hrows q hq)
  apart q r row id hne hq hr := by
    by_cases hqp : q = p
    · subst hqp
      exact hopens row id hq r hne.symm ((hsame r hne.symm).refers_iff.mp hr)
    have hq := (hsame q hqp).opens_iff.mp hq
    by_cases hrp : r = p
    · subst hrp
      rcases hr with hr | ⟨id', hr⟩
      · exact hlists row hr q hqp id hq
      · exact hopens row id' hr q hqp (.inr ⟨id, hq⟩)
    · exact hinv.apart q r row id hne hq ((hsame r hrp).refers_iff.mp hr)

/-! ### Parts of the steps -/

namespace FilesState

/-- A place at which a process is not opening a file and uses a file of its array only. -/
def Fits (s : FilesState φ) (p : Pid) : IoPc → Prop
  | .opening ..   => False
  | .opened ..    => False
  | .acting file  => ∃ i, (s.table p).files i = file
  | .verified row => ∃ i, (s.table p).files i = row
  | _             => True

lemma setPc_same (s : FilesState φ) {pc : IoPc} (hq : q ≠ p) : SameProcess s (s.setPc p pc) q :=
  ⟨rfl, rfl, Function.update_of_ne hq _ _, rfl⟩

lemma setPcb_same (s : FilesState φ) {pcb : Pcb} (hq : q ≠ p) :
    SameProcess s (s.setPcb p pcb) q := by
  have htable : (s.setPcb p pcb).table q = s.table q := Function.update_of_ne hq _ _
  exact ⟨by rw [htable], by rw [htable], rfl, rfl⟩

lemma SameProcess.setPc (h : SameProcess s s' q) {pc : IoPc} (hq : q ≠ p) :
    SameProcess s (s'.setPc p pc) q :=
  ⟨h.state, h.files, (Function.update_of_ne hq _ _).trans h.pc, h.ids⟩

@[simp]
lemma setPc_pc (s : FilesState φ) (p : Pid) (pc : IoPc) : (s.setPc p pc).pc p = pc :=
  Function.update_self ..

@[simp]
lemma setPcb_table (s : FilesState φ) (p : Pid) (pcb : Pcb) : (s.setPcb p pcb).table p = pcb :=
  Function.update_self ..

lemma Fits.not_opens {pc : IoPc} (h : s.Fits p pc) (hpc : s'.pc p = pc) {id : ℕ} :
    ¬ s'.Opens p row id := by
  rintro (⟨loader, hopens⟩ | hopens)
  · rw [hpc] at hopens
    subst hopens
    exact h
  · rw [hpc] at hopens
    subst hopens
    exact h

lemma not_opens_of_user (h : s.pc p = .user) {id : ℕ} : ¬ s.Opens p row id :=
  (show s.Fits p .user from trivial).not_opens h

end FilesState

/-- A step after which the process is not opening a file and has handles only that processes had
before it. -/
lemma FilesInv.inherit (hinv : FilesInv s) (hsame : ∀ q ≠ p, SameProcess s s' q)
    (hrows : ∀ row, SameRow s s' row) (hfits : s'.Fits p (s'.pc p))
    (hrun : s'.pc p ≠ .gone → (s'.table p).state = .running)
    (hfiles : (s'.table p).state = .running → ∀ i, (s'.table p).files i ≠ -1 →
      ∃ q j, (s.table q).state = .running ∧ (s.table q).files j = (s'.table p).files i ∧
        s.ids q j = s'.ids p i)
    (honce : ∀ i j, (s'.table p).files i ≠ -1 → (s'.table p).files i = (s'.table p).files j → i = j)
    (hempty : (s'.table p).state = .free → ∀ i, (s'.table p).files i = -1) : FilesInv s' := by
  apply hinv.frame hsame (fun _ _ row _ => hrows row)
  · exact {
      listed   := fun hstate i hi => by
        obtain ⟨q, j, hq, hfile, hid⟩ := hfiles hstate i hi
        obtain ⟨row, hrow, huse, hopener⟩ := (hinv.process q).listed hq j (hfile ▸ hi)
        obtain ⟨huse', hopener'⟩ := hrows row
        exact ⟨row, hfile ▸ hrow, huse'.mpr huse, hopener'.trans (hopener.trans hid)⟩
      once     := honce
      opens    := fun row id h => absurd h (hfits.not_opens rfl)
      running  := hrun
      acting   := fun file h => by
        rw [h] at hfits
        exact hfits
      verified := fun row h => by
        rw [h] at hfits
        exact hfits
      empty    := hempty }
  · intro row id h
    exact absurd h (hfits.not_opens rfl)
  · rintro row ⟨hstate, i, hi⟩ r hr id hopens
    obtain ⟨q, j, hq, hfile, -⟩ := hfiles hstate i (by omega)
    have hlists : s.Lists q row := ⟨hq, j, hfile.trans hi⟩
    by_cases hrq : r = q
    · subst hrq
      exact ((hinv.process r).opens row id hopens).2.2 hlists
    · exact hinv.apart r q row id hrq hopens (.inl hlists)

/-- Only running processes have threads. -/
lemma FilesInv.gone (hinv : FilesInv s) (hstate : (s.table p).state ≠ .running) :
    s.pc p = .gone := by
  by_contra h
  exact hstate ((hinv.process p).running h)

/-- The process goes on to a place at which it is not opening a file. -/
lemma FilesInv.setPc (hinv : FilesInv s) {pc : IoPc} (hrun : (s.table p).state = .running)
    (hfits : s.Fits p pc) : FilesInv (s.setPc p pc) := by
  have hp := hinv.process p
  have hpc := s.setPc_pc p pc
  apply hinv.inherit (fun _ => s.setPc_same) (fun _ => ⟨Iff.rfl, rfl⟩)
  · rw [hpc]
    exact hfits
  · exact fun _ => hrun
  · exact fun _ i _ => ⟨p, i, hrun, rfl, rfl⟩
  · exact hp.once
  · exact hp.empty

/-- The process has a row that no other process refers to. -/
lemma FilesInv.setOpens (hinv : FilesInv s) {pc : IoPc} {id : ℕ}
    (hpc : (∃ loader, pc = .opening row id loader) ∨ pc = .opened row id)
    (hrun : (s.table p).state = .running) (huse : s.InUse row) (hid : s.opener row = id)
    (hlists : ¬ s.Lists p row) (hfresh : ∀ q ≠ p, ¬ s.Refers q row) :
    FilesInv (s.setPc p pc) := by
  have hp := hinv.process p
  have hopens : ∀ r id', (s.setPc p pc).Opens p r id' → r = row ∧ id' = id := by
    intro r id' hopens
    rw [Opens] at hopens
    rw [setPc_pc] at hopens
    rcases hpc with ⟨loader, rfl⟩ | rfl
    · simpa [eq_comm] using hopens
    · simpa [eq_comm] using hopens
  apply hinv.frame (p := p) (fun _ => s.setPc_same) (fun _ _ _ _ => ⟨Iff.rfl, rfl⟩)
  · exact {
      listed   := hp.listed
      once     := hp.once
      opens    := fun r id' h => by
        obtain ⟨rfl, rfl⟩ := hopens r id' h
        exact ⟨huse, hid, hlists⟩
      running  := fun _ => hrun
      acting   := fun file h => by
        rw [setPc_pc] at h
        rcases hpc with ⟨loader, rfl⟩ | rfl <;> cases h
      verified := fun r h => by
        rw [setPc_pc] at h
        rcases hpc with ⟨loader, rfl⟩ | rfl <;> cases h
      empty    := hp.empty }
  · intro r id' h
    obtain ⟨rfl, -⟩ := hopens r id' h
    exact hfresh
  · intro r h q hq id' hq'
    exact hinv.apart q p r id' hq hq' (.inl h)

/-- All rows that some process refers to are kept. -/
lemma FilesInv.setVfs (hinv : FilesInv s) {vfs : VfsState φ}
    (h : ∀ q row, s.Refers q row → (vfs.files row).filesystem = (s.vfs.files row).filesystem) :
    FilesInv { s with vfs } where
  process q := (hinv.process q).frame ⟨rfl, rfl, rfl, rfl⟩ fun row hrow => by
    refine ⟨?_, rfl⟩
    rw [InUse, InUse, h q row hrow]
  apart := hinv.apart

lemma FilesInv.release (hinv : FilesInv s) (h : ∀ q, ¬ s.Refers q row) :
    FilesInv { s with vfs := releaseFile s.vfs row } := by
  apply hinv.setVfs
  intro q r hr
  apply releaseFile_ne
  rintro rfl
  exact h q hr

/-- When a process gives up the row that it opened, no process refers to the row. -/
lemma FilesInv.unshared_of_opens (hinv : FilesInv s) {id : ℕ} (h : s.Opens p row id)
    (q : Pid) : ¬ (s.setPc p .user).Refers q row := by
  intro hq
  by_cases hqp : q = p
  · subst hqp
    rcases hq with hq | ⟨id', hq⟩
    · exact ((hinv.process q).opens row id h).2.2 hq
    · exact not_opens_of_user (setPc_pc ..) hq
  · exact hinv.apart p q row id (Ne.symm hqp) h ((s.setPc_same hqp).refers_iff.mp hq)

/-- A row that is not in use is taken. -/
lemma FilesInv.takeRow (hinv : FilesInv s) {vfs : VfsState φ} (hfree : ¬ s.InUse row)
    (hkeep : ∀ r ≠ row, (vfs.files r).filesystem = (s.vfs.files r).filesystem) :
    FilesInv (s.takeRow row vfs) where
  process q := (hinv.process q).frame ⟨rfl, rfl, rfl, rfl⟩ fun r hr => by
    have hne : r ≠ row := by
      rintro rfl
      exact hfree ((hinv.process q).inUse_of_refers hr)
    refine ⟨?_, Function.update_of_ne hne _ _⟩
    rw [InUse, InUse]
    exact iff_of_eq (congrArg (· ≠ none) (hkeep r hne))
  apart := hinv.apart

namespace FilesState

lemma addHandle_same (s : FilesState φ) {id : ℕ} (hq : q ≠ p) :
    SameProcess s (s.addHandle p row id) q :=
  have h := @setPcb_same φ p q s _ hq
  ⟨h.state, h.files, h.pc, Function.update_of_ne hq _ _⟩

lemma addHandle_state (s : FilesState φ) (p : Pid) (row id : ℕ) :
    ((s.addHandle p row id).table p).state = (s.table p).state := by
  change ((s.setPcb p _).table p).state = _
  rw [setPcb_table]

lemma addHandle_files (s : FilesState φ) (p : Pid) (row id : ℕ) :
    ((s.addHandle p row id).table p).files = processAddFile (s.table p).files row := by
  change ((s.setPcb p _).table p).files = _
  rw [setPcb_table]

lemma addHandle_ids (s : FilesState φ) (p : Pid) (row id : ℕ) (i : Fin configMaxOpenFiles) :
    (s.addHandle p row id).ids p i =
      if freeSlot (s.table p).files = some i then id else s.ids p i := by
  change Function.update s.ids p _ p i = _
  rw [Function.update_self]

/-- What is in the slots after a handle is stored. -/
lemma addHandle_slot (s : FilesState φ) (p : Pid) (row id : ℕ) (i : Fin configMaxOpenFiles) :
    (((s.addHandle p row id).table p).files i = row ∧ (s.addHandle p row id).ids p i = id ∧
        freeSlot (s.table p).files = some i) ∨
      (((s.addHandle p row id).table p).files i = (s.table p).files i ∧
        (s.addHandle p row id).ids p i = s.ids p i) := by
  rw [addHandle_files, addHandle_ids]
  split_ifs with hslot
  · left
    rw [processAddFile_some hslot, Function.update_self]
    exact ⟨rfl, rfl, hslot⟩
  · right
    refine ⟨?_, rfl⟩
    cases h : freeSlot (s.table p).files with
    | none => rw [processAddFile_none h]
    | some j =>
      rw [processAddFile_some h, Function.update_of_ne]
      rintro rfl
      exact hslot h

end FilesState

/-- A handle is stored that no process has. -/
lemma FilesInv.addHandle (hinv : FilesInv s) {id : ℕ} (hpc : s.pc p = .user) (huse : s.InUse row)
    (hid : s.opener row = id) (hfresh : ∀ q, ¬ s.Refers q row) :
    FilesInv (s.addHandle p row id) := by
  have hp := hinv.process p
  have hrun : (s.table p).state = .running := hp.running (by rw [hpc]; simp)
  have hslot := s.addHandle_slot p row id
  have hnone : ∀ i, (s.table p).files i ≠ row := fun i hi => hfresh p (.inl ⟨hrun, i, hi⟩)
  have hlists : ∀ r, (s.addHandle p row id).Lists p r → r = row ∨ s.Lists p r := by
    rintro r ⟨-, i, hi⟩
    rcases hslot i with ⟨hrow, -, -⟩ | ⟨hfile, -⟩
    · left
      omega
    · exact .inr ⟨hrun, i, hfile ▸ hi⟩
  apply hinv.frame (p := p) (fun _ => s.addHandle_same) (fun _ _ _ _ => ⟨Iff.rfl, rfl⟩)
  · exact {
      listed   := fun _ i hi => by
        rcases hslot i with ⟨hrow, hid', -⟩ | ⟨hfile, hid'⟩
        · exact ⟨row, hrow, huse, hid.trans hid'.symm⟩
        · rw [hfile] at hi ⊢
          rw [hid']
          exact hp.listed hrun i hi
      once     := fun i j hi hij => by
        rcases hslot i with ⟨hrow, -, hfree⟩ | ⟨hfile, -⟩ <;>
          rcases hslot j with ⟨hrow', -, hfree'⟩ | ⟨hfile', -⟩
        · exact Option.some.inj (hfree.symm.trans hfree')
        · exact absurd (by rw [← hfile', ← hij, hrow]) (hnone j)
        · exact absurd (by rw [← hfile, hij, hrow']) (hnone i)
        · rw [hfile] at hi hij
          exact hp.once i j hi (hfile' ▸ hij)
      opens    := fun r id' h => absurd h (not_opens_of_user hpc)
      running  := fun _ => by rw [addHandle_state, hrun]
      acting   := fun file h => by cases hpc.symm.trans h
      verified := fun r h => by cases hpc.symm.trans h
      empty    := fun h => by rw [addHandle_state, hrun] at h; cases h }
  · intro r id' h
    exact absurd h (not_opens_of_user hpc)
  · intro r h q hq id' hopens
    rcases hlists r h with rfl | h
    · exact hfresh q (.inr ⟨id', hopens⟩)
    · exact hinv.apart q p r id' hq hopens (.inl h)

/-- Handles are taken out of the array. -/
lemma FilesInv.setFiles (hinv : FilesInv s) {file : ℤ} (hpc : s.pc p = .closing file)
    {files : Files} (hfiles : ∀ i, files i ≠ -1 → files i = (s.table p).files i) :
    FilesInv (s.setFiles p files) := by
  have hp := hinv.process p
  have hrun : (s.table p).state = .running := hp.running (by rw [hpc]; simp)
  have htable : (s.setFiles p files).table p = { s.table p with files } := setPcb_table ..
  have hsame : ∀ q ≠ p, SameProcess s (s.setFiles p files) q := fun _ => s.setPcb_same
  apply hinv.inherit hsame (fun _ => ⟨Iff.rfl, rfl⟩)
  · change (s.setFiles p files).Fits p (s.pc p)
    rw [hpc]
    trivial
  · rw [htable]
    exact fun _ => hrun
  · rw [htable]
    exact fun _ i hi => ⟨p, i, hrun, (hfiles i hi).symm, rfl⟩
  · rw [htable]
    intro i j (hi : files i ≠ -1) (hij : files i = files j)
    have hj : files j ≠ -1 := hij ▸ hi
    apply hp.once i j
    · exact hfiles i hi ▸ hi
    · exact (hfiles i hi).symm.trans (hij.trans (hfiles j hj))
  · rw [htable]
    intro hfree
    cases hrun.symm.trans hfree

/-- A new process gets the handles of another process, or none. -/
lemma FilesInv.start (hinv : FilesInv s) {pcb : Pcb} {pc : IoPc}
    {ids : Pid → Fin configMaxOpenFiles → ℕ} (hids : ∀ q ≠ p, ids q = s.ids q)
    (hstate : pcb.state = .running) (hpc : pc = .starting ∨ pc = .user ∨ pc = .gone)
    (hfiles : ∀ i, pcb.files i ≠ -1 → ∃ q j, (s.table q).state = .running ∧
      (s.table q).files j = pcb.files i ∧ s.ids q j = ids p i)
    (honce : ∀ i j, pcb.files i ≠ -1 → pcb.files i = pcb.files j → i = j) :
    FilesInv { (s.setPcb p pcb).setPc p pc with ids } := by
  have htable : ((s.setPcb p pcb).setPc p pc).table p = pcb := s.setPcb_table p pcb
  have hsame : ∀ q ≠ p, SameProcess s { (s.setPcb p pcb).setPc p pc with ids } q := by
    intro q hq
    have h := @setPcb_same φ p q s pcb hq
    exact ⟨h.state, h.files, Function.update_of_ne hq _ _, hids q hq⟩
  apply hinv.inherit hsame (fun _ => ⟨Iff.rfl, rfl⟩)
  · change FilesState.Fits _ p (((s.setPcb p pcb).setPc p pc).pc p)
    rw [setPc_pc]
    rcases hpc with rfl | rfl | rfl <;> trivial
  · rw [htable]
    exact fun _ => hstate
  · rw [htable]
    exact fun _ => hfiles
  · rw [htable]
    exact honce
  · rw [htable]
    intro hfree
    cases hstate.symm.trans hfree

/-- A process that does not run any more, or whose slot is cleared. -/
lemma FilesInv.stop (hinv : FilesInv s) (hsame : ∀ q ≠ p, SameProcess s s' q)
    (hrows : ∀ row, SameRow s s' row) (hpc : s'.pc p = .gone)
    (hstate : (s'.table p).state ≠ .running)
    (hfiles : (s'.table p).files = (s.table p).files ∧ (s'.table p).state ≠ .free ∨
      ∀ i, (s'.table p).files i = -1) : FilesInv s' := by
  apply hinv.inherit hsame hrows
  · rw [hpc]
    trivial
  · exact fun h => absurd hpc h
  · exact fun h => absurd h hstate
  · rcases hfiles with ⟨hfiles, -⟩ | hempty
    · rw [hfiles]
      exact (hinv.process p).once
    · exact fun i j hi => absurd (hempty i) hi
  · rcases hfiles with ⟨-, hfree⟩ | hempty
    · exact fun h => absurd h hfree
    · exact fun _ => hempty

lemma FilesInv.finish (hinv : FilesInv s) {pcb : Pcb} {pid : ℤ} (hstate : pcb.state = .zombie)
    (hfiles : pcb.files = (s.table p).files) :
    FilesInv { s.setPc p .gone with
      table := processOrphan (Function.update s.table p pcb) pid } := by
  have hself : Function.update s.table p pcb p = pcb := Function.update_self ..
  apply hinv.stop (p := p)
  · intro q hq
    have hne : Function.update s.table p pcb q = s.table q := Function.update_of_ne hq _ _
    have h := processOrphan_same (Function.update s.table p pcb) pid q
    rw [hne] at h
    exact ⟨h.1, h.2, Function.update_of_ne hq _ _, rfl⟩
  · exact fun _ => ⟨Iff.rfl, rfl⟩
  · exact setPc_pc ..
  · rw [(processOrphan_same _ pid p).1, hself, hstate]
    simp
  · left
    rw [(processOrphan_same _ pid p).1, (processOrphan_same _ pid p).2, hself, hstate]
    exact ⟨hfiles, by simp⟩

/-! ### Runs -/

/-- When `vfs_close` releases a row for `io_close`, no process refers to the row. -/
def FilesState.ClosesUnshared (s : FilesState φ) (a : FilesAction) : Prop :=
  ∀ p (row : ℕ), a = .close p → s.pc p = .closing row → ∀ q, ¬ s.Refers q row

theorem FilesInv.step {a : FilesAction} (hinv : FilesInv s) (h : FilesStep s a s')
    (hclose : s.ClosesUnshared a) : FilesInv s' := by
  have hrun : ∀ {p pc}, s.pc p = pc → pc ≠ .gone → (s.table p).state = .running :=
    fun hpc hne => (hinv.process _).running (hpc ▸ hne)
  cases h with
  | @spawn parent child executable thread hparent halloc =>
    have hempty := (hinv.process child).empty (freeProcess_some halloc)
    apply hinv.start (fun _ _ => rfl) rfl
    · cases thread
      · exact .inr (.inr rfl)
      · exact .inl rfl
    · exact fun i hi => absurd (hempty i) hi
    · exact fun i _ hi => absurd (hempty i) hi
  | @fork p child thread hpc halloc =>
    apply hinv.start (fun _ hq => Function.update_of_ne hq _ _) rfl
    · cases thread
      · exact .inr (.inr rfl)
      · exact .inr (.inl rfl)
    · intro i _
      exact ⟨p, i, hrun hpc (by simp), rfl, by rw [Function.update_self]⟩
    · exact (hinv.process p).once
  | @reserve p pathname volume filename row fs vfs hpc hpath hreserve =>
    obtain ⟨-, hfree, huse, hkeep⟩ := reserveFile_spec hreserve
    have hunused : ¬ s.InUse row := fun h => h hfree
    have hfresh : ∀ q, ¬ s.Refers q row := fun q h =>
      hunused ((hinv.process q).inUse_of_refers h)
    have hrunning : (s.table p).state = .running := by
      rcases hpc with hpc | ⟨hpc, -⟩
      · exact hrun hpc (by simp)
      · exact hrun hpc (by simp)
    apply (hinv.takeRow hunused hkeep).setOpens (.inl ⟨_, rfl⟩) hrunning huse
    · exact Function.update_self ..
    · exact fun h => hfresh p (.inl h)
    · exact fun q _ => hfresh q
  | @openFailed p row id fileid hpc hfailed =>
    have hopens : s.Opens p row id := .inl ⟨false, hpc⟩
    have huser : FilesInv (s.setPc p .user) := hinv.setPc (hrun hpc (by simp)) trivial
    exact huser.release (hinv.unshared_of_opens hopens)
  | @openDone p row id loader fileid hpc hdone =>
    have hopens : s.Opens p row id := .inl ⟨loader, hpc⟩
    obtain ⟨huse, hid, hlists⟩ := (hinv.process p).opens row id hopens
    have hfill : FilesInv { s with vfs := fillFile s.vfs row fileid } :=
      hinv.setVfs fun _ r _ => fillFile_filesystem ..
    cases loader with
    | false =>
      apply hfill.setOpens (.inr rfl) (hrun hpc (by simp)) _ hid hlists
      · exact fun q hq => hinv.apart p q row id hq.symm hopens
      · rw [InUse, fillFile_filesystem]
        exact huse
    | true => exact hfill.setPc (hrun hpc (by simp)) trivial
  | @add p row id hpc =>
    have hopens : s.Opens p row id := .inr hpc
    obtain ⟨huse, hid, -⟩ := (hinv.process p).opens row id hopens
    have huser : FilesInv (s.setPc p .user) := hinv.setPc (hrun hpc (by simp)) trivial
    exact huser.addHandle (setPc_pc ..) huse hid (hinv.unshared_of_opens hopens)
  | @loaded p row hpc => exact hinv.setPc (hrun hpc (by simp)) trivial
  | @remove p file hpc hopen =>
    have hclosing : FilesInv (s.setPc p (.closing file)) :=
      hinv.setPc (hrun hpc (by simp)) trivial
    apply hclosing.setFiles (setPc_pc ..)
    exact fun i hi => (processRemoveFile_slot _ file i).resolve_left hi
  | @close p file row fs hpc hopen =>
    obtain ⟨rfl, -⟩ := Fs.vfsVerifyOpen_some hopen
    have huser : FilesInv (s.setPc p .user) := hinv.setPc (hrun hpc (by simp)) trivial
    apply huser.release
    intro q hq
    apply hclose p row rfl hpc q
    by_cases hqp : q = p
    · subst hqp
      rcases hq with hq | ⟨id, hq⟩
      · exact .inl hq
      · exact absurd hq (not_opens_of_user (setPc_pc ..))
    · exact (s.setPc_same hqp).refers_iff.mp hq
  | closeFailed hpc hopen => exact hinv.setPc (hrun hpc (by simp)) trivial
  | check hpc hopen =>
    exact hinv.setPc (hrun hpc (by simp)) (processHasOpenFile_iff.mp hopen)
  | @verify p file row fs hpc hopen =>
    obtain ⟨rfl, -⟩ := Fs.vfsVerifyOpen_some hopen
    exact hinv.setPc (hrun hpc (by simp)) ((hinv.process p).acting _ hpc)
  | verifyFailed hpc hopen => exact hinv.setPc (hrun hpc (by simp)) trivial
  | @move p row seekPosition hpc =>
    exact hinv.setVfs fun _ r _ => setSeek_filesystem ..
  | «return» hpc => exact hinv.setPc (hrun hpc (by simp)) trivial
  | @finish p retval hpc => exact hinv.finish rfl rfl
  | @join p child hpc hparent hzombie =>
    have hgone := hinv.gone (p := child) (by rw [hzombie]; simp)
    have htable := s.setPcb_table child { heapEnd := (s.table child).heapEnd }
    apply hinv.stop (fun _ => s.setPcb_same) (fun _ => ⟨Iff.rfl, rfl⟩) hgone
    · rw [htable]
      simp
    · right
      rw [htable]
      exact fun _ => rfl

lemma NoFiles.inv (h : NoFiles s) : FilesInv s := by
  have hopens : ∀ p row id, ¬ s.Opens p row id := by
    intro p row id hopens
    have hfits : s.Fits p (s.pc p) := by
      rcases h.pc p with hpc | ⟨hpc, -⟩ <;> rw [hpc] <;> trivial
    exact hfits.not_opens rfl hopens
  refine ⟨fun p => ?_, fun p _ row id _ h => absurd h (hopens p row id)⟩
  exact {
    listed   := fun _ i hi => absurd (h.empty p i) hi
    once     := fun i _ hi => absurd (h.empty p i) hi
    opens    := fun row id h => absurd h (hopens p row id)
    running  := fun hpc => ((h.pc p).resolve_left hpc).2
    acting   := fun _ hpc => by rcases h.pc p with hpc' | ⟨hpc', -⟩ <;> cases hpc'.symm.trans hpc
    verified := fun _ hpc => by rcases h.pc p with hpc' | ⟨hpc', -⟩ <;> cases hpc'.symm.trans hpc
    empty    := fun _ => h.empty p }

/-- In every run in which `io_close` closes no row that another process has in its array or is
opening, each file in the array of a running process is in use and from the open that the process,
or the one it inherited the file from, did; also the file on which a call of the process acts. -/
theorem handles_bound {s₀ : FilesState φ} (hstart : NoFiles s₀)
    (hrun : FilesRun ClosesUnshared s₀ s) :
    (∀ p i, (s.table p).state = .running → (s.table p).files i ≠ -1 →
      ∃ row : ℕ, (s.table p).files i = row ∧ s.InUse row ∧ s.opener row = s.ids p i) ∧
    ∀ p row, s.pc p = .verified row →
      ∃ i, (s.table p).files i = row ∧ s.InUse row ∧ s.opener row = s.ids p i := by
  have hinv : FilesInv s := by
    induction hrun with
    | refl => exact hstart.inv
    | tail _ hstep ih =>
      obtain ⟨a, hstep, hclose⟩ := hstep
      exact ih.step hstep hclose
  refine ⟨fun p i hrun hi => (hinv.process p).listed hrun i hi, fun p row hpc => ?_⟩
  obtain ⟨i, hi⟩ := (hinv.process p).verified row hpc
  have hrun := (hinv.process p).running (by rw [hpc]; simp)
  obtain ⟨r, hr, huse, hid⟩ := (hinv.process p).listed hrun i (by omega)
  obtain rfl : r = row := by omega
  exact ⟨i, hi, huse, hid⟩

/-- The first process opens a file, which gets row 1, and begins to read from it. -/
theorem handles_bound_reading :
    ∃ s : FilesState Unit, FilesRun ClosesUnshared boot s ∧ s.pc 0 = .verified 1 ∧
      ∃ i, (s.table 0).files i = (1 : ℕ) ∧ s.InUse 1 ∧ s.opener 1 = s.ids 0 i := by
  have hother : ∀ {s : FilesState Unit} {a : FilesAction}, (∀ p, a ≠ .close p) →
      s.ClosesUnshared a := fun h p _ ha => absurd ha (h p)
  have hrun : ∃ s : FilesState Unit, FilesRun ClosesUnshared boot s ∧ s.pc 0 = .verified 1 := by
    refine ⟨?_, ?run, ?pc⟩
    case run =>
      refine .head ⟨_, @FilesStep.spawn _ _ (-1) 0 (bootPath 'x') true (.inl rfl)
        (by decide +kernel), hother (by simp)⟩ ?_
      refine .head ⟨_, @FilesStep.reserve_first _ _ 0 0 (bootPath 'x') ['a'.toUInt8] ['x'.toUInt8]
        () (.inr (by decide +kernel)) rfl (by decide +kernel) rfl, hother (by simp)⟩ ?_
      refine .head ⟨_, @FilesStep.openDone _ _ 0 0 0 true 3 (by decide +kernel) (by decide),
        hother (by simp)⟩ ?_
      refine .head ⟨_, @FilesStep.loaded _ _ 0 0 (by decide +kernel), hother (by simp)⟩ ?_
      refine .head ⟨_, @FilesStep.reserve_first _ _ 1 0 (bootPath 'f') ['a'.toUInt8] ['f'.toUInt8]
        () (.inl (by decide +kernel)) rfl (by decide +kernel) rfl, hother (by simp)⟩ ?_
      refine .head ⟨_, @FilesStep.openDone _ _ 0 1 1 false 5 (by decide +kernel) (by decide),
        hother (by simp)⟩ ?_
      refine .head ⟨_, @FilesStep.add _ _ 0 1 1 (by decide +kernel), hother (by simp)⟩ ?_
      refine .head ⟨_, @FilesStep.check _ _ 0 1 (by decide +kernel) (by decide +kernel),
        hother (by simp)⟩ ?_
      refine .head ⟨_, @FilesStep.verify _ _ 0 1 1 () (by decide +kernel) (by decide +kernel),
        hother (by simp)⟩ ?_
      exact .refl
    case pc => decide +kernel
  obtain ⟨s, hrun, hpc⟩ := hrun
  exact ⟨s, hrun, hpc, (handles_bound boot_noFiles hrun).2 0 1 hpc⟩

/-- The first process opens a file, which gets row 2, and forks. The new process closes the file,
and a process that is not related to it opens another one. The first process then reads from the
row as if it still was the file that it opened. -/
theorem handle_of_closed_file :
    ∃ s : FilesState Unit, FilesRun (fun _ _ => True) boot s ∧ (s.table 0).state = .running ∧
      (s.table 0).files 0 = 2 ∧ s.pc 0 = .verified 2 ∧ s.opener 2 ≠ s.ids 0 0 ∧
      s.pc 1 = .opened 2 (s.opener 2) := by
  refine ⟨?_, ?run, ?facts⟩
  case run =>
    refine .head ⟨_, @FilesStep.spawn _ _ (-1) 0 (bootPath 'x') true (.inl rfl)
      (by decide +kernel), trivial⟩ ?_
    refine .head ⟨_, @FilesStep.reserve_first _ _ 0 0 (bootPath 'x') ['a'.toUInt8] ['x'.toUInt8]
      () (.inr (by decide +kernel)) rfl (by decide +kernel) rfl, trivial⟩ ?_
    refine .head ⟨_, @FilesStep.openDone _ _ 0 0 0 true 3 (by decide +kernel) (by decide),
      trivial⟩ ?_
    refine .head ⟨_, @FilesStep.loaded _ _ 0 0 (by decide +kernel), trivial⟩ ?_
    refine .head ⟨_, @FilesStep.spawn _ _ 0 1 (bootPath 'x') true
      (.inr ⟨0, rfl, by decide +kernel⟩) (by decide +kernel), trivial⟩ ?_
    refine .head ⟨_, @FilesStep.reserve_first _ _ 1 1 (bootPath 'x') ['a'.toUInt8] ['x'.toUInt8]
      () (.inr (by decide +kernel)) rfl (by decide +kernel) rfl, trivial⟩ ?_
    refine .head ⟨_, @FilesStep.openDone _ _ 1 1 1 true 3 (by decide +kernel) (by decide),
      trivial⟩ ?_
    refine .head ⟨_, @FilesStep.loaded _ _ 1 1 (by decide +kernel), trivial⟩ ?_
    -- Process 0 opens the file and forks.
    refine .head ⟨_, @FilesStep.reserve_first _ _ 2 0 (bootPath 'f') ['a'.toUInt8] ['f'.toUInt8]
      () (.inl (by decide +kernel)) rfl (by decide +kernel) rfl, trivial⟩ ?_
    refine .head ⟨_, @FilesStep.openDone _ _ 0 2 2 false 5 (by decide +kernel) (by decide),
      trivial⟩ ?_
    refine .head ⟨_, @FilesStep.add _ _ 0 2 2 (by decide +kernel), trivial⟩ ?_
    refine .head ⟨_, @FilesStep.fork _ _ 0 2 true (by decide +kernel) (by decide +kernel),
      trivial⟩ ?_
    -- Process 2 closes it, and process 1 gets the row for another file.
    refine .head ⟨_, @FilesStep.remove _ _ 2 2 (by decide +kernel) (by decide +kernel),
      trivial⟩ ?_
    refine .head ⟨_, @FilesStep.close _ _ 2 2 2 () (by decide +kernel) (by decide +kernel),
      trivial⟩ ?_
    refine .head ⟨_, @FilesStep.reserve_first _ _ 2 1 (bootPath 'g') ['a'.toUInt8] ['g'.toUInt8]
      () (.inl (by decide +kernel)) rfl (by decide +kernel) rfl, trivial⟩ ?_
    refine .head ⟨_, @FilesStep.openDone _ _ 1 2 3 false 7 (by decide +kernel) (by decide),
      trivial⟩ ?_
    refine .head ⟨_, @FilesStep.check _ _ 0 2 (by decide +kernel) (by decide +kernel),
      trivial⟩ ?_
    refine .head ⟨_, @FilesStep.verify _ _ 0 2 2 () (by decide +kernel) (by decide +kernel),
      trivial⟩ ?_
    exact .refl
  case facts => decide +kernel

end Osm.Proc
