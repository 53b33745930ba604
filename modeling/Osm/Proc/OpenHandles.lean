import Osm.Proc.FileHandles
import Osm.Proc.IoSafety
import Mathlib.Data.Multiset.Count

/-!
# Handles that are not open

A process may use the handles of the files that it has opened or inherited and not closed. Which
files these are is recorded beside a run: `process_fork` copies the record, `io_open` adds a file
to it and `io_close` takes one out. In every state that is reached the array `files` of a process
has no file more often than the record.

The array marks a slot without a file by `-1`, and `process_has_open_file` finds this value like
any other. It belongs to the handle `2`, which therefore passes as open while a slot is free.
-/

namespace Osm.Proc

open Osm.Fs Osm.Vm FilesState

/-- The files, given by their rows, that the processes have opened or inherited and not closed. A
file that was opened twice is there twice. -/
abbrev Opened := Pid → Multiset ℤ

variable {φ : Type}

/-- What a step does to the files that the processes have opened. -/
def FilesAction.opened (s : FilesState φ) (opened : Opened) : FilesAction → Opened
  | .spawn _ child _ _ => Function.update opened child 0
  | .fork p child _    => Function.update opened child (opened p)
  | .add p             =>
    match s.pc p with
    | .opened row _ => Function.update opened p ((row : ℤ) ::ₘ opened p)
    | _             => opened
  | .remove p file     => Function.update opened p ((opened p).erase file)
  | .join _ child      => Function.update opened child 0
  | _                  => opened

/-- The runs, with what the processes have opened since the start. -/
inductive OpenedRun (s₀ : FilesState φ) : FilesState φ → Opened → Prop where
  | start : OpenedRun s₀ s₀ fun _ => 0
  | step {s s' : FilesState φ} {opened : Opened} {a : FilesAction} (h : OpenedRun s₀ s opened)
      (hstep : FilesStep s a s') : OpenedRun s₀ s' (a.opened s opened)

/-- The handle is refused by the calls for open files: they return `VFS_NOT_OPEN_IN_PROCESS` and
leave everything as it is. For reading and writing the first three handles are the console. -/
structure Refuses (d : Devices φ) (p : Pid) (file : ℤ) (sys : SysState φ) : Prop where
  close : ioClose d p file sys = some (vfsNotOpenInProcess, sys)
  seek  : ∀ offset, ioSeek p file offset sys = some (vfsNotOpenInProcess, sys)
  tell  : ioTell p file sys = some (vfsNotOpenInProcess, sys)
  read  : file ≠ 0 → file ≠ 1 → file ≠ 2 → ∀ buffer length,
    ioRead d p file buffer length sys = some (vfsNotOpenInProcess, sys)
  write : file ≠ 0 → file ≠ 1 → file ≠ 2 → ∀ buffer length,
    ioWrite d p file buffer length sys = some (vfsNotOpenInProcess, sys)

/-! ### Slots with a file -/

/-- The number of slots with a file. -/
def slotCount (files : Files) (file : ℤ) : ℕ :=
  (Finset.univ.filter fun i => files i = file).card

variable {s s' : FilesState φ} {files : Files} {file : ℤ} {p q : Pid} {opened opened' : Opened}

lemma slotCount_pos_iff : 0 < slotCount files file ↔ ∃ i, files i = file := by
  rw [slotCount, Finset.card_pos]
  simp [Finset.Nonempty]

lemma slotCount_update_le (i : Fin configMaxOpenFiles) (v : ℤ) :
    slotCount (Function.update files i v) file ≤
      slotCount files file + if v = file then 1 else 0 := by
  have hother : ∀ j, Function.update files i v j = file → j = i ∧ v = file ∨ files j = file := by
    intro j hj
    by_cases hji : j = i
    · subst hji
      rw [Function.update_self] at hj
      exact .inl ⟨rfl, hj⟩
    · rw [Function.update_of_ne hji] at hj
      exact .inr hj
  split_ifs with hv
  · have hsub : (Finset.univ.filter fun j => Function.update files i v j = file) ⊆
        insert i (Finset.univ.filter fun j => files j = file) := by
      intro j hj
      rcases hother j (Finset.mem_filter.mp hj).2 with ⟨rfl, -⟩ | hfile
      · exact Finset.mem_insert_self _ _
      · exact Finset.mem_insert_of_mem (Finset.mem_filter.mpr ⟨Finset.mem_univ j, hfile⟩)
    exact (Finset.card_le_card hsub).trans (Finset.card_insert_le _ _)
  · rw [Nat.add_zero]
    refine Finset.card_le_card fun j hj => ?_
    rcases hother j (Finset.mem_filter.mp hj).2 with ⟨-, hv'⟩ | hfile
    · exact absurd hv' hv
    · exact Finset.mem_filter.mpr ⟨Finset.mem_univ j, hfile⟩

/-- One slot with a file is cleared. -/
lemma slotCount_clear {i : Fin configMaxOpenFiles} (hi : files i = file) (hfile : file ≠ -1) :
    slotCount (Function.update files i (-1)) file + 1 = slotCount files file := by
  have herase : (Finset.univ.filter fun j => Function.update files i (-1) j = file) =
      (Finset.univ.filter fun j => files j = file).erase i := by
    ext j
    by_cases hji : j = i
    · subst hji
      simp [hfile.symm]
    · simp [hji]
  rw [slotCount, herase]
  exact Finset.card_erase_add_one (Finset.mem_filter.mpr ⟨Finset.mem_univ i, hi⟩)

/-- The array of a process has no file more often than the process has opened it. -/
structure Owns (files : Files) (opened : Multiset ℤ) : Prop where
  slots : ∀ file, file ≠ -1 → slotCount files file ≤ opened.count file
  rows  : ∀ file ∈ opened, 0 ≤ file ∧ file < configMaxOpenFiles

namespace Owns

variable {rows : Multiset ℤ}

lemma empty (h : ∀ i, files i = -1) : Owns files 0 where
  slots file hfile := by
    rw [Multiset.count_zero, Nat.le_zero, slotCount, Finset.card_eq_zero]
    ext i
    simp [h i, hfile.symm]
  rows _ hmem := absurd hmem (Multiset.notMem_zero _)

/-- A file that is in a slot is one of those opened. -/
lemma mem (h : Owns files rows) {i : Fin configMaxOpenFiles} (hi : files i = file)
    (hfile : file ≠ -1) : file ∈ rows := by
  rw [← Multiset.count_pos]
  exact (slotCount_pos_iff.mpr ⟨i, hi⟩).trans_le (h.slots file hfile)

lemma add (h : Owns files rows) {row : ℕ} (hrow : row < configMaxOpenFiles) :
    Owns (processAddFile files row) ((row : ℤ) ::ₘ rows) where
  slots file hfile := by
    rw [Multiset.count_cons]
    have hle := h.slots file hfile
    cases hslot : freeSlot files with
    | none =>
      rw [processAddFile_none hslot]
      omega
    | some i =>
      rw [processAddFile_some hslot]
      refine (slotCount_update_le i row).trans (Nat.add_le_add hle (le_of_eq ?_))
      simp only [eq_comm]
  rows file hmem := by
    rcases Multiset.mem_cons.mp hmem with rfl | hmem
    · omega
    · exact h.rows file hmem

lemma remove (h : Owns files rows) (hopen : processHasOpenFile files file = true) :
    Owns (processRemoveFile files file) (rows.erase file) where
  slots file' hfile := by
    rw [processHasOpenFile] at hopen
    obtain ⟨i, hslot⟩ := Option.isSome_iff_exists.mp hopen
    have hi := slotOf_some hslot
    have hle := h.slots file' hfile
    rw [processRemoveFile_some hslot]
    by_cases heq : file' = file
    · subst heq
      have hclear := slotCount_clear hi hfile
      rw [Multiset.count_erase_self]
      omega
    · have hupdate := @slotCount_update_le files file' i (-1)
      rw [if_neg hfile.symm] at hupdate
      rw [Multiset.count_erase_of_ne heq]
      omega
  rows file' hmem := h.rows file' (Multiset.mem_of_mem_erase hmem)

end Owns

/-! ### Runs -/

/-- What holds in every state of a run. -/
structure OpenedInv (s : FilesState φ) (opened : Opened) : Prop where
  owns    : ∀ p, Owns (s.table p).files (opened p)
  free    : ∀ p, (s.table p).state = .free → ∀ i, (s.table p).files i = -1
  running : ∀ p, s.pc p ≠ .gone → (s.table p).state = .running
  opens   : ∀ p row id, s.Opens p row id → row < configMaxOpenFiles

namespace OpenedInv

lemma start (h : NoFiles s) : OpenedInv s fun _ => 0 where
  owns p := Owns.empty (h.empty p)
  free p _ := h.empty p
  running p hpc := ((h.pc p).resolve_left hpc).2
  opens p row id hopens := by
    rcases h.pc p with hpc | ⟨hpc, -⟩ <;> simp [FilesState.Opens, hpc] at hopens

/-- Only one process has changed. -/
lemma change (hinv : OpenedInv s opened) (hsame : ∀ q ≠ p, SameProcess s s' q)
    (hopened : ∀ q ≠ p, opened' q = opened q) (howns : Owns (s'.table p).files (opened' p))
    (hfree : (s'.table p).state = .free → ∀ i, (s'.table p).files i = -1)
    (hrunning : s'.pc p ≠ .gone → (s'.table p).state = .running)
    (hopens : ∀ row id, s'.Opens p row id → row < configMaxOpenFiles) :
    OpenedInv s' opened' where
  owns q := by
    by_cases hq : q = p
    · subst hq
      exact howns
    · rw [(hsame q hq).files, hopened q hq]
      exact hinv.owns q
  free q hstate := by
    by_cases hq : q = p
    · subst hq
      exact hfree hstate
    · rw [(hsame q hq).state] at hstate
      rw [(hsame q hq).files]
      exact hinv.free q hstate
  running q hpc := by
    by_cases hq : q = p
    · subst hq
      exact hrunning hpc
    · rw [(hsame q hq).pc] at hpc
      rw [(hsame q hq).state]
      exact hinv.running q hpc
  opens q row id hq' := by
    by_cases hq : q = p
    · subst hq
      exact hopens row id hq'
    · exact hinv.opens q row id ((hsame q hq).opens_iff.mp hq')

/-- Nothing but the place of one process and the virtual filesystem has changed. -/
lemma move (hinv : OpenedInv s opened) {pc : IoPc} (hne : s.pc p ≠ .gone)
    (htable : s'.table = s.table)
    (hpc : s'.pc = Function.update s.pc p pc) (hids : s'.ids = s.ids)
    (hrow : ∀ row id, (∃ loader, pc = .opening row id loader) ∨ pc = .opened row id →
      row < configMaxOpenFiles) : OpenedInv s' opened := by
  refine hinv.change (p := p) (fun q hq => ?_) (fun _ _ => rfl) ?_ ?_ ?_ fun row id hopens => ?_
  · exact ⟨by rw [htable], by rw [htable], by rw [hpc, Function.update_of_ne hq], by rw [hids]⟩
  · rw [htable]
    exact hinv.owns p
  · rw [htable]
    exact hinv.free p
  · rw [htable]
    exact fun _ => hinv.running p hne
  · rw [Opens, hpc, Function.update_self] at hopens
    exact hrow row id hopens

/-- A process leaves the calls that open files. -/
lemma leave (hinv : OpenedInv s opened) {pc : IoPc} (hne : s.pc p ≠ .gone)
    (htable : s'.table = s.table)
    (hpc : s'.pc = Function.update s.pc p pc) (hids : s'.ids = s.ids)
    (hopens : ∀ row id loader, pc ≠ .opening row id loader ∧ pc ≠ .opened row id) :
    OpenedInv s' opened := by
  apply hinv.move hne htable hpc hids
  rintro row id (⟨loader, h⟩ | h)
  · exact absurd h (hopens row id loader).1
  · exact absurd h (hopens row id true).2

/-- A new process is not opening a file, and it has the files of another process, or none. -/
lemma create (hinv : OpenedInv s opened) {pcb : Pcb} {thread : Bool} {pc : IoPc}
    {ids : Pid → Fin configMaxOpenFiles → ℕ} {rows : Multiset ℤ}
    (hids : ∀ q ≠ p, ids q = s.ids q) (hpc : pc = .starting ∨ pc = .user)
    (hstate : pcb.state = .running) (howns : Owns pcb.files rows) :
    OpenedInv { (s.setPcb p pcb).setPc p (if thread then pc else .gone) with ids }
      (Function.update opened p rows) := by
  have htable := s.setPcb_table p pcb
  apply hinv.change (p := p)
  · intro q hq
    have h := @setPcb_same φ p q s pcb hq
    exact ⟨h.state, h.files, Function.update_of_ne hq _ _, hids q hq⟩
  · exact fun q hq => Function.update_of_ne hq _ _
  · rw [Function.update_self]
    change Owns ((s.setPcb p pcb).table p).files rows
    rw [htable]
    exact howns
  · intro hfree
    change ((s.setPcb p pcb).table p).state = .free at hfree
    rw [htable, hstate] at hfree
    cases hfree
  · intro _
    change ((s.setPcb p pcb).table p).state = .running
    rw [htable]
    exact hstate
  · rintro row id hopens
    change (∃ loader, Function.update s.pc p _ p = .opening row id loader) ∨
      Function.update s.pc p _ p = .opened row id at hopens
    rw [Function.update_self] at hopens
    rcases hpc with rfl | rfl <;> cases thread <;> simp at hopens

/-- The array of a process has changed, and the process leaves the calls that open files. -/
lemma setFiles (hinv : OpenedInv s opened) {files : Files} {pc : IoPc} {rows : Multiset ℤ}
    (hne : s.pc p ≠ .gone) (howns : Owns files rows)
    (hempty : (s.table p).state = .free → ∀ i, files i = -1)
    (hopens : ∀ row id loader, pc ≠ .opening row id loader ∧ pc ≠ .opened row id) :
    OpenedInv ((s.setFiles p files).setPc p pc) (Function.update opened p rows) := by
  have htable : ((s.setFiles p files).setPc p pc).table p = { s.table p with files } :=
    s.setPcb_table p _
  apply hinv.change (p := p)
  · exact fun q hq => (s.setPcb_same hq).setPc hq
  · exact fun q hq => Function.update_of_ne hq _ _
  · rw [Function.update_self, htable]
    exact howns
  · rw [htable]
    exact hempty
  · rw [htable]
    exact fun _ => hinv.running p hne
  · rintro row id (⟨loader, h⟩ | h)
    · rw [setPc_pc] at h
      exact absurd h (hopens row id loader).1
    · rw [setPc_pc] at h
      exact absurd h (hopens row id true).2

/-- The file that a process has opened gets into its array. -/
lemma add {row id : ℕ} (hinv : OpenedInv s opened) (hpc : s.pc p = .opened row id) :
    OpenedInv ((s.addHandle p row id).setPc p .user) ((FilesAction.add p).opened s opened) := by
  have hlt := hinv.opens p row id (.inr hpc)
  have hrunning : (s.table p).state = .running := hinv.running p (by simp [hpc])
  have hopened : (FilesAction.add p).opened s opened =
      Function.update opened p ((row : ℤ) ::ₘ opened p) := by
    rw [FilesAction.opened, hpc]
  have howns := (hinv.owns p).add hlt
  rw [hopened]
  apply hinv.change (p := p)
  · exact fun q hq => (s.addHandle_same hq).setPc hq
  · exact fun q hq => Function.update_of_ne hq _ _
  · rw [Function.update_self]
    exact s.addHandle_files p row id ▸ howns
  · intro hfree
    cases hrunning.symm.trans ((s.addHandle_state p row id).symm.trans hfree)
  · exact fun _ => (s.addHandle_state p row id).trans hrunning
  · intro r id' hopens
    exact absurd hopens (not_opens_of_user (setPc_pc ..))

/-- A process that finishes keeps its files. -/
lemma finish {retval : ℤ} (hinv : OpenedInv s opened) :
    OpenedInv { s.setPc p .gone with
      table := processOrphan (Function.update s.table p
        { s.table p with retval, state := .zombie }) (p : ℕ) } opened := by
  have hself : Function.update s.table p { s.table p with retval, state := .zombie } p =
      { s.table p with retval, state := .zombie } := Function.update_self ..
  have hsame := processOrphan_same
    (Function.update s.table p { s.table p with retval, state := .zombie }) (p : ℕ)
  apply hinv.change (p := p)
  · intro q hq
    have hne : Function.update s.table p { s.table p with retval, state := .zombie } q =
        s.table q := Function.update_of_ne hq _ _
    have h := hsame q
    rw [hne] at h
    exact ⟨h.1, h.2, Function.update_of_ne hq _ _, rfl⟩
  · exact fun _ _ => rfl
  · rw [(hsame p).2, hself]
    exact hinv.owns p
  · rw [(hsame p).1, hself]
    simp
  · exact fun h => absurd (setPc_pc ..) h
  · rintro row id (⟨loader, h⟩ | h)
    · cases (setPc_pc s p .gone).symm.trans h
    · cases (setPc_pc s p .gone).symm.trans h

/-- The row of a child that has finished is set free. -/
lemma join {child : Pid} (hinv : OpenedInv s opened)
    (hzombie : (s.table child).state = .zombie) :
    OpenedInv (s.setPcb child { heapEnd := (s.table child).heapEnd })
      (Function.update opened child 0) := by
  have htable := s.setPcb_table child { heapEnd := (s.table child).heapEnd }
  apply hinv.change (p := child)
  · exact fun q hq => s.setPcb_same hq
  · exact fun q hq => Function.update_of_ne hq _ _
  · rw [Function.update_self, htable]
    exact Owns.empty fun _ => rfl
  · rw [htable]
    exact fun _ _ => rfl
  · intro hpc
    cases hzombie.symm.trans (hinv.running child hpc)
  · exact hinv.opens child

lemma step {a : FilesAction} (hinv : OpenedInv s opened) (h : FilesStep s a s') :
    OpenedInv s' (a.opened s opened) := by
  have hne : ∀ {p pc}, s.pc p = pc → pc ≠ .gone → s.pc p ≠ .gone := fun hpc h => hpc ▸ h
  cases h with
  | @spawn parent child executable thread hparent halloc =>
    have hempty := hinv.free child (freeProcess_some halloc)
    exact hinv.create (fun _ _ => rfl) (.inl rfl) rfl (Owns.empty hempty)
  | @fork p child thread hpc halloc =>
    exact hinv.create (fun _ hq => Function.update_of_ne hq _ _) (.inr rfl) rfl (hinv.owns p)
  | @reserve p pathname volume filename row fs vfs hpc hpath hreserve =>
    obtain ⟨hlt, -⟩ := reserveFile_spec hreserve
    have hpc : s.pc p ≠ .gone := by
      rcases hpc with hpc | ⟨hpc, -⟩
      · exact hne hpc (by simp)
      · exact hne hpc (by simp)
    refine OpenedInv.move (s := s) (p := p) hinv hpc rfl rfl rfl ?_
    rintro r id (⟨loader, h⟩ | h)
    · cases h
      exact hlt
    · cases h
  | openFailed hpc hfailed => exact hinv.leave (hne hpc (by simp)) rfl rfl rfl (by simp)
  | @openDone p row id loader fileid hpc hdone =>
    have hlt := hinv.opens p row id (.inl ⟨loader, hpc⟩)
    refine OpenedInv.move (s := s) (p := p) hinv (hne hpc (by simp)) rfl rfl rfl ?_
    cases loader with
    | false =>
      rintro r id' (⟨loader, h⟩ | h)
      · cases h
      · cases h
        exact hlt
    | true => simp
  | add hpc => exact hinv.add hpc
  | loaded hpc => exact hinv.leave (hne hpc (by simp)) rfl rfl rfl (by simp)
  | @remove p file hpc hopen =>
    have howns := (hinv.owns p).remove hopen
    refine hinv.setFiles (hne hpc (by simp)) howns (fun hfree i => ?_) (by simp)
    rcases processRemoveFile_slot (s.table p).files file i with h | h
    · exact h
    · exact h.trans (hinv.free p hfree i)
  | close hpc hopen => exact hinv.leave (hne hpc (by simp)) rfl rfl rfl (by simp)
  | closeFailed hpc hopen => exact hinv.leave (hne hpc (by simp)) rfl rfl rfl (by simp)
  | check hpc hopen => exact hinv.leave (hne hpc (by simp)) rfl rfl rfl (by simp)
  | verify hpc hopen => exact hinv.leave (hne hpc (by simp)) rfl rfl rfl (by simp)
  | verifyFailed hpc hopen => exact hinv.leave (hne hpc (by simp)) rfl rfl rfl (by simp)
  | @move p row seekPosition hpc =>
    refine OpenedInv.leave (s := s) (p := p) hinv (hne hpc (by simp)) rfl ?_ rfl
      (show ∀ row' id loader, IoPc.verified row ≠ .opening row' id loader ∧ _ from by simp)
    rw [← hpc, Function.update_eq_self]
  | «return» hpc => exact hinv.leave (hne hpc (by simp)) rfl rfl rfl (by simp)
  | finish => exact hinv.finish
  | join hpc hparent hzombie => exact hinv.join hzombie

end OpenedInv

lemma OpenedRun.inv {s₀ : FilesState φ} (hstart : NoFiles s₀) (hrun : OpenedRun s₀ s opened) :
    OpenedInv s opened := by
  induction hrun with
  | start => exact OpenedInv.start hstart
  | step _ hstep ih => exact ih.step hstep

/-- A step after which no file is opened, before a run. -/
lemma OpenedRun.head {s₀ : FilesState φ} {a : FilesAction} (hstep : FilesStep s₀ a s)
    (hnone : a.opened s₀ (fun _ => 0) = fun _ => 0) (hrun : OpenedRun s s' opened) :
    OpenedRun s₀ s' opened := by
  induction hrun with
  | start => exact hnone ▸ OpenedRun.start.step hstep
  | step _ hstep' ih => exact ih.step hstep'

/-! ### Refused handles -/

section Handles

variable {h : UInt32} {sys : SysState φ} {d : Devices φ}

/-- The handle is in the range of `int`, in which three below the least values is far above. -/
lemma fileOf_toInt (h : UInt32) : fileOf (toInt h) = toInt h - 3 ∨
    fileOf (toInt h) = toInt h - 3 + 2 ^ 32 ∧ 2 ^ 31 - 3 ≤ fileOf (toInt h) := by
  have hlower : -2 ^ 31 ≤ toInt h := Int.le_bmod (by decide)
  have hupper : toInt h < 2 ^ 31 := Int.bmod_lt (by decide)
  rw [fileOf, addInt, Int.bmod_def]
  split_ifs with hlow
  · omega
  · omega

/-- A file that a process has not opened is found in its array only in place of no file. -/
lemma Owns.found_iff {rows : Multiset ℤ} (howns : Owns files rows) (hnot : toInt h - 3 ∉ rows) :
    processHasOpenFile files (fileOf (toInt h)) = true ↔
      toInt h = 2 ∧ freeSlot files ≠ none := by
  rw [processHasOpenFile_iff]
  constructor
  · rintro ⟨i, hi⟩
    by_cases hfile : fileOf (toInt h) = -1
    · refine ⟨?_, fun hnone => freeSlot_none hnone i (hi.trans hfile)⟩
      rcases fileOf_toInt h with heq | ⟨-, hle⟩
      · omega
      · omega
    · have hmem := howns.mem hi hfile
      obtain ⟨hpos, hlt⟩ := howns.rows _ hmem
      rcases fileOf_toInt h with heq | ⟨-, hle⟩
      · rw [heq] at hmem
        exact absurd hmem hnot
      · rw [configMaxOpenFiles] at hlt
        omega
  · rintro ⟨htwo, hfree⟩
    obtain ⟨i, hi⟩ := Option.ne_none_iff_exists'.mp hfree
    refine ⟨i, (freeSlot_some hi).trans ?_⟩
    rw [htwo]
    decide

lemma onProcessFile_not {filehandle : ℤ} {call : ℤ → SysState φ → SysResult φ}
    (hnot : processHasOpenFile (sys.table p).files (fileOf filehandle) = false) :
    onProcessFile p filehandle sys call = some (vfsNotOpenInProcess, sys) := by
  rw [onProcessFile, hnot]
  rfl

lemma Refuses.of_not {file : ℤ}
    (hnot : processHasOpenFile (sys.table p).files (fileOf file) = false) :
    Refuses d p file sys where
  close := onProcessFile_not hnot
  seek _ := onProcessFile_not hnot
  tell := onProcessFile_not hnot
  read h0 h1 h2 buffer length := by
    rw [ioRead, if_neg h0, if_neg (not_or.mpr ⟨h1, h2⟩)]
    exact onProcessFile_not hnot
  write h0 h1 h2 buffer length := by
    rw [ioWrite, if_neg h0, if_neg h1, if_neg h2]
    exact onProcessFile_not hnot

/-- The virtual filesystem does not know the file `-1`. -/
lemma not_refuses_of_found
    (hfound : processHasOpenFile (sys.table p).files (fileOf 2) = true) :
    ¬ Refuses d p 2 sys := by
  intro hrefuses
  have htell := hrefuses.tell
  rw [ioTell, onProcessFile, if_pos hfound] at htell
  cases husable : sys.vfs.usable with
  | true =>
    rw [onVfs, vfsTell, startOp_of_usable husable] at htell
    cases htell
  | false =>
    rw [onVfs, vfsTell, startOp_of_unusable husable] at htell
    cases htell

end Handles

/-- In every state of a run, the calls for open files refuse a handle whose file the process has
not opened or inherited, or has closed, exactly if it is not the handle `2` or the array of the
process has no free slot. -/
theorem unopened_refused_iff {s₀ : FilesState φ} (hstart : NoFiles s₀)
    (hrun : OpenedRun s₀ s opened) (p : Pid) (h : UInt32) (hnot : toInt h - 3 ∉ opened p)
    {sys : SysState φ} (htable : sys.table = s.table) (d : Devices φ) :
    Refuses d p (toInt h) sys ↔ toInt h ≠ 2 ∨ freeSlot (s.table p).files = none := by
  have hfound := ((hrun.inv hstart).owns p).found_iff hnot
  rw [← htable] at hfound ⊢
  constructor
  · intro hrefuses
    by_contra hopen
    rw [not_or, not_not] at hopen
    obtain ⟨htwo, hfree⟩ := hopen
    have hfound := hfound.mpr ⟨htwo, hfree⟩
    rw [htwo] at hrefuses hfound
    exact not_refuses_of_found hfound hrefuses
  · intro hopen
    apply Refuses.of_not
    rw [Bool.eq_false_iff, Ne, hfound, not_and_or, not_not]
    exact hopen

/-! ### The handle without a file -/

/-- The first process after its executable is loaded. It has opened no file. -/
lemma boot_user : ∃ s : FilesState Unit, OpenedRun boot s (fun _ => 0) ∧ s.pc 0 = .user ∧
    s.vfs.usable = true ∧ (s.table 0).files 0 = -1 := by
  refine ⟨?_, ?run, ?facts⟩
  case run =>
    refine .head (@FilesStep.spawn _ _ (-1) 0 (bootPath 'x') true (.inl rfl)
      (by decide +kernel)) (Function.update_eq_self ..) ?_
    refine .head (@FilesStep.reserve_first _ _ 0 0 (bootPath 'x') ['a'.toUInt8] ['x'.toUInt8] ()
      (.inr (by decide +kernel)) rfl (by decide +kernel) rfl) rfl ?_
    refine .head (@FilesStep.openDone _ _ 0 0 0 true 3 (by decide +kernel) (by decide)) rfl ?_
    refine .head (@FilesStep.loaded _ _ 0 0 (by decide +kernel)) rfl ?_
    exact .start
  case facts => decide +kernel

/-- The machine of a process, as far as system calls use it. -/
def FilesState.sys (s : FilesState φ) : SysState φ where
  vfs         := s.vfs
  table       := s.table
  pagetable _ := vmCreatePagetable 0 leftover
  pool        := pagepoolInit (fun _ => 0) 8 2

theorem unopened_refused_five : ∃ s : FilesState Unit, OpenedRun boot s (fun _ => 0) ∧
    Refuses ⟨fun _ => 0, none⟩ 0 (toInt 5) s.sys := by
  obtain ⟨s, hrun, -⟩ := boot_user
  refine ⟨s, hrun, ?_⟩
  exact (unopened_refused_iff boot_noFiles hrun 0 5 (Multiset.notMem_zero _) rfl _).mpr
    (.inl (by decide))

/-- The first process closes the handle `2`, which stands for no file. An operation on the virtual
filesystem begins that does not end. -/
theorem two_not_refused : ∃ s : FilesState Unit, OpenedRun boot s (fun _ => 0) ∧ s.pc 0 = .user ∧
    ∃ sys', ioClose ⟨fun _ => 0, none⟩ 0 (toInt 2) s.sys = some (vfsNotOpen, sys') ∧
      sys'.vfs.ops = s.vfs.ops + 1 := by
  obtain ⟨s, hrun, hpc, husable, hslot⟩ := boot_user
  refine ⟨s, hrun, hpc, ?_⟩
  have hfile : fileOf (toInt 2) = -1 := by decide
  have hfound : processHasOpenFile (s.sys.table 0).files (-1) = true :=
    processHasOpenFile_iff.mpr ⟨0, hslot⟩
  have hclose : vfsClose (fun _ => 0) (-1) s.vfs =
      some (vfsNotOpen, { s.vfs with ops := s.vfs.ops + 1 }) := by
    rw [vfsClose, startOp_of_usable husable]
    rfl
  rw [ioClose, onProcessFile, hfile, if_pos hfound, onVfs]
  change ∃ sys', Option.map _ (vfsClose (fun _ => 0) (-1) s.vfs) = _ ∧ _
  rw [hclose]
  exact ⟨_, rfl, rfl⟩

end Osm.Proc
