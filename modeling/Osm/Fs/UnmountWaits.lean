import Osm.Fs.Concurrent

/-!
# Unmounting while other threads use the filesystem

When `vfs_unmount` calls the `unmount` of a driver, which frees the filesystem, no other thread may
be in the driver. The operations on volumes and `vfs_close` hold a semaphore there that
`vfs_unmount` has taken; `vfs_open`, `vfs_read` and `vfs_write` hold none, and rely on their row in
the table of open files, which `vfs_unmount` finds in use. The row protects them as long as no
other thread releases it.
-/

namespace Osm.Fs

variable {φ τ : Type}

namespace VfsPc

/-- The thread is in the `open`, `read` or `write` of a filesystem for a row. -/
def UsesFs (row : ℕ) (fs : φ) : VfsPc φ → Prop
  | opening row' fs' _ | reading row' _ fs' _ _ _ | writing row' fs' _ _ _ => row' = row ∧ fs' = fs
  | _ => False

/-- The thread is in `vfs_unmount` with a filesystem that it has found. -/
def Unmounts (row : ℕ) (fs : φ) : VfsPc φ → Prop
  | mounted row' fs' | unmounting row' fs' => row' = row ∧ fs' = fs
  | _ => False

variable {pc : VfsPc φ} {row : ℕ} {fs : φ}

lemma UsesFs.uses (h : pc.UsesFs row fs) : pc.Uses row := by
  cases pc with
  | opening _ _ _ | reading _ _ _ _ _ _ | writing _ _ _ _ _ => exact h.1
  | _ => exact h.elim

lemma Unmounts.hasTable (h : pc.Unmounts row fs) : pc.HasTable := by
  cases pc with
  | mounted _ _ | unmounting _ _ => trivial
  | _ => exact h.elim

/-- Who is in a driver has a row or a semaphore. -/
lemma InDriver.cases (h : pc.InDriver fs) :
    (∃ row, pc.UsesFs row fs) ∨ pc.HasFiles ∨ pc.HasTable := by
  cases pc with
  | opening row _ _ | reading row _ _ _ _ _ | writing row _ _ _ _ => exact .inl ⟨row, rfl, h⟩
  | closing _ _ => exact .inr (.inl trivial)
  | onVolume _ _ => exact .inr (.inr trivial)
  | _ => exact h.elim

end VfsPc

/-! ### What a step does -/

variable {M M' : VfsMachine τ φ} {t : τ} {a : VfsAction φ} {row : ℕ} {fs : φ}

/-- A step of a thread that has a semaphore or not: it leaves it alone, takes it or releases it. -/
def LockMoves (t : τ) (held held' : Prop) (lock lock' : Option τ) : Prop :=
  lock' = lock ∧ (held' ↔ held) ∨ lock = none ∧ lock' = some t ∧ held' ∨
    held ∧ lock' = none ∧ ¬ held'

variable [DecidableEq τ]

lemma VfsStep.pc_of_ne (h : VfsStep M t a M') {u : τ} (hu : u ≠ t) : M'.pc u = M.pc u := by
  cases h <;> exact M.setPc_of_ne hu _

lemma VfsStep.table (h : VfsStep M t a M') :
    LockMoves t (M.pc t).HasTable (M'.pc t).HasTable M.table M'.table := by
  cases h <;> simp [LockMoves, VfsMachine.setPc, VfsPc.HasTable, *]

lemma VfsStep.files (h : VfsStep M t a M') :
    LockMoves t (M.pc t).HasFiles (M'.pc t).HasFiles M.files M'.files := by
  cases h <;> simp [LockMoves, VfsMachine.setPc, VfsPc.HasFiles, *]

omit [DecidableEq τ] in
lemma entryNamed_filesystem {name : List UInt8} {s : VfsState φ}
    (h : vfsGetFilesystem s name = some fs) : ∃ row, (s.filesystems row).filesystem = some fs := by
  obtain ⟨row, -, hfs⟩ := Option.bind_eq_some_iff.mp h
  exact ⟨row, hfs⟩

omit [DecidableEq τ] in
lemma reserveFile_filesystem {volume : List UInt8} {s s' : VfsState φ}
    (h : reserveFile s volume = .ok (row, fs, s')) : vfsGetFilesystem s volume = some fs := by
  unfold reserveFile at h
  generalize s.freeFile = free at h
  cases free with
  | none => cases h
  | some file' =>
    generalize vfsGetFilesystem s volume = found at h ⊢
    cases found with
    | none => cases h
    | some fs' =>
      cases h
      rfl

omit [DecidableEq τ] in
lemma freeFile_some {s : VfsState φ} {file : ℕ} (h : s.freeFile = some file) :
    file < configMaxOpenFiles ∧ (s.files file).filesystem = none := by
  rw [VfsState.freeFile, List.find?_range_eq_some] at h
  obtain ⟨hnone, hfile, -⟩ := h
  exact ⟨List.mem_range.mp hfile, by simpa using hnone⟩

omit [DecidableEq τ] in
lemma vfsVerifyOpen_lt {s : VfsState φ} {file : ℤ} (h : vfsVerifyOpen s file = some (row, fs)) :
    row < configMaxOpenFiles := by
  rw [vfsVerifyOpen] at h
  split_ifs at h with hfile
  obtain ⟨fs', -, heq⟩ := Option.map_eq_some_iff.mp h
  obtain ⟨rfl, -⟩ := Prod.mk.inj heq
  omega

/-- A row of the table of open files is taken for a filesystem that is mounted, with both
semaphores, or released, or its filesystem stays. -/
lemma VfsStep.openfile (h : VfsStep M t a M') (file : ℕ) :
    (M'.vfs.files file).filesystem = (M.vfs.files file).filesystem ∨
    ((M.pc t).HasTable ∧ M.files = none ∧ (M.vfs.files file).filesystem = none ∧
      ∃ fs row, (M'.vfs.files file).filesystem = some fs ∧
        (M.vfs.filesystems row).filesystem = some fs) ∨
    a = .release file ∧ (M'.vfs.files file).filesystem = none := by
  cases h with
  | @reserve volume filename row fs vfs hpc hfiles hreserve =>
    obtain ⟨hfree, rfl⟩ := reserveFile_ok hreserve
    by_cases hfile : file = row
    · subst hfile
      obtain ⟨row', hrow'⟩ := entryNamed_filesystem (reserveFile_filesystem hreserve)
      refine .inr (.inl ⟨by rw [hpc]; trivial, hfiles, (freeFile_some hfree).2, fs, row', ?_, hrow'⟩)
      simp [VfsState.setFile]
    · exact .inl (by simp [VfsState.setFile, hfile])
  | @fill row =>
    refine .inl ?_
    by_cases hfile : file = row <;> simp [fillFile, VfsState.setFile, hfile]
  | @advance row _ ret =>
    refine .inl ?_
    simp only [advanceFile]
    by_cases hfile : file = row <;> split_ifs <;> simp [VfsState.setFile, hfile]
  | @release row | @closed row =>
    by_cases hfile : file = row
    · exact .inr (.inr ⟨by rw [hfile], by simp [releaseFile, VfsState.setFile, hfile]⟩)
    · exact .inl (by simp [releaseFile, VfsState.setFile, hfile])
  | _ => exact .inl rfl

/-- A row of the mount table is cleared at the end of `vfs_unmount` only. -/
lemma VfsStep.filesystem (h : VfsStep M t a M') (row : ℕ) :
    (M'.vfs.filesystems row).filesystem = (M.vfs.filesystems row).filesystem ∨
      (M'.vfs.filesystems row).filesystem = none ∧ M'.pc t = .idle ∧
        ∃ fs, M.pc t = .unmounting row fs := by
  cases h with
  | @unmounted row' fs hpc =>
    by_cases hrow : row = row'
    · subst hrow
      exact .inr ⟨by simp [VfsState.setEntry], M.setPc_self t _, fs, hpc⟩
    · exact .inl (by simp [VfsState.setEntry, hrow])
  | reserve hpc hfiles hreserve =>
    obtain ⟨-, rfl⟩ := reserveFile_ok hreserve
    exact .inl rfl
  | advance hpc hfiles =>
    simp only [advanceFile]
    split_ifs <;> exact .inl rfl
  | _ => exact .inl rfl

/-- A thread that gets to use a row finds it open. -/
lemma VfsStep.usesFs (h : VfsStep M t a M') (huses : (M'.pc t).UsesFs row fs) :
    row < configMaxOpenFiles ∧ (M'.vfs.files row).filesystem = some fs := by
  cases h with
  | reserve hpc hfiles hreserve =>
    simp only [VfsMachine.setPc, Function.update_self] at huses
    obtain ⟨rfl, rfl⟩ := huses
    obtain ⟨hfree, rfl⟩ := reserveFile_ok hreserve
    exact ⟨(freeFile_some hfree).1, by simp [VfsState.setFile]⟩
  | read hpc hfiles hopen | write hpc hfiles hopen =>
    simp only [VfsMachine.setPc, Function.update_self] at huses
    obtain ⟨rfl, rfl⟩ := huses
    exact ⟨vfsVerifyOpen_lt hopen, (vfsVerifyOpen_some hopen).2⟩
  | _ =>
    simp only [VfsMachine.setPc, Function.update_self] at huses
    exact huses.elim

/-- A thread in `vfs_unmount` has found its filesystem in the mount table. -/
lemma VfsStep.unmounts (h : VfsStep M t a M') (hunmounts : (M'.pc t).Unmounts row fs) :
    (M.pc t).Unmounts row fs ∨ (M.vfs.filesystems row).filesystem = some fs := by
  cases h with
  | unmountTable hpc htable hrow hfs =>
    simp only [VfsMachine.setPc, Function.update_self] at hunmounts
    obtain ⟨rfl, rfl⟩ := hunmounts
    exact .inr hfs
  | unmount hpc hfiles hopen =>
    simp only [VfsMachine.setPc, Function.update_self] at hunmounts
    rw [hpc]
    exact .inl hunmounts
  | _ =>
    simp only [VfsMachine.setPc, Function.update_self] at hunmounts
    exact hunmounts.elim

/-- The `unmount` of a driver is called when no row of the table of open files has the
filesystem. -/
lemma VfsStep.unmounting (h : VfsStep M t a M') (hpc' : M'.pc t = .unmounting row fs) :
    ∀ file < configMaxOpenFiles, (M'.vfs.files file).filesystem ≠ some fs := by
  cases h with
  | unmount hpc hfiles hopen =>
    simp only [VfsMachine.setPc, Function.update_self, VfsPc.unmounting.injEq] at hpc'
    obtain ⟨rfl, rfl⟩ := hpc'
    exact fun file hfile hfs => hopen ⟨file, hfile, hfs⟩
  | _ => simp [VfsMachine.setPc] at hpc'

/-! ### The invariant -/

omit [DecidableEq τ] in
/-- Whoever has a semaphore is the thread that is noted as having taken it. -/
lemma LockMoves.owner {held held' : τ → Prop} {lock lock' : Option τ}
    (hmoves : LockMoves t (held t) (held' t) lock lock')
    (hother : ∀ u, u ≠ t → (held' u ↔ held u)) (howner : ∀ u, held u ↔ lock = some u) (u : τ) :
    held' u ↔ lock' = some u := by
  by_cases hut : u = t
  · subst hut
    rcases hmoves with ⟨rfl, hheld⟩ | ⟨-, rfl, hheld⟩ | ⟨-, rfl, hheld⟩
    · rw [hheld, howner]
    · exact iff_of_true hheld rfl
    · exact iff_of_false hheld (by simp)
  · rw [hother u hut, howner]
    rcases hmoves with ⟨rfl, -⟩ | ⟨hnone, rfl, -⟩ | ⟨hheld, rfl, -⟩
    · exact Iff.rfl
    · rw [hnone]
      exact iff_of_false (by simp) (by simpa using fun h => hut h.symm)
    · rw [(howner t).mp hheld]
      exact iff_of_false (by simpa using fun h => hut h.symm) (by simp)

/-- The semaphores are taken by the threads that have them. Who uses a row finds it open for the
same filesystem, and who unmounts a filesystem finds it in the mount table, and then in no row of
the table of open files. -/
structure UnmountInv (M : VfsMachine τ φ) : Prop where
  distinct   : ∀ i j fs, (M.vfs.filesystems i).filesystem = some fs →
    (M.vfs.filesystems j).filesystem = some fs → i = j
  table      : ∀ t, (M.pc t).HasTable ↔ M.table = some t
  files      : ∀ t, (M.pc t).HasFiles ↔ M.files = some t
  uses       : ∀ t row fs, (M.pc t).UsesFs row fs →
    row < configMaxOpenFiles ∧ (M.vfs.files row).filesystem = some fs
  mounted    : ∀ t row fs, (M.pc t).Unmounts row fs → (M.vfs.filesystems row).filesystem = some fs
  unmounting : ∀ t row fs, M.pc t = .unmounting row fs →
    ∀ file < configMaxOpenFiles, (M.vfs.files file).filesystem ≠ some fs

/-- No row of the table of open files is released while another thread is in the `open`, `read` or
`write` of the driver with it. -/
def VfsMachine.KeepsRows (M : VfsMachine τ φ) (t : τ) : VfsAction φ → Prop
  | .release row => ∀ u, u ≠ t → ¬ (M.pc u).Uses row
  | _            => True

omit [DecidableEq τ] in
lemma unmountInv_start (h : M.Start) : UnmountInv M where
  distinct := h.distinct
  table t := by rw [h.idle, h.table]; exact iff_of_false id (by simp)
  files t := by rw [h.idle, h.files]; exact iff_of_false id (by simp)
  uses t _ _ huses := by rw [h.idle] at huses; exact huses.elim
  mounted t _ _ hmounted := by rw [h.idle] at hmounted; exact hmounted.elim
  unmounting t _ _ hpc := by rw [h.idle] at hpc; cases hpc

namespace UnmountInv

lemma step (h : UnmountInv M) (hstep : VfsStep M t a M') (hcond : M.KeepsRows t a) :
    UnmountInv M' := by
  have hother : ∀ u, u ≠ t → M'.pc u = M.pc u := fun u hu => hstep.pc_of_ne hu
  have htable : ∀ u, (M'.pc u).HasTable ↔ M'.table = some u :=
    hstep.table.owner (fun u hu => by rw [hother u hu]) h.table
  have hfiles : ∀ u, (M'.pc u).HasFiles ↔ M'.files = some u :=
    hstep.files.owner (fun u hu => by rw [hother u hu]) h.files
  have hrow : ∀ row fs, (M'.vfs.filesystems row).filesystem = some fs →
      (M.vfs.filesystems row).filesystem = some fs := by
    intro row fs hfs
    rcases hstep.filesystem row with heq | ⟨hnone, -, -⟩
    · rwa [heq] at hfs
    · rw [hnone] at hfs
      cases hfs
  exact
    { distinct := fun i j fs hi hj => h.distinct i j fs (hrow i fs hi) (hrow j fs hj)
      table := htable
      files := hfiles
      uses := fun u row fs huses => by
        by_cases hut : u = t
        · subst hut
          exact hstep.usesFs huses
        · rw [hother u hut] at huses
          obtain ⟨hlt, hfs⟩ := h.uses u row fs huses
          refine ⟨hlt, ?_⟩
          rcases hstep.openfile row with heq | ⟨-, -, hnone, -⟩ | ⟨rfl, -⟩
          · rw [heq, hfs]
          · rw [hfs] at hnone
            cases hnone
          · exact absurd huses.uses (hcond u hut)
      mounted := fun u row fs hunmounts => by
        by_cases hut : u = t
        · subst hut
          have hold : (M.vfs.filesystems row).filesystem = some fs :=
            (hstep.unmounts hunmounts).elim (h.mounted u row fs) id
          rcases hstep.filesystem row with heq | ⟨-, hidle, -⟩
          · rw [heq, hold]
          · rw [hidle] at hunmounts
            exact hunmounts.elim
        · rw [hother u hut] at hunmounts
          rcases hstep.filesystem row with heq | ⟨-, -, fs', hpc⟩
          · rw [heq, h.mounted u row fs hunmounts]
          · -- both threads would have the semaphore of the mount table
            have hu := (h.table u).mp hunmounts.hasTable
            rw [(h.table t).mp (by rw [hpc]; trivial)] at hu
            exact absurd (Option.some.inj hu).symm hut
      unmounting := fun u row fs hpc file hfile => by
        by_cases hut : u = t
        · subst hut
          exact hstep.unmounting hpc file hfile
        · rw [hother u hut] at hpc
          rcases hstep.openfile file with heq | ⟨hheld, -⟩ | ⟨-, hnone⟩
          · rw [heq]
            exact h.unmounting u row fs hpc file hfile
          · have hu := (h.table u).mp (by rw [hpc]; trivial)
            rw [(h.table t).mp hheld] at hu
            exact absurd (Option.some.inj hu).symm hut
          · rw [hnone]
            simp }

omit [DecidableEq τ] in
/-- While a thread is in the `unmount` of a filesystem, no thread is in another function of it. -/
lemma not_inDriver (h : UnmountInv M) (hpc : M.pc t = .unmounting row fs) (u : τ) :
    ¬ (M.pc u).InDriver fs := by
  intro hdriver
  have heq : (M.pc u).HasFiles ∨ (M.pc u).HasTable → u = t := by
    rintro (hfiles | htable)
    · have hu := (h.files u).mp hfiles
      rw [(h.files t).mp (by rw [hpc]; trivial)] at hu
      exact (Option.some.inj hu).symm
    · have hu := (h.table u).mp htable
      rw [(h.table t).mp (by rw [hpc]; trivial)] at hu
      exact (Option.some.inj hu).symm
  rcases hdriver.cases with ⟨row', huses⟩ | hlock
  · obtain ⟨hlt, hfs⟩ := h.uses u row' fs huses
    exact h.unmounting t row fs hpc row' hlt hfs
  · rw [heq hlock, hpc] at hdriver
    exact hdriver

end UnmountInv

/-- The filesystem is nowhere any more: neither in the two tables nor with a thread. -/
structure Gone (fs : φ) (M : VfsMachine τ φ) : Prop where
  unmounted : ∀ row, (M.vfs.filesystems row).filesystem ≠ some fs
  closed    : ∀ file < configMaxOpenFiles, (M.vfs.files file).filesystem ≠ some fs
  outside   : ∀ u, ¬ (M.pc u).InDriver fs

lemma VfsRun.unmountInv {M₀ : VfsMachine τ φ} (h : UnmountInv M₀)
    (hrun : VfsRun VfsMachine.KeepsRows M₀ M) : UnmountInv M := by
  induction hrun with
  | refl => exact h
  | tail _ hstep ih =>
    obtain ⟨t, a, hstep, hcond⟩ := hstep
    exact ih.step hstep hcond

/-- A thread that gets into a driver has found its filesystem in one of the tables. -/
lemma VfsStep.inDriver (h : VfsStep M t a M') (hdriver : (M'.pc t).InDriver fs) :
    (M.pc t).InDriver fs ∨ (∃ row, (M.vfs.filesystems row).filesystem = some fs) ∨
      ∃ file < configMaxOpenFiles, (M.vfs.files file).filesystem = some fs := by
  cases h with
  | reserve hpc hfiles hreserve =>
    simp only [VfsMachine.setPc, Function.update_self] at hdriver
    obtain rfl := hdriver
    exact .inr (.inl (entryNamed_filesystem (reserveFile_filesystem hreserve)))
  | read hpc hfiles hopen | write hpc hfiles hopen | close hpc hfiles hopen =>
    simp only [VfsMachine.setPc, Function.update_self] at hdriver
    obtain rfl := hdriver
    exact .inr (.inr ⟨_, vfsVerifyOpen_lt hopen, (vfsVerifyOpen_some hopen).2⟩)
  | onVolume hpc hcall htable hfs =>
    simp only [VfsMachine.setPc, Function.update_self] at hdriver
    obtain rfl := hdriver
    exact .inr (.inl (entryNamed_filesystem hfs))
  | _ =>
    simp only [VfsMachine.setPc, Function.update_self] at hdriver
    exact hdriver.elim

/-- A filesystem that is gone does not come back. -/
lemma Gone.step (h : Gone fs M) (hstep : VfsStep M t a M') : Gone fs M' where
  unmounted row hfs := by
    rcases hstep.filesystem row with heq | ⟨hnone, -, -⟩
    · exact h.unmounted row (by rwa [heq] at hfs)
    · rw [hnone] at hfs
      cases hfs
  closed file hfile hfs := by
    rcases hstep.openfile file with heq | ⟨-, -, -, fs', row, hfs', hrow⟩ | ⟨-, hnone⟩
    · exact h.closed file hfile (by rwa [heq] at hfs)
    · rw [hfs, Option.some.injEq] at hfs'
      exact h.unmounted row (by rw [hrow, hfs'])
    · rw [hnone] at hfs
      cases hfs
  outside u hdriver := by
    by_cases hut : u = t
    · subst hut
      rcases hstep.inDriver hdriver with hold | ⟨row, hrow⟩ | ⟨file, hfile, hfs⟩
      · exact h.outside u hold
      · exact h.unmounted row hrow
      · exact h.closed file hfile hfs
    · rw [hstep.pc_of_ne hut] at hdriver
      exact h.outside u hdriver

/-- After the `unmount` of a driver the filesystem is gone. -/
lemma UnmountInv.gone (h : UnmountInv M) (hpc : M.pc t = .unmounting row fs)
    (hstep : VfsStep M t a M') : Gone fs M' := by
  have hrows := h.unmounting t row fs hpc
  have hmounted := h.mounted t row fs (by rw [hpc]; exact ⟨rfl, rfl⟩)
  cases hstep with
  | unmounted hpc' =>
    rw [hpc] at hpc'
    cases hpc'
    exact
      { unmounted := fun row' hfs => by
          by_cases hrow : row' = row
          · simp [VfsState.setEntry, hrow] at hfs
          · simp only [VfsState.setEntry, Function.update_of_ne hrow] at hfs
            exact hrow (h.distinct row' row fs hfs hmounted)
        closed := hrows
        outside := fun u hdriver => by
          by_cases hut : u = t
          · rw [hut, show (M.setPc t .idle).pc t = .idle from M.setPc_self t _] at hdriver
            exact hdriver
          · rw [show (M.setPc t .idle).pc u = M.pc u from M.setPc_of_ne hut _] at hdriver
            exact h.not_inDriver hpc u hdriver }
  | call hpc' _ | badPath hpc' _ _ | openTable hpc' _ _ | notReserved hpc' _ _ | reserve hpc' _ _
  | fill hpc' _ | fail hpc' | release hpc' _ | notOpen hpc' _ _ _ | read hpc' _ _ | write hpc' _ _
  | readNothing hpc' _ | deliver hpc' _ | wroteNothing hpc' _ | wrote hpc' _ | advance hpc' _
  | close hpc' _ _ | closed hpc' | noVolume hpc' _ _ _ | onVolume hpc' _ _ _ | volumeDone hpc'
  | notFound hpc' _ _ | unmountTable hpc' _ _ _ | inUse hpc' _ _ | unmount hpc' _ _ =>
    rw [hpc] at hpc'
    cases hpc'

/-- In every interleaving in which no row is released while another thread is in a driver with it:
when `vfs_unmount` calls the `unmount` of a driver, no thread is in another function of it, and
none gets there later. -/
theorem vfsRun_unmount_waits {M₀ : VfsMachine τ φ} (hstart : M₀.Start)
    (hrun : VfsRun VfsMachine.KeepsRows M₀ M) (hpc : M.pc t = .unmounting row fs)
    (hlater : VfsRun VfsMachine.KeepsRows M M') (u : τ) : ¬ (M'.pc u).InDriver fs := by
  have hinv := hrun.unmountInv (unmountInv_start hstart)
  have hgone : M'.pc t = .unmounting row fs ∨ Gone fs M' := by
    induction hlater with
    | refl => exact .inl hpc
    | @tail M₁ M₂ hrun₁ hstep ih =>
      obtain ⟨v, a, hstep, -⟩ := hstep
      rcases ih with hpc₁ | hgone
      · by_cases hvt : t = v
        · subst hvt
          exact .inr ((VfsRun.unmountInv hinv hrun₁).gone hpc₁ hstep)
        · exact .inl ((hstep.pc_of_ne hvt).trans hpc₁)
      · exact .inr (hgone.step hstep)
  rcases hgone with hpc' | hgone
  · exact (VfsRun.unmountInv hinv hlater).not_inDriver hpc' u
  · exact hgone.outside u

/-- A thread unmounts a filesystem that nobody uses. -/
theorem vfsRun_unmount_waits_oneVolume : ∃ M, oneVolume.Start ∧
    VfsRun VfsMachine.KeepsRows oneVolume M ∧ M.pc true = .unmounting 0 5 ∧
      ¬ (M.pc false).InDriver 5 := by
  have hcalled : VfsRun VfsMachine.KeepsRows oneVolume _ :=
    .single ⟨true, _, @VfsStep.call _ _ _ _ _ (.unmount ['a'.toUInt8]) rfl trivial, trivial⟩
  have hfound : VfsRun VfsMachine.KeepsRows oneVolume _ :=
    hcalled.tail ⟨true, _, @VfsStep.unmountTable _ _ _ _ _ ['a'.toUInt8] 0 5 rfl rfl rfl rfl,
      trivial⟩
  have hclosed : ¬ ∃ file < configMaxOpenFiles,
      (oneVolume.vfs.files file).filesystem = some 5 := by
    rintro ⟨file, -, hfs⟩
    cases hfs
  have hunmounting : VfsRun VfsMachine.KeepsRows oneVolume _ :=
    hfound.tail ⟨true, _, @VfsStep.unmount _ _ _ _ _ 0 5 rfl rfl hclosed, trivial⟩
  exact ⟨_, oneVolume_start, hunmounting, rfl,
    @vfsRun_unmount_waits _ _ _ _ true 0 5 _ _ oneVolume_start hunmounting rfl .refl false⟩

/-- A row is closed by one thread while another one reads from it, and the filesystem is
unmounted. -/
theorem not_unmount_waits_closed : ¬ ∀ (M : VfsMachine Bool ℕ) (t : Bool) (row fs : ℕ),
    VfsRun (fun _ _ _ => True) oneVolume M → M.pc t = .unmounting row fs →
    ∀ u, ¬ (M.pc u).InDriver fs := by
  intro hall
  have hopened : VfsRun (fun _ _ _ => True) oneVolume openedFile :=
    openedFile_run (fun _ => trivial) (fun _ => trivial) (fun _ _ => trivial) fun _ => trivial
  have hcalled : VfsRun (fun _ _ _ => True) oneVolume _ :=
    hopened.tail ⟨false, _, @VfsStep.call _ _ _ _ _ (.read 0 1 64) rfl trivial, trivial⟩
  have hreading : VfsRun (fun _ _ _ => True) oneVolume _ :=
    hcalled.tail ⟨false, _, @VfsStep.read _ _ _ _ _ 0 1 64 0 5 rfl rfl rfl, trivial⟩
  have hclose : VfsRun (fun _ _ _ => True) oneVolume _ :=
    hreading.tail ⟨true, _, @VfsStep.call _ _ _ _ _ (.close 0) rfl trivial, trivial⟩
  have hclosing : VfsRun (fun _ _ _ => True) oneVolume _ :=
    hclose.tail ⟨true, _, @VfsStep.close _ _ _ _ _ 0 0 5 rfl rfl rfl, trivial⟩
  have hclosed : VfsRun (fun _ _ _ => True) oneVolume _ :=
    hclosing.tail ⟨true, _, @VfsStep.closed _ _ _ _ _ 0 5 rfl, trivial⟩
  have hunmount : VfsRun (fun _ _ _ => True) oneVolume _ :=
    hclosed.tail ⟨true, _, @VfsStep.call _ _ _ _ _ (.unmount ['a'.toUInt8]) rfl trivial, trivial⟩
  have hfound : VfsRun (fun _ _ _ => True) oneVolume _ :=
    hunmount.tail ⟨true, _, @VfsStep.unmountTable _ _ _ _ _ ['a'.toUInt8] 0 5 rfl rfl rfl rfl,
      trivial⟩
  have hfree : ¬ ∃ file < configMaxOpenFiles,
      ((releaseFile openedFile.vfs 0).files file).filesystem = some 5 := by
    rintro ⟨file, -, hfs⟩
    rw [releaseFile, VfsState.setFile] at hfs
    by_cases hfile : file = 0
    · simp [hfile] at hfs
    · simp [hfile, openedFile, oneVolume, VfsState.setFile] at hfs
  have hunmounting : VfsRun (fun _ _ _ => True) oneVolume _ :=
    hfound.tail ⟨true, _, @VfsStep.unmount _ _ _ _ _ 0 5 rfl rfl hfree, trivial⟩
  exact hall _ true 0 5 hunmounting rfl false rfl

end Osm.Fs
