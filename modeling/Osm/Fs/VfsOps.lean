import Osm.Fs.Vfs

/-!
# The number of operations

Every operation on the virtual filesystem is counted in `vfs_ops` from `vfs_start_op` to
`vfs_end_op`. An operation on a file that is not open returns without `vfs_end_op`.
-/

namespace Osm.Fs

variable {φ : Type}

/-- A call of a function of the virtual filesystem. -/
inductive VfsCall (φ : Type) where
  | mount (fs : φ) (name : List UInt8)
  | unmount (name : List UInt8)
  | open (pathname : List UInt8)
  | close (file : ℤ)
  | seek (file seekPosition : ℤ)
  | tell (file : ℤ)
  | read (file : ℤ) (buffer : ℕ) (bufsize : ℤ)
  | write (file : ℤ) (buffer : ℕ) (datasize : ℤ)
  | create (pathname : List UInt8) (size : ℤ)
  | remove (pathname : List UInt8)
  | getfree (filesystem : List UInt8)

namespace VfsCall

def exec [DecidableEq φ] (answer : FsCall φ → ℤ) : VfsCall φ → VfsState φ → VfsResult φ
  | mount fs name               => vfsMount fs name
  | unmount name                => vfsUnmount name
  | .open pathname              => vfsOpen answer pathname
  | close file                  => vfsClose answer file
  | seek file seekPosition      => vfsSeek file seekPosition
  | tell file                   => vfsTell file
  | read file buffer bufsize    => vfsRead answer file buffer bufsize
  | write file buffer datasize  => vfsWrite answer file buffer datasize
  | create pathname size        => vfsCreate answer pathname size
  | remove pathname             => vfsRemove answer pathname
  | getfree filesystem          => vfsGetfree answer filesystem

/-- The arguments satisfy the assertions of the functions. -/
def ArgsOk : VfsCall φ → Prop
  | mount _ name        => name ≠ []
  | seek _ seekPosition => 0 ≤ seekPosition
  | create _ size       => 0 ≤ size
  | _                   => True

/-- The call is for a file that is not open, and its other arguments are valid. -/
def OnClosedFile (s : VfsState φ) : VfsCall φ → Prop
  | close file              => vfsVerifyOpen s file = none
  | seek file _             => vfsVerifyOpen s file = none
  | tell file               => vfsVerifyOpen s file = none
  | read file buffer size   => ¬ (size < 0 ∨ buffer = 0) ∧ vfsVerifyOpen s file = none
  | write file buffer size  => ¬ (size < 0 ∨ buffer = 0) ∧ vfsVerifyOpen s file = none
  | _                       => False

/-- The call comes to the end of its operation, if the filesystem is usable. -/
def Ends (s : VfsState φ) : VfsCall φ → Prop
  | close file              => vfsVerifyOpen s file ≠ none
  | seek file _             => vfsVerifyOpen s file ≠ none
  | tell file               => vfsVerifyOpen s file ≠ none
  | read file buffer size   => ¬ (size < 0 ∨ buffer = 0) ∧ vfsVerifyOpen s file ≠ none
  | write file buffer size  => ¬ (size < 0 ∨ buffer = 0) ∧ vfsVerifyOpen s file ≠ none
  | _                       => True

end VfsCall

/-! ### How operations end -/

/-- The variables in an operation. -/
def begun (s : VfsState φ) : VfsState φ := { s with ops := s.ops + 1 }

/-- An operation ends with `vfs_end_op`, or it leaves the count as it is and returns. -/
def EndsOp (s : VfsState φ) (leaves : Prop) (result : VfsResult φ) : Prop :=
  (¬ leaves ∧ ∃ ret t, result = endOp ret t ∧ t.ops = s.ops) ∨
  (leaves ∧ ∃ ret t, result = some (ret, t) ∧ t.ops = s.ops)

variable {s t s' : VfsState φ} {ret : ℤ} {leaves : Prop} {result : VfsResult φ}

lemma endsOp_endOp (hnot : ¬ leaves) (hops : t.ops = s.ops) : EndsOp s leaves (endOp ret t) :=
  .inl ⟨hnot, ret, t, rfl, hops⟩

lemma endsOp_return (hleaves : leaves) (hops : t.ops = s.ops) : EndsOp s leaves (some (ret, t)) :=
  .inr ⟨hleaves, ret, t, rfl, hops⟩

lemma startOp_of_usable {body : VfsState φ → VfsResult φ} (h : s.usable = true) :
    startOp s body = body (begun s) := by
  rw [startOp, vfsStartOp, if_pos h]
  exact if_neg (not_not.mpr rfl)

lemma startOp_of_unusable {body : VfsState φ → VfsResult φ} (h : s.usable = false) :
    startOp s body = some (vfsUnusable, s) := by
  rw [startOp, vfsStartOp, if_neg (by rw [h]; exact Bool.false_ne_true)]
  exact if_pos (show vfsUnusable ≠ vfsOk by decide)

/-- What a call does to the count: it leaves it as it was, or one higher if the operation begins and
leaves without its end. It fails the assertion at the end of the operation if the operation gets
there while the count is negative. -/
def CountsOp (s : VfsState φ) (leaves ends : Prop) (result : VfsResult φ) : Prop :=
  (∀ ret s', result = some (ret, s') →
    (s.usable = true ∧ leaves → s'.ops = s.ops + 1) ∧
    (¬ (s.usable = true ∧ leaves) → s'.ops = s.ops)) ∧
  (result = none ↔ s.usable = true ∧ ends ∧ s.ops < 0)

/-- The end of an operation takes back what its beginning has done to the count. -/
lemma endOp_begun (ret : ℤ) (t : VfsState φ) (hops : t.ops = s.ops + 1) :
    endOp ret t = if s.ops < 0 then none else some (ret, { t with ops := s.ops }) := by
  rw [endOp, vfsEndOp, hops, Int32.add_sub_cancel]
  by_cases hneg : s.ops < 0
  · rw [if_pos hneg, if_neg (Int32.not_le.mpr hneg)]
    rfl
  · rw [if_neg hneg, if_pos (Int32.not_lt.mp hneg)]
    rfl

/-- An operation that ends in one of the two ways, and what it does to the count. -/
lemma startOp_countsOp {ends : Prop} {body : VfsState φ → VfsResult φ} (hends : ends ↔ ¬ leaves)
    (hbody : EndsOp (begun s) leaves (body (begun s))) :
    CountsOp s leaves ends (startOp s body) := by
  rw [CountsOp, hends]
  cases husable : s.usable with
  | false =>
    rw [startOp_of_unusable husable]
    refine ⟨fun ret s' h => ?_, by simp⟩
    cases h
    simp
  | true =>
    rw [startOp_of_usable husable]
    obtain ⟨hnot, ret, t, hresult, hops⟩ | ⟨hleaves, ret, t, hresult, hops⟩ := hbody
    · rw [hresult, endOp_begun ret t hops]
      by_cases hneg : s.ops < 0
      · rw [if_pos hneg]
        refine ⟨fun ret' s' h => ?_, by simp [hneg, hnot]⟩
        cases h
      · rw [if_neg hneg]
        refine ⟨fun ret' s' h => ?_, by simp [hneg]⟩
        cases h
        exact ⟨fun h => absurd h.2 hnot, fun _ => rfl⟩
    · rw [hresult]
      refine ⟨fun ret' s' h => ?_, by simp [hleaves]⟩
      cases h
      exact ⟨fun _ => hops, fun h => absurd ⟨rfl, hleaves⟩ h⟩

/-! ### The operations -/

lemma setFile_ops (s : VfsState φ) (file : ℕ) (entry : OpenfileEntry φ) :
    (s.setFile file entry).ops = s.ops := rfl

lemma advanceFile_ops (s : VfsState φ) (file : ℕ) (ret : ℤ) : (advanceFile s file ret).ops = s.ops := by
  rw [advanceFile]
  split_ifs
  · exact setFile_ops s file _
  · rfl

lemma reserveFile_ops {volume : List UInt8} {file : ℕ} {fs : φ}
    (h : reserveFile s volume = .ok (file, fs, s')) : s'.ops = s.ops := by
  obtain ⟨-, rfl⟩ := reserveFile_ok h
  exact setFile_ops s file _

section Bodies

variable {answer : FsCall φ → ℤ}

lemma endsOp_onOpenFile {file : ℤ} {body : ℕ → φ → VfsResult φ}
    (hbody : ∀ row fs, EndsOp s False (body row fs)) :
    EndsOp s (vfsVerifyOpen s file = none) (onOpenFile s file body) := by
  rw [onOpenFile]
  cases vfsVerifyOpen s file with
  | none => exact endsOp_return rfl rfl
  | some row =>
    obtain ⟨-, hend⟩ | ⟨hfalse, -⟩ := hbody row.1 row.2
    · exact .inl ⟨Option.some_ne_none row, hend⟩
    · exact hfalse.elim

lemma vfsMount_countsOp (fs : φ) {name : List UInt8} (hname : name ≠ []) (s : VfsState φ) :
    CountsOp s False True (vfsMount fs name s) := by
  rw [vfsMount, if_neg hname]
  refine startOp_countsOp (iff_of_true trivial id) ?_
  cases (begun s).freeEntry with
  | none => exact endsOp_endOp id rfl
  | some row =>
    cases (begun s).entryNamed name with
    | none => exact endsOp_endOp id rfl
    | some row => exact endsOp_endOp id rfl

lemma vfsUnmount_countsOp [DecidableEq φ] (name : List UInt8) (s : VfsState φ) :
    CountsOp s False True (vfsUnmount name s) := by
  refine startOp_countsOp (iff_of_true trivial id) ?_
  cases (begun s).entryNamed name with
  | none => exact endsOp_endOp id rfl
  | some row =>
    cases hfs : ((begun s).filesystems row).filesystem with
    | none =>
      simp only [hfs]
      exact endsOp_endOp id rfl
    | some fs =>
      simp only [hfs]
      split_ifs
      · exact endsOp_endOp id rfl
      · exact endsOp_endOp id rfl

lemma vfsOpen_countsOp (pathname : List UInt8) (s : VfsState φ) :
    CountsOp s False True (vfsOpen answer pathname s) := by
  refine startOp_countsOp (iff_of_true trivial id) ?_
  cases vfsParsePathname pathname with
  | error ret => exact endsOp_endOp id rfl
  | ok names =>
    cases hreserve : reserveFile (begun s) names.1 with
    | error ret =>
      simp only [hreserve]
      exact endsOp_endOp id rfl
    | ok reserved =>
      obtain ⟨file, fs, t⟩ := reserved
      have hops := reserveFile_ops hreserve
      simp only [hreserve]
      split_ifs
      · exact endsOp_endOp id hops
      · exact endsOp_endOp id hops

lemma vfsClose_countsOp (file : ℤ) (s : VfsState φ) :
    CountsOp s (vfsVerifyOpen s file = none) (vfsVerifyOpen s file ≠ none)
      (vfsClose answer file s) := by
  refine startOp_countsOp Iff.rfl ?_
  exact endsOp_onOpenFile fun _ _ => endsOp_endOp id rfl

lemma vfsSeek_countsOp (file : ℤ) {seekPosition : ℤ} (hpos : 0 ≤ seekPosition) (s : VfsState φ) :
    CountsOp s (vfsVerifyOpen s file = none) (vfsVerifyOpen s file ≠ none)
      (vfsSeek file seekPosition s) := by
  refine startOp_countsOp Iff.rfl ?_
  rw [if_neg (not_lt.mpr hpos)]
  exact endsOp_onOpenFile fun _ _ => endsOp_endOp id rfl

lemma vfsTell_countsOp (file : ℤ) (s : VfsState φ) :
    CountsOp s (vfsVerifyOpen s file = none) (vfsVerifyOpen s file ≠ none)
      (vfsTell file s) := by
  refine startOp_countsOp Iff.rfl ?_
  exact endsOp_onOpenFile fun _ _ => endsOp_endOp id rfl

/-- `vfs_read` and `vfs_write`. -/
lemma transfer_countsOp (request : φ → ℤ → ℤ → ℤ → FsCall φ) (file : ℤ) (buffer : ℕ) (size : ℤ)
    (s : VfsState φ) : CountsOp s (¬ (size < 0 ∨ buffer = 0) ∧ vfsVerifyOpen s file = none)
      (¬ (size < 0 ∨ buffer = 0) ∧ vfsVerifyOpen s file ≠ none) (transfer answer request file buffer size s) := by
  rw [transfer]
  by_cases hargs : size < 0 ∨ buffer = 0
  · rw [if_pos hargs]
    refine ⟨fun ret s' h => ?_, by simp [hargs]⟩
    cases h
    simp [hargs]
  · rw [if_neg hargs]
    simp only [hargs, not_false_iff, true_and]
    refine startOp_countsOp Iff.rfl ?_
    exact endsOp_onOpenFile fun _ _ => endsOp_endOp id (advanceFile_ops _ _ _)

/-- `vfs_create` and `vfs_remove`. -/
lemma onVolume_countsOp (request : φ → List UInt8 → FsCall φ) (pathname : List UInt8)
    (s : VfsState φ) : CountsOp s False True (onVolume answer request pathname s) := by
  refine startOp_countsOp (iff_of_true trivial id) ?_
  cases vfsParsePathname pathname with
  | error ret => exact endsOp_endOp id rfl
  | ok names =>
    cases hfs : vfsGetFilesystem (begun s) names.1 with
    | none =>
      simp only [hfs]
      exact endsOp_endOp id rfl
    | some fs =>
      simp only [hfs]
      exact endsOp_endOp id rfl

lemma vfsGetfree_countsOp (filesystem : List UInt8) (s : VfsState φ) :
    CountsOp s False True (vfsGetfree answer filesystem s) := by
  refine startOp_countsOp (iff_of_true trivial id) ?_
  cases vfsGetFilesystem (begun s) filesystem with
  | none => exact endsOp_endOp id rfl
  | some fs => exact endsOp_endOp id rfl

end Bodies

lemma VfsCall.exec_countsOp [DecidableEq φ] {answer : FsCall φ → ℤ} {call : VfsCall φ}
    (hargs : call.ArgsOk) (s : VfsState φ) :
    CountsOp s (call.OnClosedFile s) (call.Ends s) (call.exec answer s) := by
  cases call with
  | mount fs name => exact vfsMount_countsOp fs hargs s
  | unmount name =>
    rw [exec]
    exact vfsUnmount_countsOp name s
  | «open» pathname =>
    rw [exec]
    exact vfsOpen_countsOp pathname s
  | close file => exact vfsClose_countsOp file s
  | seek file seekPosition => exact vfsSeek_countsOp file hargs s
  | tell file => exact vfsTell_countsOp file s
  | read file buffer bufsize => exact transfer_countsOp _ file buffer bufsize s
  | write file buffer datasize => exact transfer_countsOp _ file buffer datasize s
  | create pathname size =>
    rw [exec, vfsCreate, if_neg (not_lt.mpr hargs)]
    exact onVolume_countsOp _ pathname s
  | remove pathname => exact onVolume_countsOp _ pathname s
  | getfree filesystem => exact vfsGetfree_countsOp filesystem s

/-- For every state, every call whose arguments satisfy the assertions and every behaviour of the
filesystems, the call returns, and it leaves `vfs_ops` as it was exactly when it is not an
operation on a file that is not open. -/
theorem vfsOps_balanced_iff [DecidableEq φ] {answer : FsCall φ → ℤ} {call : VfsCall φ}
    (hargs : call.ArgsOk) (hops : 0 ≤ s.ops) :
    ∃ ret s', call.exec answer s = some (ret, s') ∧
      (s'.ops = s.ops ↔ ¬ (s.usable = true ∧ call.OnClosedFile s)) := by
  obtain ⟨hcount, hnone⟩ := @VfsCall.exec_countsOp _ _ answer _ hargs s
  have hreturns : call.exec answer s ≠ none := fun h =>
    absurd (hnone.mp h).2.2 (Int32.not_lt.mpr hops)
  obtain ⟨⟨ret, s'⟩, hexec⟩ := Option.ne_none_iff_exists'.mp hreturns
  obtain ⟨hmore, hsame⟩ := hcount ret s' hexec
  refine ⟨ret, s', hexec, fun heq hleaves => ?_, hsame⟩
  have hone := Int32.left_eq_add.mp (heq.symm.trans (hmore hleaves))
  exact absurd hone (by decide)

/-- The variables after `vfs_init`. -/
def vfsInit : VfsState φ where
  filesystems _ := ⟨none, []⟩
  files _       := ⟨none, 0, 0⟩
  ops           := 0
  usable        := true

/-- The volume `d` is mounted, and a file on it is open. -/
def VfsState.sample : VfsState ℕ where
  filesystems := Function.update (fun _ => ⟨none, []⟩) 0 ⟨some 7, [100]⟩
  files       := Function.update (fun _ => ⟨none, 0, 0⟩) 3 ⟨some 7, 2, 0⟩
  ops         := 0
  usable      := true

/-- Ten bytes are read from the file. -/
theorem vfsOps_balanced_iff_read :
    (0 ≤ VfsState.sample.ops ∧ ¬ (VfsCall.read 3 4096 10).OnClosedFile VfsState.sample) ∧
    ∃ ret s', (VfsCall.read 3 4096 10).exec (fun _ => 10) VfsState.sample = some (ret, s') ∧
      (s'.ops = VfsState.sample.ops ↔ ¬ (VfsState.sample.usable = true ∧
        (VfsCall.read 3 4096 10).OnClosedFile VfsState.sample)) := by
  refine ⟨⟨by decide, fun hclosed => ?_⟩, vfsOps_balanced_iff trivial (by decide)⟩
  exact absurd hclosed.2 (Option.some_ne_none (3, 7))

/-- `vfs_close` of a file that is not open leaves the operation counted. -/
theorem vfsClose_unbalanced : ∃ s',
    (VfsCall.close 0).exec (fun _ => 0) (@vfsInit ℕ) = some (vfsNotOpen, s') ∧
      s'.ops ≠ (@vfsInit ℕ).ops :=
  ⟨_, rfl, by decide⟩

end Osm.Fs
