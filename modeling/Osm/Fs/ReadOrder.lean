import Osm.Fs.Concurrent

/-!
# Concurrent reads of an open file

Calls of `vfs_read` in several threads on the same open file. The position is read under the lock
of the table, the bytes are transferred without it, and the position is moved under the lock again.
When the calls do not overlap, they deliver consecutive bytes, and each of them moves the position
of its own file only.
-/

namespace Osm.Fs

variable {φ τ : Type}

/-! ### Consecutive ranges -/

/-- The ranges, given by offset and length, follow each other from a position on. -/
def Consecutive : ℤ → List (ℤ × ℤ) → Prop
  | _, []                            => True
  | position, (offset, length) :: l => offset = position ∧ Consecutive (position + length) l

/-- Where the ranges end. -/
def rangesEnd (ranges : List (ℤ × ℤ)) : ℤ := (ranges.map Prod.snd).sum

/-- Two ranges have no byte in common. -/
def RangesDisjoint (a b : ℤ × ℤ) : Prop :=
  ∀ i, ¬ ((a.1 ≤ i ∧ i < a.1 + a.2) ∧ (b.1 ≤ i ∧ i < b.1 + b.2))

lemma rangesEnd_concat (ranges : List (ℤ × ℤ)) (offset length : ℤ) :
    rangesEnd (ranges ++ [(offset, length)]) = rangesEnd ranges + length := by
  simp [rangesEnd]

lemma rangesEnd_nonneg {ranges : List (ℤ × ℤ)} (h : ∀ range ∈ ranges, 0 < range.2) :
    0 ≤ rangesEnd ranges := by
  induction ranges with
  | nil => exact le_rfl
  | cons range ranges ih =>
    have hlength := h range (List.mem_cons_self ..)
    have hrest := ih fun r hr => h r (List.mem_cons_of_mem _ hr)
    rw [rangesEnd, List.map_cons, List.sum_cons, ← rangesEnd]
    omega

lemma consecutive_concat {ranges : List (ℤ × ℤ)} {position offset length : ℤ}
    (h : Consecutive position ranges) (hoffset : offset = position + rangesEnd ranges) :
    Consecutive position (ranges ++ [(offset, length)]) := by
  induction ranges generalizing position with
  | nil => exact ⟨by simpa [rangesEnd] using hoffset, trivial⟩
  | cons range ranges ih =>
    obtain ⟨offset', length'⟩ := range
    refine ⟨h.1, ih h.2 ?_⟩
    rw [hoffset, rangesEnd, rangesEnd, List.map_cons, List.sum_cons, add_assoc]

lemma Consecutive.offset_ge {ranges : List (ℤ × ℤ)} {position : ℤ}
    (h : Consecutive position ranges) (hpos : ∀ range ∈ ranges, 0 < range.2) :
    ∀ range ∈ ranges, position ≤ range.1 := by
  induction ranges generalizing position with
  | nil => simp
  | cons range ranges ih =>
    obtain ⟨hoffset, hrest⟩ := h
    have hlength := hpos range (List.mem_cons_self ..)
    intro range' hrange'
    rcases List.mem_cons.mp hrange' with rfl | hrange'
    · exact hoffset.ge
    · have hge := ih hrest (fun r hr => hpos r (List.mem_cons_of_mem _ hr)) range' hrange'
      omega

/-- Consecutive ranges are pairwise disjoint. -/
lemma Consecutive.pairwise {ranges : List (ℤ × ℤ)} {position : ℤ}
    (h : Consecutive position ranges) (hpos : ∀ range ∈ ranges, 0 < range.2) :
    ranges.Pairwise RangesDisjoint := by
  induction ranges generalizing position with
  | nil => exact .nil
  | cons range ranges ih =>
    obtain ⟨hoffset, hrest⟩ := h
    have hpos' : ∀ range' ∈ ranges, 0 < range'.2 := fun r hr => hpos r (List.mem_cons_of_mem _ hr)
    refine .cons (fun range' hrange' i hi => ?_) (ih hrest hpos')
    have hge := hrest.offset_ge hpos' range' hrange'
    omega

/-! ### The condition -/

namespace VfsMachine

/-- The ranges that the reads of an opening have delivered. -/
def delivered (M : VfsMachine τ φ) (number : ℕ) : List (ℤ × ℤ) :=
  (M.log.filter fun entry => entry.1 = number).map Prod.snd

/-- No `vfs_read` begins on a row while another one or the `vfs_open` of the row is in progress, no
row is taken again by `vfs_open` while a `vfs_read` on it is in progress, and the positions stay in
the range of `int`. The position is moved by `vfs_read` only. -/
def ReadsAlone (M : VfsMachine τ φ) (_ : τ) : VfsAction φ → Prop
  | .call call       => ∀ file buffer datasize, call ≠ .write file buffer datasize
  | .begin row       => ∀ u, ¬ (M.pc u).Reads row ∧ ¬ (M.pc u).Opens row
  | .reserve row     => ∀ u, ¬ (M.pc u).Reads row
  | .advance row ret => (M.vfs.files row).seekPosition + ret < 2 ^ 31
  | _                => True

end VfsMachine

/-- The reads of every opening have delivered consecutive ranges from the beginning of the file on,
which are disjoint, and a read that moves a position moves that of its own open file. -/
structure SharesPosition (M : VfsMachine τ φ) : Prop where
  consecutive : ∀ number, Consecutive 0 (M.delivered number)
  disjoint    : ∀ number, (M.delivered number).Pairwise RangesDisjoint
  own         : ∀ t row number ret, M.pc t = .advancing row number ret → ∀ file,
    (M.vfs.files file).filesystem ≠ none →
    ((advanceFile M.vfs row ret).files file).seekPosition ≠ (M.vfs.files file).seekPosition →
    M.opening file = number

/-! ### The invariant -/

/-- What a thread in `vfs_read` knows about its row. -/
def VfsMachine.ReadOk (M : VfsMachine τ φ) : VfsPc φ → Prop
  | .reading row number _ _ _ seekPosition => number = M.opening row ∧ number ≠ 0 ∧
      (M.vfs.files row).seekPosition = seekPosition ∧ seekPosition = rangesEnd (M.delivered number)
  | .advancing row number ret => number = M.opening row ∧ number ≠ 0 ∧
      (M.vfs.files row).seekPosition + ret = rangesEnd (M.delivered number) ∧ 0 < ret
  | .writing _ _ _ _ _ => False
  | .called (.write _ _ _) => False
  | _ => True

/-- Every opening has a number of its own. One thread reads from a row at a time, and no thread
while the row is opened; the position of an open row is where the ranges end. -/
structure ReadInv (M : VfsMachine τ φ) : Prop where
  numbers     : ∀ row, M.opening row < M.openings
  injective   : ∀ row row', M.opening row = M.opening row' → M.opening row ≠ 0 → row = row'
  logged      : ∀ entry ∈ M.log, entry.1 < M.openings
  positive    : ∀ entry ∈ M.log, 0 < entry.2.2
  consecutive : ∀ number, Consecutive 0 (M.delivered number)
  opened      : ∀ row, (M.vfs.files row).filesystem ≠ none → M.opening row ≠ 0
  ok          : ∀ t, M.ReadOk (M.pc t)
  alone       : ∀ t u row, (M.pc t).Reads row → (M.pc u).Reads row → t = u
  opens       : ∀ t row, (M.pc t).Opens row → (∀ u, ¬ (M.pc u).Reads row) ∧
    M.delivered (M.opening row) = [] ∧ M.opening row ≠ 0
  position    : ∀ row, (M.vfs.files row).filesystem ≠ none → (∀ u, ¬ (M.pc u).Opens row) →
    (∀ u, ¬ (M.pc u).Reads row) →
    (M.vfs.files row).seekPosition = rangesEnd (M.delivered (M.opening row))

variable {M M' : VfsMachine τ φ} {t : τ} {row : ℕ}

lemma delivered_pos (h : ReadInv M) (number : ℕ) : ∀ range ∈ M.delivered number, 0 < range.2 := by
  intro range hrange
  obtain ⟨entry, hentry, rfl⟩ := List.mem_map.mp hrange
  exact h.positive entry (List.mem_filter.mp hentry).1

lemma delivered_eq_nil (h : ReadInv M) {number : ℕ} (hnumber : M.openings ≤ number) :
    M.delivered number = [] := by
  rw [VfsMachine.delivered, List.filter_eq_nil_iff.mpr fun entry hentry => ?_, List.map_nil]
  have hlt := h.logged entry hentry
  simp only [decide_eq_true_eq]
  omega

lemma readInv_start (h : M.Start) : ReadInv M where
  numbers row := by rw [h.opening, h.openings]; exact Nat.one_pos
  injective row _ _ hne := absurd (h.opening row) hne
  logged entry hentry := by rw [h.log] at hentry; cases hentry
  positive entry hentry := by rw [h.log] at hentry; cases hentry
  consecutive number := by rw [VfsMachine.delivered, h.log]; trivial
  opened row hopen := absurd (h.closed row) hopen
  ok t := by rw [h.idle]; trivial
  alone t _ row hreads _ := by rw [h.idle] at hreads; exact hreads.elim
  opens t row hopens := by rw [h.idle] at hopens; exact hopens.elim
  position row hopen := absurd (h.closed row) hopen

variable [DecidableEq τ]

omit [DecidableEq τ] in
/-- What a thread knows stays true if its row has the same opening, position and ranges. -/
lemma readOk_of_row {pc : VfsPc φ} (h : M.ReadOk pc) (hrow : ∀ row, pc.Reads row →
    M'.opening row = M.opening row ∧
      (M'.vfs.files row).seekPosition = (M.vfs.files row).seekPosition ∧
      (M.opening row ≠ 0 → M'.delivered (M.opening row) = M.delivered (M.opening row))) :
    M'.ReadOk pc := by
  cases pc with
  | called call => cases call <;> exact h
  | reading row number fs fileid size seekPosition =>
    obtain ⟨rfl, hne, hok⟩ := h
    obtain ⟨hopening, hseek, hdelivered⟩ := hrow row rfl
    refine ⟨hopening.symm, hne, ?_⟩
    rw [hseek, hdelivered hne]
    exact hok
  | advancing row number ret =>
    obtain ⟨rfl, hne, hok⟩ := h
    obtain ⟨hopening, hseek, hdelivered⟩ := hrow row rfl
    refine ⟨hopening.symm, hne, ?_⟩
    rw [hseek, hdelivered hne]
    exact hok
  | _ => exact h

/-- The step of a thread from and to places of the same kind. -/
lemma setPc_iff {pc : VfsPc φ} {P : VfsPc φ → Prop} (h : P pc ↔ P (M.pc t)) (u : τ) :
    P ((M.setPc t pc).pc u) ↔ P (M.pc u) := by
  by_cases hut : u = t
  · rw [hut, M.setPc_self]
    exact h
  · rw [M.setPc_of_ne hut]

/-- A thread moves on that then neither reads nor opens a row, and no position changes. -/
lemma ReadInv.move {pc : VfsPc φ} (h : ReadInv M) (hpc : M'.pc = Function.update M.pc t pc)
    (hlog : M'.log = M.log) (hopening : M'.opening = M.opening)
    (hopenings : M'.openings = M.openings)
    (hseek : ∀ file, (M'.vfs.files file).seekPosition = (M.vfs.files file).seekPosition)
    (hopen : ∀ file, (M'.vfs.files file).filesystem ≠ none →
      (M.vfs.files file).filesystem ≠ none)
    (hok : M.ReadOk pc) (hreads : ∀ row, ¬ pc.Reads row) (hopens : ∀ row, ¬ pc.Opens row)
    (hposition : ∀ row, (M.pc t).Opens row ∨ (M.pc t).Reads row →
      (M'.vfs.files row).filesystem ≠ none →
      (M.vfs.files row).seekPosition = rangesEnd (M.delivered (M.opening row))) :
    ReadInv M' := by
  have hdelivered : ∀ number, M'.delivered number = M.delivered number := fun number => by
    rw [VfsMachine.delivered, hlog]
    rfl
  have hself : M'.pc t = pc := by rw [hpc, Function.update_self]
  have hother : ∀ u, u ≠ t → M'.pc u = M.pc u := fun u hu => by
    rw [hpc, Function.update_of_ne hu]
  have hreadsOld : ∀ u row, (M'.pc u).Reads row → (M.pc u).Reads row := by
    intro u row hu
    by_cases hut : u = t
    · rw [hut, hself] at hu
      exact absurd hu (hreads row)
    · rwa [hother u hut] at hu
  have hopensOld : ∀ u row, (M'.pc u).Opens row → (M.pc u).Opens row := by
    intro u row hu
    by_cases hut : u = t
    · rw [hut, hself] at hu
      exact absurd hu (hopens row)
    · rwa [hother u hut] at hu
  exact
    { numbers := fun row => by rw [hopening, hopenings]; exact h.numbers row
      injective := fun row row' => by rw [hopening]; exact h.injective row row'
      logged := fun entry => by rw [hlog, hopenings]; exact h.logged entry
      positive := fun entry => by rw [hlog]; exact h.positive entry
      consecutive := fun number => by rw [hdelivered]; exact h.consecutive number
      opened := fun row hrow => by rw [hopening]; exact h.opened row (hopen row hrow)
      ok := fun u => by
        have hpcOk : M.ReadOk (M'.pc u) := by
          by_cases hut : u = t
          · rw [hut, hself]
            exact hok
          · rw [hother u hut]
            exact h.ok u
        exact readOk_of_row hpcOk fun row _ =>
          ⟨congrFun hopening row, hseek row, fun _ => hdelivered _⟩
      alone := fun u u' row hu hu' => h.alone u u' row (hreadsOld u row hu) (hreadsOld u' row hu')
      opens := fun u row hu => by
        obtain ⟨hnone, hnil, hne⟩ := h.opens u row (hopensOld u row hu)
        rw [hdelivered, hopening]
        exact ⟨fun u' hu' => hnone u' (hreadsOld u' row hu'), hnil, hne⟩
      position := fun row hrow hnoOpens hnoReads => by
        rw [hseek, hdelivered, hopening]
        by_cases hold : (M.pc t).Opens row ∨ (M.pc t).Reads row
        · exact hposition row hold hrow
        · obtain ⟨hnotOpens, hnotReads⟩ := not_or.mp hold
          refine h.position row (hopen row hrow) (fun u hu => ?_) fun u hu => ?_
          · by_cases hut : u = t
            · exact hnotOpens (hut ▸ hu)
            · exact hnoOpens u (by rwa [hother u hut])
          · by_cases hut : u = t
            · exact hnotReads (hut ▸ hu)
            · exact hnoReads u (by rwa [hother u hut]) }

omit [DecidableEq τ] in
/-- The files and the log stay as they are, and the same threads open and read the rows. -/
lemma ReadInv.congr (h : ReadInv M) (hvfs : M'.vfs = M.vfs) (hlog : M'.log = M.log)
    (hopening : M'.opening = M.opening) (hopenings : M'.openings = M.openings)
    (hok : ∀ u, M.ReadOk (M'.pc u))
    (hreads : ∀ u row, (M'.pc u).Reads row ↔ (M.pc u).Reads row)
    (hopens : ∀ u row, (M'.pc u).Opens row ↔ (M.pc u).Opens row) : ReadInv M' := by
  have hdelivered : ∀ number, M'.delivered number = M.delivered number := fun number => by
    rw [VfsMachine.delivered, hlog]
    rfl
  exact
    { numbers := fun row => by rw [hopening, hopenings]; exact h.numbers row
      injective := fun row row' => by rw [hopening]; exact h.injective row row'
      logged := fun entry => by rw [hlog, hopenings]; exact h.logged entry
      positive := fun entry => by rw [hlog]; exact h.positive entry
      consecutive := fun number => by rw [hdelivered]; exact h.consecutive number
      opened := fun row => by rw [hopening, hvfs]; exact h.opened row
      ok := fun u => readOk_of_row (hok u) fun row _ =>
        ⟨congrFun hopening row, by rw [hvfs], fun _ => hdelivered _⟩
      alone := fun u u' row => by simp only [hreads]; exact h.alone u u' row
      opens := fun u row => by
        simp only [hreads, hopens, hdelivered, hopening]
        exact h.opens u row
      position := fun row => by
        simp only [hreads, hopens, hdelivered, hopening, hvfs]
        exact h.position row }

/-! ### The steps of `vfs_open` -/

variable {fs : φ} {filename : List UInt8} {number : ℕ} {ret fileid size seekPosition : ℤ}

/-- A row that nobody reads gets a new opening. -/
lemma ReadInv.reserve {vfs : VfsState φ} {volume : List UInt8} (h : ReadInv M)
    (hreserve : reserveFile M.vfs volume = .ok (row, fs, vfs))
    (hpc : M.pc t = .volumeFound volume filename) (halone : ∀ u, ¬ (M.pc u).Reads row) :
    ReadInv { M.setPc t (.opening row fs filename) with
      vfs, table := none, opening := Function.update M.opening row M.openings
      openings := M.openings + 1 } := by
  set M' : VfsMachine τ φ := { M.setPc t (.opening row fs filename) with
      vfs, table := none, opening := Function.update M.opening row M.openings
      openings := M.openings + 1 } with hM'
  obtain ⟨-, rfl⟩ := reserveFile_ok hreserve
  have hfresh : M.openings ≠ 0 := fun hzero => absurd (h.numbers 0) (by omega)
  have hself : M'.pc t = .opening row fs filename := M.setPc_self t _
  have hother : ∀ u, u ≠ t → M'.pc u = M.pc u := fun u hu => M.setPc_of_ne hu _
  have hnew : M'.opening row = M.openings := Function.update_self ..
  have hold : ∀ r, r ≠ row → M'.opening r = M.opening r := fun r hr => Function.update_of_ne hr ..
  have hrow : ∀ r, r ≠ row → M'.vfs.files r = M.vfs.files r := fun r hr =>
    Function.update_of_ne hr ..
  have hdelivered : ∀ number, M'.delivered number = M.delivered number := fun _ => rfl
  have hreads : ∀ u r, (M'.pc u).Reads r ↔ (M.pc u).Reads r := fun u r =>
    setPc_iff (P := (·.Reads r)) (by rw [hpc]; exact Iff.rfl) u
  have hopens : ∀ u r, r ≠ row → ((M'.pc u).Opens r ↔ (M.pc u).Opens r) := fun u r hr =>
    setPc_iff (P := (·.Opens r))
      (by rw [hpc]; exact iff_of_false (fun heq => hr heq.symm) id) u
  refine
    { numbers := fun r => ?_
      injective := fun r r' heq hne => ?_
      logged := fun entry hentry => Nat.lt_succ_of_lt (h.logged entry hentry)
      positive := h.positive
      consecutive := h.consecutive
      opened := fun r hr => ?_
      ok := fun u => ?_
      alone := fun u u' r hu hu' => h.alone u u' r ((hreads u r).mp hu) ((hreads u' r).mp hu')
      opens := fun u r hu => ?_
      position := fun r hr hnoOpens hnoReads => ?_ }
  · by_cases hr : r = row
    · rw [hr, hnew]
      exact Nat.lt_succ_self _
    · rw [hold r hr]
      exact Nat.lt_succ_of_lt (h.numbers r)
  · by_cases hr : r = row
    · by_cases hr' : r' = row
      · rw [hr, hr']
      · rw [hr, hnew, hold r' hr'] at heq
        exact absurd heq (h.numbers r').ne'
    · by_cases hr' : r' = row
      · rw [hr', hnew, hold r hr] at heq
        exact absurd heq (h.numbers r).ne
      · rw [hold r hr] at heq hne
        rw [hold r' hr'] at heq
        exact h.injective r r' heq hne
  · by_cases hr' : r = row
    · rw [hr', hnew]
      exact hfresh
    · rw [hrow r hr'] at hr
      rw [hold r hr']
      exact h.opened r hr
  · by_cases hut : u = t
    · rw [hut, hself]
      trivial
    · rw [hother u hut]
      refine readOk_of_row (h.ok u) fun r hr => ?_
      -- a thread that reads has another row
      have hne : r ≠ row := by
        rintro rfl
        exact halone u hr
      exact ⟨hold r hne, by rw [hrow r hne], fun _ => hdelivered _⟩
  · by_cases hr : r = row
    · rw [hr, hnew, hdelivered]
      exact ⟨fun u' hu' => halone u' ((hreads u' row).mp hu'), delivered_eq_nil h le_rfl, hfresh⟩
    · obtain ⟨hnone, hnil, hne⟩ := h.opens u r ((hopens u r hr).mp hu)
      rw [hold r hr, hdelivered]
      exact ⟨fun u' hu' => hnone u' ((hreads u' r).mp hu'), hnil, hne⟩
  · have hr' : r ≠ row := by
      rintro rfl
      exact hnoOpens t (by rw [hself]; rfl)
    rw [hrow r hr'] at hr ⊢
    rw [hold r hr', hdelivered]
    exact h.position r hr (fun u hu => hnoOpens u ((hopens u r hr').mpr hu))
      fun u hu => hnoReads u ((hreads u r).mpr hu)

/-- The row of an opening is filled in. -/
lemma ReadInv.fill (h : ReadInv M) (hpc : M.pc t = .opening row fs filename) :
    ReadInv { M.setPc t .idle with vfs := fillFile M.vfs row fileid } := by
  set M' : VfsMachine τ φ := { M.setPc t .idle with vfs := fillFile M.vfs row fileid } with hM'
  obtain ⟨hnobody, hnil, hne⟩ := h.opens t row (by rw [hpc]; rfl)
  have hself : M'.pc t = .idle := M.setPc_self t _
  have hother : ∀ u, u ≠ t → M'.pc u = M.pc u := fun u hu => M.setPc_of_ne hu _
  have hrow : ∀ r, r ≠ row → M'.vfs.files r = M.vfs.files r := fun r hr =>
    Function.update_of_ne hr ..
  have hfilled : M'.vfs.files row =
      { M.vfs.files row with fileid := fileid, seekPosition := 0 } := Function.update_self ..
  have hfs : ∀ r, (M'.vfs.files r).filesystem = (M.vfs.files r).filesystem := by
    intro r
    by_cases hr : r = row
    · rw [hr, hfilled]
    · rw [hrow r hr]
  have hdelivered : ∀ number, M'.delivered number = M.delivered number := fun _ => rfl
  have hreads : ∀ u r, (M'.pc u).Reads r ↔ (M.pc u).Reads r := fun u r =>
    setPc_iff (P := (·.Reads r)) (by rw [hpc]; exact Iff.rfl) u
  have hopens : ∀ u r, (M'.pc u).Opens r → (M.pc u).Opens r := by
    intro u r hu
    by_cases hut : u = t
    · rw [hut, hself] at hu
      exact hu.elim
    · rwa [hother u hut] at hu
  refine
    { numbers := h.numbers
      injective := h.injective
      logged := h.logged
      positive := h.positive
      consecutive := h.consecutive
      opened := fun r hr => h.opened r (by rwa [← hfs])
      ok := fun u => ?_
      alone := fun u u' r hu hu' => h.alone u u' r ((hreads u r).mp hu) ((hreads u' r).mp hu')
      opens := fun u r hu => ?_
      position := fun r hr hnoOpens hnoReads => ?_ }
  · by_cases hut : u = t
    · rw [hut, hself]
      trivial
    · rw [hother u hut]
      refine readOk_of_row (h.ok u) fun r hr => ?_
      have hne : r ≠ row := by
        rintro rfl
        exact hnobody u hr
      exact ⟨rfl, by rw [hrow r hne], fun _ => hdelivered _⟩
  · obtain ⟨hnone, hnil', hne'⟩ := h.opens u r (hopens u r hu)
    exact ⟨fun u' hu' => hnone u' ((hreads u' r).mp hu'), hnil', hne'⟩
  · by_cases hr' : r = row
    · rw [hr', hfilled]
      change 0 = rangesEnd (M.delivered (M.opening row))
      rw [hnil]
      rfl
    · rw [hrow r hr']
      refine h.position r (by rwa [← hfs]) (fun u hu => ?_) fun u hu => hnoReads u ((hreads u r).mpr hu)
      refine hnoOpens u ?_
      have hut : u ≠ t := by
        rintro rfl
        rw [hpc] at hu
        exact hr' hu.symm
      rwa [hother u hut]

/-- The driver has failed to open the file; the row is still reserved. -/
lemma ReadInv.fail (h : ReadInv M) (hpc : M.pc t = .opening row fs filename) :
    ReadInv (M.setPc t (.failed row)) := by
  have hself : (M.setPc t (.failed row)).pc t = .failed row := M.setPc_self t _
  refine h.congr rfl rfl rfl rfl (fun u => ?_) (fun u r => ?_) fun u r => ?_
  · by_cases hut : u = t
    · rw [hut, hself]
      trivial
    · rw [M.setPc_of_ne hut]
      exact h.ok u
  · exact setPc_iff (P := (·.Reads r)) (by rw [hpc]; exact Iff.rfl) u
  · exact setPc_iff (P := (·.Opens r)) (by rw [hpc]; exact Iff.rfl) u

/-! ### The steps of `vfs_read` -/

/-- A read begins at the position of a row that nobody else reads or opens. -/
lemma ReadInv.begin (h : ReadInv M) (hfs : (M.vfs.files row).filesystem ≠ none)
    (hreads : ∀ row, ¬ (M.pc t).Reads row) (hopens : ∀ row, ¬ (M.pc t).Opens row)
    (halone : ∀ u, ¬ (M.pc u).Reads row ∧ ¬ (M.pc u).Opens row) :
    ReadInv (M.setPc t (.reading row (M.opening row) fs fileid size
      (M.vfs.files row).seekPosition)) := by
  set pc : VfsPc φ := .reading row (M.opening row) fs fileid size (M.vfs.files row).seekPosition
    with hpc
  have hself : (M.setPc t pc).pc t = pc := M.setPc_self t _
  have hother : ∀ u, u ≠ t → (M.setPc t pc).pc u = M.pc u := fun u hu => M.setPc_of_ne hu _
  have hposition := h.position row hfs (fun u => (halone u).2) fun u => (halone u).1
  have hreadsOld : ∀ u r, ((M.setPc t pc).pc u).Reads r →
      u = t ∧ r = row ∨ u ≠ t ∧ r ≠ row ∧ (M.pc u).Reads r := by
    intro u r hu
    by_cases hut : u = t
    · rw [hut, hself] at hu
      exact .inl ⟨hut, hu.symm⟩
    · rw [hother u hut] at hu
      refine .inr ⟨hut, ?_, hu⟩
      rintro rfl
      exact (halone u).1 hu
  have hopensOld : ∀ u r, ((M.setPc t pc).pc u).Opens r ↔ (M.pc u).Opens r := fun u r =>
    setPc_iff (P := (·.Opens r)) (iff_of_false id (hopens r)) u
  refine
    { numbers := h.numbers
      injective := h.injective
      logged := h.logged
      positive := h.positive
      consecutive := h.consecutive
      opened := h.opened
      ok := fun u => ?_
      alone := fun u u' r hu hu' => ?_
      opens := fun u r hu => ?_
      position := fun r hr hnoOpens hnoReads => ?_ }
  · by_cases hut : u = t
    · rw [hut, hself]
      exact ⟨rfl, h.opened row hfs, rfl, hposition⟩
    · rw [hother u hut]
      exact readOk_of_row (h.ok u) fun _ _ => ⟨rfl, rfl, fun _ => rfl⟩
  · obtain ⟨rfl, rfl⟩ | ⟨hut, hr, hu⟩ := hreadsOld u r hu
    · obtain ⟨rfl, -⟩ | ⟨-, hr, -⟩ := hreadsOld u' r hu'
      · rfl
      · exact absurd rfl hr
    · obtain ⟨-, rfl⟩ | ⟨-, -, hu'⟩ := hreadsOld u' r hu'
      · exact absurd rfl hr
      · exact h.alone u u' r hu hu'
  · have hold := (hopensOld u r).mp hu
    obtain ⟨hnone, hnil, hne⟩ := h.opens u r hold
    refine ⟨fun u' hu' => ?_, hnil, hne⟩
    obtain ⟨-, rfl⟩ | ⟨-, -, hu'⟩ := hreadsOld u' r hu'
    · exact (halone u).2 hold
    · exact hnone u' hu'
  · refine h.position r hr (fun u hu => hnoOpens u ((hopensOld u r).mpr hu)) fun u hu => ?_
    have hut : u ≠ t := by
      rintro rfl
      exact hreads r hu
    exact hnoReads u (by rwa [hother u hut])

/-- The driver delivers bytes from the position on. -/
lemma ReadInv.deliver (h : ReadInv M)
    (hpc : M.pc t = .reading row number fs fileid size seekPosition) (hret : 0 < ret) :
    ReadInv { M.setPc t (.advancing row number ret) with
      log := M.log ++ [(number, seekPosition, ret)] } := by
  set M' : VfsMachine τ φ := { M.setPc t (.advancing row number ret) with
      log := M.log ++ [(number, seekPosition, ret)] } with hM'
  have hok := h.ok t
  rw [hpc] at hok
  obtain ⟨rfl, hne, hseek, hstop⟩ := hok
  have hself : M'.pc t = .advancing row (M.opening row) ret := M.setPc_self t _
  have hother : ∀ u, u ≠ t → M'.pc u = M.pc u := fun u hu => M.setPc_of_ne hu _
  have hmine : M'.delivered (M.opening row) =
      M.delivered (M.opening row) ++ [(seekPosition, ret)] := by
    simp [VfsMachine.delivered, hM']
  have hrest : ∀ k, k ≠ M.opening row → M'.delivered k = M.delivered k := by
    intro k hk
    simp [VfsMachine.delivered, hM', hk.symm]
  have hreads : ∀ u r, (M'.pc u).Reads r ↔ (M.pc u).Reads r := fun u r =>
    setPc_iff (P := (·.Reads r)) (by rw [hpc]; exact Iff.rfl) u
  have hopens : ∀ u r, (M'.pc u).Opens r ↔ (M.pc u).Opens r := fun u r =>
    setPc_iff (P := (·.Opens r)) (by rw [hpc]; exact Iff.rfl) u
  -- the opening of another row has another number
  have hnumber : ∀ r, r ≠ row → M.opening r ≠ 0 → M.opening r ≠ M.opening row :=
    fun r hr hzero heq => hr (h.injective r row heq hzero)
  refine
    { numbers := h.numbers
      injective := h.injective
      logged := fun entry hentry => ?_
      positive := fun entry hentry => ?_
      consecutive := fun k => ?_
      opened := h.opened
      ok := fun u => ?_
      alone := fun u u' r hu hu' => h.alone u u' r ((hreads u r).mp hu) ((hreads u' r).mp hu')
      opens := fun u r hu => ?_
      position := fun r hr hnoOpens hnoReads => ?_ }
  · rcases List.mem_append.mp hentry with hentry | hentry
    · exact h.logged entry hentry
    · rw [List.mem_singleton.mp hentry]
      exact h.numbers row
  · rcases List.mem_append.mp hentry with hentry | hentry
    · exact h.positive entry hentry
    · rw [List.mem_singleton.mp hentry]
      exact hret
  · by_cases hk : k = M.opening row
    · rw [hk, hmine]
      exact consecutive_concat (h.consecutive _) (by rw [hstop, zero_add])
    · rw [hrest k hk]
      exact h.consecutive k
  · by_cases hut : u = t
    · rw [hut, hself]
      refine ⟨rfl, hne, ?_, hret⟩
      change (M.vfs.files row).seekPosition + ret = _
      rw [hmine, rangesEnd_concat, hseek, ← hstop]
    · rw [hother u hut]
      refine readOk_of_row (h.ok u) fun r hr => ⟨rfl, rfl, fun hzero => ?_⟩
      have hrow : r ≠ row := by
        rintro rfl
        exact hut (h.alone u t r hr (by rw [hpc]; rfl))
      exact hrest _ (hnumber r hrow hzero)
  · obtain ⟨hnone, hnil, hzero⟩ := h.opens u r ((hopens u r).mp hu)
    have hr : r ≠ row := by
      rintro rfl
      exact hnone t (by rw [hpc]; rfl)
    refine ⟨fun u' hu' => hnone u' ((hreads u' r).mp hu'), ?_, hzero⟩
    change M'.delivered (M.opening r) = []
    rw [hrest _ (hnumber r hr hzero), hnil]
  · have hr' : r ≠ row := by
      rintro rfl
      exact hnoReads t (by rw [hself]; rfl)
    change (M.vfs.files r).seekPosition = rangesEnd (M'.delivered (M.opening r))
    rw [hrest _ (hnumber r hr' (h.opened r hr))]
    exact h.position r hr (fun u hu => hnoOpens u ((hopens u r).mpr hu))
      fun u hu => hnoReads u ((hreads u r).mpr hu)

/-- The position is moved behind the bytes that have been delivered. -/
lemma ReadInv.advance (h : ReadInv M) (hpc : M.pc t = .advancing row number ret)
    (hint : (M.vfs.files row).seekPosition + ret < 2 ^ 31) :
    ReadInv { M.setPc t .idle with vfs := advanceFile M.vfs row ret } := by
  have hok := h.ok t
  rw [hpc] at hok
  obtain ⟨rfl, hne, hstop, hret⟩ := hok
  have hnonneg : 0 ≤ (M.vfs.files row).seekPosition + ret := by
    rw [hstop]
    exact rangesEnd_nonneg (delivered_pos h _)
  have hadd : addInt (M.vfs.files row).seekPosition ret = rangesEnd (M.delivered (M.opening row)) := by
    rw [addInt, Int.bmod_eq_of_le (by omega) (by omega), hstop]
  rw [advanceFile, if_pos hret, hadd]
  set M' : VfsMachine τ φ := { M.setPc t .idle with
    vfs := M.vfs.setFile row { M.vfs.files row with
      seekPosition := rangesEnd (M.delivered (M.opening row)) } } with hM'
  have hself : M'.pc t = .idle := M.setPc_self t _
  have hother : ∀ u, u ≠ t → M'.pc u = M.pc u := fun u hu => M.setPc_of_ne hu _
  have hrow : ∀ r, r ≠ row → M'.vfs.files r = M.vfs.files r := fun r hr =>
    Function.update_of_ne hr ..
  have hmoved : M'.vfs.files row = { M.vfs.files row with
      seekPosition := rangesEnd (M.delivered (M.opening row)) } := Function.update_self ..
  have hfs : ∀ r, (M'.vfs.files r).filesystem = (M.vfs.files r).filesystem := by
    intro r
    by_cases hr : r = row
    · rw [hr, hmoved]
    · rw [hrow r hr]
  have hdelivered : ∀ number, M'.delivered number = M.delivered number := fun _ => rfl
  have hreadsOld : ∀ u r, (M'.pc u).Reads r → u ≠ t ∧ r ≠ row ∧ (M.pc u).Reads r := by
    intro u r hu
    have hut : u ≠ t := by
      rintro rfl
      rw [hself] at hu
      exact hu
    rw [hother u hut] at hu
    refine ⟨hut, ?_, hu⟩
    rintro rfl
    exact hut (h.alone u t r hu (by rw [hpc]; rfl))
  have hopens : ∀ u r, (M'.pc u).Opens r ↔ (M.pc u).Opens r := fun u r =>
    setPc_iff (P := (·.Opens r)) (by rw [hpc]; exact Iff.rfl) u
  refine
    { numbers := h.numbers
      injective := h.injective
      logged := h.logged
      positive := h.positive
      consecutive := h.consecutive
      opened := fun r hr => h.opened r (by rwa [← hfs])
      ok := fun u => ?_
      alone := fun u u' r hu hu' =>
        h.alone u u' r (hreadsOld u r hu).2.2 (hreadsOld u' r hu').2.2
      opens := fun u r hu => ?_
      position := fun r hr hnoOpens hnoReads => ?_ }
  · by_cases hut : u = t
    · rw [hut, hself]
      trivial
    · rw [hother u hut]
      refine readOk_of_row (h.ok u) fun r hr => ?_
      have hne : r ≠ row := (hreadsOld u r (by rwa [hother u hut])).2.1
      exact ⟨rfl, by rw [hrow r hne], fun _ => hdelivered _⟩
  · obtain ⟨hnone, hnil, hzero⟩ := h.opens u r ((hopens u r).mp hu)
    exact ⟨fun u' hu' => hnone u' (hreadsOld u' r hu').2.2, hnil, hzero⟩
  · by_cases hr' : r = row
    · rw [hr', hmoved]
      rfl
    · rw [hrow r hr']
      refine h.position r (by rwa [← hfs]) (fun u hu => hnoOpens u ((hopens u r).mpr hu)) fun u hu => ?_
      have hut : u ≠ t := by
        rintro rfl
        rw [hpc] at hu
        exact hr' hu.symm
      exact hnoReads u (by rwa [hother u hut])

/-! ### Runs -/

/-- A step of a thread that is neither reading nor opening and does not go on to it. -/
lemma ReadInv.quiet {pc : VfsPc φ} (h : ReadInv M) (hpc : M'.pc = Function.update M.pc t pc)
    (hlog : M'.log = M.log) (hopening : M'.opening = M.opening)
    (hopenings : M'.openings = M.openings) (hvfs : M'.vfs.files = M.vfs.files)
    (hok : M.ReadOk pc) (hreads : ∀ row, ¬ pc.Reads row) (hopens : ∀ row, ¬ pc.Opens row)
    (hold : ∀ row, ¬ (M.pc t).Reads row ∧ ¬ (M.pc t).Opens row) : ReadInv M' :=
  h.move hpc hlog hopening hopenings (fun _ => by rw [hvfs]) (fun _ => by rw [hvfs]; exact id) hok
    hreads hopens fun row hor _ => absurd hor (not_or.mpr ⟨(hold row).2, (hold row).1⟩)

/-- A row is released. -/
lemma releaseFile_row (s : VfsState φ) (row file : ℕ) :
    ((releaseFile s row).files file).seekPosition = (s.files file).seekPosition ∧
      (((releaseFile s row).files file).filesystem ≠ none →
        file ≠ row ∧ (s.files file).filesystem ≠ none) := by
  rw [releaseFile, VfsState.setFile]
  by_cases hfile : file = row
  · subst hfile
    simp
  · simp [hfile]

/-- A thread releases a row, after a failed opening or at the end of `vfs_close`. -/
lemma ReadInv.release (h : ReadInv M) (hpc : M'.pc = Function.update M.pc t .idle)
    (hlog : M'.log = M.log) (hopening : M'.opening = M.opening)
    (hopenings : M'.openings = M.openings) (hvfs : M'.vfs = releaseFile M.vfs row)
    (hold : ∀ r, (M.pc t).Opens r ∨ (M.pc t).Reads r → r = row) : ReadInv M' := by
  refine h.move hpc hlog hopening hopenings (fun file => ?_) (fun file hfile => ?_) trivial
    (fun _ => id) (fun _ => id) fun r hr hopen => ?_
  · rw [hvfs]
    exact (releaseFile_row M.vfs row file).1
  · rw [hvfs] at hfile
    exact ((releaseFile_row M.vfs row file).2 hfile).2
  · rw [hvfs] at hopen
    exact absurd (hold r hr) ((releaseFile_row M.vfs row r).2 hopen).1

lemma ReadInv.step {a : VfsAction φ} (h : ReadInv M) (hstep : VfsStep M t a M')
    (hcond : M.ReadsAlone t a) : ReadInv M' := by
  have hok := h.ok t
  cases hstep with
  | call hpc hcall =>
    refine h.quiet rfl rfl rfl rfl rfl ?_ (fun _ => id) (fun _ => id) fun row => by
      rw [hpc]; exact ⟨id, id⟩
    rename_i call
    cases call with
    | write file buffer datasize => exact hcond file buffer datasize rfl
    | _ => trivial
  | reserve hpc hfiles hreserve => exact h.reserve hreserve hpc hcond
  | fill hpc hret => exact h.fill hpc
  | fail hpc => exact h.fail hpc
  | release hpc hfiles =>
    refine h.release rfl rfl rfl rfl rfl fun r hr => ?_
    rw [hpc] at hr
    exact hr.elim Eq.symm False.elim
  | read hpc hfiles hopen =>
    have hfs := (vfsVerifyOpen_some hopen).2
    exact h.begin (by rw [hfs]; exact Option.some_ne_none _) (fun _ => by rw [hpc]; exact id)
      (fun _ => by rw [hpc]; exact id) hcond
  | write hpc hfiles hopen =>
    rw [hpc] at hok
    exact hok.elim
  | readNothing hpc hret =>
    rw [hpc] at hok
    obtain ⟨rfl, -, hseek, hstop⟩ := hok
    refine h.move rfl rfl rfl rfl (fun _ => rfl) (fun _ => id) trivial (fun _ => id) (fun _ => id)
      fun r hr _ => ?_
    rw [hpc] at hr
    obtain hr | rfl := hr
    · exact hr.elim
    · rw [hseek, hstop]
  | deliver hpc hret => exact h.deliver hpc hret
  | wroteNothing hpc hret =>
    rw [hpc] at hok
    exact hok.elim
  | wrote hpc hret =>
    rw [hpc] at hok
    exact hok.elim
  | advance hpc hfiles => exact h.advance hpc hcond
  | closed hpc =>
    refine h.release rfl rfl rfl rfl rfl fun r hr => ?_
    rw [hpc] at hr
    exact hr.elim False.elim False.elim
  | badPath hpc _ _ | openTable hpc _ _ | notReserved hpc _ _ | notOpen hpc _ _ _ | close hpc _ _
  | noVolume hpc _ _ _ | onVolume hpc _ _ _ | volumeDone hpc | notFound hpc _ _
  | unmountTable hpc _ _ _ | inUse hpc _ _ | unmount hpc _ _ | unmounted hpc =>
    exact h.quiet rfl rfl rfl rfl rfl trivial (fun _ => id) (fun _ => id) fun row => by
      rw [hpc]; exact ⟨id, id⟩

lemma VfsRun.readInv {M₀ : VfsMachine τ φ} (hstart : M₀.Start)
    (hrun : VfsRun VfsMachine.ReadsAlone M₀ M) : ReadInv M := by
  induction hrun with
  | refl => exact readInv_start hstart
  | tail _ hstep ih =>
    obtain ⟨t, a, hstep, hcond⟩ := hstep
    exact ih.step hstep hcond

omit [DecidableEq τ] in
lemma ReadInv.sharesPosition (h : ReadInv M) : SharesPosition M where
  consecutive := h.consecutive
  disjoint number := (h.consecutive number).pairwise (delivered_pos h number)
  own t row number ret hpc file _ hmoved := by
    have hok := h.ok t
    rw [hpc] at hok
    have hfile : file = row := by
      by_contra hne
      refine hmoved ?_
      rw [advanceFile, if_pos hok.2.2.2]
      simp [VfsState.setFile, hne]
    rw [hfile, hok.1]

/-- In every interleaving in which the calls of `vfs_read` on an open file do not overlap, they
deliver consecutive bytes, and each one moves the position of its own file. -/
theorem vfsRun_sharesPosition {M₀ : VfsMachine τ φ} (hstart : M₀.Start)
    (hrun : VfsRun VfsMachine.ReadsAlone M₀ M) : SharesPosition M :=
  (hrun.readInv hstart).sharesPosition

/-- A thread reads ten bytes of an open file. -/
theorem vfsRun_sharesPosition_openedFile : ∃ M,
    oneVolume.Start ∧ VfsRun VfsMachine.ReadsAlone oneVolume M ∧ M.delivered 1 = [(0, 10)] ∧
      SharesPosition M := by
  have hopened : VfsRun VfsMachine.ReadsAlone oneVolume openedFile :=
    openedFile_run (fun _ _ _ _ => by simp) (fun _ => trivial) (fun _ => id) fun _ => trivial
  have hcalled : VfsRun VfsMachine.ReadsAlone oneVolume _ :=
    hopened.tail ⟨false, _, @VfsStep.call _ _ _ _ _ (.read 0 1 64) rfl trivial, fun _ _ _ => by simp⟩
  have hbegun : VfsRun VfsMachine.ReadsAlone oneVolume _ :=
    hcalled.tail ⟨false, _, @VfsStep.read _ _ _ _ _ 0 1 64 0 5 rfl rfl rfl, fun u => by
      cases u <;> exact ⟨id, id⟩⟩
  have hread : VfsRun VfsMachine.ReadsAlone oneVolume _ :=
    hbegun.tail ⟨false, _, @VfsStep.deliver _ _ _ _ _ 0 1 5 7 64 0 10 rfl (by decide), trivial⟩
  exact ⟨_, oneVolume_start, hread, rfl, vfsRun_sharesPosition oneVolume_start hread⟩

/-- Two threads read from an open file, and the position is moved after both have read it. -/
theorem not_sharesPosition_overlapping : ¬ ∀ M : VfsMachine Bool ℕ,
    VfsRun (fun _ _ _ => True) oneVolume M → SharesPosition M := by
  intro hall
  have hopened : VfsRun (fun _ _ _ => True) oneVolume openedFile :=
    openedFile_run (fun _ => trivial) (fun _ => trivial) (fun _ _ => trivial) fun _ => trivial
  have hcalled : VfsRun (fun _ _ _ => True) oneVolume _ :=
    hopened.tail ⟨false, _, @VfsStep.call _ _ _ _ _ (.read 0 1 64) rfl trivial, trivial⟩
  have hboth : VfsRun (fun _ _ _ => True) oneVolume _ :=
    hcalled.tail ⟨true, _, @VfsStep.call _ _ _ _ _ (.read 0 1 64) rfl trivial, trivial⟩
  have hbegun : VfsRun (fun _ _ _ => True) oneVolume _ :=
    hboth.tail ⟨false, _, @VfsStep.read _ _ _ _ _ 0 1 64 0 5 rfl rfl rfl, trivial⟩
  have hbegun' : VfsRun (fun _ _ _ => True) oneVolume _ :=
    hbegun.tail ⟨true, _, @VfsStep.read _ _ _ _ _ 0 1 64 0 5 rfl rfl rfl, trivial⟩
  have hread : VfsRun (fun _ _ _ => True) oneVolume _ :=
    hbegun'.tail ⟨false, _, @VfsStep.deliver _ _ _ _ _ 0 1 5 7 64 0 10 rfl (by decide), trivial⟩
  have hread' : VfsRun (fun _ _ _ => True) oneVolume _ :=
    hread.tail ⟨true, _, @VfsStep.deliver _ _ _ _ _ 0 1 5 7 64 0 10 rfl (by decide), trivial⟩
  -- the second read has delivered the bytes of the first one again
  have hconsecutive : Consecutive 0 [(0, 10), (0, 10)] := (hall _ hread').consecutive 1
  exact absurd hconsecutive.2.1 (by decide)

end Osm.Fs
