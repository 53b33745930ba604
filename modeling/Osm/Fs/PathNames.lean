import Osm.Fs.MountTable

/-!
# Path names

`vfs_parse_pathname` with its two buffers, of which `Osm.Fs.Vfs` has the resulting names only. The
bytes that are stored in a buffer follow each other, so that a buffer is given by the list of
them. A path is given by its bytes before the terminating NUL.

The loop over the volume name has one round less than a name can have characters and the bracket
behind it: a name that fills its field in the mount table is not parsed.
-/

namespace Osm.Fs

/-- The loop over the volume name, with the number of rounds that are left: the bytes stored in
`volumebuf`, and the value returned or the rest of the path. -/
def copyVolume : ℕ → List UInt8 → List UInt8 × (ℤ ⊕ List UInt8)
  | 0, _                 => ([], .inl vfsInvalidParams)
  | _ + 1, []            => ([], .inl vfsError)
  | n + 1, c :: pathname =>
    if c = ']'.toUInt8 then ([], .inr pathname)
    else
      let (volumebuf, rest) := copyVolume n pathname
      (c :: volumebuf, rest)

/-- The loop over the file name from round `i` on, with the number of rounds that are left: the
value returned, and the bytes stored in `filenamebuf`. -/
def copyFilename (i : ℕ) : ℕ → List UInt8 → ℤ × List UInt8
  | 0, _                 => (vfsInvalidParams, [])
  | _ + 1, []            => (if i = 0 then vfsInvalidParams else vfsOk, [0])
  | n + 1, c :: pathname =>
    let (ret, filenamebuf) := copyFilename (i + 1) n pathname
    (ret, c :: filenamebuf)

/-- What `vfs_parse_pathname` returns, and what it stores. -/
structure ParsedPath where
  ret         : ℤ
  volumebuf   : List UInt8
  filenamebuf : List UInt8
  deriving DecidableEq

/-- The part of `vfs_parse_pathname` before the file name. -/
def parseBracket : List UInt8 → List UInt8 × (ℤ ⊕ List UInt8)
  | []            => ([], .inr [])
  | c :: pathname =>
    if c = '['.toUInt8 then copyVolume (vfsNameLength - 1) pathname
    else ([], .inr (c :: pathname))

/-- `vfs_parse_pathname`. -/
def vfsParsePathnameInto (pathname : List UInt8) : ParsedPath :=
  match parseBracket pathname with
  | (volumebuf, .inl ret)      => ⟨ret, volumebuf, []⟩
  | (volumebuf, .inr pathname) =>
    let (ret, filenamebuf) := copyFilename 0 vfsNameLength pathname
    ⟨ret, volumebuf ++ [0], filenamebuf⟩

/-- A path is parsed to a volume name and a file name. -/
def ParsesTo (pathname volume filename : List UInt8) : Prop :=
  vfsParsePathnameInto pathname = ⟨vfsOk, volume ++ [0], filename ++ [0]⟩

instance (pathname volume filename : List UInt8) :
    Decidable (ParsesTo pathname volume filename) :=
  inferInstanceAs (Decidable (_ = _))

/-- The path of a file on a volume. -/
def volumePath (volume filename : List UInt8) : List UInt8 :=
  '['.toUInt8 :: (volume ++ ']'.toUInt8 :: filename)

/-- A name that fits into its field, with the NUL behind it. -/
structure FitsField (name : List UInt8) : Prop where
  pos : name ≠ []
  lt  : name.length < vfsNameLength

variable {n i : ℕ} {pathname volume filename rest : List UInt8}

/-! ### The file name -/

lemma copyFilename_eq (i n : ℕ) (pathname : List UInt8) :
    copyFilename i n pathname =
      if pathname.length < n then
        (if i + pathname.length = 0 then vfsInvalidParams else vfsOk, pathname ++ [0])
      else (vfsInvalidParams, pathname.take n) := by
  induction n generalizing i pathname with
  | zero => simp [copyFilename]
  | succ n ih =>
    cases pathname with
    | nil => simp [copyFilename]
    | cons c pathname =>
      have hne : ¬ i + 1 + pathname.length = 0 := by omega
      have hne' : ¬ i + (pathname.length + 1) = 0 := by omega
      rw [copyFilename, ih, List.length_cons, if_neg hne, if_neg hne']
      by_cases hlt : pathname.length < n
      · rw [if_pos hlt, if_pos (Nat.succ_lt_succ hlt)]
        rfl
      · rw [if_neg hlt, if_neg fun h => hlt (Nat.lt_of_succ_lt_succ h)]
        rfl

lemma copyFilename_fits (h : FitsField filename) :
    copyFilename 0 vfsNameLength filename = (vfsOk, filename ++ [0]) := by
  have hpos := List.length_pos_iff.mpr h.pos
  rw [copyFilename_eq, if_pos h.lt, if_neg (by omega)]

/-- The file names that are accepted fit into their buffer. -/
lemma fitsField_of_copyFilename (h : (copyFilename 0 vfsNameLength pathname).1 = vfsOk) :
    FitsField pathname := by
  rw [copyFilename_eq] at h
  split_ifs at h with hlt hzero
  · cases h
  · exact ⟨List.length_pos_iff.mp (by omega), hlt⟩
  · cases h

lemma length_copyFilename_le (i n : ℕ) (pathname : List UInt8) :
    (copyFilename i n pathname).2.length ≤ n := by
  rw [copyFilename_eq]
  split_ifs with hlt
  · rw [List.length_append, List.length_singleton]
    exact hlt
  · rw [List.length_append, List.length_singleton]
    exact hlt
  · exact List.length_take_le _ _

/-! ### The volume name -/

lemma length_copyVolume_le (n : ℕ) (pathname : List UInt8) :
    (copyVolume n pathname).1.length ≤ n := by
  induction n generalizing pathname with
  | zero => exact le_rfl
  | succ n ih =>
    cases pathname with
    | nil => exact Nat.zero_le _
    | cons c pathname =>
      rw [copyVolume]
      split_ifs
      · exact Nat.zero_le _
      · exact Nat.succ_le_succ (ih pathname)

/-- A name is copied up to the bracket, if the loop gets there. -/
lemma copyVolume_append (hv : ']'.toUInt8 ∉ volume) :
    copyVolume n (volume ++ ']'.toUInt8 :: rest) =
      if volume.length < n then (volume, .inr rest)
      else (volume.take n, .inl vfsInvalidParams) := by
  induction n generalizing volume with
  | zero => simp [copyVolume]
  | succ n ih =>
    cases volume with
    | nil => simp [copyVolume]
    | cons c volume =>
      rw [List.mem_cons, not_or] at hv
      rw [List.cons_append, copyVolume, if_neg (Ne.symm hv.1), ih hv.2]
      simp only [List.length_cons, Nat.add_lt_add_iff_right]
      split_ifs
      · rfl
      · rfl

/-- The values returned in the loop are errors. -/
lemma copyVolume_inl {ret : ℤ} (h : (copyVolume n pathname).2 = .inl ret) : ret ≠ vfsOk := by
  induction n generalizing pathname with
  | zero =>
    cases h
    decide
  | succ n ih =>
    cases pathname with
    | nil =>
      cases h
      decide
    | cons c pathname =>
      rw [copyVolume] at h
      split_ifs at h
      exact ih h

/-- Where the loop gets to the bracket. -/
lemma copyVolume_inr (h : copyVolume n pathname = (volume, .inr rest)) :
    pathname = volume ++ ']'.toUInt8 :: rest ∧ ']'.toUInt8 ∉ volume ∧ volume.length < n := by
  induction n generalizing pathname volume with
  | zero => simp [copyVolume] at h
  | succ n ih =>
    cases pathname with
    | nil => simp [copyVolume] at h
    | cons c pathname =>
      rw [copyVolume] at h
      split_ifs at h with hc
      · cases h
        exact ⟨by rw [hc]; rfl, List.not_mem_nil, Nat.succ_pos n⟩
      · obtain ⟨hvolume, hrest⟩ := Prod.mk.inj h
        obtain ⟨hpath, hmem, hlt⟩ := ih (Prod.ext rfl hrest)
        subst hvolume
        refine ⟨congrArg (c :: ·) hpath, ?_, Nat.succ_lt_succ hlt⟩
        rw [List.mem_cons, not_or]
        exact ⟨Ne.symm hc, hmem⟩

lemma length_parseBracket_lt (pathname : List UInt8) :
    (parseBracket pathname).1.length < vfsNameLength := by
  cases pathname with
  | nil => exact Nat.zero_lt_succ _
  | cons c pathname =>
    rw [parseBracket]
    split_ifs
    · exact Nat.lt_succ_of_le (length_copyVolume_le _ _)
    · exact Nat.zero_lt_succ _

/-! ### The whole path -/

/-- A path with a volume name is parsed as far as the loop over the name goes. -/
lemma parsesTo_volumePath_iff (hv : ']'.toUInt8 ∉ volume) (hf : FitsField filename) :
    ParsesTo (volumePath volume filename) volume filename ↔
      volume.length < vfsNameLength - 1 := by
  rw [ParsesTo, vfsParsePathnameInto, volumePath, parseBracket, if_pos rfl, copyVolume_append hv]
  split_ifs with hlt
  · simp only [copyFilename_fits hf, hlt]
  · refine iff_of_false (fun h => ?_) hlt
    have hret : vfsInvalidParams = vfsOk := congrArg ParsedPath.ret h
    exact absurd hret (by decide)

lemma parsesTo_filename (hf : FitsField filename) (hhead : filename.head? ≠ some '['.toUInt8) :
    ParsesTo filename [] filename := by
  have hbracket : parseBracket filename = ([], .inr filename) := by
    cases filename with
    | nil => rfl
    | cons c filename => exact if_neg fun hc => hhead (congrArg some hc)
  rw [ParsesTo, vfsParsePathnameInto, hbracket]
  simp only [copyFilename_fits hf]

/-- The forms of the paths that are parsed. -/
lemma forms_of_parsePathname (h : (vfsParsePathnameInto pathname).ret = vfsOk) :
    ∃ volume filename, FitsField filename ∧ ParsesTo pathname volume filename ∧
      (pathname = volumePath volume filename ∧ ']'.toUInt8 ∉ volume ∧
          volume.length < vfsNameLength - 1 ∨
        pathname = filename ∧ volume = [] ∧ filename.head? ≠ some '['.toUInt8) := by
  have hform : ∀ {volume rest}, parseBracket pathname = (volume, .inr rest) →
      FitsField rest ∧ ParsesTo pathname volume rest := by
    intro volume rest hbracket
    rw [vfsParsePathnameInto, hbracket] at h
    have hfits := fitsField_of_copyFilename h
    refine ⟨hfits, ?_⟩
    rw [ParsesTo, vfsParsePathnameInto, hbracket]
    simp only [copyFilename_fits hfits]
  cases pathname with
  | nil => exact absurd h (by decide)
  | cons c pathname =>
    by_cases hc : c = '['.toUInt8
    · have hbracket : parseBracket (c :: pathname) = copyVolume (vfsNameLength - 1) pathname :=
        if_pos hc
      cases hcopy : copyVolume (vfsNameLength - 1) pathname with
      | mk volume res =>
        rw [hcopy] at hbracket
        cases res with
        | inl ret =>
          rw [vfsParsePathnameInto, hbracket] at h
          exact absurd h (copyVolume_inl (congrArg Prod.snd hcopy))
        | inr rest =>
          obtain ⟨hfits, hparses⟩ := hform hbracket
          obtain ⟨rfl, hmem, hlt⟩ := copyVolume_inr hcopy
          exact ⟨volume, rest, hfits, hparses, .inl ⟨by rw [hc]; rfl, hmem, hlt⟩⟩
    · have hbracket : parseBracket (c :: pathname) = ([], .inr (c :: pathname)) := if_neg hc
      obtain ⟨hfits, hparses⟩ := hform hbracket
      refine ⟨[], c :: pathname, hfits, hparses, .inr ⟨rfl, rfl, ?_⟩⟩
      exact fun hhead => hc (Option.some.inj hhead)

/-! ### The names without the buffers -/

/-- The loop over the volume name in `Osm.Fs.Vfs`. -/
lemma parseVolume_eq (n : ℕ) (pathname : List UInt8) :
    parseVolume n pathname =
      match copyVolume n pathname with
      | (_, .inl ret)       => .error ret
      | (volume, .inr rest) => .ok (volume, rest) := by
  induction n generalizing pathname with
  | zero => rfl
  | succ n ih =>
    cases pathname with
    | nil => rfl
    | cons c pathname =>
      rw [parseVolume, copyVolume]
      split_ifs with hc
      · rfl
      · rw [ih]
        cases copyVolume n pathname with
        | mk volume res =>
          cases res with
          | inl ret => rfl
          | inr rest => rfl

/-- What is stored are the names that `Osm.Fs.Vfs` has. -/
lemma vfsParsePathname_eq_parse (pathname : List UInt8) :
    vfsParsePathname pathname =
      match parseBracket pathname with
      | (_, .inl ret)       => .error ret
      | (volume, .inr rest) =>
        if (copyFilename 0 vfsNameLength rest).1 = vfsOk then .ok (volume, rest)
        else .error vfsInvalidParams := by
  -- the check of the length is made by the loop over the file name
  have hcheck : ∀ volume rest : List UInt8,
      (if rest.length = 0 ∨ rest.length ≥ vfsNameLength then .error vfsInvalidParams
        else .ok (volume, rest) : Except ℤ _) =
      if (copyFilename 0 vfsNameLength rest).1 = vfsOk then .ok (volume, rest)
        else .error vfsInvalidParams := by
    intro volume rest
    by_cases hfits : FitsField rest
    · have hpos := List.length_pos_iff.mpr hfits.pos
      have hlt := hfits.lt
      rw [copyFilename_fits hfits, if_pos rfl, if_neg (by omega)]
    · rw [if_neg (fun h => hfits (fitsField_of_copyFilename h)), if_pos]
      by_contra hlength
      rw [not_or, not_le] at hlength
      exact hfits ⟨fun hnil => hlength.1 (by rw [hnil]; rfl), hlength.2⟩
  cases pathname with
  | nil => rfl
  | cons c pathname =>
    rw [vfsParsePathname, parseBracket]
    by_cases hc : c = '['.toUInt8
    · simp only [if_pos hc, parseVolume_eq]
      cases copyVolume (vfsNameLength - 1) pathname with
      | mk volume res =>
        cases res with
        | inl ret => rfl
        | inr rest => exact hcheck volume rest
    · simp only [if_neg hc]
      exact hcheck [] (c :: pathname)

lemma vfsParsePathname_ok_iff :
    vfsParsePathname pathname = .ok (volume, filename) ↔ ParsesTo pathname volume filename := by
  rw [vfsParsePathname_eq_parse, ParsesTo, vfsParsePathnameInto]
  cases parseBracket pathname with
  | mk volumebuf res =>
    cases res with
    | inl ret =>
      refine iff_of_false (fun h => by cases h) fun h => ?_
      exact absurd (congrArg ParsedPath.filenamebuf h) (List.append_ne_nil_of_right_ne_nil _
        (List.cons_ne_nil _ _)).symm
    | inr rest =>
      by_cases hret : (copyFilename 0 vfsNameLength rest).1 = vfsOk
      · simp [copyFilename_fits (fitsField_of_copyFilename hret)]
      · simp only [if_neg hret]
        refine iff_of_false (fun h => by cases h) fun h => ?_
        exact hret (congrArg ParsedPath.ret h)

/-- For every volume name that fits its field in the mount table and every file name, the path
`[volume]filename` is parsed to these names if and only if the volume name is one shorter than
that. A file name alone is parsed to itself without a volume; nothing but such paths is parsed; and
in no case more is stored in a buffer than it has room for. The calls of the VFS get these names. -/
theorem parsePathname_exact_iff (pathname volume filename : List UInt8) :
    (FitsField volume → ']'.toUInt8 ∉ volume → FitsField filename →
      (ParsesTo (volumePath volume filename) volume filename ↔
        volume.length < vfsNameLength - 1)) ∧
    (FitsField filename → filename.head? ≠ some '['.toUInt8 → ParsesTo filename [] filename) ∧
    ((vfsParsePathnameInto pathname).ret = vfsOk →
      ∃ volume filename, FitsField filename ∧ ParsesTo pathname volume filename ∧
        (pathname = volumePath volume filename ∧ ']'.toUInt8 ∉ volume ∧
            volume.length < vfsNameLength - 1 ∨
          pathname = filename ∧ volume = [] ∧ filename.head? ≠ some '['.toUInt8)) ∧
    ((vfsParsePathnameInto pathname).volumebuf.length ≤ vfsNameLength ∧
      (vfsParsePathnameInto pathname).filenamebuf.length ≤ vfsNameLength) ∧
    (vfsParsePathname pathname = .ok (volume, filename) ↔ ParsesTo pathname volume filename) := by
  refine ⟨fun _ hv hf => parsesTo_volumePath_iff hv hf, fun hf hhead => parsesTo_filename hf hhead,
    fun h => forms_of_parsePathname h, ?_, vfsParsePathname_ok_iff⟩
  have hlt := length_parseBracket_lt pathname
  rw [vfsParsePathnameInto]
  cases hbracket : parseBracket pathname with
  | mk volumebuf res =>
    rw [hbracket] at hlt
    cases res with
    | inl ret => exact ⟨hlt.le, Nat.zero_le _⟩
    | inr rest =>
      refine ⟨?_, length_copyFilename_le 0 vfsNameLength rest⟩
      rw [List.length_append, List.length_singleton]
      exact hlt

/-- A volume name of fifteen characters. -/
def longName : List UInt8 := List.replicate 15 'a'.toUInt8

/-- A volume can be mounted under a name that fills its field, but no path leads to its files. -/
theorem longName_not_parsed : FitsField longName ∧ ']'.toUInt8 ∉ longName ∧
    (∃ s : VfsState Unit, vfsMount () longName vfsInit = some (vfsOk, s) ∧
      vfsGetFilesystem s longName = some () ∧
      vfsOpen (fun _ => 0) (volumePath longName ['f'.toUInt8]) s =
        some (vfsInvalidParams, s)) ∧
    ¬ ParsesTo (volumePath longName ['f'.toUInt8]) longName ['f'.toUInt8] := by
  refine ⟨⟨by decide, by decide⟩, by decide, ⟨_, rfl, rfl, rfl⟩, by decide⟩

end Osm.Fs
