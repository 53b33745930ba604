import Osm.Drivers.Bootargs

/-!
# Parsing boot arguments

Every boot argument string is the text of a list of arguments, one more than there are spaces in
it. Each of them takes one entry of the table.
-/

namespace Osm.Drivers

open Osm.Core

/-- A boot argument: a key, which may be followed by `=` and a value. -/
structure BootArgument where
  key         : List UInt8
  value       : Option (List UInt8)
  key_plain   : ∀ c ∈ key, c ≠ space ∧ c ≠ 0 ∧ c ≠ equals
  value_plain : ∀ v ∈ value, ∀ c ∈ v, c ≠ space ∧ c ≠ 0

/-- An argument from strings that have been checked for separators. -/
def BootArgument.ofChecked (key : List UInt8) (value : Option (List UInt8))
    (hkey : (key.all fun c => c ≠ space && c ≠ 0 && c ≠ equals) = true)
    (hvalue : (value.all fun v => v.all fun c => c ≠ space && c ≠ 0) = true) : BootArgument where
  key         := key
  value       := value
  key_plain   := by simpa [and_assoc] using hkey
  value_plain := by simpa [Option.all_eq_true] using hvalue

/-- The argument in the boot argument string. -/
def BootArgument.text (a : BootArgument) : List UInt8 :=
  match a.value with
  | none   => a.key
  | some v => a.key ++ equals :: v

/-- The arguments with single spaces between them. -/
def bootText (args : List BootArgument) : List UInt8 :=
  [space].intercalate (args.map BootArgument.text)

/-- What is left of the argument in the copy of the string. -/
def BootArgument.stored (a : BootArgument) : List UInt8 :=
  match a.value with
  | none   => a.key
  | some v => a.key ++ 0 :: v

/-- The entry for an argument that starts at the given place. -/
def BootArgument.entry (offset : ℕ) (a : BootArgument) : BootargsT where
  key   := .valueArea offset
  value :=
    match a.value with
    | none   => .empty
    | some _ => .valueArea (offset + a.key.length + 1)

/-- What is left of the arguments in the copy of the string. -/
def bootStored (args : List BootArgument) : List UInt8 := args.flatMap fun a => a.stored ++ [0]

/-- The entries for arguments that start at the given place. -/
def bootEntries : ℕ → List BootArgument → List BootargsT
  | _, []            => []
  | offset, a :: args => a.entry offset :: bootEntries (offset + a.text.length + 1) args

variable {pre post ws : List UInt8} {c : UInt8} {vs : BootargsValues} {i l last fuel : ℕ}

/-! ### Single rounds -/

@[simp] lemma read_mk :
    (BootargsScan.mk (pre ++ c :: post) vs i pre.length last).read = .ok c := by
  simp [BootargsScan.read]

@[simp] lemma cut_mk :
    (BootargsScan.mk (pre ++ c :: post) vs i pre.length last).cut =
      .ok ⟨pre ++ 0 :: post, vs, i, pre.length, last⟩ := by
  simp [BootargsScan.cut]

lemma keyRound_plain (hc : c ≠ space ∧ c ≠ 0 ∧ c ≠ equals) (hl : pre.length ≤ l) :
    keyRound l fuel ⟨pre ++ c :: post, vs, i, pre.length, last⟩ =
      .inl ⟨(pre ++ [c]) ++ post, vs, i, (pre ++ [c]).length, last⟩ := by
  simp [keyRound, hl, hc]

lemma valueRound_plain (hc : c ≠ space ∧ c ≠ 0) (hl : pre.length ≤ l) :
    valueRound l ⟨pre ++ c :: post, vs, i, pre.length, last⟩ =
      .inl ⟨(pre ++ [c]) ++ post, vs, i, (pre ++ [c]).length, last⟩ := by
  simp [valueRound, hl, hc]

lemma valueRound_end (hc : c = space ∨ c = 0) (hl : pre.length ≤ l) :
    valueRound l ⟨pre ++ c :: post, vs, i, pre.length, last⟩ =
      .inr (endValue ⟨pre ++ c :: post, vs, i, pre.length, last⟩) := by
  simp [valueRound, hl, hc]

/-! ### The two scans -/

/-- The scan goes over the characters of a key. -/
lemma loop_key (hws : ∀ c ∈ ws, c ≠ space ∧ c ≠ 0 ∧ c ≠ equals) (hl : (pre ++ ws).length ≤ l)
    (n : ℕ) :
    loop (keyRound l fuel) (ws.length + n) ⟨pre ++ (ws ++ post), vs, i, pre.length, last⟩ =
      loop (keyRound l fuel) n ⟨(pre ++ ws) ++ post, vs, i, (pre ++ ws).length, last⟩ := by
  induction ws generalizing pre with
  | nil => simp
  | cons c ws ih =>
    rw [List.forall_mem_cons] at hws
    have hround : keyRound l fuel ⟨pre ++ c :: (ws ++ post), vs, i, pre.length, last⟩ = _ :=
      keyRound_plain hws.1 (by simp at hl; omega)
    rw [List.length_cons, Nat.add_right_comm, List.cons_append, loop_inl hround,
      ih hws.2 (by simpa using hl)]
    simp

/-- The scan goes over the characters of a value and to its end. -/
lemma loop_value (hws : ∀ c ∈ ws, c ≠ space ∧ c ≠ 0) (hc : c = space ∨ c = 0)
    (hl : (pre ++ ws).length ≤ l) (hfuel : ws.length < fuel) :
    loop (valueRound l) fuel ⟨pre ++ (ws ++ c :: post), vs, i, pre.length, last⟩ =
      some (endValue ⟨(pre ++ ws) ++ c :: post, vs, i, (pre ++ ws).length, last⟩) := by
  obtain ⟨n, rfl⟩ := Nat.exists_eq_add_of_lt hfuel
  induction ws generalizing pre with
  | nil =>
    rw [List.nil_append, List.append_nil]
    exact loop_inr (valueRound_end hc (by simpa using hl)) _
  | cons w ws ih =>
    rw [List.forall_mem_cons] at hws
    have hround : valueRound l ⟨pre ++ w :: (ws ++ c :: post), vs, i, pre.length, last⟩ = _ :=
      valueRound_plain hws.1 (by simp at hl; omega)
    rw [List.length_cons, Nat.add_right_comm ws.length 1 n, List.cons_append, loop_inl hround,
      ih hws.2 (by simpa using hl) (by omega)]
    simp

/-! ### One argument -/

/-- A key alone ends. -/
lemma keyRound_end (hc : c = space ∨ c = 0) (hl : pre.length ≤ l) (hi : i < configBootargsMax) :
    keyRound l fuel ⟨pre ++ c :: post, vs, i, pre.length, last⟩ =
      .inl ⟨pre ++ 0 :: post, vs.set i ⟨.valueArea last, .empty⟩ hi, i + 1, pre.length + 1,
        pre.length + 1⟩ := by
  have hsep : c = space ∨ c = 0 ∨ c = equals := hc.imp_right Or.inl
  have hne : c ≠ equals := by rcases hc with rfl | rfl <;> decide
  have hkey : (BootargsScan.mk (pre ++ c :: post) vs i pre.length last).setKey =
      .ok ⟨pre ++ c :: post, vs.set i ⟨.valueArea last, .empty⟩ hi, i, pre.length,
        pre.length + 1⟩ := by
    simp [BootargsScan.setKey, hi]
  simp only [keyRound, hl, if_true, read_mk, hsep, endKey, hkey]
  simp [bind, Except.bind, hne]

/-- A key ends that is followed by a value. -/
lemma keyRound_equals (hws : ∀ c ∈ ws, c ≠ space ∧ c ≠ 0) (hc : c = space ∨ c = 0)
    (hl : (pre ++ equals :: ws).length ≤ l) (hi : i < configBootargsMax) (hfuel : l < fuel) :
    keyRound l fuel ⟨pre ++ equals :: (ws ++ c :: post), vs, i, pre.length, last⟩ =
      .inl ⟨pre ++ 0 :: (ws ++ 0 :: post),
        vs.set i ⟨.valueArea last, .valueArea (pre.length + 1)⟩ hi, i + 1,
        pre.length + 1 + ws.length + 1, pre.length + 1 + ws.length + 1⟩ := by
  have hlen : pre.length + ws.length + 1 ≤ l := by simpa [Nat.add_assoc] using hl
  have hkey : (BootargsScan.mk (pre ++ equals :: (ws ++ c :: post)) vs i pre.length last).setKey =
      .ok ⟨pre ++ equals :: (ws ++ c :: post), vs.set i ⟨.valueArea last, .empty⟩ hi, i,
        pre.length, pre.length + 1⟩ := by
    simp [BootargsScan.setKey, hi]
  have hvalue := @loop_value (pre ++ [0]) post ws c
    (vs.set i ⟨.valueArea last, .empty⟩ hi) i l (pre.length + 1) fuel hws hc
    (by simp; omega) (by omega)
  have hend : endValue ⟨((pre ++ [0]) ++ ws) ++ c :: post,
      vs.set i ⟨.valueArea last, .empty⟩ hi, i, ((pre ++ [0]) ++ ws).length, pre.length + 1⟩ =
      .ok ⟨((pre ++ [0]) ++ ws) ++ 0 :: post,
        vs.set i ⟨.valueArea last, .valueArea (pre.length + 1)⟩ hi, i,
        ((pre ++ [0]) ++ ws).length + 1, ((pre ++ [0]) ++ ws).length + 1⟩ := by
    simp only [endValue, BootargsScan.setValue, hi, dif_pos, bind, Except.bind, cut_mk]
    simp [pure, Except.pure]
  rw [hend] at hvalue
  simp only [keyRound, show pre.length ≤ l by omega, if_true, read_mk, or_true, endKey, hkey, bind,
    Except.bind, cut_mk]
  simp only [List.append_assoc, List.singleton_append, List.length_append, List.length_singleton]
    at hvalue
  rw [hvalue]
  simp [Nat.add_assoc, Nat.add_comm 1]

/-- There is no entry left. -/
lemma keyRound_full (hc : c = space ∨ c = 0 ∨ c = equals) (hl : pre.length ≤ l)
    (hi : ¬ i < configBootargsMax) :
    keyRound l fuel ⟨pre ++ c :: post, vs, i, pre.length, last⟩ = .inr (some (.error .table)) := by
  simp [keyRound, endKey, BootargsScan.setKey, hl, hc, hi, bind, Except.bind]

/-- Every argument takes one entry. -/
lemma loop_argument (a : BootArgument) (hc : c = space ∨ c = 0) (hi : i < configBootargsMax)
    (hl : (pre ++ a.text).length ≤ l) (hfuel : l < fuel) (n : ℕ) :
    loop (keyRound l fuel) (a.key.length + (n + 1))
        ⟨pre ++ (a.text ++ c :: post), vs, i, pre.length, pre.length⟩ =
      loop (keyRound l fuel) n
        ⟨(pre ++ (a.stored ++ [0])) ++ post, vs.set i (a.entry pre.length) hi, i + 1,
          (pre ++ (a.stored ++ [0])).length, (pre ++ (a.stored ++ [0])).length⟩ := by
  obtain ⟨key, value, hkey, hvalue⟩ := a
  cases value with
  | none =>
    simp only [BootArgument.text, BootArgument.stored, BootArgument.entry] at hl ⊢
    rw [loop_key hkey hl, loop_inl (keyRound_end hc hl hi)]
    simp [Nat.add_assoc]
  | some v =>
    simp only [BootArgument.text, BootArgument.stored, BootArgument.entry] at hl ⊢
    have hv := hvalue v rfl
    rw [List.append_assoc, List.cons_append, loop_key hkey (by simp at hl ⊢; omega),
      loop_inl (keyRound_equals hv hc (by simpa using hl) hi hfuel)]
    simp [Nat.add_assoc, Nat.add_comm, Nat.add_left_comm]

/-- An argument without an entry is stored outside of the table. -/
lemma loop_argument_full (a : BootArgument) (hc : c = space ∨ c = 0)
    (hi : ¬ i < configBootargsMax) (hl : (pre ++ a.text).length ≤ l) (n : ℕ) :
    loop (keyRound l fuel) (a.key.length + (n + 1))
        ⟨pre ++ (a.text ++ c :: post), vs, i, pre.length, pre.length⟩ =
      some (some (.error .table)) := by
  obtain ⟨key, value, hkey, hvalue⟩ := a
  cases value with
  | none =>
    simp only [BootArgument.text] at hl ⊢
    rw [loop_key hkey hl, loop_inr (keyRound_full (hc.imp_right Or.inl) (by simpa using hl) hi)]
  | some v =>
    simp only [BootArgument.text] at hl ⊢
    rw [List.append_assoc, List.cons_append, loop_key hkey (by simp at hl ⊢; omega),
      loop_inr (keyRound_full (Or.inr (Or.inr rfl)) (by simp at hl ⊢; omega) hi)]

/-! ### All arguments -/

variable {a b : BootArgument} {args : List BootArgument} {es rest : List BootargsT} {n : ℕ}

@[simp] lemma length_stored : a.stored.length = a.text.length := by
  cases h : a.value <;> simp [BootArgument.stored, BootArgument.text, h]

lemma length_key_le : a.key.length ≤ a.text.length := by
  cases h : a.value <;> simp [BootArgument.text, h]

@[simp] lemma bootText_singleton : bootText [a] = a.text := by
  simp [bootText, List.intercalate]

@[simp] lemma bootText_cons_cons :
    bootText (a :: b :: args) = a.text ++ space :: bootText (b :: args) := by
  simp [bootText, List.intercalate]

@[simp] lemma bootStored_cons : bootStored (a :: args) = a.stored ++ [0] ++ bootStored args := by
  simp [bootStored]

@[simp] lemma bootStored_nil : bootStored [] = [] := rfl

lemma keyRound_leave {t : BootargsScan} (h : l < t.o) :
    keyRound l fuel t = .inr (some (.ok t)) := by simp [keyRound, h]

lemma lt_configBootargsMax {r : BootargsT} (hvs : vs.toList = es ++ r :: rest)
    (hi : es.length = i) : i < configBootargsMax := by
  have hsize := congrArg List.length hvs
  simp only [Vector.length_toList, List.length_append, List.length_cons] at hsize
  omega

/-- The next entry is stored. -/
lemma toList_set {r e : BootargsT} (hvs : vs.toList = es ++ r :: rest) (hi : es.length = i)
    (h : i < configBootargsMax) : (vs.set i e h).toList = (es ++ [e]) ++ rest := by
  subst hi
  simp [Vector.toList_set, hvs]

/-- With an entry for each argument the loop comes to its end. -/
lemma loop_arguments (hlen : pre.length + (bootText (a :: args)).length = l)
    (hvs : vs.toList = es ++ rest) (hi : es.length = i)
    (hroom : (a :: args).length ≤ rest.length) :
    ∃ t : BootargsScan,
      t.valueArea = pre ++ bootStored (a :: args) ∧
      t.values.toList =
        es ++ (bootEntries pre.length (a :: args) ++ rest.drop (a :: args).length) ∧
      ∀ fuel > l, ∀ n > (bootText (a :: args)).length + 1,
        loop (keyRound l fuel) n
            ⟨pre ++ (bootText (a :: args) ++ [0]), vs, i, pre.length, pre.length⟩ =
          some (some (.ok t)) := by
  obtain ⟨r, rest, rfl⟩ := List.exists_cons_of_length_pos (Nat.zero_lt_of_lt hroom)
  induction args generalizing a pre vs i es r rest with
  | nil =>
    have hmax := lt_configBootargsMax hvs hi
    have hkey := @length_key_le a
    rw [bootText_singleton] at hlen ⊢
    refine ⟨⟨(pre ++ (a.stored ++ [0])) ++ [], vs.set i (a.entry pre.length) hmax, i + 1,
      (pre ++ (a.stored ++ [0])).length, (pre ++ (a.stored ++ [0])).length⟩, by simp, ?_,
      fun fuel hfuel n hn => ?_⟩
    · rw [toList_set hvs hi]
      simp [bootEntries]
    · obtain ⟨n, rfl⟩ : ∃ k, n = a.key.length + (k + 1 + 1) := ⟨n - a.key.length - 2, by omega⟩
      rw [loop_argument a (Or.inr rfl) hmax (by simp; omega) hfuel]
      exact loop_inr (keyRound_leave (by simp; omega)) n
  | cons b args ih =>
    have hmax := lt_configBootargsMax hvs hi
    have hkey := @length_key_le a
    rw [bootText_cons_cons, List.length_append, List.length_cons] at hlen
    have hroom' : (b :: args).length ≤ rest.length := Nat.le_of_succ_le_succ hroom
    obtain ⟨r', rest, rfl⟩ := List.exists_cons_of_length_pos (Nat.zero_lt_of_lt hroom')
    have hvs' := @toList_set vs i es (r' :: rest) r (a.entry pre.length) hvs hi hmax
    obtain ⟨t, harea, hvalues, hloop⟩ := @ih (pre ++ (a.stored ++ [0])) _ (i + 1) b _
      (by simp; omega) (by simp [hi]) r' rest hvs' hroom'
    refine ⟨t, by simpa using harea, ?_, fun fuel hfuel n hn => ?_⟩
    · rw [hvalues]
      simp [bootEntries, Nat.add_assoc]
    · rw [bootText_cons_cons, List.length_append, List.length_cons] at hn
      obtain ⟨n, rfl⟩ : ∃ k, n = a.key.length + (k + 1) := ⟨n - a.key.length - 1, by omega⟩
      rw [bootText_cons_cons, List.append_assoc, List.cons_append,
        loop_argument a (Or.inl rfl) hmax (by simp; omega) hfuel]
      exact hloop fuel hfuel n (by omega)

/-- Without an entry for each argument there is a store outside of the table. -/
lemma loop_arguments_full (hlen : pre.length + (bootText (a :: args)).length = l)
    (hfuel : l < fuel) (hroom : configBootargsMax < i + (a :: args).length)
    (hi : i ≤ configBootargsMax) (hn : (bootText (a :: args)).length < n) :
    loop (keyRound l fuel) n ⟨pre ++ (bootText (a :: args) ++ [0]), vs, i, pre.length, pre.length⟩ =
      some (some (.error .table)) := by
  induction args generalizing a pre vs i n with
  | nil =>
    have hkey := @length_key_le a
    have hfull : ¬ i < configBootargsMax := by simp at hroom; omega
    rw [bootText_singleton] at hlen hn ⊢
    obtain ⟨n, rfl⟩ : ∃ k, n = a.key.length + (k + 1) := ⟨n - a.key.length - 1, by omega⟩
    exact loop_argument_full a (Or.inr rfl) hfull (by simp; omega) n
  | cons b args ih =>
    have hkey := @length_key_le a
    rw [bootText_cons_cons] at hlen hn ⊢
    rw [List.length_append, List.length_cons] at hlen hn
    obtain ⟨n, rfl⟩ : ∃ k, n = a.key.length + (k + 1) := ⟨n - a.key.length - 1, by omega⟩
    rw [List.append_assoc, List.cons_append]
    by_cases hmax : i < configBootargsMax
    · rw [loop_argument a (Or.inl rfl) hmax (by simp; omega) hfuel]
      exact ih (by simp; omega) (by simp at hroom ⊢; omega) hmax (by omega)
    · exact loop_argument_full a (Or.inl rfl) hmax (by simp; omega) n

/-! ### Any string -/

variable {s : List UInt8} {values : BootargsValues}

lemma text_plain : ∀ c ∈ a.text, c ≠ space ∧ c ≠ 0 := by
  intro c hc
  cases h : a.value with
  | none =>
    have hkey := a.key_plain c (by simpa [BootArgument.text, h] using hc)
    exact ⟨hkey.1, hkey.2.1⟩
  | some v =>
    rw [BootArgument.text, h, List.mem_append, List.mem_cons] at hc
    rcases hc with hc | rfl | hc
    · exact ⟨(a.key_plain c hc).1, (a.key_plain c hc).2.1⟩
    · decide
    · exact a.value_plain v h c hc

/-- The character is put in front of the key. -/
def BootArgument.consKey (c : UInt8) (hc : c ≠ space ∧ c ≠ 0 ∧ c ≠ equals) (a : BootArgument) :
    BootArgument :=
  { a with
    key       := c :: a.key
    key_plain := List.forall_mem_cons.mpr ⟨hc, a.key_plain⟩ }

/-- The argument without a key that has the given text as its value. -/
def BootArgument.ofText (a : BootArgument) : BootArgument where
  key         := []
  value       := some a.text
  key_plain   := List.forall_mem_nil _
  value_plain := fun _ hv => Option.mem_some_iff.mp hv ▸ text_plain

/-- The argument with an empty text. -/
def BootArgument.nil : BootArgument where
  key         := []
  value       := none
  key_plain   := List.forall_mem_nil _
  value_plain := fun _ hv => (Option.not_mem_none _ hv).elim

lemma bootText_consKey (hc : c ≠ space ∧ c ≠ 0 ∧ c ≠ equals) :
    bootText (a.consKey c hc :: args) = c :: bootText (a :: args) := by
  have htext : (a.consKey c hc).text = c :: a.text := by
    cases h : a.value <;> simp [BootArgument.consKey, BootArgument.text, h]
  cases args <;> simp [htext]

lemma bootText_ofText : bootText (a.ofText :: args) = equals :: bootText (a :: args) := by
  have htext : a.ofText.text = equals :: a.text := rfl
  cases args <;> simp [htext]

lemma bootText_nil_cons : bootText (.nil :: a :: args) = space :: bootText (a :: args) :=
  bootText_cons_cons

/-- Every string is the text of one argument more than it has spaces. -/
theorem exists_bootText (hs : 0 ∉ s) :
    ∃ a args, s = bootText (a :: args) ∧ args.length = s.count space := by
  induction s with
  | nil => exact ⟨.nil, [], rfl, rfl⟩
  | cons c s ih =>
    rw [List.mem_cons, not_or] at hs
    obtain ⟨a, args, rfl, hcount⟩ := ih hs.2
    by_cases hspace : c = space
    · exact ⟨.nil, a :: args, by rw [bootText_nil_cons, hspace], by simp [hcount, hspace]⟩
    by_cases hequals : c = equals
    · refine ⟨a.ofText, args, by rw [bootText_ofText, hequals], ?_⟩
      rw [hcount, List.count_cons_of_ne hspace]
    · refine ⟨a.consKey c ⟨hspace, Ne.symm hs.1, hequals⟩, args, (bootText_consKey _).symm, ?_⟩
      rw [hcount, List.count_cons_of_ne hspace]

/-- The entries of the table before the first argument. -/
lemma bootargsInit_eq (fuel : ℕ) (s : List UInt8) (values : BootargsValues) :
    bootargsInit fuel s values =
      (loop (keyRound s.length fuel) fuel
        ⟨[] ++ (s ++ [0]), values.map fun e => { e with key := .null }, 0, ([] : List UInt8).length,
          ([] : List UInt8).length⟩).join := rfl

/-- Enough entries for the arguments: the strings are cut and the entries come first. -/
theorem bootargsInit_bootText (values : BootargsValues)
    (hroom : (a :: args).length ≤ configBootargsMax) :
    ∃ t : BootargsScan, t.valueArea = bootStored (a :: args) ∧
      t.values.toList = bootEntries 0 (a :: args) ++
        (values.toList.map fun e => { e with key := .null }).drop (a :: args).length ∧
      ∀ fuel > (bootText (a :: args)).length + 1,
        bootargsInit fuel (bootText (a :: args)) values = some (.ok t) := by
  obtain ⟨t, harea, hvalues, hloop⟩ := @loop_arguments []
    (values.map fun e => { e with key := .null }) 0 (bootText (a :: args)).length a args []
    (values.toList.map fun e => { e with key := .null }) (Nat.zero_add _) Vector.toList_map rfl (by simpa using hroom)
  refine ⟨t, harea, hvalues, fun fuel hfuel => ?_⟩
  rw [bootargsInit_eq, hloop fuel (Nat.lt_of_succ_lt hfuel) fuel hfuel]
  rfl

/-- Too few entries for the arguments. -/
theorem bootargsInit_bootText_full (hroom : configBootargsMax < (a :: args).length)
    (hfuel : (bootText (a :: args)).length < fuel) :
    bootargsInit fuel (bootText (a :: args)) values = some (.error .table) := by
  rw [bootargsInit_eq, loop_arguments_full (Nat.zero_add _) hfuel (by simpa using hroom)
    (Nat.zero_le _) hfuel]
  rfl

/-- A boot argument string is parsed inside of its copy and of the table exactly if it has fewer
spaces than the table has entries. -/
theorem bootargsInit_safe_iff (hs : 0 ∉ s) :
    (∃ t, ∀ fuel > s.length + 1, bootargsInit fuel s values = some (.ok t)) ↔
      s.count space < configBootargsMax := by
  obtain ⟨a, args, rfl, hcount⟩ := exists_bootText hs
  rw [← hcount]
  constructor
  · rintro ⟨t, ht⟩
    by_contra hroom
    have hfull : bootargsInit ((bootText (a :: args)).length + 2) (bootText (a :: args)) values =
        some (.error .table) := bootargsInit_bootText_full (by simp; omega) (by omega)
    rw [ht _ (Nat.lt_succ_self _)] at hfull
    cases hfull
  · intro hroom
    obtain ⟨t, -, -, ht⟩ := @bootargsInit_bootText a args values hroom
    exact ⟨t, ht⟩

/-- `a=1 b  c=`, which has an argument without a value and an empty one. -/
theorem bootargsInit_safe_iff_four :
    ∃ t, ∀ fuel > 10, bootargsInit fuel [97, equals, 49, space, 98, space, space, 99, equals]
      (.replicate _ ⟨.null, .null⟩) = some (.ok t) := by
  have hnul : 0 ∉ [97, equals, 49, space, 98, space, space, 99, equals] := by decide
  exact (bootargsInit_safe_iff hnul).mpr (by decide)

/-- There is no entry for the 33rd of the arguments `a a ... a`. -/
theorem bootargsInit_table :
    ¬ ∃ t, ∀ fuel > 66, bootargsInit fuel ([space].intercalate (List.replicate 33 [97]))
      (.replicate _ ⟨.null, .null⟩) = some (.ok t) := by
  rintro ⟨t, ht⟩
  have hfull : bootargsInit 67 ([space].intercalate (List.replicate 33 [97]))
      (.replicate _ ⟨.null, .null⟩) = some (.error .table) :=
    @bootargsInit_bootText_full 67 (.ofChecked [97] none rfl rfl)
      (List.replicate 32 (.ofChecked [97] none rfl rfl)) (.replicate _ ⟨.null, .null⟩)
      (by decide) (by decide)
  rw [ht 67 (by decide)] at hfull
  cases hfull

/-! ### Looking up an argument -/

variable {k r : List UInt8}

/-- The comparison stops at the ends of both keys. -/
lemma sameKey_terminated (hk : 0 ∉ k) (hws : 0 ∉ ws) :
    sameKey (ws ++ 0 :: r) (k ++ [0]) = decide (ws = k) := by
  induction ws generalizing k with
  | nil =>
    cases k with
    | nil => simp [sameKey]
    | cons c k =>
      rw [List.mem_cons, not_or] at hk
      simp [sameKey, hk.1]
  | cons w ws ih =>
    rw [List.mem_cons, not_or] at hws
    cases k with
    | nil => simp [sameKey, Ne.symm hws.1]
    | cons c k =>
      rw [List.mem_cons, not_or] at hk
      simp [sameKey, ih hk.2 hws.2, Ne.symm hk.1]

lemma nul_notMem_key : 0 ∉ a.key := fun h => (a.key_plain 0 h).2.1 rfl

lemma nul_notMem_value {v : List UInt8} (h : a.value = some v) : 0 ∉ v :=
  fun hv => (a.value_plain v h 0 hv).2 rfl

/-- The key of an entry is the key of its argument. -/
lemma sameKey_entry (hk : 0 ∉ k) :
    sameKey ((a.entry pre.length).key.chars (pre ++ (a.stored ++ 0 :: post))) (k ++ [0]) =
      decide (a.key = k) := by
  have hchars : (a.entry pre.length).key.chars (pre ++ (a.stored ++ 0 :: post)) =
      a.stored ++ 0 :: post := by
    simp [BootArgument.entry, CharPtr.chars]
  rw [hchars]
  cases h : a.value with
  | none => simp only [BootArgument.stored, h, sameKey_terminated hk nul_notMem_key]
  | some v =>
    simp only [BootArgument.stored, h, List.append_assoc, List.cons_append,
      sameKey_terminated hk nul_notMem_key]

lemma takeWhile_terminated (hws : 0 ∉ ws) : (ws ++ 0 :: r).takeWhile (· ≠ 0) = ws := by
  rw [List.takeWhile_append_of_pos (fun c hc => decide_eq_true (ne_of_mem_of_not_mem hc hws))]
  simp

/-- The value of an entry is the value of its argument. -/
lemma string_entry :
    (a.entry pre.length).value.string (pre ++ (a.stored ++ 0 :: post)) =
      some (a.value.getD []) := by
  cases h : a.value with
  | none => simp [BootArgument.entry, CharPtr.string, CharPtr.chars, h]
  | some v =>
    have hdrop : (pre ++ ((a.key ++ 0 :: v) ++ 0 :: post)).drop (pre.length + a.key.length + 1) =
        v ++ 0 :: post := by
      have hsplit : pre ++ ((a.key ++ 0 :: v) ++ 0 :: post) =
          (pre ++ a.key ++ [0]) ++ (v ++ 0 :: post) := by simp
      rw [hsplit, List.drop_left' (by simp [Nat.add_assoc])]
    simp only [BootArgument.entry, BootArgument.stored, CharPtr.string, CharPtr.chars, h, hdrop,
      takeWhile_terminated (nul_notMem_value h), Option.getD_some]

/-- The entries are searched in the order of the arguments. -/
lemma bootargsGetLoop_bootEntries (hk : 0 ∉ k)
    (hrest : ∀ area, bootargsGetLoop area k rest = .null) :
    (bootargsGetLoop (pre ++ bootStored args) k (bootEntries pre.length args ++ rest)).string
        (pre ++ bootStored args) =
      (args.find? fun a => a.key = k).map fun a => a.value.getD [] := by
  induction args generalizing pre with
  | nil =>
    rw [bootEntries, List.nil_append, hrest]
    rfl
  | cons a args ih =>
    have harea : pre ++ bootStored (a :: args) = pre ++ (a.stored ++ 0 :: bootStored args) := by
      simp
    rw [harea, bootEntries, List.cons_append, bootargsGetLoop,
      if_neg (by simp [BootArgument.entry]), sameKey_entry hk]
    by_cases hkey : a.key = k
    · rw [if_pos (decide_eq_true hkey), string_entry, List.find?_cons_of_pos (by simpa using hkey)]
      rfl
    · rw [if_neg (by simpa using hkey), List.find?_cons_of_neg (by simpa using hkey)]
      have := @ih (pre ++ (a.stored ++ [0]))
      simpa [Nat.add_assoc] using this

/-- There is nothing after the last argument. -/
lemma bootargsGetLoop_null (area k : List UInt8) (h : ∀ e ∈ rest, e.key = .null) :
    bootargsGetLoop area k rest = .null := by
  cases rest with
  | nil => rfl
  | cons e rest => simp [bootargsGetLoop, h e]

/-- The arguments are found by their keys. -/
theorem bootargsGet_bootText (args : List BootArgument) (hroom : args.length ≤ configBootargsMax)
    (values : BootargsValues) :
    ∃ t, (∀ fuel > (bootText args).length + 1,
        bootargsInit fuel (bootText args) values = some (.ok t)) ∧
      ∀ k : List UInt8, k ≠ [] → 0 ∉ k →
        (bootargsGet t k).string t.valueArea =
          (args.find? fun a => a.key = k).map fun a => a.value.getD [] := by
  -- the text of no arguments is that of one with an empty key
  obtain ⟨b, bs, htext, hlen, hfind⟩ : ∃ b bs, bootText args = bootText (b :: bs) ∧
      (b :: bs).length ≤ configBootargsMax ∧
      ∀ k : List UInt8, k ≠ [] → (args.find? fun a => a.key = k) =
        (b :: bs).find? fun a => a.key = k := by
    cases args with
    | nil =>
      refine ⟨.nil, [], rfl, by decide, fun k hk => ?_⟩
      rw [List.find?_cons_of_neg (by simpa [BootArgument.nil] using hk.symm)]
    | cons b bs => exact ⟨b, bs, rfl, hroom, fun _ _ => rfl⟩
  obtain ⟨t, harea, hvalues, ht⟩ := @bootargsInit_bootText b bs values hlen
  rw [htext]
  refine ⟨t, ht, fun k hk hnul => ?_⟩
  have hnull : ∀ e ∈ (values.toList.map fun e => { e with key := .null }).drop (b :: bs).length,
      e.key = .null := by
    intro e he
    obtain ⟨e', -, rfl⟩ := List.mem_map.mp (List.mem_of_mem_drop he)
    rfl
  rw [bootargsGet, harea, hvalues, hfind k hk]
  exact @bootargsGetLoop_bootEntries [] (b :: bs) _ k hnul fun area =>
    bootargsGetLoop_null area k hnull

/-- `debug`. -/
def debug : BootArgument := .ofChecked [100, 101, 98, 117, 103] none rfl rfl

/-- `randomseed=7`. -/
def randomseed : BootArgument :=
  .ofChecked [114, 97, 110, 100, 111, 109, 115, 101, 101, 100] (some [55]) rfl rfl

/-- `randomseed=8`. -/
def randomseed' : BootArgument :=
  .ofChecked [114, 97, 110, 100, 111, 109, 115, 101, 101, 100] (some [56]) rfl rfl

/-- Of two arguments with one key the first counts, and a key alone has the empty value. -/
theorem bootargsGet_randomseed :
    ∃ t, bootargsInit 33 (bootText [debug, randomseed, randomseed'])
        (.replicate _ ⟨.null, .null⟩) = some (.ok t) ∧
      (bootargsGet t randomseed'.key).string t.valueArea = some [55] ∧
      (bootargsGet t debug.key).string t.valueArea = some [] ∧
      (bootargsGet t [105, 110, 105, 116]).string t.valueArea = none := by
  obtain ⟨t, ht, hget⟩ := bootargsGet_bootText [debug, randomseed, randomseed'] (by decide)
    (.replicate _ ⟨.null, .null⟩)
  exact ⟨t, ht 33 (by decide), hget _ (by decide) (by decide), hget _ (by decide) (by decide),
    hget _ (by decide) (by decide)⟩

end Osm.Drivers
