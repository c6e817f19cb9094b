import AutoTrade.Environment.BarHeap
import AutoTrade.Misc.Runs
import Mathlib.Data.List.Chain

/-!
# A column reads back what was put in

The typed arrays give the values back as they are. A coded column gives back the
first of the values that are the same strict JSON, so what it changes is at most the
order of an object's members.
-/

namespace AutoTrade

namespace BarColumns

open Json JsonLines

/-- The first of `values` that is the same strict JSON as `v`. -/
def firstAlike (values : List Json) (v : Json) : Option Json :=
  values.find? fun w => strictIdentity w = strictIdentity v

variable {values : List Json}

theorem firstAlike_identity {v w : Json} (h : firstAlike values v = some w) :
    strictIdentity w = strictIdentity v := by
  simpa using List.find?_some h

variable {v : Json}

theorem isSome_firstAlike (member : v ∈ values) : (firstAlike values v).isSome := by
  rw [firstAlike, List.find?_isSome]
  exact ⟨v, member, by simp⟩

theorem firstAlike_append (member : v ∈ values) (item : Json) :
    firstAlike (values ++ [item]) v = firstAlike values v := by
  obtain ⟨w, found⟩ := Option.isSome_iff_exists.mp (isSome_firstAlike member)
  unfold firstAlike at found ⊢
  rw [List.find?_append, found, Option.some_or]

theorem columnKey_eq (v : Json) : columnKey v = strictIdentity v := by
  cases v <;> rfl

/-- What a coding holds under a key. -/
def Coding.held (coding : Coding) (key : Json) : Option Json :=
  (coding.lookup.get? key).bind fun code => coding.uniques[code]?

/-- The coding of the values done so far. -/
structure Coded (coding : Coding) (done : List Json) : Prop where
  known : ∀ key code, coding.lookup.get? key = some code → code < coding.uniques.length
  held : ∀ key, coding.held key = done.find? fun w => strictIdentity w = key
  length : coding.codes.length = done.length
  reads : ∀ (i : Nat) v, done[i]? = some v →
    (coding.codes[i]?.bind fun code => coding.uniques[code]?) = firstAlike done v

theorem coded_nil : Coded {} [] where
  known := by simp [Dict.get?, Dict.lookup, Dict.empty]
  held := by simp [Coding.held, Dict.get?, Dict.lookup, Dict.empty]
  length := rfl
  reads := by simp

theorem bind_append {codes : List Nat} {uniques : List Json} {i : Nat} {w : Json}
    (reads : (codes[i]?.bind fun code => uniques[code]?) = some w) (newCodes : List Nat)
    (newUniques : List Json) :
    ((codes ++ newCodes)[i]?.bind fun code => (uniques ++ newUniques)[code]?) = some w := by
  obtain ⟨code, at_i, holds⟩ := Option.bind_eq_some_iff.mp reads
  have inside := (List.getElem?_eq_some_iff.mp at_i).1
  have known := (List.getElem?_eq_some_iff.mp holds).1
  rw [List.getElem?_append_left inside, at_i, Option.bind_some, List.getElem?_append_left known,
    holds]

theorem Coded.push {coding : Coding} {done : List Json} (coded : Coded coding done) (item : Json) :
    Coded (coding.push item) (done ++ [item]) := by
  have earlier : ∀ (i : Nat) v, done[i]? = some v → ∃ w,
      (coding.codes[i]?.bind fun code => coding.uniques[code]?) = some w ∧
        firstAlike (done ++ [item]) v = some w := by
    intro i v at_i
    have member := List.mem_of_getElem? at_i
    obtain ⟨w, found⟩ := Option.isSome_iff_exists.mp (isSome_firstAlike member)
    exact ⟨w, (coded.reads i v at_i).trans found, (firstAlike_append member item).trans found⟩
  have at_end : ∀ (i : Nat) v, (done ++ [item])[i]? = some v → done[i]? = some v ∨
      i = coding.codes.length ∧ v = item := by
    intro i v at_i
    rw [coded.length]
    rcases Nat.lt_or_ge i done.length with inside | outside
    · rw [List.getElem?_append_left inside] at at_i
      exact .inl at_i
    · rw [List.getElem?_append_right outside] at at_i
      obtain ⟨last, same⟩ := List.getElem?_eq_some_iff.mp at_i
      have zero : i - done.length = 0 := by simpa using last
      simp only [zero, List.getElem_singleton] at same
      exact .inr ⟨by omega, same.symm⟩
  unfold Coding.push
  rw [columnKey_eq]
  cases looked : coding.lookup.get? (strictIdentity item) with
  | some code =>
    have holds : coding.uniques[code]? = done.find? fun w => strictIdentity w = strictIdentity item := by
      rw [← coded.held, Coding.held, looked, Option.bind_some]
    obtain ⟨first, found⟩ : ∃ first, coding.uniques[code]? = some first :=
      ⟨_, List.getElem?_eq_getElem (coded.known _ code looked)⟩
    refine ⟨coded.known, fun key => ?_, by simp [coded.length], fun i v at_i => ?_⟩
    · show coding.held key = _
      rw [List.find?_append, ← coded.held]
      by_cases same : strictIdentity item = key
      · subst same
        have held : coding.held (strictIdentity item) = some first := by
          rw [Coding.held, looked, Option.bind_some, found]
        rw [held, Option.some_or]
      · simp [same]
    · rcases at_end i v at_i with old | ⟨rfl, rfl⟩
      · obtain ⟨w, reads, alike⟩ := earlier i v old
        have kept := bind_append reads [code] []
        rw [List.append_nil] at kept
        exact kept.trans alike.symm
      · have alike : firstAlike (done ++ [v]) v = some first := by
          unfold firstAlike
          rw [List.find?_append, ← holds, found, Option.some_or]
        simp [found, alike]
  | none =>
    have fresh : (done.find? fun w => strictIdentity w = strictIdentity item) = none := by
      rw [← coded.held, Coding.held, looked, Option.bind_none]
    refine ⟨fun key code known => ?_, fun key => ?_, by simp [coded.length], fun i v at_i => ?_⟩
    · rw [Dict.get?_set] at known
      rw [List.length_append, List.length_singleton]
      split_ifs at known with same
      · obtain rfl := Option.some.inj known
        exact Nat.lt_succ_self _
      · exact (coded.known key code known).trans (Nat.lt_succ_self _)
    · rw [List.find?_append, ← coded.held]
      unfold Coding.held
      rw [Dict.get?_set]
      by_cases same : strictIdentity item = key
      · subst same
        simp [looked]
      · simp only [same, if_false]
        cases known : coding.lookup.get? key with
        | none => simp [same]
        | some code =>
          have inside := coded.known key code known
          simp [same, List.getElem?_append_left inside]
    · rcases at_end i v at_i with old | ⟨rfl, rfl⟩
      · obtain ⟨w, reads, alike⟩ := earlier i v old
        exact (bind_append reads _ _).trans alike.symm
      · have alike : firstAlike (done ++ [v]) v = some v := by
          unfold firstAlike
          rw [List.find?_append, fresh]
          simp
        simp [alike]

theorem coded_foldl (values : List Json) : Coded (values.foldl Coding.push {}) values := by
  induction values using List.reverseRecOn with
  | nil => exact coded_nil
  | append_singleton done item ih =>
    rw [List.foldl_append]
    exact ih.push item

theorem kindsAre_mem {kinds : List PyType} (are : kindsAre values kinds = true)
    (member : v ∈ values) : pyType v ∈ kinds := by
  simp only [kindsAre, Bool.and_eq_true, List.all_eq_true, decide_eq_true_eq] at are
  exact are.1 v member

theorem firstAlike_of_plain (plain : ∀ v ∈ values, strictIdentity v = v) (member : v ∈ values) :
    firstAlike values v = some v := by
  obtain ⟨w, found⟩ := Option.isSome_iff_exists.mp (isSome_firstAlike member)
  have inside : w ∈ values := List.mem_of_find?_eq_some found
  have same := firstAlike_identity found
  rw [plain w inside, plain v member] at same
  rw [found, same]

theorem strictIdentity_of_typed (typed : pyType v ∈ [PyType.none, .bool, .int, .float]) :
    strictIdentity v = v := by
  cases v with
  | null | bool | num | str => rfl
  | arr | obj => simp [pyType] at typed

theorem values_plain {kinds : List PyType} (are : kindsAre values kinds = true)
    (typed : kinds ⊆ [PyType.none, .bool, .int, .float]) :
    ∀ v ∈ values, strictIdentity v = v := fun _ member =>
  strictIdentity_of_typed (typed (kindsAre_mem are member))

theorem toFloat_reads (typed : pyType v ∈ [PyType.float, .none]) :
    (match toFloat v with
      | .nan => null
      | .num n => num n) = v := by
  cases v with
  | null | num => rfl
  | bool | str | arr | obj => simp [pyType] at typed

theorem map_num_filterMap (all : ∀ v ∈ values, pyType v = .int) :
    (values.filterMap number?).map num = values := by
  induction values with
  | nil => rfl
  | cons v rest ih =>
    have here := all v List.mem_cons_self
    have later := ih fun w member => all w (List.mem_cons_of_mem v member)
    cases v with
    | num n => simp [number?, later]
    | null | bool | str | arr | obj => simp [pyType] at here

theorem map_bool_filterMap (all : ∀ v ∈ values, pyType v = .bool) :
    (values.filterMap bool?).map Json.bool = values := by
  induction values with
  | nil => rfl
  | cons v rest ih =>
    have here := all v List.mem_cons_self
    have later := ih fun w member => all w (List.mem_cons_of_mem v member)
    cases v with
    | bool b => simp [bool?, later]
    | num n =>
      simp only [pyType] at here
      split_ifs at here
    | null | str | arr | obj => simp [pyType] at here

theorem fromValues_value (values : List Json) (present : Option (List Bool)) (i : Nat) :
    (Column.fromValues values present).value i = values[i]?.bind (firstAlike values) := by
  have asIs : (∀ v ∈ values, strictIdentity v = v) →
      values[i]? = values[i]?.bind (firstAlike values) := by
    intro plain
    cases at_i : values[i]? with
    | none => rfl
    | some v => exact (firstAlike_of_plain plain (List.mem_of_getElem? at_i)).symm
  have floats : kindsAre values [.float] = true ∨ kindsAre values [.float, .none] = true →
      ((values.map toFloat)[i]?.map fun
        | .nan => null
        | .num n => num n) = values[i]?.bind (firstAlike values) := by
    intro are
    have typed : ∀ v ∈ values, pyType v ∈ [PyType.float, .none] := by
      intro v member
      rcases are with are | are
      · simp [List.mem_singleton.mp (kindsAre_mem are member)]
      · exact kindsAre_mem are member
    rw [← asIs fun v member => strictIdentity_of_typed (by
      have := typed v member
      simp only [List.mem_cons, List.not_mem_nil, or_false] at this ⊢
      tauto)]
    rw [List.getElem?_map, Option.map_map]
    cases at_i : values[i]? with
    | none => rfl
    | some v =>
      have reads := toFloat_reads (typed v (List.mem_of_getElem? at_i))
      exact congrArg some reads
  unfold Column.fromValues
  split_ifs with float floatOrNone int bool
  · exact floats (.inl float)
  · exact floats (.inr floatOrNone)
  · have ints := (Bool.and_eq_true_iff.mp int).1
    have all : ∀ v ∈ values, pyType v = .int := fun v member =>
      List.mem_singleton.mp (kindsAre_mem ints member)
    rw [← asIs (values_plain ints (by decide))]
    show (values.filterMap number?)[i]?.map num = _
    rw [← List.getElem?_map, map_num_filterMap all]
  · have all : ∀ v ∈ values, pyType v = .bool := fun v member =>
      List.mem_singleton.mp (kindsAre_mem bool member)
    rw [← asIs (values_plain bool (by decide))]
    show (values.filterMap bool?)[i]?.map Json.bool = _
    rw [← List.getElem?_map, map_bool_filterMap all]
  · have coded := coded_foldl values
    show ((values.foldl Coding.push {}).codes[i]?.bind fun code =>
      (values.foldl Coding.push {}).uniques[code]?) = _
    cases at_i : values[i]? with
    | none =>
      have outside : (values.foldl Coding.push {}).codes[i]? = none := by
        rw [List.getElem?_eq_none_iff, coded.length]
        exact List.getElem?_eq_none_iff.mp at_i
      rw [outside]
      rfl
    | some v => exact coded.reads i v at_i

@[simp] theorem fromValues_present (values : List Json) (present : Option (List Bool)) :
    (Column.fromValues values present).present = present := by
  unfold Column.fromValues
  split_ifs <;> rfl

/-- What the column of `key` gives back for `v`. -/
def readBack (batch : List Record) (key : Text) (v : Json) : Option Json :=
  firstAlike (batch.map fun record => (record.get? key).getD null) v

/-- What a row of the batch reads under `key`. -/
def cellOf (batch : List Record) (key : Text) (offset : Nat) : Option Json :=
  batch[offset]?.bind fun record => (record.get? key).bind (readBack batch key)

variable {batch : List Record} {record : Record} {offset : Nat}

theorem columnOf_carries (at_offset : batch[offset]? = some record) (key : Text) :
    (columnOf batch key).carries offset = (record.get? key).isSome := by
  unfold columnOf Column.carries
  rw [fromValues_present]
  split_ifs with any
  · simp [List.getD_eq_getElem?_getD, at_offset]
  · simp only [List.any_map, List.any_eq_true, Function.comp_apply, not_exists, not_and,
      Bool.not_eq_true, Option.isNone_eq_false_iff] at any
    exact (any record (List.mem_of_getElem? at_offset)).symm

theorem columnOf_value (at_offset : batch[offset]? = some record) (key : Text) :
    (columnOf batch key).value offset = readBack batch key ((record.get? key).getD null) := by
  simp [columnOf, fromValues_value, at_offset, readBack, Function.comp_def]

theorem columnOf_cell (at_offset : batch[offset]? = some record) (key : Text) :
    (columnOf batch key).cell offset = cellOf batch key offset := by
  unfold Column.cell cellOf
  rw [columnOf_carries at_offset, columnOf_value at_offset, at_offset, Option.bind_some]
  cases record.get? key <;> rfl

theorem isSome_readBack (member : record ∈ batch) (key : Text) :
    (readBack batch key ((record.get? key).getD null)).isSome := by
  apply isSome_firstAlike
  exact List.mem_map.mpr ⟨record, member, rfl⟩

theorem cellOf_identity (at_offset : batch[offset]? = some record) (key : Text) :
    (cellOf batch key offset).map strictIdentity = (record.get? key).map strictIdentity := by
  unfold cellOf
  rw [at_offset, Option.bind_some]
  cases held : record.get? key with
  | none => rfl
  | some v =>
    have known := isSome_readBack (List.mem_of_getElem? at_offset) key
    rw [held, Option.getD_some] at known
    obtain ⟨w, found⟩ := Option.isSome_iff_exists.mp known
    rw [Option.bind_some, found, Option.map_some, Option.map_some, firstAlike_identity found]

theorem columnKeys_append (done : List Record) (record : Record) :
    columnKeys (done ++ [record]) =
      if record.entries.length ≠ (columnKeys done).length ∨
          ∃ key ∈ record.keys, key ∉ columnKeys done then
        columnKeys done ++ record.keys.filter fun key => key ∉ columnKeys done
      else columnKeys done := by
  unfold columnKeys
  rw [List.foldl_append, List.foldl_cons, List.foldl_nil]

theorem columnKeys_spec (batch : List Record) : (columnKeys batch).Nodup ∧
    ∀ key, key ∈ columnKeys batch ↔ ∃ record ∈ batch, key ∈ record.keys := by
  induction batch using List.reverseRecOn with
  | nil => simp [columnKeys]
  | append_singleton done record ih =>
    obtain ⟨nodup, members⟩ := ih
    rw [columnKeys_append]
    split_ifs with more
    · constructor
      · refine List.nodup_append.mpr ⟨nodup, record.nodup.filter _, ?_⟩
        rintro key old key' new rfl
        have fresh := of_decide_eq_true (List.mem_filter.mp new).2
        exact fresh old
      · intro key
        rw [List.mem_append, members, List.mem_filter, decide_eq_true_eq, members]
        simp only [List.mem_append, List.mem_singleton]
        constructor
        · rintro (⟨other, inside, held⟩ | ⟨held, -⟩)
          · exact ⟨other, .inl inside, held⟩
          · exact ⟨record, .inr rfl, held⟩
        · rintro ⟨other, inside | rfl, held⟩
          · exact .inl ⟨other, inside, held⟩
          · by_cases old : ∃ record ∈ done, key ∈ record.keys
            · exact .inl old
            · exact .inr ⟨held, old⟩
    · push Not at more
      refine ⟨nodup, fun key => ?_⟩
      rw [members]
      simp only [List.mem_append, List.mem_singleton]
      constructor
      · rintro ⟨other, inside, held⟩
        exact ⟨other, .inl inside, held⟩
      · rintro ⟨other, inside | rfl, held⟩
        · exact ⟨other, inside, held⟩
        · exact (members key).mp (more.2 key held)

theorem get?_ofList_map {f : Text → Column} {keys : List Text} (key : Text) :
    (Dict.ofList (keys.map fun key => (key, f key))).get? key =
      if key ∈ keys then some (f key) else none := by
  induction keys using List.reverseRecOn with
  | nil => rfl
  | append_singleton keys last ih =>
    unfold Dict.ofList at ih ⊢
    rw [List.map_append, List.foldl_append, List.map_singleton, List.foldl_cons, List.foldl_nil,
      Dict.get?_set, ih]
    by_cases same : last = key
    · simp [same]
    · simp [same, Ne.symm same]

end BarColumns

end AutoTrade
