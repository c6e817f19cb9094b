import AutoTrade.Common.JsonLines

/-!
# The fields of a record

Records are Python dicts: read and written by key, and dumped with their keys in
order when a writer asks for `sort_keys`.
-/

namespace AutoTrade

open Json JsonLines

namespace JsonObject

/-- `record.get(key)`. -/
def field (record : JsonObject) (key : String) : Option Json := (obj record).get? key.toList

/-- `{**record, key: value}`, the order of the keys aside. -/
def setField (record : JsonObject) (key : String) (value : Json) : JsonObject :=
  record.filter (fun field => field.1 ≠ key.toList) ++ [(key.toList, value)]

/-- `{**record, **fields}`. -/
def update (record : JsonObject) (fields : List (String × Json)) : JsonObject :=
  fields.foldl (fun record field => record.setField field.1 field.2) record

/-- The record with these keys popped. -/
def without (record : JsonObject) (keys : List String) : JsonObject :=
  record.filter fun field => field.1 ∉ keys.map String.toList

/-- A dict display. -/
def ofFields (fields : List (String × Json)) : JsonObject :=
  fields.map fun field => (field.1.toList, field.2)

/-- `set(record) == keys`. -/
def hasExactly (record : JsonObject) (keys : List String) : Bool :=
  (record.all fun field => field.1 ∈ keys.map String.toList) &&
    keys.all fun key => (record.field key).isSome

/-- A string under `key`. -/
def textField (record : JsonObject) (key : String) : Option Text := (record.field key).bind text?

/-- `bool(record.get(key))`. -/
def holds (record : JsonObject) (key : String) : Bool := ((record.field key).map truthy).getD false

theorem field_nil (key : String) : field [] key = none := rfl

theorem field_cons (entry : Text × Json) (record : JsonObject) (key : String) :
    field (entry :: record) key = if entry.1 = key.toList then some entry.2 else record.field key := by
  show ((entry :: record).find? fun field => field.1 = key.toList).map Prod.snd = _
  rw [List.find?_cons]
  by_cases here : entry.1 = key.toList
  · rw [if_pos here]
    simp [here]
  · rw [if_neg here]
    simp only [here, decide_false]
    rfl

theorem field_cons_self (key : String) (value : Json) (record : JsonObject) :
    field ((key.toList, value) :: record) key = some value := by
  rw [field_cons]
  exact if_pos rfl

theorem field_cons_of_ne {key key' : String} (other : key' ≠ key) (value : Json)
    (record : JsonObject) : field ((key'.toList, value) :: record) key = record.field key := by
  rw [field_cons]
  exact if_neg fun same => other (String.toList_inj.mp same)

theorem field_append (record more : JsonObject) (key : String) :
    field (record ++ more) key = (record.field key).or (field more key) := by
  induction record with
  | nil => rfl
  | cons entry record ih =>
    rw [List.cons_append, field_cons, field_cons, ih]
    split_ifs <;> rfl

theorem field_filter (record : JsonObject) (key key' : String) :
    field (record.filter fun field => field.1 ≠ key.toList) key' =
      if key = key' then none else record.field key' := by
  have keys : key.toList = key'.toList ↔ key = key' := String.toList_inj
  induction record with
  | nil => simp [field_nil]
  | cons entry record ih =>
    rw [field_cons]
    by_cases here : entry.1 = key.toList
    · rw [List.filter_cons_of_neg (by simpa using here), ih, here]
      simp only [keys]
      split_ifs <;> rfl
    · rw [List.filter_cons_of_pos (by simpa using here), field_cons, ih]
      by_cases same : key = key'
      · subst same
        rw [if_neg here, if_pos rfl, if_pos rfl]
      · rw [if_neg same, if_neg same]

theorem field_setField (record : JsonObject) (key key' : String) (value : Json) :
    (record.setField key value).field key' =
      if key = key' then some value else record.field key' := by
  have keys : key.toList = key'.toList ↔ key = key' := String.toList_inj
  unfold setField
  rw [field_append, field_filter, field_cons]
  simp only [keys, field_nil]
  split_ifs
  · rfl
  · exact Option.or_none

theorem field_setField_self (record : JsonObject) (key : String) (value : Json) :
    (record.setField key value).field key = some value := by
  rw [field_setField, if_pos rfl]

theorem field_setField_of_ne {key key' : String} (other : key ≠ key') (record : JsonObject)
    (value : Json) : (record.setField key value).field key' = record.field key' := by
  rw [field_setField, if_neg other]

variable {key : String}

theorem field_update_of_not_mem (fields : List (String × Json))
    (other : key ∉ fields.map Prod.fst) (record : JsonObject) :
    (record.update fields).field key = record.field key := by
  induction fields generalizing record with
  | nil => rfl
  | cons entry fields ih =>
    rw [List.map_cons, List.mem_cons] at other
    push Not at other
    show ((record.setField entry.1 entry.2).update fields).field key = _
    rw [ih other.2, field_setField_of_ne other.1.symm]

theorem field_update_cons (value : Json) (fields : List (String × Json))
    (other : key ∉ fields.map Prod.fst) (record : JsonObject) :
    (record.update ((key, value) :: fields)).field key = some value := by
  show ((record.setField key value).update fields).field key = _
  rw [field_update_of_not_mem fields other, field_setField_self]

theorem field_ofFields_cons (key key' : String) (value : Json) (fields : List (String × Json)) :
    (ofFields ((key', value) :: fields)).field key =
      if key' = key then some value else (ofFields fields).field key := by
  have keys : key'.toList = key.toList ↔ key' = key := String.toList_inj
  show field ((key'.toList, value) :: ofFields fields) key = _
  rw [field_cons]
  simp only [keys]

variable {fields : List (String × Json)}

theorem isSome_field_ofFields :
    ((ofFields fields).field key).isSome = true ↔ key ∈ fields.map Prod.fst := by
  induction fields with
  | nil => simp [ofFields, field_nil]
  | cons entry fields ih =>
    obtain ⟨key', value⟩ := entry
    rw [field_ofFields_cons, List.map_cons, List.mem_cons]
    split_ifs with here
    · simp [here]
    · rw [ih]
      simp [Ne.symm here]

theorem hasExactly_ofFields {keys : List String} :
    (ofFields fields).hasExactly keys = true ↔
      (∀ key ∈ fields.map Prod.fst, key ∈ keys) ∧ ∀ key ∈ keys, key ∈ fields.map Prod.fst := by
  have named (key : String) : key.toList ∈ keys.map String.toList ↔ key ∈ keys :=
    List.mem_map_of_injective fun _ _ => String.toList_inj.mp
  unfold hasExactly ofFields
  rw [Bool.and_eq_true, List.all_eq_true, List.all_eq_true]
  constructor
  · rintro ⟨only, all⟩
    constructor
    · intro key member
      obtain ⟨field, inside, rfl⟩ := List.mem_map.mp member
      have known := only (field.1.toList, field.2) (List.mem_map.mpr ⟨field, inside, rfl⟩)
      exact (named field.1).mp (of_decide_eq_true known)
    · intro key member
      exact isSome_field_ofFields.mp (all key member)
  · rintro ⟨only, all⟩
    constructor
    · intro entry member
      obtain ⟨field, inside, rfl⟩ := List.mem_map.mp member
      apply decide_eq_true
      exact (named field.1).mpr (only field.1 (List.mem_map.mpr ⟨field, inside, rfl⟩))
    · intro key member
      exact isSome_field_ofFields.mpr (all key member)

theorem field_without (record : JsonObject) (keys : List String) (key : String) :
    (record.without keys).field key = if key ∈ keys then none else record.field key := by
  have named : key.toList ∈ keys.map String.toList ↔ key ∈ keys :=
    List.mem_map_of_injective fun _ _ => String.toList_inj.mp
  unfold without
  induction record with
  | nil => simp [field_nil]
  | cons entry record ih =>
    rw [field_cons]
    by_cases kept : entry.1 ∉ keys.map String.toList
    · rw [List.filter_cons_of_pos (by simpa using kept), field_cons, ih]
      by_cases here : entry.1 = key.toList
      · rw [here, named] at kept
        rw [if_pos here, if_pos here, if_neg kept]
      · rw [if_neg here, if_neg here]
    · rw [List.filter_cons_of_neg (by simpa using kept), ih]
      push Not at kept
      by_cases here : entry.1 = key.toList
      · rw [here, named] at kept
        rw [if_pos kept, if_pos kept]
      · rw [if_neg here]

end JsonObject

namespace Json

/-- A field put in its place among fields whose keys stand in order. -/
def insertField (field : Text × Json) (fields : JsonObject) : JsonObject :=
  fields.orderedInsert (fun a b => a.1 ≤ b.1) field

mutual

/-- The value as `sort_keys=True` writes it. -/
def sortKeys : Json → Json
  | arr items => arr (sortItems items)
  | obj fields => obj (sortFields fields)
  | v => v

def sortItems : List Json → List Json
  | [] => []
  | v :: rest => sortKeys v :: sortItems rest

def sortFields : List (Text × Json) → List (Text × Json)
  | [] => []
  | (key, v) :: rest => insertField (key, sortKeys v) (sortFields rest)

end

@[simp] theorem sortKeys_str (t : Text) : sortKeys (str t) = str t := rfl

@[simp] theorem sortKeys_obj (fields : JsonObject) : sortKeys (obj fields) = obj (sortFields fields) := rfl

theorem find?_insertField (field : Text × Json) (fields : JsonObject) (key : Text) :
    (insertField field fields).find? (fun entry => entry.1 = key) =
      if field.1 = key then some field else fields.find? fun entry => entry.1 = key := by
  unfold insertField
  induction fields with
  | nil =>
    rw [List.orderedInsert_nil, List.find?_cons]
    split_ifs with here <;> simp [here]
  | cons entry fields ih =>
    rw [List.orderedInsert_cons]
    by_cases before : field.1 ≤ entry.1
    · rw [if_pos before, List.find?_cons]
      split_ifs with here <;> simp [here]
    · rw [if_neg before, List.find?_cons, List.find?_cons, ih]
      by_cases here : entry.1 = key
      · -- an earlier key is another key
        have other : field.1 ≠ key := by
          intro same
          apply before
          rw [same, here]
        simp [here, other]
      · simp [here]

end Json

theorem perm_sortFields (record : JsonObject) :
    (sortFields record).Perm (record.map fun field => (field.1, sortKeys field.2)) := by
  induction record with
  | nil => exact List.Perm.refl _
  | cons entry record ih =>
    obtain ⟨name, value⟩ := entry
    rw [sortFields, List.map_cons]
    exact (List.perm_orderedInsert _ _ _).trans (ih.cons _)

theorem JsonObject.mem_of_field {record : JsonObject} {key : String} {value : Json}
    (held : record.field key = some value) : (key.toList, value) ∈ record := by
  induction record with
  | nil => cases held
  | cons entry record ih =>
    rw [field_cons] at held
    split_ifs at held with here
    · cases held
      rw [← here]
      exact List.mem_cons_self
    · exact List.mem_cons_of_mem entry (ih held)

theorem JsonObject.field_sortFields (record : JsonObject) (key : String) :
    field (sortFields record) key = (record.field key).map sortKeys := by
  induction record with
  | nil => rfl
  | cons entry record ih =>
    obtain ⟨name, value⟩ := entry
    rw [field_cons, sortFields]
    show ((insertField (name, sortKeys value) (sortFields record)).find?
      fun entry => entry.1 = key.toList).map Prod.snd = _
    rw [find?_insertField]
    split_ifs with here
    · rfl
    · exact ih

end AutoTrade
