import AutoTrade.Common.CodePoint
import AutoTrade.Misc.Dict

/-!
# Values of a dynamic language

What a tool's arguments, results and error details may hold, and what `json.loads(json.dumps(value,
allow_nan=False))` makes of it: keys become strings, and a value JSON has no form for is refused.
-/

namespace AutoTrade

/-- A key: a string, a number, bool or `None` as `json.dumps` writes it, or one that it refuses. -/
inductive PyKey where
  | str (text : PyStr)
  | scalar (text : PyStr)
  | other
  deriving DecidableEq

/-- A value. A float is a rational, or it is a NaN or infinite; `other` is any object that JSON has
no form for. -/
inductive PyValue where
  | null
  | bool (value : Bool)
  | int (value : Int)
  | float (value : Rat)
  | nan
  | str (value : PyStr)
  | list (items : List PyValue)
  | dict (entries : List (PyKey × PyValue))
  | other

namespace PyValue

/-- A dictionary that `json.loads` has read. -/
abbrev Entries := List (PyStr × PyValue)

/-- A literal of the source. -/
def lit (text : String) : PyStr := CodePoint.ofText text.toList

def keyText : PyKey → Option PyStr
  | .str text => some text
  | .scalar text => some text
  | .other => none

/-- Bindings set one after another: a later one with the same key takes the earlier one's place. -/
def bindings (pairs : Entries) : Entries := pairs.foldl (fun d pair => Dict.put pair.1 pair.2 d) []

mutual

/-- What a value is read back as. -/
def normalize : PyValue → Option PyValue
  | list items => (normalizeItems items).map list
  | dict entries => (normalizeEntries entries).map fun pairs =>
      dict ((bindings pairs).map fun pair => (.str pair.1, pair.2))
  | nan => none
  | other => none
  | value => some value

def normalizeItems : List PyValue → Option (List PyValue)
  | [] => some []
  | item :: rest => do
    let item ← normalize item
    let rest ← normalizeItems rest
    pure (item :: rest)

def normalizeEntries : List (PyKey × PyValue) → Option Entries
  | [] => some []
  | (key, value) :: rest => do
    let key ← keyText key
    let value ← normalize value
    let rest ← normalizeEntries rest
    pure ((key, value) :: rest)

end

/-- `_json_object`, nothing when it raises. -/
def jsonObject (entries : List (PyKey × PyValue)) : Option Entries :=
  (normalizeEntries entries).map bindings

/-- `value is None`. -/
def isNull : PyValue → Bool
  | null => true
  | _ => false

theorem normalizeEntries_append (xs ys : List (PyKey × PyValue)) :
    normalizeEntries (xs ++ ys) =
      (normalizeEntries xs).bind fun a => (normalizeEntries ys).map fun b => a ++ b := by
  induction xs with
  | nil => simp [normalizeEntries]
  | cons entry xs ih =>
    rw [List.cons_append, normalizeEntries, normalizeEntries, ih]
    cases keyText entry.1 with
    | none => rfl
    | some key =>
      cases normalize entry.2 with
      | none => rfl
      | some value =>
        cases normalizeEntries xs with
        | none => rfl
        | some a =>
          cases normalizeEntries ys with
          | none => rfl
          | some b => rfl

theorem normalizeEntries_strings (pairs : List (PyStr × PyStr)) :
    normalizeEntries (pairs.map fun pair => (.str pair.1, .str pair.2)) =
      some (pairs.map fun pair => (pair.1, .str pair.2)) := by
  induction pairs with
  | nil => simp [normalizeEntries]
  | cons pair pairs ih => simp [normalizeEntries, keyText, normalize, ih]

theorem jsonObject_append_isSome (xs ys : List (PyKey × PyValue)) :
    (jsonObject (xs ++ ys)).isSome ↔ (jsonObject xs).isSome ∧ (jsonObject ys).isSome := by
  rw [jsonObject, jsonObject, jsonObject, normalizeEntries_append]
  cases normalizeEntries xs with
  | none => simp
  | some a =>
    cases normalizeEntries ys with
    | none => simp
    | some b => simp

theorem jsonObject_dict_isSome (key : PyStr) (entries : List (PyKey × PyValue)) :
    (jsonObject [(.str key, .dict entries)]).isSome ↔ (jsonObject entries).isSome := by
  simp only [jsonObject, normalizeEntries, keyText, normalize]
  cases normalizeEntries entries with
  | none => simp
  | some a => simp

theorem jsonObject_strings_isSome (pairs : List (PyStr × PyStr)) :
    (jsonObject (pairs.map fun pair => (.str pair.1, .str pair.2))).isSome := by
  rw [jsonObject, normalizeEntries_strings]
  rfl

end PyValue

end AutoTrade
