import AutoTrade.Common.Text
import Mathlib.Data.Bool.AllAny
import Mathlib.Data.List.TakeWhile
import Mathlib.Data.Nat.Digits.Defs

/-!
# JSON texts

`json.dumps(value, ensure_ascii=False)` and `json.loads` on the texts it writes.
A value is read back, an object's text is closed by its last character (so a
torn line is not an object), and what a text holds beside its strings is plain:
inside a string the control characters are escaped, and nothing else is.
-/

namespace AutoTrade

def isNumberChar (c : Char) : Bool := c ∈ "0123456789+-.eE".toList

/-- The text of an int or a float, which names its value. -/
structure JsonNumber where
  text : Text
  filled : text ≠ []
  plain : ∀ c ∈ text, isNumberChar c = true
  deriving DecidableEq

namespace JsonNumber

def digitChar (n : Nat) : Char := "0123456789".toList.getD n '0'

def digitValue (c : Char) : Nat := c.toNat - 48

/-- The decimal digits of an int that is not negative. -/
def digitsOf (n : Nat) : Text := if n = 0 then ['0'] else ((Nat.digits 10 n).map digitChar).reverse

theorem digit_spec {n : Nat} (h : n < 10) :
    isNumberChar (digitChar n) = true ∧ digitValue (digitChar n) = n := by
  have every : ∀ n < 10, isNumberChar (digitChar n) = true ∧ digitValue (digitChar n) = n := by
    decide
  exact every n h

theorem digitsOf_spec (n : Nat) : digitsOf n ≠ [] ∧ (∀ c ∈ digitsOf n, isNumberChar c = true) ∧
    Nat.ofDigits 10 ((digitsOf n).reverse.map digitValue) = n := by
  unfold digitsOf
  split_ifs with zero
  · subst zero
    exact ⟨by decide, List.all_iff_forall_prop.mp (by decide), by decide⟩
  · have small : ∀ d ∈ Nat.digits 10 n, d < 10 := fun d member =>
      Nat.digits_lt_base (by norm_num) member
    refine ⟨by simpa using Nat.digits_ne_nil_iff_ne_zero.mpr zero, ?_, ?_⟩
    · intro c member
      obtain ⟨d, inDigits, rfl⟩ := List.mem_map.mp (List.mem_reverse.mp member)
      exact (digit_spec (small d inDigits)).1
    · have same : (Nat.digits 10 n).map (digitValue ∘ digitChar) = Nat.digits 10 n := by
        have here := List.map_congr_left (f := digitValue ∘ digitChar) (g := id)
          fun d member => (digit_spec (small d member)).2
        rw [here, List.map_id]
      rw [List.reverse_reverse, List.map_map, same, Nat.ofDigits_digits]

/-- An int that is not negative. -/
def ofNat (n : Nat) : JsonNumber := ⟨digitsOf n, (digitsOf_spec n).1, (digitsOf_spec n).2.1⟩

/-- `int(value)` of what `ofNat` wrote. -/
def toNat (n : JsonNumber) : Nat := Nat.ofDigits 10 (n.text.reverse.map digitValue)

@[simp] theorem toNat_ofNat (n : Nat) : (ofNat n).toNat = n := (digitsOf_spec n).2.2

theorem mem_ofNat {n : Nat} {c : Char} (h : c ∈ (ofNat n).text) : c ∈ "0123456789".toList := by
  have every : ∀ d < 10, digitChar d ∈ "0123456789".toList := by decide
  change c ∈ digitsOf n at h
  unfold digitsOf at h
  split_ifs at h
  · rw [List.mem_singleton.mp h]
    decide
  · obtain ⟨d, inDigits, rfl⟩ := List.mem_map.mp (List.mem_reverse.mp h)
    exact every d (Nat.digits_lt_base (by norm_num) inDigits)

end JsonNumber

/-- A JSON value. An object's fields stand in the order its writer gives them. -/
inductive Json where
  | null
  | bool (value : Bool)
  | num (value : JsonNumber)
  | str (value : Text)
  | arr (items : List Json)
  | obj (fields : List (Text × Json))

namespace Json

/-- `record.get(key)` of an object; what is not an object has no field. -/
def get? (key : Text) : Json → Option Json
  | obj fields => (fields.find? fun field => field.1 = key).map Prod.snd
  | _ => none

def text? : Json → Option Text
  | str value => some value
  | _ => none

/-- What `if value` tests. -/
def truthy : Json → Bool
  | null => false
  | bool value => value
  | num value => value.text.any fun c => c ∈ "123456789".toList
  | str value => value ≠ []
  | arr items => !items.isEmpty
  | obj fields => !fields.isEmpty

@[elab_as_elim]
theorem induct {P : Json → Prop} (null : P null) (bool : ∀ b, P (bool b)) (num : ∀ n, P (num n))
    (str : ∀ s, P (str s)) (arr : ∀ items, (∀ v ∈ items, P v) → P (arr items))
    (obj : ∀ fields, (∀ field ∈ fields, P field.2) → P (obj fields)) : ∀ v, P v
  | .null => null
  | .bool b => bool b
  | .num n => num n
  | .str s => str s
  | .arr items => arr items fun v _ => induct null bool num str arr obj v
  | .obj fields => obj fields fun field member =>
    have : sizeOf field.2 < 1 + sizeOf fields := by
      have inside := List.sizeOf_lt_of_mem member
      have whole : sizeOf field = 1 + sizeOf field.1 + sizeOf field.2 := by
        cases field
        rfl
      omega
    induct null bool num str arr obj field.2

def hexDigit (n : Nat) : Char := "0123456789abcdef".toList.getD n '0'

/-- One character inside a string. -/
def escapeChar (c : Char) : Text :=
  if c = '"' then ['\\', '"']
  else if c = '\\' then ['\\', '\\']
  else if c = '\n' then ['\\', 'n']
  else if c = '\r' then ['\\', 'r']
  else if c = '\t' then ['\\', 't']
  else if c = '\x08' then ['\\', 'b']
  else if c = '\x0c' then ['\\', 'f']
  else if c.toNat < 32 then ['\\', 'u', '0', '0', hexDigit (c.toNat / 16), hexDigit (c.toNat % 16)]
  else [c]

def dumpString (s : Text) : Text := '"' :: (s.flatMap escapeChar ++ ['"'])

mutual

/-- `json.dumps`. -/
def dumps : Json → Text
  | null => "null".toList
  | bool true => "true".toList
  | bool false => "false".toList
  | num n => n.text
  | str s => dumpString s
  | arr [] => ['[', ']']
  | arr (v :: rest) => '[' :: (dumps v ++ dumpItems rest)
  | obj [] => ['{', '}']
  | obj ((key, v) :: rest) => '{' :: (dumpString key ++ ':' :: ' ' :: (dumps v ++ dumpFields rest))

/-- The items after the first, and the bracket that closes the array. -/
def dumpItems : List Json → Text
  | [] => [']']
  | v :: rest => ',' :: ' ' :: (dumps v ++ dumpItems rest)

/-- The fields after the first, and the brace that closes the object. -/
def dumpFields : List (Text × Json) → Text
  | [] => ['}']
  | (key, v) :: rest =>
    ',' :: ' ' :: (dumpString key ++ ':' :: ' ' :: (dumps v ++ dumpFields rest))

end

/-- What a literal leaves of the text. -/
def eat : Text → Text → Option Text
  | [], t => some t
  | c :: cs, d :: t => if c = d then eat cs t else none
  | _ :: _, [] => none

def hexValue (c : Char) : Option Nat :=
  ("0123456789abcdef".toList.idxOf? c)

/-- The character a short escape stands for. -/
def unescape (c : Char) : Option Char :=
  if c = '"' then some '"'
  else if c = '\\' then some '\\'
  else if c = 'n' then some '\n'
  else if c = 'r' then some '\r'
  else if c = 't' then some '\t'
  else if c = 'b' then some '\x08'
  else if c = 'f' then some '\x0c'
  else none

/-- A string after its opening quote. -/
def readString : Text → Option (Text × Text)
  | [] => none
  | '"' :: rest => some ([], rest)
  | '\\' :: 'u' :: '0' :: '0' :: a :: b :: rest => do
    let high ← hexValue a
    let low ← hexValue b
    let (s, left) ← readString rest
    some (Char.ofNat (high * 16 + low) :: s, left)
  | '\\' :: c :: rest => do
    let d ← unescape c
    let (s, left) ← readString rest
    some (d :: s, left)
  | c :: rest => do
    if c.toNat < 32 then none
    let (s, left) ← readString rest
    some (c :: s, left)

/-- The elements of an array or an object after the first, up to the character
    that closes it; every element takes characters off the text. -/
def readRest {α : Type} (element : Text → Option (α × Text)) (close : Char) :
    Nat → Text → Option (List α × Text)
  | 0, _ => none
  | fuel + 1, t =>
    match t with
    | ',' :: ' ' :: rest => do
      let (a, t) ← element rest
      let (as, t) ← readRest element close fuel t
      some (a :: as, t)
    | c :: rest => if c = close then some ([], rest) else none
    | [] => none

/-- The elements of an array or an object after the bracket that opens it. -/
def readElements {α : Type} (element : Text → Option (α × Text)) (close : Char) (t : Text) :
    Option (List α × Text) :=
  if t.head? = some close then some ([], t.tail)
  else do
    let (a, t) ← element t
    let (as, t) ← readRest element close t.length t
    some (a :: as, t)

def readField (value : Text → Option (Json × Text)) (t : Text) :
    Option ((Text × Json) × Text) := do
  let t ← eat ['"'] t
  let (key, t) ← readString t
  let t ← eat [':', ' '] t
  let (v, t) ← value t
  some ((key, v), t)

def readNumber (t : Text) : Option (JsonNumber × Text) :=
  if filled : t.takeWhile isNumberChar ≠ [] then
    some (⟨t.takeWhile isNumberChar, filled, fun _ => List.mem_takeWhile_imp⟩,
      t.dropWhile isNumberChar)
  else none

/-- A value at the front of a text, at most `fuel` deep. -/
def readValue : Nat → Text → Option (Json × Text)
  | 0, _ => none
  | _, [] => none
  | fuel + 1, c :: rest =>
    if c = '"' then (readString rest).map fun s => (str s.1, s.2)
    else if c = 'n' then (eat "ull".toList rest).map fun left => (null, left)
    else if c = 't' then (eat "rue".toList rest).map fun left => (bool true, left)
    else if c = 'f' then (eat "alse".toList rest).map fun left => (bool false, left)
    else if c = '[' then
      (readElements (readValue fuel) ']' rest).map fun items => (arr items.1, items.2)
    else if c = '{' then
      (readElements (readField (readValue fuel)) '}' rest).map fun fields => (obj fields.1, fields.2)
    else (readNumber (c :: rest)).map fun n => (num n.1, n.2)

/-- `json.loads` of what `dumps` writes. -/
def loads (t : Text) : Option Json :=
  match readValue t.length t with
  | some (value, []) => some value
  | _ => none

/-- What follows a value does not go on with its number. -/
def Stops (rest : Text) : Prop := ∀ c ∈ rest.head?, isNumberChar c = false

theorem Stops.cons {c : Char} (plain : isNumberChar c = false) (rest : Text) :
    Stops (c :: rest) := by
  intro d first
  obtain rfl : c = d := by simpa using first
  exact plain

theorem hexValue_hexDigit {n : Nat} (h : n < 16) : hexValue (hexDigit n) = some n := by
  have every : ∀ n < 16, hexValue (hexDigit n) = some n := by decide
  exact every n h

theorem readString_escape (c : Char) (rest : Text) :
    readString (escapeChar c ++ rest) = (readString rest).map fun s => (c :: s.1, s.2) := by
  have ofMap : ∀ x : Option (Text × Text), (x.bind fun s => some (c :: s.1, s.2)) =
      x.map fun s => (c :: s.1, s.2) := fun x => by cases x <;> rfl
  unfold escapeChar
  split_ifs with quote slash newline carriage tab backspace feed control
  · subst quote
    simp [readString, unescape, ofMap]
  · subst slash
    simp [readString, unescape, ofMap]
  · subst newline
    simp [readString, unescape, ofMap]
  · subst carriage
    simp [readString, unescape, ofMap]
  · subst tab
    simp [readString, unescape, ofMap]
  · subst backspace
    simp [readString, unescape, ofMap]
  · subst feed
    simp [readString, unescape, ofMap]
  · have high := hexValue_hexDigit (n := c.toNat / 16) (by omega)
    have low := hexValue_hexDigit (n := c.toNat % 16) (by omega)
    have whole : c.toNat / 16 * 16 + c.toNat % 16 = c.toNat := by omega
    simp [readString, high, low, whole, Char.ofNat_toNat, ofMap]
  · rw [List.singleton_append, readString]
    · simp [control, ofMap]
    · intro absurd
      exact quote absurd
    · intro a b rest' absurd
      exact (slash absurd).elim
    · intro d rest' absurd
      exact (slash absurd).elim

theorem readString_dumpString (s rest : Text) :
    readString (s.flatMap escapeChar ++ '"' :: rest) = some (s, rest) := by
  induction s with
  | nil => rfl
  | cons c s ih =>
    rw [List.flatMap_cons, List.append_assoc, readString_escape, ih]
    rfl

theorem readNumber_text (n : JsonNumber) {rest : Text} (stops : Stops rest) :
    readNumber (n.text ++ rest) = some (n, rest) := by
  have taken : (n.text ++ rest).takeWhile isNumberChar = n.text := by
    rw [List.takeWhile_append_of_pos n.plain]
    cases rest with
    | nil => simp
    | cons c rest =>
      rw [List.takeWhile_cons_of_neg (by simp [stops c rfl]), List.append_nil]
  have left : (n.text ++ rest).dropWhile isNumberChar = rest := by
    rw [List.dropWhile_append_of_pos n.plain]
    cases rest with
    | nil => rfl
    | cons c rest => rw [List.dropWhile_cons_of_neg (by simp [stops c rfl])]
  unfold readNumber
  rw [dif_pos (by rw [taken]; exact n.filled)]
  simp only [taken, left]

/-- What `readRest` reads, for elements of any kind. -/
def dumpRest {α : Type} (write : α → Text) (close : Char) : List α → Text
  | [] => [close]
  | a :: as => ',' :: ' ' :: (write a ++ dumpRest write close as)

theorem length_lt_dumpRest {α : Type} (write : α → Text) (close : Char) (as : List α) :
    as.length < (dumpRest write close as).length := by
  induction as with
  | nil => exact Nat.zero_lt_one
  | cons a as ih =>
    simp only [List.length_cons, dumpRest, List.length_append]
    omega

theorem stops_dumpRest {α : Type} (write : α → Text) {close : Char}
    (plain : isNumberChar close = false) (as : List α) (rest : Text) :
    Stops (dumpRest write close as ++ rest) := by
  cases as with
  | nil => exact Stops.cons plain rest
  | cons a as => exact Stops.cons (by decide) _

section

variable {α : Type} (element : Text → Option (α × Text)) (write : α → Text) {close : Char}
  {bound : Nat}

theorem readRest_dumpRest {as : List α}
    (reads : ∀ a ∈ as, ∀ rest, Stops rest → (write a ++ rest).length ≤ bound →
      element (write a ++ rest) = some (a, rest))
    (plain : isNumberChar close = false) (other : close ≠ ',') (rest : Text) {fuel : Nat}
    (enough : as.length < fuel) (short : (dumpRest write close as ++ rest).length ≤ bound) :
    readRest element close fuel (dumpRest write close as ++ rest) = some (as, rest) := by
  induction as generalizing fuel with
  | nil =>
    obtain ⟨fuel, rfl⟩ : ∃ n, fuel = n + 1 := ⟨fuel - 1, by omega⟩
    show readRest element close (fuel + 1) (close :: rest) = _
    rw [readRest]
    · rw [if_pos rfl]
    · intro rest' comma
      exact absurd comma other
  | cons a as ih =>
    obtain ⟨fuel, rfl⟩ : ∃ n, fuel = n + 1 := ⟨fuel - 1, by omega⟩
    have text : dumpRest write close (a :: as) ++ rest =
        ',' :: ' ' :: (write a ++ (dumpRest write close as ++ rest)) := by
      simp [dumpRest]
    have bounded : (write a ++ (dumpRest write close as ++ rest)).length + 2 ≤ bound := by
      rw [text] at short
      exact short
    have first := reads a List.mem_cons_self (dumpRest write close as ++ rest)
      (stops_dumpRest write plain as rest) (by omega)
    have enough' : as.length < fuel := by
      rw [List.length_cons] at enough
      omega
    have later := ih (fun b member => reads b (List.mem_cons_of_mem a member)) enough' (by
      rw [List.length_append] at bounded
      omega)
    rw [text, readRest, first]
    simp only [Option.bind_eq_bind, Option.bind_some, later]

theorem readElements_cons {a : α} {as : List α}
    (reads : ∀ b ∈ a :: as, ∀ rest, Stops rest → (write b ++ rest).length ≤ bound →
      element (write b ++ rest) = some (b, rest))
    (plain : isNumberChar close = false) (other : close ≠ ',') (rest : Text)
    (opens : (write a ++ (dumpRest write close as ++ rest)).head? ≠ some close)
    (short : (write a ++ (dumpRest write close as ++ rest)).length ≤ bound) :
    readElements element close (write a ++ (dumpRest write close as ++ rest)) =
      some (a :: as, rest) := by
  have first := reads a List.mem_cons_self (dumpRest write close as ++ rest)
    (stops_dumpRest write plain as rest) short
  have enough : as.length < (dumpRest write close as ++ rest).length := by
    have := length_lt_dumpRest write close as
    rw [List.length_append]
    omega
  have later := readRest_dumpRest element write (fun b member => reads b (List.mem_cons_of_mem a member))
    plain other rest enough (by
      rw [List.length_append] at short
      omega)
  unfold readElements
  rw [if_neg opens, first]
  simp only [Option.bind_eq_bind, Option.bind_some, later]

end

theorem dumpItems_eq (items : List Json) : dumpItems items = dumpRest dumps ']' items := by
  induction items with
  | nil => rfl
  | cons v items ih => rw [dumpItems, dumpRest, ih]

def dumpField (field : Text × Json) : Text := dumpString field.1 ++ ':' :: ' ' :: dumps field.2

theorem dumpFields_eq (fields : List (Text × Json)) :
    dumpFields fields = dumpRest dumpField '}' fields := by
  induction fields with
  | nil => rfl
  | cons field fields ih =>
    obtain ⟨key, v⟩ := field
    rw [dumpFields, dumpRest, ih]
    simp [dumpField]

theorem dumps_head (v : Json) (rest : Text) :
    (dumps v ++ rest).head? ≠ some ']' ∧ (dumps v ++ rest).head? ≠ some '}' := by
  cases v with
  | null => simp [dumps]
  | bool b => cases b <;> simp [dumps]
  | str s => simp [dumps, dumpString]
  | arr items => cases items <;> simp [dumps]
  | obj fields => cases fields <;> simp [dumps]
  | num n =>
    obtain ⟨text, filled, plain⟩ := n
    cases text with
    | nil => exact absurd rfl filled
    | cons c text =>
      have digit := plain c List.mem_cons_self
      constructor <;> intro bracket <;> obtain rfl : c = _ := by simpa [dumps] using bracket
      all_goals exact absurd digit (by decide)

theorem readField_dumpField {bound : Nat} {value : Text → Option (Json × Text)}
    {field : Text × Json} {rest : Text}
    (reads : (dumps field.2 ++ rest).length ≤ bound →
      value (dumps field.2 ++ rest) = some (field.2, rest))
    (short : (dumpField field ++ rest).length ≤ bound) :
    readField value (dumpField field ++ rest) = some (field, rest) := by
  obtain ⟨key, v⟩ := field
  have text : dumpField (key, v) ++ rest =
      '"' :: (key.flatMap escapeChar ++ '"' :: (':' :: ' ' :: (dumps v ++ rest))) := by
    simp [dumpField, dumpString]
  have short' : (dumps v ++ rest).length ≤ bound := by
    rw [text] at short
    simp only [List.length_cons, List.length_append] at short ⊢
    omega
  unfold readField
  rw [text]
  simp only [eat, if_true, Option.bind_eq_bind, Option.bind_some, readString_dumpString,
    reads short']

theorem readValue_dumps (v : Json) : ∀ (fuel : Nat) (rest : Text), Stops rest →
    (dumps v ++ rest).length ≤ fuel → readValue fuel (dumps v ++ rest) = some (v, rest) := by
  induction v using induct with
  | null =>
    intro fuel rest stops short
    cases fuel with
    | zero => simp [dumps] at short
    | succ fuel => simp [dumps, readValue, eat]
  | bool b =>
    intro fuel rest stops short
    cases fuel with
    | zero => cases b <;> simp [dumps] at short
    | succ fuel => cases b <;> simp [dumps, readValue, eat]
  | str s =>
    intro fuel rest stops short
    cases fuel with
    | zero => simp [dumps, dumpString] at short
    | succ fuel =>
      show readValue (fuel + 1) ('"' :: (s.flatMap escapeChar ++ ['"'] ++ rest)) = _
      rw [List.append_assoc, List.singleton_append, readValue, if_pos rfl, readString_dumpString]
      rfl
  | num n =>
    intro fuel rest stops short
    have read := readNumber_text n stops
    have digits := n.plain
    show readValue fuel (n.text ++ rest) = _
    cases text : n.text with
    | nil => exact absurd text n.filled
    | cons d tail =>
      have digit : isNumberChar d = true := digits d (by rw [text]; exact List.mem_cons_self)
      have plain : d ≠ '"' ∧ d ≠ 'n' ∧ d ≠ 't' ∧ d ≠ 'f' ∧ d ≠ '[' ∧ d ≠ '{' := by
        refine ⟨?_, ?_, ?_, ?_, ?_, ?_⟩ <;> rintro rfl <;> exact absurd digit (by decide)
      obtain ⟨quote, n', t, f, bracket, brace⟩ := plain
      rw [text, List.cons_append] at read
      cases fuel with
      | zero => simp [dumps, text] at short
      | succ fuel =>
        rw [List.cons_append, readValue, if_neg quote, if_neg n', if_neg t, if_neg f,
          if_neg bracket, if_neg brace, read]
        rfl
  | arr items ih =>
    intro fuel rest stops short
    cases fuel with
    | zero => cases items <;> simp [dumps] at short
    | succ fuel =>
      cases items with
      | nil => simp [dumps, readValue, readElements]
      | cons v items =>
        have text : dumps (arr (v :: items)) ++ rest =
            '[' :: (dumps v ++ (dumpRest dumps ']' items ++ rest)) := by
          simp [dumps, dumpItems_eq]
        rw [text] at short ⊢
        have elements := readElements_cons (readValue fuel) dumps
          (fun b member rest stops short => ih b member fuel rest stops short) (by decide)
          (by decide) rest (dumps_head v _).1 (by simpa using short)
        simp [readValue, elements]
  | obj fields ih =>
    intro fuel rest stops short
    cases fuel with
    | zero => cases fields <;> simp [dumps] at short
    | succ fuel =>
      cases fields with
      | nil => simp [dumps, readValue, readElements]
      | cons field fields =>
        have text : dumps (obj (field :: fields)) ++ rest =
            '{' :: (dumpField field ++ (dumpRest dumpField '}' fields ++ rest)) := by
          obtain ⟨key, v⟩ := field
          simp [dumps, dumpFields_eq, dumpField]
        rw [text] at short ⊢
        have opens : (dumpField field ++ (dumpRest dumpField '}' fields ++ rest)).head? ≠
            some '}' := by
          simp [dumpField, dumpString]
        have elements := readElements_cons (readField (readValue fuel)) dumpField
          (fun b member rest stops short =>
            readField_dumpField (fun short' => ih b member fuel rest stops short') short)
          (by decide) (by decide) rest opens (by simpa using short)
        simp [readValue, elements]

theorem loads_dumps (v : Json) : loads (dumps v) = some v := by
  have read := readValue_dumps v (dumps v).length [] (by simp [Stops]) (by simp)
  rw [List.append_nil] at read
  unfold loads
  rw [read]

theorem dumps_injective {v w : Json} (h : dumps v = dumps w) : v = w := by
  have same := congrArg loads h
  rw [loads_dumps, loads_dumps] at same
  exact Option.some.inj same

instance : DecidableEq Json := fun v w =>
  decidable_of_iff (dumps v = dumps w) ⟨dumps_injective, fun same => by rw [same]⟩

theorem eat_extend {literal x left : Text} (h : eat literal x = some left) (y : Text) :
    eat literal (x ++ y) = some (left ++ y) := by
  induction literal generalizing x with
  | nil =>
    obtain rfl : x = left := by cases x <;> simpa [eat] using h
    cases x <;> cases y <;> rfl
  | cons c literal ih =>
    cases x with
    | nil => cases h
    | cons d x =>
      rw [eat] at h
      split_ifs at h with same
      rw [List.cons_append, eat, if_pos same]
      exact ih h

theorem readString_extend {x s left : Text} (h : readString x = some (s, left)) (y : Text) :
    readString (x ++ y) = some (s, left ++ y) := by
  induction x using readString.induct generalizing s with
  | case1 => cases h
  | case2 rest =>
    obtain ⟨rfl, rfl⟩ : [] = s ∧ rest = left := by simpa [readString] using h
    rfl
  | case3 a b rest ih =>
    simp only [readString, Option.bind_eq_bind, Option.bind_eq_some_iff] at h
    obtain ⟨high, first, low, second, ⟨s', left'⟩, read, same⟩ := h
    simp only [Option.some.injEq, Prod.mk.injEq] at same
    obtain ⟨rfl, rfl⟩ := same
    simp only [List.cons_append, readString, first, second, ih read, Option.bind_eq_bind,
      Option.bind_some]
  | case4 c rest notHex ih =>
    rw [readString] at h
    · simp only [Option.bind_eq_bind, Option.bind_eq_some_iff] at h
      obtain ⟨d, short, ⟨s', left'⟩, read, same⟩ := h
      simp only [Option.some.injEq, Prod.mk.injEq] at same
      obtain ⟨rfl, rfl⟩ := same
      have noShort : unescape 'u' = none := by decide
      have other : c ≠ 'u' := by
        intro hex
        rw [hex, noShort] at short
        cases short
      rw [List.cons_append, List.cons_append, readString]
      · simp only [short, ih read, Option.bind_eq_bind, Option.bind_some]
      · intro a b rest' hex
        exact absurd hex other
    · exact notHex
  | case5 c rest notQuote notHex notEscape control =>
    rw [readString] at h
    · simp [control] at h
    · exact notQuote
    · exact notHex
    · exact notEscape
  | case6 c rest notQuote notHex notEscape printable ih =>
    rw [readString] at h
    · simp only [if_neg printable, Option.bind_eq_bind, Option.bind_eq_some_iff] at h
      obtain ⟨⟨s', left'⟩, read, same⟩ := h
      simp only [Option.some.injEq, Prod.mk.injEq] at same
      obtain ⟨rfl, rfl⟩ := same
      have more : rest ≠ [] := by
        rintro rfl
        cases read
      have plain : c ≠ '\\' := by
        rintro rfl
        cases rest with
        | nil => exact more rfl
        | cons d rest => exact notEscape d rest rfl rfl
      rw [List.cons_append, readString]
      · simp only [if_neg printable, ih read, Option.bind_eq_bind, Option.bind_some]
      · exact notQuote
      · intro a b rest' slash
        exact absurd slash plain
      · intro d rest' slash
        exact absurd slash plain
    · exact notQuote
    · exact notHex
    · exact notEscape

theorem readNumber_extend {x left : Text} {n : JsonNumber} (h : readNumber x = some (n, left))
    (more : left ≠ []) (y : Text) : readNumber (x ++ y) = some (n, left ++ y) := by
  unfold readNumber at h
  split_ifs at h with filled
  simp only [Option.some.injEq, Prod.mk.injEq] at h
  obtain ⟨rfl, rest⟩ := h
  have stops : x.dropWhile isNumberChar ≠ [] := rest ▸ more
  have short : (x.takeWhile isNumberChar).length ≠ x.length := by
    intro whole
    have parts :=
      congrArg List.length (List.takeWhile_append_dropWhile (p := isNumberChar) (l := x))
    rw [List.length_append] at parts
    exact stops (List.length_eq_zero_iff.mp (by omega))
  have taken : (x ++ y).takeWhile isNumberChar = x.takeWhile isNumberChar := by
    rw [List.takeWhile_append, if_neg short]
  have dropped : (x ++ y).dropWhile isNumberChar = x.dropWhile isNumberChar ++ y := by
    rw [List.dropWhile_append, if_neg]
    simpa using stops
  unfold readNumber
  rw [dif_pos (by rw [taken]; exact filled)]
  simp only [taken, dropped, rest]

section

variable {α : Type} {element longer : Text → Option (α × Text)} {close : Char} {y : Text}

theorem readRest_extend (other : close ≠ ',')
    (extends_ : ∀ x a left, element x = some (a, left) → left ≠ [] →
      longer (x ++ y) = some (a, left ++ y))
    {fuel more : Nat} (grows : fuel ≤ more) {x left : Text} {as : List α}
    (h : readRest element close fuel x = some (as, left)) :
    readRest longer close more (x ++ y) = some (as, left ++ y) := by
  induction fuel generalizing more x as with
  | zero => cases h
  | succ fuel ih =>
    obtain ⟨more, rfl⟩ : ∃ n, more = n + 1 := ⟨more - 1, by omega⟩
    unfold readRest at h
    split at h
    · rename_i rest
      simp only [Option.bind_eq_bind, Option.bind_eq_some_iff] at h
      obtain ⟨⟨a, t⟩, first, ⟨as', left'⟩, later, same⟩ := h
      simp only [Option.some.injEq, Prod.mk.injEq] at same
      obtain ⟨rfl, rfl⟩ := same
      dsimp only at later
      have filled : t ≠ [] := by
        intro empty
        rw [empty] at later
        cases fuel <;> cases later
      have grows' : fuel ≤ more := by omega
      have extended := ih grows' later
      simp only [List.cons_append, readRest, extends_ rest a t first filled,
        Option.bind_eq_bind, Option.bind_some, extended]
    · rename_i c rest notComma
      split_ifs at h with closes
      obtain ⟨rfl, rfl⟩ : [] = as ∧ rest = left := by simpa using h
      rw [List.cons_append, readRest]
      · exact if_pos closes
      · intro rest' comma
        exact absurd (closes ▸ comma) other
    · cases h

theorem readElements_extend (other : close ≠ ',')
    (extends_ : ∀ x a left, element x = some (a, left) → left ≠ [] →
      longer (x ++ y) = some (a, left ++ y)) (empty : element [] = none)
    {x left : Text} {as : List α} (h : readElements element close x = some (as, left)) :
    readElements longer close (x ++ y) = some (as, left ++ y) := by
  cases x with
  | nil => simp [readElements, empty] at h
  | cons c x =>
    unfold readElements at h ⊢
    have first : (c :: x ++ y).head? = (c :: x).head? := rfl
    rw [first]
    split_ifs at h ⊢ with closes
    · obtain ⟨rfl, rfl⟩ := Prod.mk.inj (Option.some.inj h)
      rfl
    · simp only [Option.bind_eq_bind, Option.bind_eq_some_iff] at h
      obtain ⟨⟨a, t⟩, read, ⟨as', left'⟩, later, same⟩ := h
      simp only [Option.some.injEq, Prod.mk.injEq] at same
      obtain ⟨rfl, rfl⟩ := same
      dsimp only at later
      have filled : t ≠ [] := by
        intro empty
        rw [empty] at later
        cases later
      have longer' : t.length ≤ (t ++ y).length := by simp
      simp only [extends_ (c :: x) a t read filled, Option.bind_eq_bind, Option.bind_some,
        readRest_extend other extends_ longer' later]

end

theorem readField_extend {value longer : Text → Option (Json × Text)} {y : Text}
    (extends_ : ∀ x v left, value x = some (v, left) → left ≠ [] →
      longer (x ++ y) = some (v, left ++ y))
    {x left : Text} {field : Text × Json} (h : readField value x = some (field, left))
    (more : left ≠ []) : readField longer (x ++ y) = some (field, left ++ y) := by
  simp only [readField, Option.bind_eq_bind, Option.bind_eq_some_iff] at h
  obtain ⟨a, opened, ⟨key, b⟩, named, c, colon, ⟨v, d⟩, valued, same⟩ := h
  simp only [Option.some.injEq, Prod.mk.injEq] at same
  obtain ⟨rfl, rfl⟩ := same
  simp only [readField, Option.bind_eq_bind, eat_extend opened, Option.bind_some,
    readString_extend named, eat_extend colon, extends_ c v d valued more]

theorem readValue_nil (fuel : Nat) : readValue fuel [] = none := by
  cases fuel <;> rfl

theorem readValue_extend {fuel more : Nat} (grows : fuel ≤ more) {x left : Text} {v : Json}
    (h : readValue fuel x = some (v, left)) (closed : left ≠ [] ∨ ∀ n, v ≠ num n) (y : Text) :
    readValue more (x ++ y) = some (v, left ++ y) := by
  induction fuel generalizing more x left v with
  | zero => cases h
  | succ fuel ih =>
    obtain ⟨more, rfl⟩ : ∃ n, more = n + 1 := ⟨more - 1, by omega⟩
    have grows' : fuel ≤ more := by omega
    have inner : ∀ x v left, readValue fuel x = some (v, left) → left ≠ [] →
        readValue more (x ++ y) = some (v, left ++ y) := fun x v left read filled =>
      ih grows' read (.inl filled)
    cases x with
    | nil => cases h
    | cons c rest =>
      rw [readValue] at h
      rw [List.cons_append, readValue]
      split_ifs at h ⊢ with quote n t f bracket brace
      · obtain ⟨⟨s, left'⟩, read, same⟩ := Option.map_eq_some_iff.mp h
        obtain ⟨rfl, rfl⟩ := Prod.mk.inj same
        rw [readString_extend read]
        rfl
      · obtain ⟨left', read, same⟩ := Option.map_eq_some_iff.mp h
        obtain ⟨rfl, rfl⟩ := Prod.mk.inj same
        rw [eat_extend read]
        rfl
      · obtain ⟨left', read, same⟩ := Option.map_eq_some_iff.mp h
        obtain ⟨rfl, rfl⟩ := Prod.mk.inj same
        rw [eat_extend read]
        rfl
      · obtain ⟨left', read, same⟩ := Option.map_eq_some_iff.mp h
        obtain ⟨rfl, rfl⟩ := Prod.mk.inj same
        rw [eat_extend read]
        rfl
      · obtain ⟨⟨items, left'⟩, read, same⟩ := Option.map_eq_some_iff.mp h
        obtain ⟨rfl, rfl⟩ := Prod.mk.inj same
        rw [readElements_extend (by decide) inner (readValue_nil fuel) read]
        rfl
      · obtain ⟨⟨fields, left'⟩, read, same⟩ := Option.map_eq_some_iff.mp h
        obtain ⟨rfl, rfl⟩ := Prod.mk.inj same
        have fieldwise : ∀ x field left, readField (readValue fuel) x = some (field, left) →
            left ≠ [] → readField (readValue more) (x ++ y) = some (field, left ++ y) :=
          fun x field left read filled => readField_extend inner read filled
        rw [readElements_extend (by decide) fieldwise rfl read]
        rfl
      · obtain ⟨⟨n', left'⟩, read, same⟩ := Option.map_eq_some_iff.mp h
        obtain ⟨rfl, rfl⟩ := Prod.mk.inj same
        have filled : left' ≠ [] := closed.resolve_right fun notNumber => notNumber n' rfl
        have extended := readNumber_extend read filled y
        rw [List.cons_append] at extended
        rw [extended]
        rfl

theorem loads_cut {v : Json} (notNumber : ∀ n, v ≠ num n) {x y : Text} (cut : y ≠ [])
    (h : loads x = some v) : loads (x ++ y) = none := by
  unfold loads at h ⊢
  split at h
  · rename_i value read
    obtain rfl : value = v := by simpa using h
    have longer : x.length ≤ (x ++ y).length := by simp
    rw [readValue_extend longer read (.inr notNumber) y]
    cases y with
    | nil => exact absurd rfl cut
    | cons c y => rfl
  · cases h

theorem loads_brace {x : Text} {v : Json} (h : loads ('{' :: x) = some v) :
    ∃ fields, v = obj fields := by
  unfold loads at h
  split at h
  · rename_i value read
    obtain rfl : value = v := by simpa using h
    rw [List.length_cons, readValue, if_neg (by decide), if_neg (by decide), if_neg (by decide),
      if_neg (by decide), if_neg (by decide), if_pos rfl] at read
    obtain ⟨fields, -, same⟩ := Option.map_eq_some_iff.mp read
    exact ⟨fields.1, (Prod.mk.inj same).1.symm⟩
  · cases h

theorem dumps_obj (fields : List (Text × Json)) : ∃ body, dumps (obj fields) = '{' :: (body ++ ['}']) := by
  cases fields with
  | nil => exact ⟨[], rfl⟩
  | cons field fields =>
    have closes : ∃ body, dumpFields fields = body ++ ['}'] := by
      induction fields with
      | nil => exact ⟨[], rfl⟩
      | cons next fields ih =>
        obtain ⟨body, text⟩ := ih
        obtain ⟨key, v⟩ := next
        refine ⟨',' :: ' ' :: (dumpString key ++ ':' :: ' ' :: (dumps v ++ body)), ?_⟩
        simp [dumpFields, text]
    obtain ⟨body, text⟩ := closes
    obtain ⟨key, v⟩ := field
    refine ⟨dumpString key ++ ':' :: ' ' :: (dumps v ++ body), ?_⟩
    simp [dumps, text]

theorem loads_short {fields : List (Text × Json)} {x y : Text}
    (text : dumps (obj fields) = x ++ y) (cut : y ≠ []) : loads x = none := by
  cases read : loads x with
  | none => rfl
  | some v =>
    have notNumber : ∀ n, v ≠ num n := by
      cases x with
      | nil => cases read
      | cons c x =>
        obtain ⟨body, opened⟩ := dumps_obj fields
        rw [opened, List.cons_append] at text
        obtain ⟨rfl, -⟩ := List.cons.inj text
        obtain ⟨fields', rfl⟩ := loads_brace read
        intro n number
        cases number
    have whole := loads_dumps (obj fields)
    rw [text, loads_cut notNumber cut read] at whole
    cases whole

mutual

/-- The strings of a value, its keys among them. -/
def strings : Json → List Text
  | str s => [s]
  | arr items => stringsOfItems items
  | obj fields => stringsOfFields fields
  | _ => []

def stringsOfItems : List Json → List Text
  | [] => []
  | v :: rest => strings v ++ stringsOfItems rest

def stringsOfFields : List (Text × Json) → List Text
  | [] => []
  | (key, v) :: rest => key :: (strings v ++ stringsOfFields rest)

end

theorem mem_stringsOfItems {s : Text} {items : List Json} :
    s ∈ stringsOfItems items ↔ ∃ v ∈ items, s ∈ strings v := by
  induction items with
  | nil => simp [stringsOfItems]
  | cons v items ih => simp [stringsOfItems, ih]

theorem mem_stringsOfFields {s : Text} {fields : List (Text × Json)} :
    s ∈ stringsOfFields fields ↔ ∃ field ∈ fields, s = field.1 ∨ s ∈ strings field.2 := by
  induction fields with
  | nil => simp [stringsOfFields]
  | cons field fields ih =>
    obtain ⟨key, v⟩ := field
    simp [stringsOfFields, ih, or_assoc]

/-- A printable character of ASCII. -/
def Printable (c : Char) : Prop := 32 ≤ c.toNat ∧ c.toNat ≤ 127

instance (c : Char) : Decidable (Printable c) := inferInstanceAs (Decidable (_ ∧ _))

theorem printable_hexDigit {n : Nat} (h : n < 16) : Printable (hexDigit n) := by
  have every : ∀ n < 16, Printable (hexDigit n) := by decide
  exact every n h

theorem printable_numberChar {c : Char} (h : isNumberChar c = true) : Printable c := by
  have every : ∀ c ∈ "0123456789+-.eE".toList, Printable c :=
    List.all_iff_forall_prop.mp (by decide)
  exact every c (by simpa [isNumberChar] using h)

theorem mem_escapeChar {c d : Char} (h : d ∈ escapeChar c) :
    Printable d ∨ d = c ∧ 32 ≤ c.toNat := by
  unfold escapeChar at h
  split_ifs at h with quote slash newline carriage tab backspace feed control
  all_goals simp only [List.mem_cons, List.not_mem_nil, or_false] at h
  · rcases h with rfl | rfl <;> exact .inl (by decide)
  · rcases h with rfl | rfl <;> exact .inl (by decide)
  · rcases h with rfl | rfl <;> exact .inl (by decide)
  · rcases h with rfl | rfl <;> exact .inl (by decide)
  · rcases h with rfl | rfl <;> exact .inl (by decide)
  · rcases h with rfl | rfl <;> exact .inl (by decide)
  · rcases h with rfl | rfl <;> exact .inl (by decide)
  · left
    rcases h with rfl | rfl | rfl | rfl | rfl | rfl
    · decide
    · decide
    · decide
    · decide
    · exact printable_hexDigit (by omega)
    · exact printable_hexDigit (by omega)
  · exact .inr ⟨h, by omega⟩

theorem escapeChar_raw {c : Char} (raw : 127 < c.toNat) : escapeChar c = [c] := by
  have other : ∀ d : Char, d.toNat ≤ 127 → c ≠ d := by
    rintro d ascii rfl
    omega
  unfold escapeChar
  rw [if_neg (other _ (by decide)), if_neg (other _ (by decide)), if_neg (other _ (by decide)),
    if_neg (other _ (by decide)), if_neg (other _ (by decide)), if_neg (other _ (by decide)),
    if_neg (other _ (by decide)), if_neg (by omega)]

theorem mem_dumpString {s : Text} {c : Char} (h : c ∈ dumpString s) :
    Printable c ∨ c ∈ s ∧ 32 ≤ c.toNat := by
  simp only [dumpString, List.mem_cons, List.mem_append, List.mem_flatMap, List.not_mem_nil,
    or_false] at h
  rcases h with rfl | ⟨d, inside, written⟩ | rfl
  · left
    decide
  · rcases mem_escapeChar written with plain | ⟨rfl, visible⟩
    · exact .inl plain
    · exact .inr ⟨inside, visible⟩
  · left
    decide

theorem raw_mem_dumpString {s : Text} {c : Char} (raw : 127 < c.toNat) (h : c ∈ s) :
    c ∈ dumpString s := by
  simp only [dumpString, List.mem_cons, List.mem_append, List.mem_flatMap]
  refine .inr (.inl ⟨c, h, ?_⟩)
  rw [escapeChar_raw raw]
  exact List.mem_singleton_self c

theorem mem_dumpRest {α : Type} {write : α → Text} {close c : Char} {as : List α} :
    c ∈ dumpRest write close as ↔
      c = close ∨ as ≠ [] ∧ (c = ',' ∨ c = ' ') ∨ ∃ a ∈ as, c ∈ write a := by
  induction as with
  | nil => simp [dumpRest]
  | cons a as ih =>
    simp only [dumpRest, List.mem_cons, List.mem_append, ih]
    constructor
    · rintro (rfl | rfl | here | rfl | ⟨-, rfl | rfl⟩ | ⟨b, inside, written⟩)
      all_goals simp_all
      exact .inr (.inr (.inr ⟨b, inside, written⟩))
    · rintro (rfl | ⟨-, rfl | rfl⟩ | ⟨b, rfl | inside, written⟩)
      all_goals simp_all
      exact .inr (.inr (.inr (.inr (.inr ⟨b, inside, written⟩))))

theorem mem_dumpField {field : Text × Json} {c : Char} :
    c ∈ dumpField field ↔ c ∈ dumpString field.1 ∨ c = ':' ∨ c = ' ' ∨ c ∈ dumps field.2 := by
  simp [dumpField]

theorem dumps_arr_cons (v : Json) (items : List Json) :
    dumps (arr (v :: items)) = '[' :: (dumps v ++ dumpRest dumps ']' items) := by
  rw [dumps, dumpItems_eq]

theorem dumps_obj_cons (field : Text × Json) (fields : List (Text × Json)) :
    dumps (obj (field :: fields)) = '{' :: (dumpField field ++ dumpRest dumpField '}' fields) := by
  obtain ⟨key, v⟩ := field
  simp [dumps, dumpFields_eq, dumpField]

theorem mem_dumps {v : Json} {c : Char} (h : c ∈ dumps v) :
    Printable c ∨ 32 ≤ c.toNat ∧ ∃ s ∈ strings v, c ∈ s := by
  induction v using induct with
  | null =>
    have every : ∀ c ∈ dumps null, Printable c := List.all_iff_forall_prop.mp (by decide)
    exact .inl (every c h)
  | bool b =>
    have every : ∀ c ∈ dumps (bool b), Printable c := by
      cases b <;> exact List.all_iff_forall_prop.mp (by decide)
    exact .inl (every c h)
  | num n => exact .inl (printable_numberChar (n.plain c h))
  | str s =>
    rcases mem_dumpString h with plain | ⟨inside, visible⟩
    · exact .inl plain
    · exact .inr ⟨visible, s, List.mem_singleton_self s, inside⟩
  | arr items ih =>
    cases items with
    | nil =>
      have every : ∀ c ∈ dumps (arr []), Printable c := List.all_iff_forall_prop.mp (by decide)
      exact .inl (every c h)
    | cons v items =>
      have item : ∀ w ∈ v :: items, c ∈ dumps w →
          Printable c ∨ 32 ≤ c.toNat ∧ ∃ s ∈ strings (arr (v :: items)), c ∈ s := by
        intro w member written
        rcases ih w member written with plain | ⟨visible, s, inside, held⟩
        · exact .inl plain
        · exact .inr ⟨visible, s, mem_stringsOfItems.mpr ⟨w, member, inside⟩, held⟩
      rw [dumps_arr_cons, List.mem_cons, List.mem_append, mem_dumpRest] at h
      rcases h with rfl | first | rfl | ⟨-, rfl | rfl⟩ | ⟨w, member, written⟩
      · exact .inl (by decide)
      · exact item v List.mem_cons_self first
      · exact .inl (by decide)
      · exact .inl (by decide)
      · exact .inl (by decide)
      · exact item w (List.mem_cons_of_mem v member) written
  | obj fields ih =>
    cases fields with
    | nil =>
      have every : ∀ c ∈ dumps (obj []), Printable c := List.all_iff_forall_prop.mp (by decide)
      exact .inl (every c h)
    | cons field fields =>
      have one : ∀ f ∈ field :: fields, c ∈ dumpField f →
          Printable c ∨ 32 ≤ c.toNat ∧ ∃ s ∈ strings (obj (field :: fields)), c ∈ s := by
        intro f member written
        rcases mem_dumpField.mp written with key | rfl | rfl | value
        · rcases mem_dumpString key with plain | ⟨held, visible⟩
          · exact .inl plain
          · exact .inr ⟨visible, f.1, mem_stringsOfFields.mpr ⟨f, member, .inl rfl⟩, held⟩
        · exact .inl (by decide)
        · exact .inl (by decide)
        · rcases ih f member value with plain | ⟨visible, s, inside, held⟩
          · exact .inl plain
          · exact .inr ⟨visible, s, mem_stringsOfFields.mpr ⟨f, member, .inr inside⟩, held⟩
      rw [dumps_obj_cons, List.mem_cons, List.mem_append, mem_dumpRest] at h
      rcases h with rfl | first | rfl | ⟨-, rfl | rfl⟩ | ⟨f, member, written⟩
      · exact .inl (by decide)
      · exact one field List.mem_cons_self first
      · exact .inl (by decide)
      · exact .inl (by decide)
      · exact .inl (by decide)
      · exact one f (List.mem_cons_of_mem field member) written

theorem raw_mem_dumps {v : Json} {c : Char} (raw : 127 < c.toNat) {s : Text}
    (inside : s ∈ strings v) (h : c ∈ s) : c ∈ dumps v := by
  induction v using induct with
  | null => cases inside
  | bool b => cases inside
  | num n => cases inside
  | str s' =>
    obtain rfl : s = s' := by simpa [strings] using inside
    exact raw_mem_dumpString raw h
  | arr items ih =>
    obtain ⟨w, member, held⟩ := mem_stringsOfItems.mp inside
    have written := ih w member held
    cases items with
    | nil => cases member
    | cons v items =>
      rw [dumps_arr_cons, List.mem_cons, List.mem_append, mem_dumpRest]
      rcases List.mem_cons.mp member with rfl | later
      · exact .inr (.inl written)
      · exact .inr (.inr (.inr (.inr ⟨w, later, written⟩)))
  | obj fields ih =>
    obtain ⟨f, member, held⟩ := mem_stringsOfFields.mp inside
    have written : c ∈ dumpField f := by
      rcases held with rfl | held
      · exact mem_dumpField.mpr (.inl (raw_mem_dumpString raw h))
      · exact mem_dumpField.mpr (.inr (.inr (.inr (ih f member held))))
    cases fields with
    | nil => cases member
    | cons field fields =>
      rw [dumps_obj_cons, List.mem_cons, List.mem_append, mem_dumpRest]
      rcases List.mem_cons.mp member with rfl | later
      · exact .inr (.inl written)
      · exact .inr (.inr (.inr (.inr ⟨f, later, written⟩)))

end Json

end AutoTrade
