import AutoTrade.Common.JsonGrammar

/-!
# Writing JSON

`json.dumps(value, ensure_ascii=False, indent=2)`, and that what it writes denotes what it was
given.
-/

namespace AutoTrade.PyJson

open CodePoint (ofText)

def hexChar (n : Nat) : Char := "0123456789abcdef".toList.getD n '0'

/-- What a code point of a string is written as. -/
def escapePoint : CodePoint → PyStr
  | .char '"' => [.char '\\', .char '"']
  | .char '\\' => [.char '\\', .char '\\']
  | .char '\n' => [.char '\\', .char 'n']
  | .char '\r' => [.char '\\', .char 'r']
  | .char '\t' => [.char '\\', .char 't']
  | .char '\x0c' => [.char '\\', .char 'f']
  | .char '\x08' => [.char '\\', .char 'b']
  | .char c =>
    if c.toNat < 32 then
      [.char '\\', .char 'u', .char '0', .char '0', .char (hexChar (c.toNat / 16)),
        .char (hexChar (c.toNat % 16))]
    else [.char c]
  | .surrogate offset => [.surrogate offset]

def writeString (s : PyStr) : PyStr := .char '"' :: (s.flatMap escapePoint ++ [.char '"'])

/-- A new line at a depth. -/
def newline (depth : Nat) : PyStr := .char '\n' :: List.replicate (2 * depth) (.char ' ')

mutual

/-- A value, at the depth of its line. Numbers are written as they stand. -/
def write (depth : Nat) : PyJson → PyStr
  | .null => ofText "null".toList
  | .bool true => ofText "true".toList
  | .bool false => ofText "false".toList
  | .int token => ofText token
  | .float token => ofText token
  | .constant token => ofText token
  | .str value => writeString value
  | .list [] => [.char '[', .char ']']
  | .list (item :: rest) =>
    .char '[' :: (newline (depth + 1) ++ write (depth + 1) item ++ writeItems (depth + 1) rest ++
      newline depth ++ [.char ']'])
  | .dict [] => [.char '{', .char '}']
  | .dict ((key, value) :: rest) =>
    .char '{' :: (newline (depth + 1) ++ writeString key ++ [.char ':', .char ' '] ++
      write (depth + 1) value ++ writePairs (depth + 1) rest ++ newline depth ++ [.char '}'])

/-- The items after the first. -/
def writeItems (depth : Nat) : List PyJson → PyStr
  | [] => []
  | item :: rest => .char ',' :: (newline depth ++ write depth item ++ writeItems depth rest)

/-- The pairs after the first. -/
def writePairs (depth : Nat) : List (PyStr × PyJson) → PyStr
  | [] => []
  | (key, value) :: rest =>
    .char ',' :: (newline depth ++ writeString key ++ [.char ':', .char ' '] ++
      write depth value ++ writePairs depth rest)

end

/-- `json.dumps(value, ensure_ascii=False, indent=2)`. -/
def dumpsIndented (value : PyJson) : PyStr := write 0 value

theorem hexDigit_hexChar {n : Nat} (h : n < 16) : hexDigit (hexChar n) = some n := by
  have each : ∀ n < 16, hexDigit (hexChar n) = some n := by decide
  exact each n h

theorem spells_escapePoint (point : CodePoint) : ∃ unit : CodeUnit,
    (∀ {text units}, SpellsUnits text units →
        SpellsUnits (escapePoint point ++ text) (unit :: units)) ∧
      ∀ rest, decodeUnits (unit :: rest) = point :: decodeUnits rest := by
  have short : ∀ {e d : Char}, escaped e = some d → ∃ unit : CodeUnit,
      (∀ {text units}, SpellsUnits text units →
          SpellsUnits ([.char '\\', .char e] ++ text) (unit :: units)) ∧
        ∀ rest, decodeUnits (unit :: rest) = .char d :: decodeUnits rest :=
    fun means => ⟨.inl (.char _), fun rest => .short means rest, fun _ => by rw [decodeUnits]⟩
  unfold escapePoint
  split
  · exact short rfl
  · exact short rfl
  · exact short rfl
  · exact short rfl
  · exact short rfl
  · exact short rfl
  · exact short rfl
  · rename_i c quote backslash _ _ _ _ _
    split
    · rename_i control
      have value : ((0 * 16 + 0) * 16 + c.toNat / 16) * 16 + c.toNat % 16 = c.toNat := by omega
      refine ⟨.inr c.toNat, fun rest => ?_, fun rest => ?_⟩
      · have zero : hexDigit '0' = some 0 := rfl
        have high : c.toNat / 16 < 16 := by omega
        have low : c.toNat % 16 < 16 := by omega
        have written := SpellsUnits.unicode zero zero (hexDigit_hexChar high) (hexDigit_hexChar low)
          rest
        rw [value] at written
        exact written
      · rw [decodeUnits_low (by omega), unitPoint, dif_neg (by omega), Char.ofNat_toNat]
    · rename_i visible
      have plain : Unescaped (.char c) := ⟨quote, backslash, by omega⟩
      exact ⟨.inl (.char c), fun rest => .raw plain rest, fun _ => by rw [decodeUnits]⟩
  · rename_i offset
    exact ⟨.inl (.surrogate offset), fun rest => .raw trivial rest, fun _ => by rw [decodeUnits]⟩

theorem spells_writeString (s : PyStr) : SpellsString (writeString s) s := by
  suffices body : ∃ units, SpellsUnits (s.flatMap escapePoint) units ∧ s = decodeUnits units by
    have ⟨units, spells, means⟩ := body
    exact ⟨_, units, spells, rfl, means⟩
  induction s with
  | nil => exact ⟨[], .nil, rfl⟩
  | cons point rest ih =>
    have ⟨units, spells, means⟩ := ih
    have ⟨unit, written, stands⟩ := spells_escapePoint point
    exact ⟨unit :: units, written spells, by rw [stands, ← means]⟩

/-- A number that is written with digits alone, the first not zero unless it is the only one. -/
def natural : PyJson → Bool
  | .int token => token = ['0'] ||
      (token.head?.any fun c => c ≠ '0') && token.all isDigit
  | .float _ => false
  | .constant _ => false
  | _ => true

theorem spells_natural {token : Text} (number : natural (.int token) = true) :
    SpellsNumber token (.int token) := by
  simp only [natural, Bool.or_eq_true, decide_eq_true_eq, Bool.and_eq_true] at number
  rcases number with zero | ⟨positive, digits⟩
  · exact ⟨'0', [], .zero, .zero, zero, rfl, rfl, rfl⟩
  · cases token with
    | nil => exact nomatch positive
    | cons c rest =>
      have ⟨digit, others⟩ := Bool.and_eq_true_iff.mp digits
      have other : c ≠ '0' := by simpa using positive
      have unsigned : c ≠ '-' := by
        rintro rfl
        exact nomatch digit
      have goes : ∀ {rest : Text}, rest.all isDigit = true →
          phases .digits rest = some .digits := by
        intro rest others
        induction rest with
        | nil => rfl
        | cons d rest ih =>
          have ⟨here, later⟩ := Bool.and_eq_true_iff.mp others
          have next : Phase.digits.next d = some .digits := if_pos here
          rw [phases, List.foldlM_cons, next]
          exact ih later
      refine ⟨c, rest, .digits, .digits, rfl, ?_, goes others, rfl⟩
      rw [Phase.start, if_neg unsigned, if_neg other, if_pos digit]

theorem spaces_newline (depth : Nat) : Spaces (newline depth) := by
  intro point member
  rcases List.mem_cons.mp member with rfl | space
  · rfl
  · rw [List.eq_of_mem_replicate space]
    rfl

theorem spaces_nil : Spaces [] := nofun

mutual

theorem spells_write : ∀ (value : PyJson) (depth : Nat), all natural value = true →
    Spells (write depth value) value
  | .null, _, _ => .null
  | .bool true, _, _ => .true'
  | .bool false, _, _ => .false'
  | .int _, _, numbers => .number (spells_natural numbers)
  | .float _, _, numbers => nomatch numbers
  | .constant _, _, numbers => nomatch numbers
  | .str value, _, _ => .string (spells_writeString value)
  | .list [], _, _ => .noItems spaces_nil
  | .list (item :: rest), depth, numbers => by
    have ⟨here, later⟩ := Bool.and_eq_true_iff.mp numbers
    exact .list (spells_items rest (depth + 1) later (spells_write item (depth + 1) here)
      (spaces_newline depth))
  | .dict [], _, _ => .noPairs spaces_nil
  | .dict ((key, value) :: rest), depth, numbers => by
    have ⟨here, later⟩ := Bool.and_eq_true_iff.mp numbers
    exact .dict (spells_pairs rest (depth + 1) later key (spells_write value (depth + 1) here)
      (spaces_newline depth))

theorem spells_items : ∀ (rest : List PyJson) (depth : Nat), allItems natural rest = true →
    ∀ {text behind : PyStr} {item : PyJson}, Spells text item → Spaces behind →
      SpellsItems (newline depth ++ text ++ writeItems depth rest ++ behind) (item :: rest)
  | [], depth, _ => by
    intro first spaces
    rw [writeItems, List.append_nil]
    exact .one (spaces_newline depth) first spaces
  | item' :: rest, depth, numbers => by
    intro first spaces
    have ⟨here, later⟩ := Bool.and_eq_true_iff.mp numbers
    have next := spells_items rest depth later (spells_write item' depth here) spaces
    have whole := SpellsItems.more (spaces_newline depth) first spaces_nil next
    rw [writeItems]
    simpa only [List.append_assoc, List.cons_append, List.append_nil, List.nil_append] using whole

theorem spells_pairs : ∀ (rest : List (PyStr × PyJson)) (depth : Nat),
    allPairs natural rest = true → ∀ (key : PyStr) {text behind : PyStr} {value : PyJson},
      Spells text value → Spaces behind →
        SpellsPairs (newline depth ++ writeString key ++ [.char ':', .char ' '] ++ text ++
          writePairs depth rest ++ behind) ((key, value) :: rest)
  | [], depth, _ => by
    intro key text behind value first spaces
    have space : Spaces [.char ' '] := by simp [Spaces, isSpace]
    have whole := SpellsPairs.one (spaces_newline depth) (spells_writeString key) spaces_nil space
      first spaces
    rw [writePairs]
    simpa only [List.append_assoc, List.cons_append, List.append_nil, List.nil_append] using whole
  | (key', value') :: rest, depth, numbers => by
    intro key text behind value first spaces
    have ⟨here, later⟩ := Bool.and_eq_true_iff.mp numbers
    have next := spells_pairs rest depth later key' (spells_write value' depth here) spaces
    have space : Spaces [.char ' '] := by simp [Spaces, isSpace]
    have whole := SpellsPairs.more (spaces_newline depth) (spells_writeString key) spaces_nil space
      first spaces_nil next
    rw [writePairs]
    simpa only [List.append_assoc, List.cons_append, List.append_nil, List.nil_append] using whole

end

theorem denotes_dumpsIndented {value : PyJson} (numbers : all natural value = true) {space : PyStr}
    (spaces : Spaces space) : Denotes (dumpsIndented value ++ space) value :=
  ⟨[], _, space, spaces_nil, spells_write value 0 numbers, spaces, rfl⟩

theorem loads_dumpsIndented {value : PyJson} (numbers : all natural value = true)
    (few : all (fits 4300) value = true) {space : PyStr} (spaces : Spaces space) :
    loads (dumpsIndented value ++ space) = some value :=
  loads_of_denotes (denotes_dumpsIndented numbers spaces) few

end AutoTrade.PyJson
