import AutoTrade.Common.PyJson

/-!
# What JSON texts denote

The grammar of JSON as a relation between texts and values, and that `json.loads` reads every text
of the grammar as what it denotes.
-/

namespace AutoTrade.PyJson

open CodePoint (ofText)

/-- A character, or a code unit that an escape gives. -/
abbrev CodeUnit := CodePoint ⊕ Nat

/-- A code unit that no other is joined with. -/
def unitPoint (u : Nat) : CodePoint :=
  if h : 0xD800 ≤ u ∧ u < 0xE000 then .surrogate ⟨u - 0xD800, by omega⟩ else .char (Char.ofNat u)

/-- What the units of a string stand for: an escaped high surrogate and the escaped low one after it
are one character. -/
def decodeUnits : List CodeUnit → PyStr
  | [] => []
  | .inl point :: rest => point :: decodeUnits rest
  | .inr u :: .inr l :: rest =>
    if h : (0xD800 ≤ u ∧ u < 0xDC00) ∧ 0xDC00 ≤ l ∧ l < 0xE000 then
      joined ⟨u - 0xD800, by omega⟩ ⟨l - 0xDC00, by omega⟩ :: decodeUnits rest
    else unitPoint u :: decodeUnits (.inr l :: rest)
  | .inr u :: rest => unitPoint u :: decodeUnits rest

/-- A character that stands for itself inside a string. -/
def Unescaped : CodePoint → Prop
  | .char c => c ≠ '"' ∧ c ≠ '\\' ∧ 32 ≤ c.toNat
  | .surrogate _ => True

/-- The text between the quotes of a string, and its units. -/
inductive SpellsUnits : PyStr → List CodeUnit → Prop where
  | nil : SpellsUnits [] []
  | raw {point : CodePoint} {text : PyStr} {units : List CodeUnit} (plain : Unescaped point)
      (rest : SpellsUnits text units) : SpellsUnits (point :: text) (.inl point :: units)
  | short {e d : Char} {text : PyStr} {units : List CodeUnit} (means : escaped e = some d)
      (rest : SpellsUnits text units) :
      SpellsUnits (.char '\\' :: .char e :: text) (.inl (.char d) :: units)
  | unicode {a b c d : Char} {i j k l : Nat} {text : PyStr} {units : List CodeUnit}
      (first : hexDigit a = some i) (second : hexDigit b = some j) (third : hexDigit c = some k)
      (fourth : hexDigit d = some l) (rest : SpellsUnits text units) :
      SpellsUnits (.char '\\' :: .char 'u' :: .char a :: .char b :: .char c :: .char d :: text)
        (.inr (((i * 16 + j) * 16 + k) * 16 + l) :: units)

/-- A string with its quotes, and its value. -/
def SpellsString (text value : PyStr) : Prop :=
  ∃ body units, SpellsUnits body units ∧ text = .char '"' :: (body ++ [.char '"']) ∧
    value = decodeUnits units

/-- Whitespace. -/
def Spaces (text : PyStr) : Prop := ∀ point ∈ text, isSpace point = true

/-- The phase in which a number that goes on with a text ends. -/
def phases (phase : Phase) (text : Text) : Option Phase := text.foldlM Phase.next phase

/-- A number and its value. -/
def SpellsNumber (token : Text) (value : PyJson) : Prop :=
  ∃ c rest first last, token = c :: rest ∧ Phase.start c = some first ∧
    phases first rest = some last ∧ last.value token = some value

mutual

/-- The text of a value, without whitespace around it. -/
inductive Spells : PyStr → PyJson → Prop where
  | null : Spells (ofText "null".toList) .null
  | true' : Spells (ofText "true".toList) (.bool true)
  | false' : Spells (ofText "false".toList) (.bool false)
  | number {token : Text} {value : PyJson} (spells : SpellsNumber token value) :
      Spells (ofText token) value
  | string {text value : PyStr} (spells : SpellsString text value) : Spells text (.str value)
  | noItems {space : PyStr} (spaces : Spaces space) :
      Spells (.char '[' :: (space ++ [.char ']'])) (.list [])
  | list {body : PyStr} {items : List PyJson} (spells : SpellsItems body items) :
      Spells (.char '[' :: (body ++ [.char ']'])) (.list items)
  | noPairs {space : PyStr} (spaces : Spaces space) :
      Spells (.char '{' :: (space ++ [.char '}'])) (.dict [])
  | dict {body : PyStr} {pairs : List (PyStr × PyJson)} (spells : SpellsPairs body pairs) :
      Spells (.char '{' :: (body ++ [.char '}'])) (.dict pairs)

/-- The items between the brackets of an array. -/
inductive SpellsItems : PyStr → List PyJson → Prop where
  | one {before text behind : PyStr} {value : PyJson} (left : Spaces before)
      (spells : Spells text value) (right : Spaces behind) :
      SpellsItems (before ++ text ++ behind) [value]
  | more {before text behind body : PyStr} {value : PyJson} {items : List PyJson}
      (left : Spaces before) (spells : Spells text value) (right : Spaces behind)
      (rest : SpellsItems body items) :
      SpellsItems (before ++ text ++ behind ++ .char ',' :: body) (value :: items)

/-- The pairs between the braces of an object. -/
inductive SpellsPairs : PyStr → List (PyStr × PyJson) → Prop where
  | one {before name gap before' text behind key : PyStr} {value : PyJson} (left : Spaces before)
      (named : SpellsString name key) (between : Spaces gap) (left' : Spaces before')
      (spells : Spells text value) (right : Spaces behind) :
      SpellsPairs (before ++ name ++ gap ++ .char ':' :: (before' ++ text ++ behind)) [(key, value)]
  | more {before name gap before' text behind key body : PyStr} {value : PyJson}
      {pairs : List (PyStr × PyJson)} (left : Spaces before) (named : SpellsString name key)
      (between : Spaces gap) (left' : Spaces before') (spells : Spells text value)
      (right : Spaces behind) (rest : SpellsPairs body pairs) :
      SpellsPairs (before ++ name ++ gap ++ .char ':' :: (before' ++ text ++ behind) ++
        .char ',' :: body) ((key, value) :: pairs)

end

/-- The whole text of a value: whitespace may stand around it. -/
def Denotes (text : PyStr) (value : PyJson) : Prop :=
  ∃ before body behind, Spaces before ∧ Spells body value ∧ Spaces behind ∧
    text = before ++ body ++ behind

/-- One more unit of a string that is being read. -/
def StringState.addAny (s : StringState) : CodeUnit → StringState
  | .inl point => s.add point
  | .inr u => s.addUnit u

theorem unitPoint_high (a : Fin 1024) : unitPoint (0xD800 + a) = highUnit a := by
  have bound := a.isLt
  rw [unitPoint, dif_pos (by omega), highUnit]
  simp

theorem unitPoint_low {u : Nat} (low : 0xDC00 ≤ u ∧ u < 0xE000) :
    unitPoint u = lowUnit ⟨u - 0xDC00, StringState.low_lt low⟩ := by
  rw [unitPoint, dif_pos (by omega), lowUnit, CodePoint.surrogate.injEq, Fin.mk.injEq]
  change u - 0xD800 = 1024 + (u - 0xDC00)
  omega

theorem decodeUnits_low {u : Nat} (low : ¬ (0xD800 ≤ u ∧ u < 0xDC00)) (rest : List CodeUnit) :
    decodeUnits (.inr u :: rest) = unitPoint u :: decodeUnits rest := by
  cases rest with
  | nil => rfl
  | cons unit rest =>
    cases unit with
    | inl point => rfl
    | inr l => rw [decodeUnits, dif_neg fun both => low both.1]

theorem decodeUnits_alone (a : Fin 1024) {rest : List CodeUnit}
    (alone : ∀ l rest', rest = .inr l :: rest' → ¬ (0xDC00 ≤ l ∧ l < 0xE000)) :
    decodeUnits (.inr (0xD800 + a) :: rest) = highUnit a :: decodeUnits rest := by
  rw [← unitPoint_high]
  cases rest with
  | nil => rfl
  | cons unit rest =>
    cases unit with
    | inl point => rfl
    | inr l => rw [decodeUnits, dif_neg fun both => alone l rest rfl both.2]

theorem decodeUnits_pending (s : StringState) {rest : List CodeUnit}
    (alone : ∀ l rest', rest = .inr l :: rest' → ¬ (0xDC00 ≤ l ∧ l < 0xE000)) :
    s.read ++ decodeUnits ((s.high.map fun a => .inr (0xD800 + a)).toList ++ rest) =
      s.text ++ decodeUnits rest := by
  rw [StringState.text]
  cases s.high with
  | none => simp
  | some a =>
    rw [Option.map_some, Option.toList_some, List.singleton_append, decodeUnits_alone a alone]
    simp

theorem text_foldl_addAny (s : StringState) (units : List CodeUnit) :
    (units.foldl StringState.addAny s).text =
      s.read ++ decodeUnits ((s.high.map fun a => .inr (0xD800 + a)).toList ++ units) := by
  induction units generalizing s with
  | nil =>
    rw [List.foldl_nil, decodeUnits_pending s (by simp), decodeUnits, List.append_nil]
  | cons unit units ih =>
    rw [List.foldl_cons, ih]
    cases unit with
    | inl point =>
      rw [decodeUnits_pending s (by simp)]
      simp [StringState.addAny, StringState.add, decodeUnits]
    | inr u =>
      rw [StringState.addAny, StringState.addUnit]
      split_ifs with high low
      · -- a high surrogate waits for the next unit
        rw [decodeUnits_pending s]
        · simp [Nat.add_sub_cancel' high.1]
        · intro l rest' same
          rw [List.cons.injEq, Sum.inr.injEq] at same
          omega
      · cases pending : s.high with
        | none =>
          simp only [StringState.add, StringState.text, pending, Option.map_none, Option.toList_none,
            List.append_nil, List.nil_append, List.append_assoc]
          rw [decodeUnits_low high, unitPoint_low low, List.singleton_append]
        | some a =>
          have bound := a.isLt
          have both : (0xD800 ≤ 0xD800 + (a : Nat) ∧ 0xD800 + (a : Nat) < 0xDC00) ∧
              0xDC00 ≤ u ∧ u < 0xE000 := by omega
          simp only [Option.map_some, Option.toList_some, Option.map_none, Option.toList_none,
            List.nil_append, List.singleton_append, List.append_assoc]
          rw [decodeUnits, dif_pos both]
          simp
      · rw [decodeUnits_pending s]
        · rw [decodeUnits_low (by omega), unitPoint, dif_neg (by omega)]
          simp [StringState.add]
        · intro l rest' same
          rw [List.cons.injEq, Sum.inr.injEq] at same
          omega

variable {maxDigits : Nat}

variable {text : PyStr}

theorem run_units {units : List CodeUnit} (spells : SpellsUnits text units) (frames : List Frame)
    (isKey : Bool) (s : StringState) :
    run maxDigits (.reading frames (.string isKey s .no)) text =
      some (.reading frames (.string isKey (units.foldl StringState.addAny s) .no)) := by
  induction spells generalizing s with
  | nil => rfl
  | @raw point text units plain rest ih =>
    have one : step maxDigits (.reading frames (.string isKey s .no)) point =
        some (.reading frames (.string isKey (s.add point) .no)) := by
      cases point with
      | surrogate offset => rfl
      | char c =>
        obtain ⟨quote, slash, visible⟩ := plain
        rw [step, stepString, if_neg (Nat.not_lt.mpr visible)]
        · exact quote
        · exact slash
    rw [run_cons, one, Option.bind_some, ih]
    rfl
  | @short e d text units means rest ih =>
    have other : e ≠ 'u' := by
      rintro rfl
      cases means
    have one : step maxDigits (.reading frames (.string isKey s .backslash)) (.char e) =
        some (.reading frames (.string isKey (s.add (.char d)) .no)) := by
      rw [step, stepString, means]
      · rfl
      · exact other
    rw [run_cons]
    change run maxDigits (.reading frames (.string isKey s .backslash)) (.char e :: text) = _
    rw [run_cons, one, Option.bind_some, ih]
    rfl
  | @unicode a b c d i j k l text units first second third fourth rest ih =>
    have digit : ∀ {left value digit : Nat} {c : Char}, hexDigit c = some digit →
        step maxDigits (.reading frames (.string isKey s (.hex left value))) (.char c) =
          some (if left = 1 then .reading frames (.string isKey (s.addUnit (value * 16 + digit)) .no)
            else .reading frames (.string isKey s (.hex (left - 1) (value * 16 + digit)))) := by
      intro left value digit c means
      rw [step, stepString, means]
      rfl
    rw [run_cons]
    change run maxDigits (.reading frames (.string isKey s .backslash)) (.char 'u' :: _) = _
    rw [run_cons]
    change run maxDigits (.reading frames (.string isKey s (.hex 4 0))) _ = _
    rw [run_cons, digit first, Option.bind_some, if_neg (by decide), run_cons, digit second,
      Option.bind_some, if_neg (by decide), run_cons, digit third, Option.bind_some,
      if_neg (by decide), run_cons, digit fourth, Option.bind_some, if_pos rfl, ih]
    simp [StringState.addAny]

theorem run_spaces {state : State}
    (skips : ∀ point, isSpace point = true → step maxDigits state point = some state)
    {space : PyStr} (spaces : Spaces space) : run maxDigits state space = some state := by
  induction space with
  | nil => rfl
  | cons point space ih =>
    rw [run_cons, skips point (spaces point List.mem_cons_self), Option.bind_some]
    exact ih fun point member => spaces point (List.mem_cons_of_mem _ member)

/-- A code point that no number goes on with. -/
def Stops (point : CodePoint) : Prop :=
  ∀ c, point = .char c → isDigit c = false ∧ c ∉ ['.', 'e', 'E', '+', '-']

variable {point : CodePoint}

theorem stops_space (space : isSpace point = true) : Stops point := by
  rintro c rfl
  simp only [isSpace, Bool.or_eq_true, decide_eq_true_eq] at space
  rcases space with ((rfl | rfl) | rfl) | rfl
  all_goals exact ⟨by decide, by decide⟩

theorem next_stops {phase : Phase} {c : Char} (stops : Stops (.char c)) : phase.next c = none := by
  have ⟨digit, other⟩ := stops c rfl
  simp only [List.mem_cons, List.not_mem_nil, or_false, not_or] at other
  have zero : c ≠ '0' := by
    rintro rfl
    exact absurd digit (by decide)
  cases phase <;> simp [Phase.next, digit, other, zero]

/-- A state in which a value has been read, or a number that ends with what follows. -/
def Settles (maxDigits : Nat) (state target : State) : Prop :=
  state = target ∨ ∃ frames token phase value, state = .reading frames (.number token phase) ∧
    phase.finish maxDigits token = some value ∧ complete value frames = some target

theorem step_done (value : PyJson) (point : CodePoint) :
    step maxDigits (.done value) point = after (.done value) point := rfl

theorem step_afterItem (frames : List Frame) (point : CodePoint) :
    step maxDigits (.reading frames .afterItem) point = after (.reading frames .afterItem) point := rfl

/-- A state that a value leaves behind. -/
def Over (target : State) : Prop :=
  (∃ value, target = .done value) ∨ ∃ frames, target = .reading frames .afterItem

variable {value : PyJson} {target : State} {frames : List Frame}

theorem complete_over (completes : complete value frames = some target) : Over target := by
  cases frames with
  | nil => exact .inl ⟨value, (Option.some.inj completes).symm⟩
  | cons frame frames =>
    cases frame with
    | items read => exact .inr ⟨_, (Option.some.inj completes).symm⟩
    | pending read key => exact .inr ⟨_, (Option.some.inj completes).symm⟩
    | pairs read => exact nomatch completes

theorem settles_step {state target : State} (isOver : Over target)
    (settles : Settles maxDigits state target) (stops : Stops point) :
    step maxDigits state point = after target point := by
  rcases settles with rfl | ⟨frames, token, phase, number, rfl, finishes, completes⟩
  · rcases isOver with ⟨value, rfl⟩ | ⟨frames, rfl⟩
    · exact step_done value point
    · exact step_afterItem frames point
  · have ends : (point.toChar.bind fun c => (phase.next c).map fun next => (c, next)) = none := by
      cases point with
      | surrogate offset => rfl
      | char c => simp [CodePoint.toChar, next_stops stops]
    have plain : phase ≠ .minus := by
      rintro rfl
      cases finishes
    rw [step, stepNumber, ends]
    simp [plain, finishes, completes]

theorem after_space (isOver : Over target) (space : isSpace point = true) :
    after target point = some target := by
  rcases isOver with ⟨value, rfl⟩ | ⟨frames, rfl⟩
  · simp [after, space]
  · simp [after, space]

theorem settles_spaces {state target : State} (isOver : Over target)
    (settles : Settles maxDigits state target) {space : PyStr} (spaces : Spaces space) :
    ∃ state', run maxDigits state space = some state' ∧ Settles maxDigits state' target := by
  cases space with
  | nil => exact ⟨state, rfl, settles⟩
  | cons point space =>
    have first := spaces point List.mem_cons_self
    refine ⟨target, ?_, .inl rfl⟩
    rw [run_cons, settles_step isOver settles (stops_space first), after_space isOver first,
      Option.bind_some]
    refine run_spaces (fun point space => ?_) fun point member =>
      spaces point (List.mem_cons_of_mem _ member)
    rw [settles_step isOver (.inl rfl) (stops_space space), after_space isOver space]

/-- The reading of a value, from the code point it begins with. -/
def Reads (maxDigits : Nat) (text : PyStr) (value : PyJson) : Prop :=
  ∃ point rest, text = point :: rest ∧ isSpace point = false ∧ point ≠ .char ']' ∧
    ∀ frames target, complete value frames = some target →
      ∃ state, (begin' frames point).bind (run maxDigits · rest) = some state ∧ Settles maxDigits state target

variable {mode : Mode}

theorem Reads.run (reads : Reads maxDigits text value)
    (completes : complete value frames = some target)
    (expected : mode = .value ∨ mode = .firstItem) :
    ∃ state, PyJson.run maxDigits (.reading frames mode) text = some state ∧
      Settles maxDigits state target := by
  have ⟨point, rest, same, visible, other, begins⟩ := reads
  have ⟨state, ran, settles⟩ := begins frames target completes
  refine ⟨state, ?_, settles⟩
  have opening : step maxDigits (.reading frames mode) point = begin' frames point := by
    rcases expected with rfl | rfl <;> simp [step, visible, other]
  rwa [same, run_cons, opening]

theorem Reads.run_spaced {before text behind : PyStr} (left : Spaces before)
    (reads : Reads maxDigits text value) (right : Spaces behind)
    (completes : complete value frames = some target)
    (expected : mode = .value ∨ mode = .firstItem) :
    ∃ state, PyJson.run maxDigits (.reading frames mode) (before ++ text ++ behind) = some state ∧
      Settles maxDigits state target := by
  have skips : ∀ point, isSpace point = true →
      step maxDigits (.reading frames mode) point = some (.reading frames mode) := by
    intro point space
    rcases expected with rfl | rfl <;> simp [step, space]
  obtain ⟨state, ran, settles⟩ := reads.run completes expected
  obtain ⟨state', ended, settles'⟩ := settles_spaces (complete_over completes) settles right
  refine ⟨state', ?_, settles'⟩
  rw [List.append_assoc, run_append_of (run_spaces skips left), run_append_of ran, ended]

theorem reads_literal {c : Char} {value : PyJson} {left : Text} (filled : left ≠ [])
    (literal : opens c = some (none, .literal value left)) (visible : isSpace (.char c) = false)
    (other : c ≠ ']') : Reads maxDigits (ofText (c :: left)) value := by
  refine ⟨.char c, ofText left, rfl, visible, by simpa using other, fun frames target completes =>
    ⟨target, ?_, .inl rfl⟩⟩
  have spelled : ∀ left : Text, left ≠ [] →
      run maxDigits (.reading frames (.literal value left)) (ofText left) = some target := by
    intro left filled
    induction left with
    | nil => exact absurd rfl filled
    | cons d left ih =>
      change run maxDigits _ (.char d :: ofText left) = _
      rw [run_cons]
      cases left with
      | nil =>
        simp only [step, stepLiteral, if_true, completes, Option.bind_some]
        rfl
      | cons e left =>
        simp only [step, stepLiteral, if_true, Option.bind_some]
        exact ih (by simp)
  simp only [begin', literal, Option.map_some, Option.toList_none, List.nil_append,
    Option.bind_some]
  exact spelled left filled

theorem run_number {phase last : Phase} {rest : Text} (ends : phases phase rest = some last)
    (frames : List Frame) (token : Text) :
    run maxDigits (.reading frames (.number token phase)) (ofText rest) =
      some (.reading frames (.number (token ++ rest) last)) := by
  induction rest generalizing token phase with
  | nil =>
    rw [List.append_nil, ← Option.some.inj ends]
    rfl
  | cons c rest ih =>
    rw [phases, List.foldlM_cons] at ends
    have ⟨next, goes, later⟩ := Option.bind_eq_some_iff.mp ends
    change run maxDigits _ (.char c :: ofText rest) = _
    rw [run_cons, step, stepNumber]
    simp only [CodePoint.toChar, Option.bind_some, goes, Option.map_some]
    rw [ih later]
    simp

theorem opens_number {c : Char} {first : Phase} (starts : Phase.start c = some first) :
    opens c = some (none, .number [c] first) ∧ isSpace (.char c) = false ∧ c ≠ ']' := by
  have other : ∀ d, Phase.start d = none → c ≠ d := by
    rintro d refuses rfl
    rw [starts] at refuses
    exact nomatch refuses
  have literal : literalOf c = none := by
    unfold literalOf
    split
    · exact absurd rfl (other 'n' (by decide))
    · exact absurd rfl (other 't' (by decide))
    · exact absurd rfl (other 'f' (by decide))
    · exact absurd rfl (other 'N' (by decide))
    · exact absurd rfl (other 'I' (by decide))
    · rfl
  refine ⟨?_, ?_, other ']' (by decide)⟩
  · rw [opens]
    · simp only [literal, starts, Option.map_some]
    · exact other '"' (by decide)
    · exact other '[' (by decide)
    · exact other '{' (by decide)
  · simp [isSpace, other ' ' (by decide), other '\t' (by decide), other '\n' (by decide),
      other '\r' (by decide)]

theorem reads_number {token : Text} (spells : SpellsNumber token value)
    (few : all (fits maxDigits) value = true) : Reads maxDigits (ofText token) value := by
  obtain ⟨c, rest, first, last, same, starts, ends, number⟩ := spells
  have fit : fits maxDigits value = true := by
    cases last <;> simp only [Phase.value, Option.some.injEq, reduceCtorEq] at number <;>
      subst number <;> simpa [all] using few
  have finishes := Phase.finish_eq_some.mpr ⟨number, fit⟩
  obtain ⟨opened, visible, other⟩ := opens_number starts
  refine ⟨.char c, ofText rest, by rw [same]; rfl, visible, by simpa using other,
    fun frames target completes => ⟨_, ?_, .inr ⟨frames, token, last, value, rfl, finishes, completes⟩⟩⟩
  simp only [begin', opened, Option.map_some, Option.toList_none, List.nil_append, Option.bind_some]
  rw [run_number ends, same]
  rfl

theorem run_string (maxDigits : Nat) {text value : PyStr} (spells : SpellsString text value) :
    ∃ rest, text = .char '"' :: rest ∧ ∀ frames isKey,
      run maxDigits (.reading frames (.string isKey .empty .no)) rest = endString frames isKey value := by
  have ⟨body, units, spelled, same, its⟩ := spells
  refine ⟨_, same, fun frames isKey => ?_⟩
  rw [run_append_of (run_units spelled frames isKey .empty), run_cons]
  have ends : (units.foldl StringState.addAny .empty).text = value := by
    rw [text_foldl_addAny, its]
    rfl
  rw [step, stepString, ends]
  cases endString frames isKey value <;> rfl

theorem reads_string {text value : PyStr} (spells : SpellsString text value) :
    Reads maxDigits text (.str value) := by
  have ⟨rest, same, reads⟩ := run_string maxDigits spells
  refine ⟨.char '"', rest, same, by decide, by simp, fun frames target completes =>
    ⟨target, ?_, .inl rfl⟩⟩
  simp only [begin', opens, Option.map_some, Option.toList_none, List.nil_append, Option.bind_some]
  rw [reads, endString, if_neg Bool.false_ne_true, completes]

theorem reads_list {body : PyStr} {items : List PyJson}
    (within : ∀ outer target, complete (.list items) outer = some target →
      run maxDigits (.reading (.items [] :: outer) .firstItem) (body ++ [.char ']']) = some target) :
    Reads maxDigits (.char '[' :: (body ++ [.char ']'])) (.list items) := by
  refine ⟨.char '[', _, rfl, by decide, by simp, fun frames target completes =>
    ⟨target, ?_, .inl rfl⟩⟩
  simp only [begin', opens, Option.map_some, Option.toList_some, List.singleton_append,
    Option.bind_some]
  exact within frames target completes

theorem reads_dict {body : PyStr} {pairs : List (PyStr × PyJson)}
    (within : ∀ outer target, complete (.dict pairs) outer = some target →
      run maxDigits (.reading (.pairs [] :: outer) .firstKey) (body ++ [.char '}']) = some target) :
    Reads maxDigits (.char '{' :: (body ++ [.char '}'])) (.dict pairs) := by
  refine ⟨.char '{', _, rfl, by decide, by simp, fun frames target completes =>
    ⟨target, ?_, .inl rfl⟩⟩
  simp only [begin', opens, Option.map_some, Option.toList_some, List.singleton_append,
    Option.bind_some]
  exact within frames target completes

theorem stops_char {c : Char} (digit : isDigit c = false) (other : c ∉ ['.', 'e', 'E', '+', '-']) :
    Stops (.char c) := by
  intro d same
  rw [← CodePoint.char.inj same]
  exact ⟨digit, other⟩

theorem run_pair {before name gap before' text behind key : PyStr} (left : Spaces before)
    (named : SpellsString name key) (between : Spaces gap) (left' : Spaces before')
    (reads : Reads maxDigits text value) (right : Spaces behind) (read : List (PyStr × PyJson))
    (outer : List Frame) (expected : mode = .key ∨ mode = .firstKey) :
    ∃ state, run maxDigits (.reading (.pairs read :: outer) mode)
        (before ++ name ++ gap ++ .char ':' :: (before' ++ text ++ behind)) = some state ∧
      Settles maxDigits state (.reading (.pairs (read ++ [(key, value)]) :: outer) .afterItem) := by
  have ⟨rest, same, string⟩ := run_string maxDigits named
  have ⟨state, ran, settles⟩ := reads.run_spaced left' right
    (rfl : complete value (.pending read key :: outer) = _) (.inl rfl)
  refine ⟨state, ?_, settles⟩
  have skips : ∀ point, isSpace point = true →
      step maxDigits (.reading (.pairs read :: outer) mode) point =
        some (.reading (.pairs read :: outer) mode) := by
    intro point space
    rcases expected with rfl | rfl <;> simp [step, space]
  have quote : step maxDigits (.reading (.pairs read :: outer) mode) (.char '"') =
      some (.reading (.pairs read :: outer) (.string true .empty .no)) := by
    rcases expected with rfl | rfl <;> simp [step, isSpace]
  have colon : step maxDigits (.reading (.pairs read :: outer) (.colon key)) (.char ':') =
      some (.reading (.pending read key :: outer) .value) := by simp [step, isSpace]
  have keyed : run maxDigits (.reading (.pairs read :: outer) mode) name =
      some (.reading (.pairs read :: outer) (.colon key)) := by
    rw [same, run_cons, quote, Option.bind_some, string, endString, if_pos rfl]
  rw [List.append_assoc, List.append_assoc, run_append_of (run_spaces skips left),
    run_append_of keyed,
    run_append_of (run_spaces (fun point space => by simp [step, space]) between), run_cons, colon,
    Option.bind_some, ran]

mutual

theorem Spells.reads {text : PyStr} {value : PyJson} :
    Spells text value → all (fits maxDigits) value = true → Reads maxDigits text value
  | .null => fun _ => reads_literal (by decide) rfl (by decide) (by decide)
  | .true' => fun _ => reads_literal (by decide) rfl (by decide) (by decide)
  | .false' => fun _ => reads_literal (by decide) rfl (by decide) (by decide)
  | .number spells => fun few => reads_number spells few
  | .string spells => fun _ => reads_string spells
  | .noItems spaces => fun _ => by
    refine reads_list fun outer target completes => ?_
    rw [run_append_of (run_spaces (fun point space => by simp [step, space]) spaces), run_cons]
    simp [step, isSpace, completes, run_nil]
  | .list spells => fun few => by
    refine reads_list fun outer target completes => ?_
    rw [all] at few
    have ⟨state, ran, settles⟩ := spells.run few [] outer .firstItem (.inr rfl)
    rw [run_append_of ran, run_cons,
      settles_step (.inr ⟨_, rfl⟩) settles (stops_char (by decide) (by decide))]
    simp [after, isSpace, completes, run_nil]
  | .noPairs spaces => fun _ => by
    refine reads_dict fun outer target completes => ?_
    rw [run_append_of (run_spaces (fun point space => by simp [step, space]) spaces), run_cons]
    simp [step, isSpace, completes, run_nil]
  | .dict spells => fun few => by
    refine reads_dict fun outer target completes => ?_
    rw [all] at few
    have ⟨state, ran, settles⟩ := spells.run few [] outer .firstKey (.inr rfl)
    rw [run_append_of ran, run_cons,
      settles_step (.inr ⟨_, rfl⟩) settles (stops_char (by decide) (by decide))]
    simp [after, isSpace, completes, run_nil]

theorem SpellsItems.run {body : PyStr} {items : List PyJson} : SpellsItems body items →
    allItems (fits maxDigits) items = true → ∀ read outer mode, mode = .value ∨ mode = .firstItem →
      ∃ state, PyJson.run maxDigits (.reading (.items read :: outer) mode) body = some state ∧
        Settles maxDigits state (.reading (.items (read ++ items) :: outer) .afterItem)
  | .one left spells right => fun few read outer mode expected => by
    simp only [allItems, Bool.and_true] at few
    exact (spells.reads few).run_spaced left right rfl expected
  | @SpellsItems.more _ _ _ _ value items left spells right rest =>
    fun few read outer mode expected => by
    rw [allItems, Bool.and_eq_true] at few
    have ⟨state, ran, settles⟩ := (spells.reads few.1).run_spaced left right
      (rfl : complete value (.items read :: outer) = _) expected
    have ⟨state', ran', settles'⟩ := rest.run few.2 (read ++ [value]) outer .value (.inl rfl)
    refine ⟨state', ?_, by simpa using settles'⟩
    rw [run_append_of ran, run_cons,
      settles_step (.inr ⟨_, rfl⟩) settles (stops_char (by decide) (by decide))]
    simpa [after, isSpace] using ran'

theorem SpellsPairs.run {body : PyStr} {pairs : List (PyStr × PyJson)} : SpellsPairs body pairs →
    allPairs (fits maxDigits) pairs = true → ∀ read outer mode, mode = .key ∨ mode = .firstKey →
      ∃ state, PyJson.run maxDigits (.reading (.pairs read :: outer) mode) body = some state ∧
        Settles maxDigits state (.reading (.pairs (read ++ pairs) :: outer) .afterItem)
  | .one left named between left' spells right => fun few read outer _ expected => by
    simp only [allPairs, Bool.and_true] at few
    exact run_pair left named between left' (spells.reads few) right read outer expected
  | @SpellsPairs.more _ _ _ _ _ _ key _ value pairs left named between left' spells right rest =>
    fun few read outer mode expected => by
      rw [allPairs, Bool.and_eq_true] at few
      have ⟨state, ran, settles⟩ :=
        run_pair left named between left' (spells.reads few.1) right read outer expected
      have ⟨state', ran', settles'⟩ := rest.run few.2 (read ++ [(key, value)]) outer .key (.inl rfl)
      refine ⟨state', ?_, by simpa using settles'⟩
      rw [run_append_of ran, run_cons,
        settles_step (.inr ⟨_, rfl⟩) settles (stops_char (by decide) (by decide))]
      simpa [after, isSpace] using ran'

end

theorem loads_of_denotes (denotes : Denotes text value) (few : all (fits maxDigits) value = true) :
    loadsWithin maxDigits text = some value := by
  obtain ⟨before, body, behind, left, spells, right, same⟩ := denotes
  have reads : Reads maxDigits body value := spells.reads few
  obtain ⟨state, ran, settles⟩ := reads.run_spaced left right
    (rfl : complete value [] = some (.done value)) (.inl rfl)
  rw [loadsWithin, same, start, ran, Option.bind_some]
  rcases settles with rfl | ⟨frames, token, phase, number, rfl, finishes, completes⟩
  · rfl
  · cases frames with
    | nil =>
      rw [State.done.inj (Option.some.inj completes)] at finishes
      exact finishes
    | cons frame frames => cases frame <;> cases completes

mutual

/-- The most digits of an int in a value. -/
def mostDigits : PyJson → Nat
  | .int token => (token.filter isDigit).length
  | .list items => mostDigitsItems items
  | .dict pairs => mostDigitsPairs pairs
  | _ => 0

def mostDigitsItems : List PyJson → Nat
  | [] => 0
  | item :: rest => max (mostDigits item) (mostDigitsItems rest)

def mostDigitsPairs : List (PyStr × PyJson) → Nat
  | [] => 0
  | (_, value) :: rest => max (mostDigits value) (mostDigitsPairs rest)

end

mutual

theorem all_fits {n : Nat} : ∀ value, mostDigits value ≤ n → all (fits n) value = true
  | .int token => fun le => by simpa [all, fits, mostDigits] using le
  | .list items => fun le => by
    rw [mostDigits] at le
    rw [all]
    exact allItems_fits items le
  | .dict pairs => fun le => by
    rw [mostDigits] at le
    rw [all]
    exact allPairs_fits pairs le
  | .null => fun _ => rfl
  | .bool _ => fun _ => rfl
  | .float _ => fun _ => rfl
  | .constant _ => fun _ => rfl
  | .str _ => fun _ => rfl

theorem allItems_fits {n : Nat} : ∀ items, mostDigitsItems items ≤ n → allItems (fits n) items = true
  | [] => fun _ => rfl
  | item :: rest => fun le => by
    rw [mostDigitsItems, Nat.max_le] at le
    rw [allItems, all_fits item le.1, allItems_fits rest le.2]
    rfl

theorem allPairs_fits {n : Nat} : ∀ pairs, mostDigitsPairs pairs ≤ n → allPairs (fits n) pairs = true
  | [] => fun _ => rfl
  | (_, value) :: rest => fun le => by
    rw [mostDigitsPairs, Nat.max_le] at le
    rw [allPairs, all_fits value le.1, allPairs_fits rest le.2]
    rfl

end

theorem loads_eq_some_iff {value value' : PyJson} (denotes : Denotes text value) :
    loadsWithin maxDigits text = some value' ↔ value' = value ∧ all (fits maxDigits) value = true := by
  constructor
  · intro read
    have more : loadsWithin (max maxDigits (mostDigits value)) text = some value :=
      loads_of_denotes denotes (all_fits value (Nat.le_max_right _ _))
    have same := (loads_mono (Nat.le_max_left _ _) read).symm.trans more
    exact ⟨Option.some.inj same, Option.some.inj same ▸ loads_fits read⟩
  · rintro ⟨rfl, few⟩
    exact loads_of_denotes denotes few

theorem Denotes.trim {text space : PyStr} {pairs : List (PyStr × PyJson)}
    (denotes : Denotes (text ++ space) (.dict pairs)) (spaces : Spaces space) :
    Denotes text (.dict pairs) := by
  have ⟨before, body, behind, left, spells, right, same⟩ := denotes
  have ⟨inside, closed⟩ : ∃ inside, body = inside ++ [.char '}'] := by
    cases spells with
    | number spells =>
      have ⟨_, _, _, last, _, _, _, number⟩ := spells
      cases last <;> exact nomatch number
    | noPairs => exact ⟨_ :: _, by rw [List.cons_append]⟩
    | dict => exact ⟨_ :: _, by rw [List.cons_append]⟩
  have visible : (.char '}' : CodePoint) ∉ space := fun member =>
    absurd (spaces _ member) (by decide)
  rw [closed, ← List.append_assoc, List.append_assoc _ [_]] at same
  rcases List.append_eq_append_iff.mp same with ⟨rest, split, tail⟩ | ⟨rest, split, tail⟩
  · have within : (.char '}' : CodePoint) ∈ space := by
      rw [tail]
      simp
    exact absurd within visible
  · cases rest with
    | nil =>
      rw [List.nil_append] at tail
      exact absurd (tail ▸ List.mem_cons_self) visible
    | cons point rest =>
      rw [List.singleton_append, List.cons_append] at tail
      have parts := List.cons.inj tail
      refine ⟨before, body, rest, left, spells, fun point member => right point ?_, ?_⟩
      · exact parts.2 ▸ List.mem_append_left _ member
      · rw [split, closed, ← parts.1]
        simp

theorem loads_cut {text rest : PyStr} {pairs pairs' : List (PyStr × PyJson)}
    (denotes : Denotes (text ++ rest) (.dict pairs)) :
    loadsWithin maxDigits text = some (.dict pairs') ↔
      pairs' = pairs ∧ Spaces rest ∧ allPairs (fits maxDigits) pairs = true := by
  constructor
  · intro read
    have more := loads_mono (Nat.le_max_left maxDigits (mostDigits (.dict pairs))) read
    have whole : loadsWithin (max maxDigits (mostDigits (.dict pairs))) (text ++ rest) =
        some (.dict pairs) :=
      loads_of_denotes denotes (all_fits _ (Nat.le_max_right _ _))
    have ⟨same, spaces⟩ := (loads_append more).mp whole
    have pairs_eq := PyJson.dict.inj same
    have few := loads_fits read
    rw [← same, all] at few
    exact ⟨pairs_eq.symm, spaces, few⟩
  · rintro ⟨rfl, spaces, few⟩
    exact loads_of_denotes (denotes.trim spaces) (by rwa [all])

end AutoTrade.PyJson
