import AutoTrade.Common.CodePoint

/-!
# Reading JSON

`json.loads` of a string, read one code point after another: the containers that are open, and what
is expected next. Numbers are kept as they are written, and the pairs of an object as they come. A
value that is read to its end is followed by whitespace alone, so no text that goes on after an
object is read as the object.
-/

namespace AutoTrade

/-- What `json.loads` reads. A number keeps its text; `constant` is `NaN` or an infinity. -/
inductive PyJson where
  | null
  | bool (value : Bool)
  | int (token : Text)
  | float (token : Text)
  | constant (name : Text)
  | str (value : PyStr)
  | list (items : List PyJson)
  | dict (pairs : List (PyStr × PyJson))

namespace PyJson

open CodePoint (ofText)

/-- A string that is being read: a high surrogate that an escape has just given may yet be joined
with a low one. -/
structure StringState where
  read : PyStr
  high : Option (Fin 1024)

/-- A code unit of the surrogates. -/
def highUnit (a : Fin 1024) : CodePoint := .surrogate ⟨a, by omega⟩

def lowUnit (b : Fin 1024) : CodePoint := .surrogate ⟨1024 + b, by omega⟩

/-- The character of two surrogates. -/
def joined (a b : Fin 1024) : CodePoint := .char (Char.ofNat (0x10000 + a * 1024 + b))

namespace StringState

def empty : StringState := ⟨[], none⟩

/-- What has been read, when no low surrogate follows. -/
def text (s : StringState) : PyStr := s.read ++ (s.high.map highUnit).toList

def add (s : StringState) (point : CodePoint) : StringState := ⟨s.text ++ [point], none⟩

theorem low_lt {u : Nat} (low : 0xDC00 ≤ u ∧ u < 0xE000) : u - 0xDC00 < 1024 := by omega

/-- A code unit that an escape gives. -/
def addUnit (s : StringState) (u : Nat) : StringState :=
  if high : 0xD800 ≤ u ∧ u < 0xDC00 then ⟨s.text, some ⟨u - 0xD800, by omega⟩⟩
  else if low : 0xDC00 ≤ u ∧ u < 0xE000 then
    match s.high with
    | some a => ⟨s.read ++ [joined a ⟨u - 0xDC00, low_lt low⟩], none⟩
    | none => s.add (lowUnit ⟨u - 0xDC00, low_lt low⟩)
  else s.add (.char (Char.ofNat u))

end StringState

/-- Where inside an escape a string is. -/
inductive Escape where
  | no
  | backslash
  | hex (left value : Nat)

def escaped : Char → Option Char
  | '"' => some '"'
  | '\\' => some '\\'
  | '/' => some '/'
  | 'b' => some '\x08'
  | 'f' => some '\x0c'
  | 'n' => some '\n'
  | 'r' => some '\r'
  | 't' => some '\t'
  | _ => none

def hexDigit (c : Char) : Option Nat :=
  if '0' ≤ c ∧ c ≤ '9' then some (c.toNat - 48)
  else if 'a' ≤ c ∧ c ≤ 'f' then some (c.toNat - 87)
  else if 'A' ≤ c ∧ c ≤ 'F' then some (c.toNat - 55)
  else none

inductive Phase where
  | minus
  | zero
  | digits
  | dot
  | fraction
  | exponent
  | exponentSign
  | exponentDigits
  deriving DecidableEq

def isDigit (c : Char) : Bool := '0' ≤ c && c ≤ '9'

/-- The phase a number begins in. -/
def Phase.start (c : Char) : Option Phase :=
  if c = '-' then some .minus
  else if c = '0' then some .zero
  else if isDigit c then some .digits
  else none

/-- How a number goes on. -/
def Phase.next (phase : Phase) (c : Char) : Option Phase :=
  match phase with
  | .minus => if c = '0' then some .zero else if isDigit c then some .digits else none
  | .zero => if c = '.' then some .dot else if c = 'e' ∨ c = 'E' then some .exponent else none
  | .digits =>
    if isDigit c then some .digits
    else if c = '.' then some .dot
    else if c = 'e' ∨ c = 'E' then some .exponent
    else none
  | .dot => if isDigit c then some .fraction else none
  | .fraction =>
    if isDigit c then some .fraction
    else if c = 'e' ∨ c = 'E' then some .exponent
    else none
  | .exponent =>
    if c = '+' ∨ c = '-' then some .exponentSign
    else if isDigit c then some .exponentDigits
    else none
  | .exponentSign => if isDigit c then some .exponentDigits else none
  | .exponentDigits => if isDigit c then some .exponentDigits else none

/-- The number that a text is, by the phase it ends in. -/
def Phase.value (token : Text) : Phase → Option PyJson
  | .zero => some (.int token)
  | .digits => some (.int token)
  | .fraction => some (.float token)
  | .exponentDigits => some (.float token)
  | _ => none

/-- Whether `int` reads a number: it refuses one of too many digits. -/
def fits (maxDigits : Nat) : PyJson → Bool
  | .int token => (token.filter isDigit).length ≤ maxDigits
  | _ => true

def Phase.finish (maxDigits : Nat) (token : Text) (phase : Phase) : Option PyJson :=
  (phase.value token).filter (fits maxDigits)

/-- A container that is open: an array, an object, or an object with a key that awaits its value. -/
inductive Frame where
  | items (read : List PyJson)
  | pairs (read : List (PyStr × PyJson))
  | pending (read : List (PyStr × PyJson)) (key : PyStr)

/-- What is expected, or being read, in the innermost container. -/
inductive Mode where
  | value
  | firstItem
  | key
  | firstKey
  | colon (key : PyStr)
  | string (isKey : Bool) (s : StringState) (escape : Escape)
  | number (token : Text) (phase : Phase)
  | literal (value : PyJson) (left : Text)
  | afterItem

inductive State where
  | reading (frames : List Frame) (mode : Mode)
  | done (value : PyJson)

def isSpace : CodePoint → Bool
  | .char c => c = ' ' || c = '\t' || c = '\n' || c = '\r'
  | .surrogate _ => false

/-- A value has been read. -/
def complete (value : PyJson) : List Frame → Option State
  | [] => some (.done value)
  | .items read :: frames => some (.reading (.items (read ++ [value]) :: frames) .afterItem)
  | .pending read key :: frames =>
    some (.reading (.pairs (read ++ [(key, value)]) :: frames) .afterItem)
  | .pairs _ :: _ => none

/-- A code point after a value. -/
def after (state : State) (point : CodePoint) : Option State :=
  match state with
  | .done value => if isSpace point then some (.done value) else none
  | .reading frames .afterItem =>
    if isSpace point then some state
    else
      match frames, point with
      | .items _ :: _, .char ',' => some (.reading frames .value)
      | .items read :: outer, .char ']' => complete (.list read) outer
      | .pairs _ :: _, .char ',' => some (.reading frames .key)
      | .pairs read :: outer, .char '}' => complete (.dict read) outer
      | _, _ => none
  | _ => none

/-- The literal that a character begins, and what is left of it. -/
def literalOf : Char → Option (PyJson × Text)
  | 'n' => some (.null, "ull".toList)
  | 't' => some (.bool true, "rue".toList)
  | 'f' => some (.bool false, "alse".toList)
  | 'N' => some (.constant "NaN".toList, "aN".toList)
  | 'I' => some (.constant "Infinity".toList, "nfinity".toList)
  | _ => none

/-- The mode a value begins with, and the container it opens. -/
def opens (c : Char) : Option (Option Frame × Mode) :=
  match c with
  | '"' => some (none, .string false .empty .no)
  | '[' => some (some (.items []), .firstItem)
  | '{' => some (some (.pairs []), .firstKey)
  | c =>
    match literalOf c with
    | some (value, left) => some (none, .literal value left)
    | none => (Phase.start c).map fun phase => (none, .number [c] phase)

/-- A value begins. -/
def begin' (frames : List Frame) : CodePoint → Option State
  | .surrogate _ => none
  | .char c => (opens c).map fun opened => .reading (opened.1.toList ++ frames) opened.2

/-- A string has been read: a key, or a value. -/
def endString (frames : List Frame) (isKey : Bool) (text : PyStr) : Option State :=
  if isKey then some (.reading frames (.colon text)) else complete (.str text) frames

def stepString (frames : List Frame) (isKey : Bool) (s : StringState) (escape : Escape)
    (point : CodePoint) : Option State :=
  match escape, point with
  | .no, .char '"' => endString frames isKey s.text
  | .no, .char '\\' => some (.reading frames (.string isKey s .backslash))
  | .no, .char c => if c.toNat < 32 then none
      else some (.reading frames (.string isKey (s.add (.char c)) .no))
  | .no, .surrogate offset => some (.reading frames (.string isKey (s.add (.surrogate offset)) .no))
  | .backslash, .char 'u' => some (.reading frames (.string isKey s (.hex 4 0)))
  | .backslash, .char c =>
    (escaped c).map fun d => .reading frames (.string isKey (s.add (.char d)) .no)
  | .hex left value, .char c =>
    (hexDigit c).map fun digit =>
      if left = 1 then .reading frames (.string isKey (s.addUnit (value * 16 + digit)) .no)
      else .reading frames (.string isKey s (.hex (left - 1) (value * 16 + digit)))
  | _, .surrogate _ => none

def stepNumber (maxDigits : Nat) (frames : List Frame) (token : Text) (phase : Phase) (point : CodePoint) :
    Option State :=
  match point.toChar.bind fun c => (phase.next c).map fun next => (c, next) with
  | some (c, next) => some (.reading frames (.number (token ++ [c]) next))
  | none =>
    if phase = .minus ∧ point = .char 'I' then
      some (.reading frames (.literal (.constant "-Infinity".toList) "nfinity".toList))
    else do
      let value ← phase.finish maxDigits token
      let state ← complete value frames
      after state point

def stepLiteral (frames : List Frame) (value : PyJson) (left : Text) (point : CodePoint) :
    Option State :=
  match left with
  | [] => none
  | [c] => if point = .char c then complete value frames else none
  | c :: left => if point = .char c then some (.reading frames (.literal value left)) else none

/-- One code point. -/
def step (maxDigits : Nat) (state : State) (point : CodePoint) : Option State :=
  match state with
  | .reading frames .value => if isSpace point then some state else begin' frames point
  | .reading frames .firstItem =>
    if isSpace point then some state
    else if point = .char ']' then
      match frames with
      | .items [] :: outer => complete (.list []) outer
      | _ => none
    else begin' frames point
  | .reading frames .key =>
    if isSpace point then some state
    else if point = .char '"' then some (.reading frames (.string true .empty .no))
    else none
  | .reading frames .firstKey =>
    if isSpace point then some state
    else if point = .char '"' then some (.reading frames (.string true .empty .no))
    else if point = .char '}' then
      match frames with
      | .pairs [] :: outer => complete (.dict []) outer
      | _ => none
    else none
  | .reading frames (.colon key) =>
    if isSpace point then some state
    else
      match frames, point with
      | .pairs read :: outer, .char ':' => some (.reading (.pending read key :: outer) .value)
      | _, _ => none
  | .reading frames (.string isKey s escape) => stepString frames isKey s escape point
  | .reading frames (.number token phase) => stepNumber maxDigits frames token phase point
  | .reading frames (.literal value left) => stepLiteral frames value left point
  | state => after state point

def run (maxDigits : Nat) (state : State) (text : PyStr) : Option State :=
  text.foldlM (step maxDigits) state

/-- The value of a text that ends here. -/
def finish (maxDigits : Nat) : State → Option PyJson
  | .done value => some value
  | .reading [] (.number token phase) => phase.finish maxDigits token
  | _ => none

def start : State := .reading [] .value

/-- `json.loads`, nothing when it raises, with the most digits that `int` reads. -/
def loadsWithin (maxDigits : Nat) (text : PyStr) : Option PyJson :=
  (run maxDigits start text).bind (finish maxDigits)

/-- `json.loads`. -/
def loads (text : PyStr) : Option PyJson := loadsWithin 4300 text

/-- `record.get(key)`: of pairs with one key the last counts. -/
def get? (key : PyStr) : PyJson → Option PyJson
  | dict pairs => (pairs.reverse.find? fun pair => pair.1 = key).map Prod.snd
  | _ => none

def isDict : PyJson → Bool
  | dict _ => true
  | _ => false

def str? : PyJson → Option PyStr
  | str value => some value
  | _ => none

variable {maxDigits : Nat}

theorem run_nil (state : State) : run maxDigits state [] = some state := rfl

theorem run_cons (state : State) (point : CodePoint) (rest : PyStr) :
    run maxDigits state (point :: rest) = (step maxDigits state point).bind (run maxDigits · rest) := by
  rw [run, List.foldlM_cons]
  rfl

theorem run_append (state : State) (xs ys : PyStr) :
    run maxDigits state (xs ++ ys) = (run maxDigits state xs).bind (run maxDigits · ys) := by
  rw [run, List.foldlM_append]
  rfl

variable {state next : State}

theorem run_append_of {xs : PyStr} (first : run maxDigits state xs = some next) (ys : PyStr) :
    run maxDigits state (xs ++ ys) = run maxDigits next ys := by
  rw [run_append, first, Option.bind_some]

variable {value : PyJson}

theorem run_done {rest : PyStr} {state : State} :
    run maxDigits (.done value) rest = some state ↔
      state = .done value ∧ ∀ point ∈ rest, isSpace point = true := by
  induction rest with
  | nil =>
    rw [run_nil, Option.some.injEq]
    exact ⟨fun same => ⟨same.symm, nofun⟩, fun same => same.1.symm⟩
  | cons point rest ih =>
    rw [run_cons]
    by_cases space : isSpace point = true
    · simp [step, after, space, ih]
    · simp [step, after, space]

variable {phase : Phase} {token : Text}

theorem Phase.finish_eq_some :
    phase.finish maxDigits token = some value ↔
      phase.value token = some value ∧ fits maxDigits value = true := by
  rw [finish, Option.filter_eq_some_iff]

variable {pairs : List (PyStr × PyJson)}

theorem finish_phase_ne_dict : phase.finish maxDigits token ≠ some (.dict pairs) := by
  intro ends
  have number := (Phase.finish_eq_some.mp ends).1
  cases phase <;> exact nomatch number

theorem finish_eq_dict {state : State} :
    finish maxDigits state = some (.dict pairs) ↔ state = .done (.dict pairs) := by
  constructor
  · intro ends
    unfold finish at ends
    split at ends
    · rw [Option.some.inj ends]
    · exact absurd ends finish_phase_ne_dict
    · exact nomatch ends
  · rintro rfl
    rfl

variable {text : PyStr}

theorem loads_eq_dict :
    loadsWithin maxDigits text = some (.dict pairs) ↔
      run maxDigits start text = some (.done (.dict pairs)) := by
  rw [loadsWithin]
  constructor
  · intro read
    have ⟨state, ran, ends⟩ := Option.bind_eq_some_iff.mp read
    rw [ran, finish_eq_dict.mp ends]
  · intro ran
    rw [ran]
    rfl

theorem loads_append {text rest : PyStr} (read : loadsWithin maxDigits text = some (.dict pairs)) :
    loadsWithin maxDigits (text ++ rest) = some value ↔
      value = .dict pairs ∧ ∀ point ∈ rest, isSpace point = true := by
  rw [loadsWithin, run_append_of (loads_eq_dict.mp read)]
  constructor
  · intro whole
    have ⟨state, ran, ends⟩ := Option.bind_eq_some_iff.mp whole
    have ⟨same, spaces⟩ := run_done.mp ran
    rw [same] at ends
    exact ⟨(Option.some.inj ends).symm, spaces⟩
  · intro ⟨same, spaces⟩
    rw [run_done.mpr ⟨rfl, spaces⟩, same]
    rfl

variable {least most : Nat}

theorem Phase.finish_mono (le : least ≤ most) (ends : phase.finish least token = some value) :
    phase.finish most token = some value := by
  have ⟨number, few⟩ := Phase.finish_eq_some.mp ends
  refine Phase.finish_eq_some.mpr ⟨number, ?_⟩
  cases value with
  | int token => exact decide_eq_true (Nat.le_trans (of_decide_eq_true few) le)
  | _ => rfl

variable {point : CodePoint}

theorem step_mono (le : least ≤ most) (goes : step least state point = some next) :
    step most state point = some next := by
  cases state with
  | done value => exact goes
  | reading frames mode =>
    cases mode with
    | number token phase =>
      rw [step, stepNumber] at goes ⊢
      split
      · rename_i further
        rwa [further] at goes
      · rename_i ended
        rw [ended] at goes
        dsimp only at goes
        split
        · rename_i infinite
          rwa [if_pos infinite] at goes
        · rename_i plain
          rw [if_neg plain] at goes
          have ⟨value, ends, rest⟩ := Option.bind_eq_some_iff.mp goes
          exact Option.bind_eq_some_iff.mpr ⟨value, Phase.finish_mono le ends, rest⟩
    | _ => exact goes

theorem loads_mono (le : least ≤ most) (read : loadsWithin least text = some value) :
    loadsWithin most text = some value := by
  have runs : ∀ state next, run least state text = some next → run most state text = some next := by
    clear read
    induction text with
    | nil => exact fun _ _ ran => ran
    | cons point text ih =>
      intro state next ran
      rw [run_cons] at ran ⊢
      have ⟨middle, goes, later⟩ := Option.bind_eq_some_iff.mp ran
      exact Option.bind_eq_some_iff.mpr ⟨middle, step_mono le goes, ih middle next later⟩
  have ⟨state, ran, ends⟩ := Option.bind_eq_some_iff.mp read
  refine Option.bind_eq_some_iff.mpr ⟨state, runs start state ran, ?_⟩
  unfold finish at ends ⊢
  split at ends
  · exact ends
  · exact Phase.finish_mono le ends
  · exact nomatch ends

mutual

/-- Whether every number, text and constant in a value has a property. -/
def all (leaf : PyJson → Bool) : PyJson → Bool
  | list items => allItems leaf items
  | dict pairs => allPairs leaf pairs
  | value => leaf value

def allItems (leaf : PyJson → Bool) : List PyJson → Bool
  | [] => true
  | item :: rest => all leaf item && allItems leaf rest

def allPairs (leaf : PyJson → Bool) : List (PyStr × PyJson) → Bool
  | [] => true
  | (_, value) :: rest => all leaf value && allPairs leaf rest

end

variable {leaf : PyJson → Bool}

@[simp] theorem allItems_append (xs ys : List PyJson) :
    allItems leaf (xs ++ ys) = (allItems leaf xs && allItems leaf ys) := by
  induction xs with
  | nil => simp [allItems]
  | cons x xs ih => simp [allItems, ih, Bool.and_assoc]

@[simp] theorem allPairs_append (xs ys : List (PyStr × PyJson)) :
    allPairs leaf (xs ++ ys) = (allPairs leaf xs && allPairs leaf ys) := by
  induction xs with
  | nil => simp [allPairs]
  | cons x xs ih => simp [allPairs, ih, Bool.and_assoc]

/-- Whether every value that a state holds has a property. -/
def Frame.holds (leaf : PyJson → Bool) : Frame → Bool
  | .items read => allItems leaf read
  | .pairs read => allPairs leaf read
  | .pending read _ => allPairs leaf read

def Mode.holds (leaf : PyJson → Bool) : Mode → Bool
  | .literal spelled _ => all leaf spelled
  | _ => true

def State.holds (leaf : PyJson → Bool) : State → Bool
  | .reading frames mode => frames.all (Frame.holds leaf) && mode.holds leaf
  | .done value => all leaf value

theorem complete_holds {frames : List Frame} {next : State} (fine : all leaf value = true)
    (holds : frames.all (Frame.holds leaf) = true) (completes : complete value frames = some next) :
    next.holds leaf = true := by
  cases frames with
  | nil =>
    rw [← Option.some.inj completes]
    exact fine
  | cons frame frames =>
    rw [List.all_cons, Bool.and_eq_true] at holds
    cases frame with
    | items read =>
      rw [← Option.some.inj completes]
      simpa [State.holds, Frame.holds, Mode.holds, allItems, fine] using holds
    | pending read key =>
      rw [← Option.some.inj completes]
      simpa [State.holds, Frame.holds, Mode.holds, allPairs, fine] using holds
    | pairs read => exact nomatch completes

theorem after_holds (holds : state.holds leaf = true) (goes : after state point = some next) :
    next.holds leaf = true := by
  unfold after at goes
  split at goes
  · split at goes
    · rw [← Option.some.inj goes]
      exact holds
    · exact nomatch goes
  · rename_i frames
    simp only [State.holds, Mode.holds, Bool.and_true] at holds
    split at goes
    · rw [← Option.some.inj goes]
      simpa [State.holds, Mode.holds] using holds
    · split at goes
      · rw [← Option.some.inj goes]
        simpa [State.holds, Mode.holds] using holds
      · rw [List.all_cons, Bool.and_eq_true] at holds
        exact complete_holds (by rw [all]; exact holds.1) holds.2 goes
      · rw [← Option.some.inj goes]
        simpa [State.holds, Mode.holds] using holds
      · rw [List.all_cons, Bool.and_eq_true] at holds
        exact complete_holds (by rw [all]; exact holds.1) holds.2 goes
      · exact nomatch goes
  · exact nomatch goes

theorem step_holds
    (literals : ∀ c value left, literalOf c = some (value, left) → all leaf value = true)
    (infinite : all leaf (.constant "-Infinity".toList) = true)
    (strings : ∀ text, leaf (.str text) = true)
    (numbers : ∀ (phase : Phase) token value, phase.finish maxDigits token = some value →
      all leaf value = true) (holds : state.holds leaf = true)
    (goes : step maxDigits state point = some next) :
    next.holds leaf = true := by
  have begins : ∀ {frames next}, frames.all (Frame.holds leaf) = true →
      begin' frames point = some next → next.holds leaf = true := by
    intro frames next fine goes
    cases point with
    | surrogate offset => exact nomatch goes
    | char c =>
      have ⟨opened, opening, same⟩ := Option.map_eq_some_iff.mp goes
      rw [← same, State.holds, List.all_append, fine, Bool.and_true]
      unfold opens at opening
      split at opening
      · rw [← Option.some.inj opening]; rfl
      · rw [← Option.some.inj opening]; rfl
      · rw [← Option.some.inj opening]; rfl
      · split at opening
        · rename_i value left literal
          rw [← Option.some.inj opening]
          simpa [Mode.holds] using literals c value left literal
        · have ⟨phase, _, same⟩ := Option.map_eq_some_iff.mp opening
          rw [← same]
          rfl
  cases state with
  | done value => exact after_holds holds goes
  | reading frames mode =>
    have fine : frames.all (Frame.holds leaf) = true := by
      rw [State.holds, Bool.and_eq_true] at holds
      exact holds.1
    cases mode with
    | value =>
      rw [step] at goes
      split at goes
      · rwa [← Option.some.inj goes]
      · exact begins fine goes
    | firstItem =>
      simp only [step] at goes
      split at goes
      · rwa [← Option.some.inj goes]
      · split at goes
        · split at goes
          · rw [List.all_cons, Bool.and_eq_true] at fine
            exact complete_holds (by simp [all, allItems]) fine.2 goes
          · exact nomatch goes
        · exact begins fine goes
    | key =>
      simp only [step] at goes
      split at goes
      · rwa [← Option.some.inj goes]
      · split at goes
        · rw [← Option.some.inj goes]
          simpa [State.holds, Mode.holds] using fine
        · exact nomatch goes
    | firstKey =>
      simp only [step] at goes
      split at goes
      · rwa [← Option.some.inj goes]
      · split at goes
        · rw [← Option.some.inj goes]
          simpa [State.holds, Mode.holds] using fine
        · split at goes
          · split at goes
            · rw [List.all_cons, Bool.and_eq_true] at fine
              exact complete_holds (by simp [all, allPairs]) fine.2 goes
            · exact nomatch goes
          · exact nomatch goes
    | colon key =>
      simp only [step] at goes
      split at goes
      · rwa [← Option.some.inj goes]
      · split at goes
        · rw [← Option.some.inj goes]
          simpa [State.holds, Mode.holds, Frame.holds] using fine
        · exact nomatch goes
    | string isKey s escape =>
      have reads : ∀ isKey s escape, (State.reading frames (.string isKey s escape)).holds leaf = true :=
        fun _ _ _ => by simpa [State.holds, Mode.holds] using fine
      simp only [step] at goes
      unfold stepString at goes
      split at goes
      · rw [endString] at goes
        split at goes
        · rw [← Option.some.inj goes]
          simpa [State.holds, Mode.holds] using fine
        · exact complete_holds (by rw [all]; exact strings _; all_goals exact nofun) fine goes
      · rw [← Option.some.inj goes]
        exact reads _ _ _
      · split at goes
        · exact nomatch goes
        · rw [← Option.some.inj goes]
          exact reads _ _ _
      · rw [← Option.some.inj goes]
        exact reads _ _ _
      · rw [← Option.some.inj goes]
        exact reads _ _ _
      · have ⟨d, _, same⟩ := Option.map_eq_some_iff.mp goes
        rw [← same]
        exact reads _ _ _
      · have ⟨digit, _, same⟩ := Option.map_eq_some_iff.mp goes
        rw [← same]
        split
        · exact reads _ _ _
        · exact reads _ _ _
      · exact nomatch goes
    | number token phase =>
      rw [step, stepNumber] at goes
      split at goes
      · rw [← Option.some.inj goes]
        simpa [State.holds, Mode.holds] using fine
      · split at goes
        · rw [← Option.some.inj goes]
          rwa [State.holds, Mode.holds, infinite, Bool.and_true]
        · have ⟨value, ends, rest⟩ := Option.bind_eq_some_iff.mp goes
          have ⟨middle, completes, later⟩ := Option.bind_eq_some_iff.mp rest
          exact after_holds (complete_holds (numbers phase token value ends) fine completes) later
    | literal spelled left =>
      have its : all leaf spelled = true := by
        rw [State.holds, Bool.and_eq_true] at holds
        exact holds.2
      simp only [step] at goes
      unfold stepLiteral at goes
      split at goes
      · exact nomatch goes
      · split at goes
        · exact complete_holds its fine goes
        · exact nomatch goes
      · split at goes
        · rwa [← Option.some.inj goes, State.holds, fine]
        · exact nomatch goes
    | afterItem => exact after_holds holds goes

theorem loads_fits (read : loadsWithin maxDigits text = some value) :
    all (fits maxDigits) value = true := by
  have numbers : ∀ (phase : Phase) token value, phase.finish maxDigits token = some value →
      all (fits maxDigits) value = true := by
    intro phase token value ends
    have ⟨number, fit⟩ := Phase.finish_eq_some.mp ends
    cases phase <;> simp only [Phase.value, Option.some.injEq, reduceCtorEq] at number <;>
      subst number <;> simpa [all] using fit
  have runs : ∀ (text : PyStr) (state next : State), state.holds (fits maxDigits) = true →
      run maxDigits state text = some next → next.holds (fits maxDigits) = true := by
    intro text
    induction text with
    | nil =>
      intro state next holds ran
      rwa [← Option.some.inj ran]
    | cons point text ih =>
      intro state next holds ran
      rw [run_cons] at ran
      have ⟨middle, goes, later⟩ := Option.bind_eq_some_iff.mp ran
      refine ih middle next (step_holds ?_ rfl (fun _ => rfl) numbers holds goes) later
      intro c value left literal
      unfold literalOf at literal
      split at literal <;> simp only [Option.some.injEq, Prod.mk.injEq, reduceCtorEq] at literal
      all_goals rw [← literal.1]; rfl
  have ⟨state, ran, ends⟩ := Option.bind_eq_some_iff.mp read
  have holds := runs text start state rfl ran
  unfold finish at ends
  split at ends
  · rw [← Option.some.inj ends]
    exact holds
  · exact numbers _ _ _ ends
  · exact nomatch ends

end PyJson

end AutoTrade
