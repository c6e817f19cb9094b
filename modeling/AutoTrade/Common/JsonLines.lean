import AutoTrade.Common.Json
import AutoTrade.Common.Lines

/-!
# Logs of JSON lines

A log is appended to one object a line and read back with
`[json.loads(line) for line in text.splitlines() if line.strip()]`.
`splitlines` breaks at three characters that `json.dumps` leaves as they are, so
a log is read back exactly when no string in it holds one of them.
-/

namespace AutoTrade

/-- The fields of an object. -/
abbrev JsonObject := List (Text × Json)

namespace JsonLines

open Json

/-- The line breaks that stand unescaped in a JSON text. -/
def isRawBreak (c : Char) : Bool := c ∈ ['\u0085', '\u2028', '\u2029']

/-- A text the program makes itself (an id, a time) or checks as a name. -/
structure Token where
  text : Text
  filled : stripText text ≠ []
  plain : text.any isRawBreak = false

theorem Token.ne_nil (token : Token) : token.text ≠ [] := by
  intro empty
  have filled := token.filled
  rw [empty] at filled
  exact filled rfl

/-- A string of the object holds a line break that is not escaped. -/
def breaksLine (fields : JsonObject) : Bool :=
  (strings (obj fields)).any fun s => s.any isRawBreak

def dumpLine (fields : JsonObject) : Text := dumps (obj fields) ++ ['\n']

def dumpLines (records : List JsonObject) : Text := records.flatMap dumpLine

/-- The object a text is, if it is one. -/
def loadObject (line : Text) : Option JsonObject :=
  match loads line with
  | some (obj fields) => some fields
  | _ => none

/-- How a line is read: an object's text is read back, and no shorter one. -/
structure LineReader where
  load : Text → Option JsonObject
  reads : ∀ fields, load (dumps (obj fields)) = some fields
  cut : ∀ {fields x y}, dumps (obj fields) = x ++ y → y ≠ [] → load x = none

/-- The objects of a log, none when a line is not one. -/
def loadLines (reader : LineReader) (t : Text) : Option (List JsonObject) :=
  ((splitLines t).filter fun line => stripText line ≠ []).mapM reader.load

/-- A fold over the objects of a log, read line by line; `bad` is the error of a
    line that is not one. -/
def foldLines {ε σ : Type} (reader : LineReader) (bad : ε) (f : σ → JsonObject → Except ε σ)
    (s : σ) (t : Text) : Except ε σ :=
  ((splitLines t).filter fun line => stripText line ≠ []).foldlM
    (fun s line => match reader.load line with
      | none => .error bad
      | some fields => f s fields) s

theorem rawBreak_spec {c : Char} : isRawBreak c = true ↔ isLineBreak c = true ∧ 127 < c.toNat := by
  constructor
  · intro raw
    have every : ∀ c ∈ ['\u0085', '\u2028', '\u2029'], isLineBreak c = true ∧ 127 < c.toNat :=
      List.all_iff_forall_prop.mp (by decide)
    exact every c (by simpa [isRawBreak] using raw)
  · rintro ⟨breaks, raw⟩
    have every : ∀ c ∈ ['\n', '\r', '\x0b', '\x0c', '\x1c', '\x1d', '\x1e', '\u0085', '\u2028',
        '\u2029'], 127 < c.toNat → isRawBreak c = true := List.all_iff_forall_prop.mp (by decide)
    exact every c (by simpa [isLineBreak] using breaks) raw

variable {fields : JsonObject}

theorem mem_dumps_break {c : Char} (written : c ∈ dumps (obj fields))
    (breaks : isLineBreak c = true) : 32 ≤ c.toNat ∧ breaksLine fields = true := by
  rcases mem_dumps written with plain | ⟨visible, s, inside, held⟩
  · have every : ∀ c ∈ ['\n', '\r', '\x0b', '\x0c', '\x1c', '\x1d', '\x1e', '\u0085', '\u2028',
        '\u2029'], ¬ Printable c := List.all_iff_forall_prop.mp (by decide)
    exact absurd plain (every c (by simpa [isLineBreak] using breaks))
  · have every : ∀ c ∈ ['\n', '\r', '\x0b', '\x0c', '\x1c', '\x1d', '\x1e', '\u0085', '\u2028',
        '\u2029'], 32 ≤ c.toNat → isRawBreak c = true := List.all_iff_forall_prop.mp (by decide)
    have raw : isRawBreak c = true := every c (by simpa [isLineBreak] using breaks) visible
    exact ⟨visible, List.any_eq_true.mpr ⟨s, inside, List.any_eq_true.mpr ⟨c, held, raw⟩⟩⟩

theorem isTextBreak_eq_false {c : Char} (written : c ∈ dumps (obj fields)) :
    isTextBreak c = false := by
  apply Bool.eq_false_iff.mpr
  intro breaks
  have known : c = '\n' ∨ c = '\r' := by simpa [isTextBreak] using breaks
  have line : isLineBreak c = true := by
    rcases known with rfl | rfl <;> decide
  have visible := (mem_dumps_break written line).1
  rcases known with rfl | rfl <;> exact absurd visible (by decide)

theorem loadObject_dumps (fields : JsonObject) : loadObject (dumps (obj fields)) = some fields := by
  unfold loadObject
  rw [loads_dumps]

theorem loadObject_short {x y : Text} (text : dumps (obj fields) = x ++ y) (cut : y ≠ []) :
    loadObject x = none := by
  unfold loadObject
  rw [loads_short text cut]

/-- `json.loads(line)`. -/
def plainReader : LineReader := ⟨loadObject, loadObject_dumps, loadObject_short⟩

theorem loadObject_strip_dumps (fields : JsonObject) :
    loadObject (stripText (dumps (obj fields))) = some fields := by
  obtain ⟨body, text⟩ := dumps_obj fields
  rw [text, stripText_eq_self (by decide) (by decide), ← text, loadObject_dumps]

theorem loadObject_strip_short {x y : Text} (text : dumps (obj fields) = x ++ y) (cut : y ≠ []) :
    loadObject (stripText x) = none := by
  obtain ⟨body, opened⟩ := dumps_obj fields
  have brace : isSpace '{' = false := by decide
  cases x with
  | nil => rfl
  | cons c x =>
    rw [opened, List.cons_append] at text
    obtain ⟨rfl, -⟩ := List.cons.inj text
    have left : ('{' :: x).dropWhile isSpace = '{' :: x :=
      List.dropWhile_cons_of_neg (by simp [brace])
    -- what the right side loses was space at the end of the prefix
    have parts := List.takeWhile_append_dropWhile (p := isSpace) (l := ('{' :: x).reverse)
    have kept : '{' :: x = stripText ('{' :: x) ++
        (('{' :: x).reverse.takeWhile isSpace).reverse := by
      unfold stripText
      rw [left, ← List.reverse_append, parts, List.reverse_reverse]
    have whole : dumps (obj fields) = stripText ('{' :: x) ++
        ((('{' :: x).reverse.takeWhile isSpace).reverse ++ y) := by
      rw [← List.append_assoc, ← kept, opened]
      exact text
    exact loadObject_short whole (List.append_ne_nil_of_right_ne_nil _ cut)

/-- `json.loads(line.strip())`. -/
def strippedReader : LineReader :=
  ⟨fun line => loadObject (stripText line), loadObject_strip_dumps, loadObject_strip_short⟩

theorem stripText_brace (rest : Text) : stripText ('{' :: rest) ≠ [] := by
  intro empty
  have brace : isSpace '{' = false := by decide
  have kept : ((('{' :: rest).dropWhile isSpace).reverse.dropWhile isSpace) = [] := by
    simpa [stripText] using empty
  rw [List.dropWhile_cons_of_neg (by simp [brace]), List.dropWhile_eq_nil_iff] at kept
  exact absurd (kept '{' (by simp)) (by simp [brace])

section

variable {reader : LineReader}

theorem loadLines_cons {line rest : Text} (plain : ∀ c ∈ line, isLineBreak c = false) {c : Char}
    (breaks : isLineBreak c = true) (other : c ≠ '\r') (filled : stripText line ≠ []) :
    loadLines reader (line ++ c :: rest) = (reader.load line).bind fun fields =>
      (loadLines reader rest).map (fields :: ·) := by
  unfold loadLines
  rw [splitLines_append plain breaks other, List.filter_cons_of_pos (by simpa using filled),
    List.mapM_cons]
  cases reader.load line with
  | none => rfl
  | some fields =>
    cases ((splitLines rest).filter fun line => stripText line ≠ []).mapM reader.load <;> rfl

variable {fields : JsonObject}

theorem loadLines_dumpLine (whole : breaksLine fields = false) (rest : Text) :
    loadLines reader (dumpLine fields ++ rest) = (loadLines reader rest).map (fields :: ·) := by
  have plain : ∀ c ∈ dumps (obj fields), isLineBreak c = false := by
    intro c written
    by_contra breaks
    rw [Bool.not_eq_false] at breaks
    rw [(mem_dumps_break written breaks).2] at whole
    cases whole
  have filled : stripText (dumps (obj fields)) ≠ [] := by
    obtain ⟨body, text⟩ := dumps_obj fields
    rw [text]
    exact stripText_brace _
  have text : dumpLine fields ++ rest = dumps (obj fields) ++ '\n' :: rest := by
    simp [dumpLine]
  rw [text, loadLines_cons plain (by decide) (by decide) filled, reader.reads]
  rfl

variable {records : List JsonObject}

theorem loadLines_append (whole : ∀ fields ∈ records, breaksLine fields = false) (rest : Text) :
    loadLines reader (dumpLines records ++ rest) =
      (loadLines reader rest).map (records ++ ·) := by
  induction records with
  | nil => simp [dumpLines]
  | cons fields records ih =>
    have later := ih fun fields' member => whole fields' (List.mem_cons_of_mem fields member)
    have text : dumpLines (fields :: records) ++ rest =
        dumpLine fields ++ (dumpLines records ++ rest) := by
      simp [dumpLines]
    rw [text, loadLines_dumpLine (whole fields List.mem_cons_self), later, Option.map_map]
    rfl

theorem loadLines_dumpLines (whole : ∀ fields ∈ records, breaksLine fields = false) :
    loadLines reader (dumpLines records) = some records := by
  have read : loadLines reader (dumpLines records ++ []) = _ := loadLines_append whole []
  rw [List.append_nil] at read
  rw [read]
  simp [loadLines, splitLines]

theorem loadLines_cut (broken : breaksLine fields = true) (rest : Text) :
    loadLines reader (dumpLine fields ++ rest) = none := by
  obtain ⟨s, inside, held⟩ := List.any_eq_true.mp broken
  obtain ⟨c, inText, raw⟩ := List.any_eq_true.mp held
  obtain ⟨breaks, high⟩ := rawBreak_spec.mp raw
  have written : c ∈ dumps (obj fields) := raw_mem_dumps high inside inText
  obtain ⟨b, first⟩ : ∃ b, (dumps (obj fields)).find? isLineBreak = some b :=
    Option.isSome_iff_exists.mp (List.find?_isSome.mpr ⟨c, written, breaks⟩)
  obtain ⟨breaks', x, y, text, plain⟩ := List.find?_eq_some_iff_append.mp first
  have visible := (mem_dumps_break (List.mem_of_find?_eq_some first) breaks').1
  have other : b ≠ '\r' := by
    rintro rfl
    exact absurd visible (by decide)
  have filled : stripText x ≠ [] := by
    obtain ⟨body, opened⟩ := dumps_obj fields
    cases x with
    | nil =>
      rw [opened, List.nil_append] at text
      obtain ⟨rfl, -⟩ := List.cons.inj text
      exact absurd breaks' (by decide)
    | cons d x =>
      rw [opened, List.cons_append] at text
      obtain ⟨rfl, -⟩ := List.cons.inj text
      exact stripText_brace x
  have split : dumpLine fields ++ rest = x ++ b :: (y ++ '\n' :: rest) := by
    simp [dumpLine, text]
  rw [split, loadLines_cons (fun d member => by simpa using plain d member) breaks' other filled,
    reader.cut text (List.cons_ne_nil b y)]
  rfl

theorem loadLines_broken (member : fields ∈ records) (broken : breaksLine fields = true)
    (rest : Text) :
    loadLines reader (dumpLines records ++ rest) = none := by
  induction records with
  | nil => cases member
  | cons first records ih =>
    have text : dumpLines (first :: records) ++ rest =
        dumpLine first ++ (dumpLines records ++ rest) := by
      simp [dumpLines]
    rw [text]
    cases here : breaksLine first with
    | true => exact loadLines_cut here _
    | false =>
      have later : fields ∈ records := by
        rcases List.mem_cons.mp member with rfl | later
        · rw [broken] at here
          cases here
        · exact later
      rw [loadLines_dumpLine here, ih later]
      rfl

variable {ε σ : Type} {bad : ε} {f : σ → JsonObject → Except ε σ}

theorem foldLines_of_load {t : Text} (read : loadLines reader t = some records) (s : σ) :
    foldLines reader bad f s t = records.foldlM f s := by
  unfold loadLines at read
  unfold foldLines
  generalize (splitLines t).filter (fun line => stripText line ≠ []) = lines at read ⊢
  induction lines generalizing records s with
  | nil =>
    obtain rfl : [] = records := by simpa using read
    rfl
  | cons line lines ih =>
    rw [List.mapM_cons] at read
    simp only [Option.bind_eq_bind, Option.bind_eq_some_iff] at read
    obtain ⟨fields, first, records', later, same⟩ := read
    obtain rfl : fields :: records' = records := by simpa using same
    rw [List.foldlM_cons, List.foldlM_cons, first]
    exact bind_congr fun s' => ih s' later

theorem foldLines_of_not_load {t : Text} (unread : loadLines reader t = none) (s : σ) :
    ∃ e, foldLines reader bad f s t = .error e := by
  unfold loadLines at unread
  unfold foldLines
  generalize (splitLines t).filter (fun line => stripText line ≠ []) = lines at unread ⊢
  induction lines generalizing s with
  | nil => simp at unread
  | cons line lines ih =>
    rw [List.foldlM_cons]
    cases first : reader.load line with
    | none => exact ⟨bad, rfl⟩
    | some fields =>
      cases step : f s fields with
      | error e => exact ⟨e, by simp [bind, Except.bind, step]⟩
      | ok s' =>
        have later : lines.mapM reader.load = none := by
          cases rest : lines.mapM reader.load with
          | none => rfl
          | some records => simp [List.mapM_cons, first, rest] at unread
        obtain ⟨e, failed⟩ := ih s' later
        exact ⟨e, by simpa [bind, Except.bind, step] using failed⟩

end

end JsonLines

end AutoTrade
