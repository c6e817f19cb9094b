import AutoTrade.Common.JsonLines

/-!
# What stands between the strings of a JSON text

Outside its strings a JSON text holds a few plain characters, no backslash among them.
So a text read from the middle of a string on has its strings where the first text had
none, and they hold nothing but those characters: a piece of an object's text is never
read as an object with a key that is not spelled in them.
-/

namespace AutoTrade

namespace JsonScan

open Json JsonLines

/-- The characters outside the strings of a JSON text. -/
def isStructural (c : Char) : Bool := c ∈ " ,:[]{}0123456789+-.eEnultrfas".toList

theorem structural_numberChar {c : Char} (h : isNumberChar c = true) : isStructural c = true := by
  have every : ∀ c ∈ "0123456789+-.eE".toList, isStructural c = true :=
    List.all_eq_true.mp (by decide)
  exact every c (by simpa [isNumberChar] using h)

theorem not_structural_of_high {c : Char} (high : 127 < c.toNat) : isStructural c = false := by
  have every : ∀ c ∈ " ,:[]{}0123456789+-.eEnultrfas".toList, c.toNat ≤ 127 :=
    List.all_iff_forall_prop.mp (by decide)
  by_contra structural
  rw [Bool.not_eq_false] at structural
  have bound := every c (by simpa [isStructural] using structural)
  omega

theorem ne_of_structural {c d : Char} (structural : isStructural c = true)
    (other : isStructural d = false) : c ≠ d := by
  rintro rfl
  rw [structural] at other
  cases other

/-- A text a reader takes in, with the strings it finds in it. -/
inductive Spelled : Text → List Text → Prop where
  | nil : Spelled [] []
  | plain {c : Char} {t : Text} {ss : List Text} (structural : isStructural c = true)
      (later : Spelled t ss) : Spelled (c :: t) ss
  | quoted {s body t : Text} {ss : List Text}
      (read : ∀ rest, readString (body ++ '"' :: rest) = some (s, rest)) (later : Spelled t ss) :
      Spelled ('"' :: (body ++ '"' :: t)) (s :: ss)

theorem Spelled.append {t u : Text} {ss ss' : List Text} (first : Spelled t ss)
    (second : Spelled u ss') : Spelled (t ++ u) (ss ++ ss') := by
  induction first with
  | nil => exact second
  | plain structural _ ih => exact .plain structural ih
  | quoted read _ ih =>
    rw [List.cons_append, List.append_assoc, List.cons_append, List.cons_append]
    exact .quoted read ih

variable {t : Text}

theorem Spelled.of_structural (structural : ∀ c ∈ t, isStructural c = true) : Spelled t [] := by
  induction t with
  | nil => exact .nil
  | cons c t ih =>
    exact .plain (structural c List.mem_cons_self) (ih fun d member =>
      structural d (List.mem_cons_of_mem c member))

theorem Spelled.last {t : Text} {ss : List Text} (spelled : Spelled t ss) {c : Char}
    (ends : t.getLast? = some c) : isStructural c = true ∨ c = '"' := by
  induction spelled with
  | nil => cases ends
  | @plain d t ss structural _ ih =>
    cases t with
    | nil =>
      obtain rfl : d = c := by simpa using ends
      exact .inl structural
    | cons e t => exact ih (by simpa [List.getLast?_cons_cons] using ends)
  | @quoted s body t ss _ _ ih =>
    have split : '"' :: (body ++ '"' :: t) = ('"' :: body) ++ '"' :: t := rfl
    rw [split, List.getLast?_append] at ends
    cases t with
    | nil =>
      right
      simpa using ends.symm
    | cons e t => exact ih (by simpa [List.getLast?_cons_cons] using ends)

/-- How a part of a text is taken in. -/
def Takes {α : Type} (stringsOf : α → List Text) (read : Text → Option (α × Text)) : Prop :=
  ∀ t a left, read t = some (a, left) → ∃ used, t = used ++ left ∧ Spelled used (stringsOf a)

theorem eat_takes {literal t left : Text} (h : eat literal t = some left) : t = literal ++ left := by
  induction literal generalizing t with
  | nil => cases t <;> simpa [eat] using h
  | cons c literal ih =>
    cases t with
    | nil => cases h
    | cons d t =>
      rw [eat] at h
      split_ifs at h with same
      rw [ih h, same]
      rfl

theorem readString_takes {t s left : Text} (h : readString t = some (s, left)) :
    ∃ body, t = body ++ '"' :: left ∧ ∀ rest, readString (body ++ '"' :: rest) = some (s, rest) := by
  induction t using readString.induct generalizing s with
  | case1 => cases h
  | case2 rest =>
    obtain ⟨rfl, rfl⟩ : [] = s ∧ rest = left := by simpa [readString] using h
    exact ⟨[], rfl, fun _ => rfl⟩
  | case3 a b rest ih =>
    simp only [readString, Option.bind_eq_bind, Option.bind_eq_some_iff] at h
    obtain ⟨high, first, low, second, ⟨s', left'⟩, read, same⟩ := h
    simp only [Option.some.injEq, Prod.mk.injEq] at same
    obtain ⟨rfl, rfl⟩ := same
    obtain ⟨body, rfl, again⟩ := ih read
    refine ⟨'\\' :: 'u' :: '0' :: '0' :: a :: b :: body, rfl, fun rest => ?_⟩
    simp only [List.cons_append, readString, first, second, again, Option.bind_eq_bind,
      Option.bind_some]
  | case4 c rest notHex ih =>
    rw [readString] at h
    · simp only [Option.bind_eq_bind, Option.bind_eq_some_iff] at h
      obtain ⟨d, short, ⟨s', left'⟩, read, same⟩ := h
      simp only [Option.some.injEq, Prod.mk.injEq] at same
      obtain ⟨rfl, rfl⟩ := same
      have noShort : unescape 'u' = none := by decide
      have other : c ≠ 'u' := by
        rintro rfl
        rw [noShort] at short
        cases short
      obtain ⟨body, rfl, again⟩ := ih read
      refine ⟨'\\' :: c :: body, rfl, fun rest => ?_⟩
      rw [List.cons_append, List.cons_append, readString]
      · simp only [short, again, Option.bind_eq_bind, Option.bind_some]
      · intro a b rest' hex
        exact absurd hex other
    · exact notHex
  | case5 c rest notQuote notHex notEscape control =>
    rw [readString] at h
    · simp [control] at h
    · exact notQuote
    · exact notHex
    · exact notEscape
  | case6 c rest notQuote notHex notEscape printable ih =>
    rw [readString] at h
    · simp only [if_neg printable, Option.bind_eq_bind, Option.bind_eq_some_iff] at h
      obtain ⟨⟨s', left'⟩, read, same⟩ := h
      simp only [Option.some.injEq, Prod.mk.injEq] at same
      obtain ⟨rfl, rfl⟩ := same
      have plain : c ≠ '\\' := by
        rintro rfl
        cases rest with
        | nil => cases read
        | cons d rest => exact notEscape d rest rfl rfl
      obtain ⟨body, rfl, again⟩ := ih read
      refine ⟨c :: body, rfl, fun rest => ?_⟩
      rw [List.cons_append, readString]
      · simp only [if_neg printable, again, Option.bind_eq_bind, Option.bind_some]
      · exact notQuote
      · intro a b rest' slash
        exact absurd slash plain
      · intro d rest' slash
        exact absurd slash plain
    · exact notQuote
    · exact notHex
    · exact notEscape

section

variable {α : Type} {stringsOf : α → List Text} {element : Text → Option (α × Text)} {close : Char}

theorem readRest_takes (closes : isStructural close = true) (each : Takes stringsOf element)
    (fuel : Nat) : Takes (fun as => as.flatMap stringsOf) (readRest element close fuel) := by
  induction fuel with
  | zero =>
    intro t as left h
    cases h
  | succ fuel ih =>
    intro t as left h
    unfold readRest at h
    split at h
    · simp only [Option.bind_eq_bind, Option.bind_eq_some_iff] at h
      obtain ⟨⟨a, t'⟩, first, ⟨as', left'⟩, later, same⟩ := h
      simp only [Option.some.injEq, Prod.mk.injEq] at same
      obtain ⟨rfl, rfl⟩ := same
      obtain ⟨used, rfl, spelled⟩ := each _ _ _ first
      obtain ⟨used', rfl, spelled'⟩ := ih _ _ _ later
      refine ⟨',' :: ' ' :: (used ++ used'), by simp, ?_⟩
      change Spelled _ (stringsOf a ++ as'.flatMap stringsOf)
      exact .plain (by decide) (.plain (by decide) (spelled.append spelled'))
    · rename_i c rest _
      split_ifs at h with here
      obtain ⟨rfl, rfl⟩ := Prod.mk.inj (Option.some.inj h)
      exact ⟨[c], rfl, .plain (here ▸ closes) .nil⟩
    · cases h

theorem readElements_takes (closes : isStructural close = true) (each : Takes stringsOf element) :
    Takes (fun as => as.flatMap stringsOf) (readElements element close) := by
  intro t as left h
  unfold readElements at h
  split_ifs at h with here
  · obtain ⟨rfl, rfl⟩ := Prod.mk.inj (Option.some.inj h)
    cases t with
    | nil => cases here
    | cons c t =>
      obtain rfl := Option.some.inj here
      exact ⟨[c], rfl, .plain closes .nil⟩
  · simp only [Option.bind_eq_bind, Option.bind_eq_some_iff] at h
    obtain ⟨⟨a, t'⟩, first, ⟨as', left'⟩, later, same⟩ := h
    simp only [Option.some.injEq, Prod.mk.injEq] at same
    obtain ⟨rfl, rfl⟩ := same
    obtain ⟨used, rfl, spelled⟩ := each _ _ _ first
    obtain ⟨used', rfl, spelled'⟩ := readRest_takes closes each _ _ _ _ later
    refine ⟨used ++ used', by simp, ?_⟩
    change Spelled _ (stringsOf a ++ as'.flatMap stringsOf)
    exact spelled.append spelled'

end

theorem readNumber_takes : Takes (fun _ => []) readNumber := by
  intro t n left h
  unfold readNumber at h
  split_ifs at h
  obtain ⟨rfl, rfl⟩ := Prod.mk.inj (Option.some.inj h)
  refine ⟨_, List.takeWhile_append_dropWhile.symm, .of_structural fun c member => ?_⟩
  exact structural_numberChar (List.mem_takeWhile_imp member)

/-- The strings of a field: its name and those of its value. -/
def fieldStrings (field : Text × Json) : List Text := field.1 :: strings field.2

theorem readField_takes {value : Text → Option (Json × Text)} (each : Takes strings value) :
    Takes fieldStrings (readField value) := by
  intro t field left h
  simp only [readField, Option.bind_eq_bind, Option.bind_eq_some_iff] at h
  obtain ⟨a, opened, ⟨key, b⟩, named, c, colon, ⟨v, d⟩, valued, same⟩ := h
  simp only [Option.some.injEq, Prod.mk.injEq] at same
  obtain ⟨rfl, rfl⟩ := same
  obtain ⟨body, rfl, again⟩ := readString_takes named
  obtain ⟨used, rfl, spelled⟩ := each _ _ _ valued
  have colonText : b = [':', ' '] ++ (used ++ d) := eat_takes colon
  rw [eat_takes opened, colonText]
  refine ⟨'"' :: (body ++ '"' :: ':' :: ' ' :: used), by simp, ?_⟩
  exact .quoted again (.plain (by decide) (.plain (by decide) spelled))

theorem strings_arr (items : List Json) : strings (arr items) = items.flatMap strings := by
  simp only [strings]
  induction items with
  | nil => rfl
  | cons v items ih => rw [stringsOfItems, ih, List.flatMap_cons]

theorem strings_obj (fields : List (Text × Json)) :
    strings (obj fields) = fields.flatMap fieldStrings := by
  simp only [strings]
  induction fields with
  | nil => rfl
  | cons field fields ih =>
    rw [stringsOfFields, ih, List.flatMap_cons, fieldStrings, List.cons_append]

theorem readValue_takes (fuel : Nat) : Takes strings (readValue fuel) := by
  induction fuel with
  | zero =>
    intro t v left h
    cases h
  | succ fuel ih =>
    intro t v left h
    cases t with
    | nil => cases h
    | cons c rest =>
      rw [readValue] at h
      split_ifs at h with quote n t f bracket brace
      · obtain ⟨⟨s, left'⟩, read, same⟩ := Option.map_eq_some_iff.mp h
        obtain ⟨rfl, rfl⟩ := Prod.mk.inj same
        obtain ⟨body, rfl, again⟩ := readString_takes read
        exact ⟨'"' :: (body ++ ['"']), by simp [quote], .quoted again .nil⟩
      · obtain ⟨left', read, same⟩ := Option.map_eq_some_iff.mp h
        obtain ⟨rfl, rfl⟩ := Prod.mk.inj same
        exact ⟨"null".toList, by rw [n, eat_takes read]; rfl,
          .of_structural (List.all_eq_true.mp (by decide))⟩
      · obtain ⟨left', read, same⟩ := Option.map_eq_some_iff.mp h
        obtain ⟨rfl, rfl⟩ := Prod.mk.inj same
        exact ⟨"true".toList, by rw [t, eat_takes read]; rfl,
          .of_structural (List.all_eq_true.mp (by decide))⟩
      · obtain ⟨left', read, same⟩ := Option.map_eq_some_iff.mp h
        obtain ⟨rfl, rfl⟩ := Prod.mk.inj same
        exact ⟨"false".toList, by rw [f, eat_takes read]; rfl,
          .of_structural (List.all_eq_true.mp (by decide))⟩
      · obtain ⟨⟨items, left'⟩, read, same⟩ := Option.map_eq_some_iff.mp h
        obtain ⟨rfl, rfl⟩ := Prod.mk.inj same
        obtain ⟨used, rfl, spelled⟩ := readElements_takes (by decide) ih _ _ _ read
        exact ⟨'[' :: used, by rw [bracket]; rfl, .plain (by decide) (strings_arr items ▸ spelled)⟩
      · obtain ⟨⟨fields, left'⟩, read, same⟩ := Option.map_eq_some_iff.mp h
        obtain ⟨rfl, rfl⟩ := Prod.mk.inj same
        obtain ⟨used, rfl, spelled⟩ :=
          readElements_takes (by decide) (readField_takes ih) _ _ _ read
        exact ⟨'{' :: used, by rw [brace]; rfl, .plain (by decide) (strings_obj fields ▸ spelled)⟩
      · obtain ⟨⟨n', left'⟩, read, same⟩ := Option.map_eq_some_iff.mp h
        obtain ⟨rfl, rfl⟩ := Prod.mk.inj same
        exact readNumber_takes _ _ _ read

theorem loads_spelled {v : Json} (h : loads t = some v) : Spelled t (strings v) := by
  unfold loads at h
  split at h
  · rename_i value read
    obtain rfl := Option.some.inj h
    obtain ⟨used, rfl, spelled⟩ := readValue_takes _ _ _ _ read
    rwa [List.append_nil]
  · cases h

/-- Where a scan stands: between strings, in one, or past a backslash in one. -/
inductive Scan where
  | outside | inside | escaped
  deriving DecidableEq

def Scan.step : Scan → Char → Scan
  | outside, c => if c = '"' then inside else outside
  | inside, c => if c = '"' then outside else if c = '\\' then escaped else inside
  | escaped, _ => inside

/-- Where a scan stands after a text. -/
def scan (s : Scan) (t : Text) : Scan := t.foldl Scan.step s

/-- Between strings there are plain characters and quotes only. -/
def quiet : Scan → Text → Bool
  | _, [] => true
  | s, c :: t => (s ≠ .outside || c = '"' || isStructural c) && quiet (s.step c) t

theorem scan_append (s : Scan) (t u : Text) : scan s (t ++ u) = scan (scan s t) u :=
  List.foldl_append

theorem quiet_append (s : Scan) (t u : Text) :
    quiet s (t ++ u) = (quiet s t && quiet (scan s t) u) := by
  induction t generalizing s with
  | nil => rfl
  | cons c t ih => simp [quiet, ih, scan, Bool.and_assoc]

/-- A text that is scanned from `s` back to `s`. -/
def Rounds (s : Scan) (t : Text) : Prop := scan s t = s ∧ quiet s t = true

theorem Rounds.append {s : Scan} {t u : Text} (first : Rounds s t) (second : Rounds s u) :
    Rounds s (t ++ u) := by
  refine ⟨?_, ?_⟩
  · rw [scan_append, first.1, second.1]
  · rw [quiet_append, first.1, first.2, second.2]
    rfl

theorem Rounds.cons {c : Char} {t : Text} (structural : isStructural c = true)
    (later : Rounds .outside t) : Rounds .outside (c :: t) := by
  have other : c ≠ '"' := ne_of_structural structural (by decide)
  refine ⟨?_, ?_⟩
  · show scan (Scan.step .outside c) t = _
    rw [Scan.step, if_neg other, later.1]
  · simp [quiet, structural, Scan.step, other, later.2]

theorem Rounds.of_structural (structural : ∀ c ∈ t, isStructural c = true) : Rounds .outside t := by
  induction t with
  | nil => exact ⟨rfl, rfl⟩
  | cons c t ih =>
    exact .cons (structural c List.mem_cons_self) (ih fun d member =>
      structural d (List.mem_cons_of_mem c member))

theorem rounds_hexDigit {n : Nat} (h : n < 16) : Rounds .inside [hexDigit n] := by
  have every : ∀ n < 16, scan .inside [hexDigit n] = .inside ∧ quiet .inside [hexDigit n] = true := by
    decide
  exact every n h

theorem rounds_escapeChar (c : Char) : Rounds .inside (escapeChar c) := by
  unfold escapeChar
  split_ifs with quote slash newline carriage tab backspace feed control
  · exact ⟨by decide, by decide⟩
  · exact ⟨by decide, by decide⟩
  · exact ⟨by decide, by decide⟩
  · exact ⟨by decide, by decide⟩
  · exact ⟨by decide, by decide⟩
  · exact ⟨by decide, by decide⟩
  · exact ⟨by decide, by decide⟩
  · have opening : Rounds .inside ['\\', 'u', '0', '0'] := ⟨by decide, by decide⟩
    exact (opening.append (rounds_hexDigit (by omega))).append (rounds_hexDigit (by omega))
  · exact ⟨by simp [scan, Scan.step, quote, slash], by simp [quiet]⟩

theorem rounds_dumpString (s : Text) : Rounds .outside (dumpString s) := by
  have body : Rounds .inside (s.flatMap escapeChar) := by
    induction s with
    | nil => exact ⟨rfl, rfl⟩
    | cons c s ih => exact (rounds_escapeChar c).append ih
  refine ⟨?_, ?_⟩
  · show scan .inside (s.flatMap escapeChar ++ ['"']) = _
    rw [scan_append, body.1]
    rfl
  · show quiet .inside (s.flatMap escapeChar ++ ['"']) = true
    rw [quiet_append, body.1, body.2]
    rfl

theorem rounds_dumpRest {α : Type} {write : α → Text} {close : Char} {as : List α}
    (closes : isStructural close = true) (each : ∀ a ∈ as, Rounds .outside (write a)) :
    Rounds .outside (dumpRest write close as) := by
  induction as with
  | nil => exact .cons closes ⟨rfl, rfl⟩
  | cons a as ih =>
    have later := ih fun b member => each b (List.mem_cons_of_mem a member)
    exact .cons (by decide) (.cons (by decide) ((each a List.mem_cons_self).append later))

theorem rounds_dumpField {field : Text × Json} (value : Rounds .outside (dumps field.2)) :
    Rounds .outside (dumpField field) :=
  (rounds_dumpString field.1).append (.cons (by decide) (.cons (by decide) value))

theorem rounds_dumps (v : Json) : Rounds .outside (dumps v) := by
  induction v using Json.induct with
  | null => exact .of_structural (List.all_eq_true.mp (by decide))
  | bool b => cases b <;> exact .of_structural (List.all_eq_true.mp (by decide))
  | num n => exact .of_structural fun c member => structural_numberChar (n.plain c member)
  | str s => exact rounds_dumpString s
  | arr items each =>
    cases items with
    | nil => exact .of_structural (List.all_eq_true.mp (by decide))
    | cons v items =>
      rw [dumps_arr_cons]
      refine .cons (by decide) ((each v List.mem_cons_self).append ?_)
      exact rounds_dumpRest (by decide) fun w member => each w (List.mem_cons_of_mem v member)
  | obj fields each =>
    cases fields with
    | nil => exact .of_structural (List.all_eq_true.mp (by decide))
    | cons field fields =>
      rw [dumps_obj_cons]
      refine .cons (by decide) ((rounds_dumpField (each field List.mem_cons_self)).append ?_)
      exact rounds_dumpRest (by decide) fun other member =>
        rounds_dumpField (each other (List.mem_cons_of_mem field member))

theorem quiet_after {s : Scan} {a y : Text} {b : Char} (whole : quiet s (a ++ b :: y) = true)
    (plain : isStructural b = false) (quote : b ≠ '"') (slash : b ≠ '\\') :
    quiet .inside y = true := by
  rw [quiet_append] at whole
  have later := (Bool.and_eq_true_iff.mp whole).2
  cases stands : scan s a with
  | outside => simp [stands, quiet, quote, plain] at later
  | inside => simpa [stands, quiet, Scan.step, quote, slash] using later
  | escaped => simpa [stands, quiet, Scan.step] using later

theorem scan_space (space : ∀ c ∈ t, isSpace c = true) : scan .inside t = .inside := by
  induction t with
  | nil => rfl
  | cons c t ih =>
    have here := space c List.mem_cons_self
    have quote : c ≠ '"' := by
      rintro rfl
      exact absurd here (by decide)
    have slash : c ≠ '\\' := by
      rintro rfl
      exact absurd here (by decide)
    show scan (Scan.step .inside c) t = _
    rw [Scan.step, if_neg quote, if_neg slash]
    exact ih fun d member => space d (List.mem_cons_of_mem c member)

theorem quiet_stripText (inside : quiet .inside t = true) : quiet .inside (stripText t) = true := by
  have left : quiet .inside (t.dropWhile isSpace) = true := by
    rw [← List.takeWhile_append_dropWhile (p := isSpace) (l := t), quiet_append,
      scan_space fun c member => List.mem_takeWhile_imp member] at inside
    exact (Bool.and_eq_true_iff.mp inside).2
  obtain ⟨rest, whole⟩ : stripText t <+: t.dropWhile isSpace := List.rdropWhile_prefix isSpace _
  rw [← whole, quiet_append] at left
  exact (Bool.and_eq_true_iff.mp left).1

theorem plain_string {body t s : Text} (whole : quiet .outside (body ++ '"' :: t) = true)
    (read : ∀ rest, readString (body ++ '"' :: rest) = some (s, rest)) :
    (∀ c ∈ s, isStructural c = true) ∧ quiet .inside t = true := by
  induction body generalizing s with
  | nil =>
    obtain ⟨rfl, -⟩ := Prod.mk.inj (Option.some.inj (read []))
    exact ⟨by simp, by simpa [quiet, Scan.step] using whole⟩
  | cons c body ih =>
    simp only [List.cons_append, quiet, Bool.and_eq_true] at whole
    obtain ⟨here, later⟩ := whole
    by_cases quote : c = '"'
    · -- the reader would have stopped here
      have stopped := read []
      rw [quote, List.cons_append, readString] at stopped
      simp at stopped
    · have structural : isStructural c = true := by simpa [quote] using here
      rw [Scan.step, if_neg quote] at later
      have slash : c ≠ '\\' := ne_of_structural structural (by decide)
      have printable : ¬ c.toNat < 32 := by
        have every : ∀ c ∈ " ,:[]{}0123456789+-.eEnultrfas".toList, ¬ c.toNat < 32 :=
          List.all_iff_forall_prop.mp (by decide)
        exact every c (by simpa [isStructural] using structural)
      have each : ∀ rest, ∃ s', readString (body ++ '"' :: rest) = some (s', rest) ∧ s = c :: s' := by
        intro rest
        have text := read rest
        rw [List.cons_append, readString] at text
        · simp only [if_neg printable, Option.bind_eq_bind, Option.bind_eq_some_iff] at text
          obtain ⟨⟨s', left⟩, inner, same⟩ := text
          simp only [Option.some.injEq, Prod.mk.injEq] at same
          obtain ⟨rfl, rfl⟩ := same
          exact ⟨s', inner, rfl⟩
        · exact quote
        · intro a b rest' clash
          exact absurd clash slash
        · intro d rest' clash
          exact absurd clash slash
      obtain ⟨s', -, rfl⟩ := each []
      have again : ∀ rest, readString (body ++ '"' :: rest) = some (s', rest) := by
        intro rest
        obtain ⟨s'', inner, same⟩ := each rest
        obtain ⟨-, rfl⟩ := List.cons.inj same
        exact inner
      obtain ⟨strings, rest⟩ := ih later again
      refine ⟨fun d member => ?_, rest⟩
      rcases List.mem_cons.mp member with rfl | member
      · exact structural
      · exact strings d member

theorem Spelled.plain_of_inside {ss : List Text} (spelled : Spelled t ss)
    (inside : quiet .inside t = true) : ∀ s ∈ ss, ∀ c ∈ s, isStructural c = true := by
  induction spelled with
  | nil => simp
  | @plain c t ss structural _ ih =>
    have quote : c ≠ '"' := ne_of_structural structural (by decide)
    have slash : c ≠ '\\' := ne_of_structural structural (by decide)
    exact ih (by simpa [quiet, Scan.step, quote, slash] using inside)
  | @quoted s body t ss read _ ih =>
    have opened : quiet .outside (body ++ '"' :: t) = true := by
      simpa [quiet, Scan.step] using inside
    obtain ⟨plain, rest⟩ := plain_string opened read
    intro other member
    rcases List.mem_cons.mp member with rfl | member
    · exact plain
    · exact ih rest other member

theorem key_plain_of_inside {fields : JsonObject} (h : loads t = some (obj fields))
    (inside : quiet .inside t = true) : ∀ field ∈ fields, ∀ c ∈ field.1, isStructural c = true := by
  intro field member
  refine (loads_spelled h).plain_of_inside inside field.1 ?_
  rw [strings_obj]
  exact List.mem_flatMap.mpr ⟨field, member, List.mem_cons_self⟩

theorem loads_of_last {c : Char} (ends : t.getLast? = some c) (plain : isStructural c = false)
    (quote : c ≠ '"') : loads t = none := by
  cases read : loads t with
  | none => rfl
  | some v =>
    rcases (loads_spelled read).last ends with structural | same
    · rw [structural] at plain
      cases plain
    · exact absurd same quote

end JsonScan

end AutoTrade
