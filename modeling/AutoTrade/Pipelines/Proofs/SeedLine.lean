import AutoTrade.Pipelines.SeedReplicates

/-!
# What a seed line reads

Where a line that is white space but for its last part reads as that part does, and why nothing
else may stand before it: what reads on from a space there is a comment, or the annotation.
-/

namespace AutoTrade

namespace SeedReplicates

open Scan

variable {tables : CharTables} {st st' : Scan} {c : Char} {t u n v k g : Text}

/-- What a line assigns that is read on from there. -/
def readFrom (tables : CharTables) (st : Scan) (line : Text) : Option (Text × Text) :=
  (line.foldlM (Scan.step tables) st).bind Scan.assigns

@[simp] theorem readFrom_nil : readFrom tables st [] = st.assigns := rfl

theorem readFrom_cons : readFrom tables st (c :: t) =
    (st.step tables c).bind fun st => readFrom tables st t := by
  rw [readFrom, List.foldlM_cons]
  cases st.step tables c <;> rfl

theorem readFrom_append : readFrom tables st (t ++ u) =
    (t.foldlM (Scan.step tables) st).bind fun st => readFrom tables st u := by
  rw [readFrom, List.foldlM_append]
  cases t.foldlM (Scan.step tables) st <;> rfl

theorem readFrom_cons_eq_some {r : Text × Text} : readFrom tables st (c :: t) = some r ↔
    ∃ st', st.step tables c = some st' ∧ readFrom tables st' t = some r := by
  rw [readFrom_cons, Option.bind_eq_some_iff]

theorem word_space (space : isSpace c = true) : tables.word c = false :=
  tables.not_word_of_space c space

theorem decimal_space (space : isSpace c = true) : (tables.decimal c).isSome = false := by
  cases digit : (tables.decimal c).isSome with
  | false => rfl
  | true => exact (tables.word_of_decimal c digit).symm.trans (word_space space)

theorem ne_of_space {d : Char} (space : isSpace c = true) (other : isSpace d = false) : c ≠ d := by
  rintro rfl
  rw [space] at other
  cases other

theorem step_space (space : isSpace c = true) (one : c ≠ '\n') :
    st.step tables c = st.step tables ' ' := by
  have blank : isSpace ' ' = true := by decide
  have ne {d : Char} (other : isSpace d = false) : c ≠ d := ne_of_space space other
  cases st <;>
    simp [Scan.step, space, blank, one, word_space, decimal_space,
      ne (by decide : isSpace 'n' = false), ne (by decide : isSpace 't' = false)]

/-- Where a line is read on after a space that follows something. -/
def Rests : Scan → Prop
  | named _ | colon _ | int3 _ | assigned _ | done _ _ | comment _ _ => True
  | _ => False

theorem Rests.space (rests : Rests st) : st.step tables ' ' = some st := by
  have blank : isSpace ' ' = true := by decide
  cases st with
  | lead | name | int1 | int2 | signed | value => cases rests
  | comment => rfl
  | named | colon | int3 | assigned | done => simp [Scan.step, blank]

theorem rests_of_step (step : st.step tables ' ' = some st') : st = lead ∨ Rests st' := by
  have blank : isSpace ' ' = true := by decide
  cases st with
  | lead => exact .inl rfl
  | int1 | int2 | signed => simp [Scan.step, decimal_space blank] at step
  | name | named | colon | int3 | assigned | value | done | comment =>
    right
    simp [Scan.step, blank, word_space, decimal_space] at step
    subst step
    trivial

theorem lead_of_step (step : st.step tables c = some lead) : st = lead ∧ isSpace c = true := by
  cases st with
  | lead =>
    refine ⟨rfl, ?_⟩
    by_contra visible
    rw [Scan.step, if_neg visible] at step
    split_ifs at step <;> cases step
  | name | named | colon | int1 | int2 | int3 | assigned | signed | value | done | comment =>
    exfalso
    simp only [Scan.step] at step
    split_ifs at step <;> cases step

theorem blank_of_lead (read : t.foldlM (Scan.step tables) st = some lead) :
    st = lead ∧ ∀ c ∈ t, isSpace c = true := by
  induction t generalizing st with
  | nil => exact ⟨Option.some.inj read, by simp⟩
  | cons c t ih =>
    rw [List.foldlM_cons] at read
    obtain ⟨st', step, later⟩ := Option.bind_eq_some_iff.mp read
    obtain ⟨rfl, blank⟩ := ih later
    obtain ⟨rfl, here⟩ := lead_of_step step
    exact ⟨rfl, List.forall_mem_cons.mpr ⟨here, blank⟩⟩

theorem fold_blank (stays : st = lead ∨ Rests st) (blank : ∀ c ∈ t, isSpace c = true)
    (one : '\n' ∉ t) : t.foldlM (Scan.step tables) st = some st := by
  have step : st.step tables ' ' = some st := by
    rcases stays with rfl | rests
    · rfl
    · exact rests.space
  induction t with
  | nil => rfl
  | cons c t ih =>
    obtain ⟨here, later⟩ := List.forall_mem_cons.mp blank
    have newline : c ≠ '\n' := by
      rintro rfl
      exact one List.mem_cons_self
    rw [List.foldlM_cons, step_space here newline, step]
    exact ih later fun member => one (List.mem_cons_of_mem _ member)

theorem readFrom_comment (one : '\n' ∉ t) : readFrom tables (comment n v) t = some (n, v) := by
  induction t with
  | nil => rfl
  | cons c t ih =>
    rw [List.mem_cons, not_or] at one
    rw [readFrom_cons, Scan.step, if_neg (Ne.symm one.1)]
    exact ih one.2

/-- The first character of a text that is not space. -/
def firstVisible (t : Text) : Option Char := t.find? fun c => !isSpace c

theorem readFrom_done {r : Text × Text} (one : '\n' ∉ t) :
    readFrom tables (done n v) t = some r ↔
      (n, v) = r ∧ ∀ c ∈ firstVisible t, c = '#' := by
  induction t with
  | nil => simp [firstVisible, Scan.assigns]
  | cons c t ih =>
    rw [List.mem_cons, not_or] at one
    rw [readFrom_cons, Scan.step]
    cases space : isSpace c with
    | true =>
      have skip : firstVisible (c :: t) = firstVisible t := by simp [firstVisible, space]
      rw [if_pos rfl, skip]
      exact ih one.2
    | false =>
      have here : firstVisible (c :: t) = some c := by simp [firstVisible, space]
      rw [if_neg Bool.false_ne_true, here]
      by_cases hash : c = '#'
      · subst hash
        rw [if_pos rfl, Option.bind_some, readFrom_comment one.2]
        simp
      · simp [hash]

theorem readFrom_assigns {r r' : Text × Text} (assigns : st.assigns = some r) (one : '\n' ∉ t)
    (start : t = [] ∨ t.head? = some ' ') :
    readFrom tables st t = some r' ↔
      r = r' ∧ ((∃ n v, st = comment n v) ∨ ∀ c ∈ firstVisible t, c = '#') := by
  have blank : isSpace ' ' = true := by decide
  cases st with
  | lead | name | named | colon | int1 | int2 | int3 | assigned | signed => cases assigns
  | comment n v =>
    obtain rfl := Option.some.inj assigns
    simp [readFrom_comment one]
  | done n v =>
    obtain rfl := Option.some.inj assigns
    simp [readFrom_done one]
  | value n v =>
    obtain rfl := Option.some.inj assigns
    rcases start with rfl | start
    · simp [Scan.assigns, firstVisible]
    · obtain ⟨rest, rfl⟩ : ∃ rest, t = ' ' :: rest := by
        cases t with
        | nil => cases start
        | cons c t => exact ⟨t, by rw [Option.some.inj start]⟩
      have skip : firstVisible (' ' :: rest) = firstVisible rest := by simp [firstVisible, blank]
      have later : '\n' ∉ rest := fun member => one (List.mem_cons_of_mem _ member)
      rw [readFrom_cons, Scan.step, if_neg (by simp [decimal_space blank]), if_pos blank,
        Option.bind_some, readFrom_done later, skip]
      simp

theorem hash_of_comment (before : ∀ n v, st ≠ comment n v)
    (read : t.foldlM (Scan.step tables) st = some (comment n v)) : '#' ∈ t := by
  induction t generalizing st with
  | nil => exact absurd (Option.some.inj read) (before n v)
  | cons c t ih =>
    by_cases hash : c = '#'
    · rw [hash]
      exact List.mem_cons_self
    rw [List.foldlM_cons] at read
    obtain ⟨st', step, later⟩ := Option.bind_eq_some_iff.mp read
    refine List.mem_cons_of_mem _ (ih (fun n' v' same => ?_) later)
    subst same
    cases st with
    | comment n v => exact before n v rfl
    | lead | name | named | colon | int1 | int2 | int3 | assigned | signed | value | done =>
      simp only [Scan.step, if_neg hash] at step
      split_ifs at step <;> cases step

theorem comment_stays {st' : Scan} (read : t.foldlM (Scan.step tables) (comment n v) = some st') :
    st' = comment n v := by
  induction t with
  | nil => exact (Option.some.inj read).symm
  | cons c t ih =>
    rw [List.foldlM_cons, Scan.step] at read
    split_ifs at read with newline
    · cases read
    · exact ih read

theorem comment_of_hash {st' : Scan} (hash : '#' ∈ t)
    (read : t.foldlM (Scan.step tables) st = some st') : ∃ n v, st' = comment n v := by
  have word : tables.word '#' = false := by
    rw [tables.word_ascii '#' (by decide)]
    decide
  have decimal : (tables.decimal '#').isSome = false := by
    rw [tables.decimal_ascii '#' (by decide)]
    decide
  have blank : isSpace '#' = false := by decide
  have start : isNameStart '#' = false := by decide
  induction t generalizing st with
  | nil => cases hash
  | cons c t ih =>
    rw [List.foldlM_cons] at read
    obtain ⟨st₁, step, later⟩ := Option.bind_eq_some_iff.mp read
    rcases List.mem_cons.mp hash with rfl | member
    · cases st with
      | comment n v =>
        obtain rfl := Option.some.inj step
        exact ⟨n, v, comment_stays later⟩
      | value n v | done n v =>
        simp only [Scan.step, decimal, blank] at step
        obtain rfl := Option.some.inj step
        exact ⟨n, v, comment_stays later⟩
      | lead | name | named | colon | int1 | int2 | int3 | assigned | signed =>
        simp [Scan.step, word, decimal, blank, start] at step
    · exact ih member later

/-- The name a line assigns to, once it is read to its end. -/
def nameOf : Scan → Option Text
  | lead | name _ => none
  | named n | colon n | int1 n | int2 n | int3 n | assigned n | signed n _ | value n _ | done n _
  | comment n _ => some n

theorem nameOf_step (named : nameOf st = some n) (step : st.step tables c = some st') :
    nameOf st' = some n := by
  cases st with
  | lead | name => cases named
  | named | colon | int1 | int2 | int3 | assigned | signed | value | done | comment =>
    obtain rfl := Option.some.inj named
    simp only [Scan.step] at step
    split_ifs at step <;> cases step <;> rfl

theorem name_of_readFrom (named : nameOf st = some n) (read : readFrom tables st t = some (k, g)) :
    k = n := by
  induction t generalizing st with
  | nil =>
    cases st with
    | lead | name | named | colon | int1 | int2 | int3 | assigned | signed => cases read
    | value | done | comment =>
      obtain rfl := Option.some.inj named
      exact (Prod.mk.inj (Option.some.inj read)).1.symm
  | cons c t ih =>
    obtain ⟨st', step, later⟩ := readFrom_cons_eq_some.mp read
    exact ih (nameOf_step named step) later

theorem first_of_readFrom (read : readFrom tables lead t = some (k, g)) :
    ∃ blank c rest, t = blank ++ c :: rest ∧ (∀ d ∈ blank, isSpace d = true) ∧
      isSpace c = false ∧ isNameStart c = true ∧ readFrom tables (name [c]) rest = some (k, g) := by
  induction t with
  | nil => cases read
  | cons c t ih =>
    obtain ⟨st', step, later⟩ := readFrom_cons_eq_some.mp read
    rw [Scan.step] at step
    split_ifs at step with space start
    · obtain rfl := Option.some.inj step
      obtain ⟨blank, d, rest, rfl, spaces, visible, begins, reads⟩ := ih later
      exact ⟨c :: blank, d, rest, rfl, List.forall_mem_cons.mpr ⟨space, spaces⟩, visible, begins,
        reads⟩
    · obtain rfl := Option.some.inj step
      exact ⟨[], c, t, rfl, by simp, by simpa using space, start, later⟩

theorem decimal_nameStart (start : isNameStart c = true) : (tables.decimal c).isSome = false := by
  have ascii : c.toNat < 128 ∧ c.isDigit = false := by
    have letter : c.isAlpha = (decide (c.val ≥ 'A'.val ∧ c.val ≤ 'Z'.val) ||
        (decide (c.val ≥ 'a'.val) && decide (c.val ≤ 'z'.val))) := rfl
    have digit : c.isDigit = (decide (c.val ≥ '0'.val) && decide (c.val ≤ '9'.val)) := rfl
    simp only [isNameStart, letter, digit, Bool.or_eq_true, Bool.and_eq_true, decide_eq_true_eq,
      UInt32.le_iff_toNat_le, Bool.and_eq_false_iff, decide_eq_false_iff_not, ge_iff_le] at start ⊢
    rcases start with (upper | lower) | rfl
    · have : c.toNat = c.val.toNat := rfl
      simp at upper ⊢
      omega
    · have : c.toNat = c.val.toNat := rfl
      simp at lower ⊢
      omega
    · decide
  rw [tables.decimal_ascii c ascii.1, ascii.2]
  rfl

theorem comment_or_colon (rests : Rests st) (start : isNameStart c = true)
    (visible : isSpace c = false) (step : st.step tables c = some st') :
    (∃ n v, st = comment n v) ∨ ∃ n, st = colon n ∧ c = 'i' ∧ st' = int1 n := by
  have ne {d : Char} (other : isNameStart d = false) : c ≠ d := by
    rintro rfl
    rw [start] at other
    cases other
  have colon' : c ≠ ':' := ne (by decide)
  have equals : c ≠ '=' := ne (by decide)
  have plus : c ≠ '+' := ne (by decide)
  have minus : c ≠ '-' := ne (by decide)
  have hash : c ≠ '#' := ne (by decide)
  cases st with
  | lead | name | int1 | int2 | signed | value => cases rests
  | comment n v => exact .inl ⟨n, v, rfl⟩
  | colon n =>
    right
    rw [Scan.step, if_neg (by simp [visible])] at step
    split_ifs at step with i
    exact ⟨n, rfl, i, (Option.some.inj step).symm⟩
  | named | int3 | assigned | done =>
    simp [Scan.step, visible, colon', equals, plus, minus, hash, decimal_nameStart start] at step

theorem name_int {r : Text × Text} (read : readFrom tables (name ['i']) t = some (k, g))
    (reads : readFrom tables (int1 n) (t ++ u) = some r) : k = "int".toList := by
  have word {c : Char} (ascii : c.toNat < 128) (letter : c.isAlphanum = true) :
      tables.word c = true := by
    rw [tables.word_ascii c ascii, letter]
    rfl
  rcases t with _ | ⟨c, t⟩
  · cases read
  obtain ⟨st, step, reads⟩ := readFrom_cons_eq_some.mp reads
  rw [Scan.step] at step
  split_ifs at step with first
  subst first
  obtain rfl := Option.some.inj step
  rw [readFrom_cons, Scan.step, if_pos (word (by decide) (by decide)), Option.bind_some] at read
  rcases t with _ | ⟨c, t⟩
  · cases read
  obtain ⟨st, step, reads⟩ := readFrom_cons_eq_some.mp reads
  rw [Scan.step] at step
  split_ifs at step with second
  subst second
  obtain rfl := Option.some.inj step
  rw [readFrom_cons, Scan.step, if_pos (word (by decide) (by decide)), Option.bind_some] at read
  rcases t with _ | ⟨c, t⟩
  · cases read
  obtain ⟨st, step, -⟩ := readFrom_cons_eq_some.mp reads
  obtain ⟨st', step', later⟩ := readFrom_cons_eq_some.mp read
  have ended : nameOf st' = some "int".toList := by
    rw [Scan.step] at step
    split_ifs at step with space equals
    · rw [Scan.step, if_neg (by simp [word_space space]), if_pos space] at step'
      rw [← Option.some.inj step']
      rfl
    · subst equals
      have other : tables.word '=' = false := by
        rw [tables.word_ascii '=' (by decide)]
        decide
      rw [Scan.step, if_neg (by simp [other]), if_neg (by decide), if_neg (by decide),
        if_pos rfl] at step'
      rw [← Option.some.inj step']
      rfl
  exact name_of_readFrom ended later

theorem blank_before {pre l l' post : Text} {r r' : Text × Text}
    (closed : pre = [] ∨ ∃ t, pre = t ++ [' ']) (one : '\n' ∉ pre ++ l ++ post)
    (one' : '\n' ∉ pre ++ l' ++ post)
    (seed : seedLine tables l = some (k, g)) (isSeed : isSeedName k = true)
    (read : seedLine tables (pre ++ l ++ post) = some r)
    (read' : seedLine tables (pre ++ l' ++ post) = some r') (differ : r ≠ r') :
    pre.foldlM (Scan.step tables) lead = some lead := by
  rcases closed with rfl | ⟨t, rfl⟩
  · rfl
  have readPre : readFrom tables lead (t ++ [' '] ++ (l ++ post)) = some r := by
    rw [← List.append_assoc]
    exact read
  have readPre' : readFrom tables lead (t ++ [' '] ++ (l' ++ post)) = some r' := by
    rw [← List.append_assoc]
    exact read'
  rw [readFrom_append] at readPre readPre'
  obtain ⟨st, here, rest⟩ := Option.bind_eq_some_iff.mp readPre
  rw [here, Option.bind_some] at readPre'
  rw [here]
  rw [List.foldlM_append] at here
  obtain ⟨st₀, before, last⟩ := Option.bind_eq_some_iff.mp here
  rw [List.foldlM_cons] at last
  obtain ⟨st₁, step, same⟩ := Option.bind_eq_some_iff.mp last
  obtain rfl := Option.some.inj same
  rcases rests_of_step step with rfl | rests
  · exact step.symm
  exfalso
  -- what stands there rests on a space, and a name begins
  obtain ⟨blank, c, more, rfl, spaces, visible, start, name⟩ := first_of_readFrom seed
  have skipped : '\n' ∉ blank := fun member => one (by simp [member])
  have named := rest
  rw [List.append_assoc, readFrom_append, fold_blank (.inr rests) spaces skipped,
    Option.bind_some] at named
  obtain ⟨st₂, stepped, named⟩ := readFrom_cons_eq_some.mp named
  rcases comment_or_colon rests start visible stepped with ⟨n, v, rfl⟩ | ⟨n, rfl, rfl, rfl⟩
  · have later {l : Text} (one : '\n' ∉ t ++ [' '] ++ l ++ post) : '\n' ∉ l ++ post := by
      intro member
      rw [List.append_assoc] at one
      exact one (List.mem_append_right _ member)
    rw [readFrom_comment (later one)] at rest
    rw [readFrom_comment (later one')] at readPre'
    exact differ (Option.some.inj (rest.symm.trans readPre'))
  · obtain rfl := name_int name named
    revert isSeed
    decide

open SourceLine

/-- What stands before a line, and after it, when each break is read as a space. -/
def leading (earlier : List Text) : Text := earlier.flatMap (· ++ [' '])

def trailing (later : List Text) : Text := later.flatMap (' ' :: ·)

theorem joinTexts_cons (l : Text) (later : List Text) :
    joinTexts ' ' (l :: later) = l ++ trailing later := by
  induction later generalizing l with
  | nil => simp [joinTexts, trailing]
  | cons l' later ih =>
    have next := ih l'
    unfold joinTexts at next ⊢
    rw [List.intercalate_cons_cons, next]
    simp [trailing]

theorem joinTexts_append (earlier : List Text) (l : Text) (later : List Text) :
    joinTexts ' ' (earlier ++ l :: later) = leading earlier ++ l ++ trailing later := by
  cases earlier with
  | nil => exact joinTexts_cons l later
  | cons first earlier =>
    rw [List.cons_append, joinTexts_cons]
    induction earlier generalizing first with
    | nil => simp [leading, trailing]
    | cons second earlier ih =>
      have next := ih second
      simp only [leading, trailing, List.flatMap_cons, List.flatMap_append, List.cons_append,
        List.append_assoc, List.nil_append] at next ⊢
      rw [next]

/-- A break, read as a space. -/
def spaced (c : Char) : Char := if isLineBreak c then ' ' else c

theorem map_spaced {content ending : Text} (within : ∀ c ∈ content, isTextBreak c = false)
    (one : splitLines ending = [] ∨ splitLines ending = [[]]) :
    content.map spaced = joinTexts ' ' (splitLines (content ++ ending)) ∨
      content.map spaced = joinTexts ' ' (splitLines (content ++ ending)) ++ [' '] := by
  induction content with
  | nil =>
    left
    rcases one with none | one
    · rw [List.nil_append, none]
      rfl
    · rw [List.nil_append, one]
      rfl
  | cons c content ih =>
    obtain ⟨here, later⟩ := List.forall_mem_cons.mp within
    have joined := ih later
    rw [List.cons_append, List.map_cons]
    cases breaks : isLineBreak c with
    | true =>
      rw [splitLines_break breaks (carriage_of_plain here), spaced, if_pos breaks]
      cases read : splitLines (content ++ ending) with
      | nil =>
        obtain ⟨rfl, -⟩ := List.append_eq_nil_iff.mp (splitLines_eq_nil.mp read)
        exact .inr rfl
      | cons first lines =>
        rw [read, joinTexts_cons] at joined
        rw [joinTexts_cons]
        simpa [trailing] using joined
    | false =>
      rw [splitLines_cons breaks, spaced, breaks]
      cases read : splitLines (content ++ ending) with
      | nil =>
        obtain ⟨rfl, -⟩ := List.append_eq_nil_iff.mp (splitLines_eq_nil.mp read)
        exact .inl rfl
      | cons first lines =>
        rw [read, joinTexts_cons] at joined
        rw [joinTexts_cons]
        simpa using joined

theorem readFrom_spaced (within : ∀ c ∈ t, isTextBreak c = false) :
    readFrom tables st (t.map spaced) = readFrom tables st t := by
  induction t generalizing st with
  | nil => rfl
  | cons c t ih =>
    obtain ⟨here, later⟩ := List.forall_mem_cons.mp within
    have step : st.step tables (spaced c) = st.step tables c := by
      unfold spaced
      split_ifs with breaks
      · have space : isSpace c = true := by
          simp only [isLineBreak, isSpace, List.mem_cons, List.not_mem_nil, or_false,
            decide_eq_true_eq] at breaks ⊢
          tauto
        have newline : c ≠ '\n' := by
          rintro rfl
          cases here
        exact (step_space space newline).symm
      · rfl
    rw [List.map_cons, readFrom_cons, readFrom_cons, step]
    cases st.step tables c with
    | none => rfl
    | some st' => exact ih later

theorem seedLine_append_space (t : Text) : seedLine tables (t ++ [' ']) = seedLine tables t := by
  have last (st : Scan) : readFrom tables st [' '] = st.assigns := by
    have blank : isSpace ' ' = true := by decide
    cases st <;> simp [readFrom_cons, Scan.step, blank, word_space, decimal_space, Scan.assigns]
  show readFrom tables lead (t ++ [' ']) = readFrom tables lead t
  rw [readFrom_append, funext last]
  rfl

theorem seedLine_lines {line : Text × Text} (plain : SourceLine.Plain line) :
    seedLine tables line.1 = seedLine tables (joinTexts ' ' (lines line)) := by
  have one : splitLines line.2 = [] ∨ splitLines line.2 = [[]] := by
    have known := plain.ended
    simp only [List.mem_cons, List.not_mem_nil, or_false] at known
    rcases known with same | same | same | same
    · exact .inl (by rw [same]; rfl)
    · exact .inr (by rw [same]; rfl)
    · exact .inr (by rw [same]; rfl)
    · exact .inr (by rw [same]; rfl)
  have read : seedLine tables (line.1.map spaced) = seedLine tables line.1 :=
    readFrom_spaced plain.within
  rw [← read]
  rcases map_spaced plain.within one with joined | joined
  · rw [joined]
    rfl
  · rw [joined, seedLine_append_space]
    rfl

end SeedReplicates

end AutoTrade
