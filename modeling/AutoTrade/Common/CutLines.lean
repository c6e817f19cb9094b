import AutoTrade.Common.SourceLines

/-!
# Lines of a text that was cut

The lines of the start of a text are those of the text, but for the last, which may be cut; and what
`strip` leaves of a text that was cut.
-/

namespace AutoTrade

/-- A text that is empty or ends with a break. -/
def Ended (t : Text) : Prop := ∀ c ∈ t.getLast?, isLineBreak c = true

variable {t : Text} {c : Char}

theorem Ended.tail (ended : Ended (c :: t)) : Ended t := by
  intro d last
  refine ended d ?_
  rw [List.getLast?_cons, Option.mem_def.mp last]
  rfl

theorem splitLines_break_cons (breaks : isLineBreak c = true) (rest : Text) :
    ∃ later, splitLines (c :: rest) = [] :: later := by
  by_cases pair : c = '\r' ∧ ∃ rest', rest = '\n' :: rest'
  · have ⟨carriage, rest', same⟩ := pair
    rw [carriage, same]
    exact ⟨splitLines rest', rfl⟩
  · refine ⟨splitLines rest, ?_⟩
    rw [splitLines]
    · simp [breaks]
    · intro rest' carriage same
      exact pair ⟨carriage, rest', same⟩

theorem splitLines_break_append (breaks : isLineBreak c = true)
    (alone : ∀ rest, c = '\r' → t = '\n' :: rest → False) (filled : t ≠ []) (rest : Text) :
    splitLines (c :: (t ++ rest)) = [] :: splitLines (t ++ rest) := by
  rw [splitLines]
  · simp [breaks]
  · intro rest' carriage same
    cases t with
    | nil => exact filled rfl
    | cons d t =>
      have first := List.head_eq_of_cons_eq same
      exact alone t carriage (by rw [first])

theorem splitLines_cut (filled : t ≠ []) (rest : Text) :
    ∃ lines cut more later, splitLines t = lines ++ [cut] ∧
      splitLines (t ++ rest) = lines ++ (cut ++ more) :: later := by
  fun_induction splitLines t with
  | case1 => exact absurd rfl filled
  | case2 t ih =>
    by_cases none : t = []
    · rw [none]
      exact ⟨[], [], [], splitLines rest, rfl, rfl⟩
    · obtain ⟨lines, cut, more, later, first, whole⟩ := ih none
      refine ⟨[] :: lines, cut, more, later, by rw [first]; rfl, ?_⟩
      rw [List.cons_append, List.cons_append, splitLines, whole]
      rfl
  | case3 c t alone breaks ih =>
    by_cases none : t = []
    · obtain ⟨later, whole⟩ := splitLines_break_cons breaks rest
      rw [none]
      exact ⟨[], [], [], later, rfl, whole⟩
    · obtain ⟨lines, cut, more, later, first, whole⟩ := ih none
      refine ⟨[] :: lines, cut, more, later, by rw [first]; rfl, ?_⟩
      rw [List.cons_append, splitLines_break_append breaks alone none, whole]
      rfl
  | case4 c t alone plain none ih =>
    have one : t = [] := splitLines_eq_nil.mp none
    have inside : isLineBreak c = false := by simpa using plain
    rw [one, List.cons_append, List.nil_append, splitLines_cons inside]
    cases splitLines rest with
    | nil => exact ⟨[], [c], [], [], rfl, rfl⟩
    | cons line lines => exact ⟨[], [c], line, lines, rfl, rfl⟩
  | case5 c t alone plain line lines read ih =>
    have inside : isLineBreak c = false := by simpa using plain
    have some : t ≠ [] := by
      intro none
      rw [none] at read
      cases read
    obtain ⟨lines', cut, more, later, first, whole⟩ := ih some
    rw [read] at first
    rw [List.cons_append, splitLines_cons inside, whole]
    cases lines' with
    | nil =>
      obtain ⟨same, alone⟩ := List.cons.inj first
      exact ⟨[], c :: cut, more, later, by rw [same, alone]; rfl, rfl⟩
    | cons line' lines' =>
      obtain ⟨same, others⟩ := List.cons.inj first
      exact ⟨(c :: line') :: lines', cut, more, later, by rw [same, others]; rfl, rfl⟩

theorem splitLines_append_of_ended {before : Text} (ended : Ended before)
    (apart : t.head? ≠ some '\n') :
    splitLines (before ++ t) = splitLines before ++ splitLines t := by
  fun_induction splitLines before with
  | case1 => rfl
  | case2 before ih =>
    rw [List.cons_append, List.cons_append, splitLines, ih ended.tail.tail]
    rfl
  | case3 c before alone breaks ih =>
    rw [List.cons_append, List.cons_append, ← ih ended.tail, splitLines]
    · simp [breaks]
    · intro rest carriage same
      cases before with
      | nil => exact apart (by rw [← List.nil_append t, same]; rfl)
      | cons d before =>
        have first := List.head_eq_of_cons_eq same
        exact alone before carriage (by rw [first])
  | case4 c before alone plain none ih =>
    rw [splitLines_eq_nil.mp none] at ended
    exact absurd (ended c rfl) (by simpa using plain)
  | case5 c before alone plain line lines read ih =>
    have inside : isLineBreak c = false := by simpa using plain
    rw [List.cons_append, splitLines_cons inside, ih ended.tail, read]
    rfl

theorem splitLines_eq_singleton {line : Text} (filled : line ≠ [])
    (plain : ∀ c ∈ line, isLineBreak c = false) : splitLines line = [line] := by
  induction line with
  | nil => exact absurd rfl filled
  | cons c line ih =>
    rw [splitLines_cons (plain c List.mem_cons_self)]
    by_cases none : line = []
    · rw [none]
      rfl
    · rw [ih none fun d member => plain d (List.mem_cons_of_mem c member)]

/-- What there is to see of a text. -/
def visible (t : Text) : Text := t.filter fun c => !isSpace c

theorem visible_append (s t : Text) : visible (s ++ t) = visible s ++ visible t :=
  List.filter_append ..

theorem visible_dropWhile (t : Text) : visible (t.dropWhile isSpace) = visible t := by
  induction t with
  | nil => rfl
  | cons c t ih =>
    rw [List.dropWhile_cons]
    split
    · rename_i space
      rw [ih, visible, visible, List.filter_cons_of_neg (by simp [space])]
    · rfl

theorem visible_reverse (t : Text) : visible t.reverse = (visible t).reverse :=
  List.filter_reverse ..

theorem visible_stripText (t : Text) : visible (stripText t) = visible t := by
  rw [stripText, visible_reverse, visible_dropWhile, visible_reverse, visible_dropWhile,
    List.reverse_reverse]

theorem stripText_prefix (s t : Text) : stripText s <+: stripText (s ++ t) := by
  by_cases blank : s.dropWhile isSpace = []
  · rw [stripText, blank]
    exact List.nil_prefix
  · rw [stripText, stripText, List.dropWhile_append, if_neg (by simpa using blank),
      List.reverse_append, List.dropWhile_append]
    split
    · exact List.prefix_refl _
    · rw [List.reverse_append, List.reverse_reverse]
      exact (List.rdropWhile_prefix isSpace _).trans (List.prefix_append _ _)

/-- The lines of what comes before the end of a line: the lines there were before it, or some of
them and the start of the next, or all of them and a start of the line that misses something. -/
inductive Cut (before : List Text) (line : Text) : List Text → Prop where
  | nothing : Cut before line []
  | within {lines later : List Text} {cut more : Text}
      (split : before = lines ++ (cut ++ more) :: later) : Cut before line (lines ++ [cut])
  | last {cut more : Text} (split : line = cut ++ more) (missing : visible more ≠ []) :
      Cut before line (before ++ [cut])

theorem visible_getLast (last : t.getLast? = some c) (shows : isSpace c = false) :
    visible t ≠ [] := by
  have inside : c ∈ visible t :=
    List.mem_filter.mpr ⟨List.mem_of_getLast? last, by rw [shows]; rfl⟩
  exact List.ne_nil_of_mem inside

theorem splitLines_cut_line {before line : Text} (ended : Ended before)
    (plain : ∀ c ∈ line, isLineBreak c = false) {z : Char} (last : line.getLast? = some z)
    (shows : isSpace z = false) {t rest : Text} (split : t ++ rest = before ++ line)
    (missing : rest ≠ []) : Cut (splitLines before) line (splitLines t) := by
  by_cases none : t = []
  · rw [none]
    exact .nothing
  rcases List.append_eq_append_iff.mp split with ⟨left, whole, _⟩ | ⟨start, whole, tail⟩
  · have ⟨lines, cut, more, later, first, all⟩ := splitLines_cut none left
    rw [first]
    exact .within (by rw [whole, all])
  · by_cases empty : start = []
    · rw [empty, List.append_nil] at whole
      have ⟨lines, cut, more, later, first, all⟩ := splitLines_cut none []
      rw [first]
      rw [List.append_nil] at all
      exact .within (by rw [← whole, all])
    · have unbroken : ∀ c ∈ start, isLineBreak c = false := fun c member =>
        plain c (tail ▸ List.mem_append_left rest member)
      have apart : start.head? ≠ some '\n' := fun head =>
        absurd (unbroken '\n' (List.mem_of_head? head)) (by decide)
      rw [whole, splitLines_append_of_ended ended apart, splitLines_eq_singleton empty unbroken]
      refine .last tail (visible_getLast ?_ shows)
      rwa [tail, List.getLast?_append_of_ne_nil _ missing] at last

end AutoTrade
