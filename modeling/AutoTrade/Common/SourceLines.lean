import AutoTrade.Common.Lines

/-!
# Lines of source

The interpreter ends a line at `\n`, `\r` and `\r\n` alone. `str.splitlines` ends lines at more,
and drops what ends them: the lines of a source line, and its breaks, give it back.
-/

namespace AutoTrade

/-- The lines of a source text, each with what ends it. -/
def sourceLines : Text → List (Text × Text)
  | [] => []
  | '\r' :: '\n' :: rest => ([], ['\r', '\n']) :: sourceLines rest
  | c :: rest =>
    if isTextBreak c then ([], [c]) :: sourceLines rest
    else
      match sourceLines rest with
      | [] => [([c], [])]
      | line :: lines => (c :: line.1, line.2) :: lines

namespace SourceLine

/-- A source line and what ends it, as they stand in the text. -/
def text (line : Text × Text) : Text := line.1 ++ line.2

/-- What `str.splitlines` makes of a source line. -/
def lines (line : Text × Text) : List Text := splitLines (text line)

/-- Where `str.splitlines` breaks a source line, and what ends it. -/
def breaks (line : Text × Text) : Text × Text := (line.1.filter isLineBreak, line.2)

/-- Something stands on a line or ends it, with no break of the interpreter within. -/
structure Plain (line : Text × Text) : Prop where
  within : ∀ c ∈ line.1, isTextBreak c = false
  ended : line.2 ∈ [[], ['\n'], ['\r'], ['\r', '\n']]
  filled : text line ≠ []

end SourceLine

open SourceLine

variable {t rest : Text} {c : Char}

theorem isLineBreak_of_text (breaks : isTextBreak c = true) : isLineBreak c = true := by
  rcases Bool.or_eq_true_iff.mp breaks with newline | carriage
  · rw [of_decide_eq_true newline]
    rfl
  · rw [of_decide_eq_true carriage]
    rfl

theorem sourceLines_plain (t : Text) : ∀ line ∈ sourceLines t, Plain line := by
  fun_induction sourceLines t with
  | case1 => simp
  | case2 rest ih => exact List.forall_mem_cons.mpr ⟨⟨by simp, by simp, by simp [SourceLine.text]⟩, ih⟩
  | case3 c rest carriage breaks ih =>
    refine List.forall_mem_cons.mpr ⟨⟨by simp, ?_, by simp [SourceLine.text]⟩, ih⟩
    rcases Bool.or_eq_true_iff.mp breaks with newline | return'
    · simp [of_decide_eq_true newline]
    · simp [of_decide_eq_true return']
  | case4 c rest carriage plain ended ih =>
    exact List.forall_mem_cons.mpr ⟨⟨by simpa using plain, by simp, by simp [SourceLine.text]⟩,
      by simp⟩
  | case5 c rest carriage plain line lines read ih =>
    rw [read] at ih
    obtain ⟨here, later⟩ := List.forall_mem_cons.mp ih
    exact List.forall_mem_cons.mpr
      ⟨⟨List.forall_mem_cons.mpr ⟨by simpa using plain, here.within⟩, here.ended,
        by simp [SourceLine.text]⟩, later⟩

theorem sourceLines_ended (t : Text) :
    (sourceLines t).Pairwise (fun line _ => line.2 ≠ []) := by
  fun_induction sourceLines t with
  | case1 => exact List.Pairwise.nil
  | case2 rest ih => exact List.pairwise_cons.mpr ⟨by simp, ih⟩
  | case3 c rest carriage breaks ih => exact List.pairwise_cons.mpr ⟨by simp, ih⟩
  | case4 c rest carriage plain ended ih => exact List.pairwise_singleton _ _
  | case5 c rest carriage plain line lines read ih =>
    rw [read] at ih
    exact List.pairwise_cons.mpr (List.pairwise_cons.mp ih)

theorem splitLines_universalNewlines (t : Text) :
    splitLines (universalNewlines t) = splitLines t := by
  fun_induction universalNewlines t with
  | case1 => rfl
  | case2 rest ih =>
    rw [splitLines_break (by decide) (by decide), ih, splitLines]
  | case3 c rest carriage ih =>
    by_cases same : c = '\r'
    · subst same
      rw [if_pos rfl, splitLines_break (by decide) (by decide), ih, splitLines]
      · rfl
      · exact carriage
    · rw [if_neg same]
      cases breaks : isLineBreak c with
      | true => rw [splitLines_break breaks same, splitLines_break breaks same, ih]
      | false => rw [splitLines_cons breaks, splitLines_cons breaks, ih]

theorem splitLines_eq_nil {t : Text} : splitLines t = [] ↔ t = [] := by
  constructor
  · intro none
    cases t with
    | nil => rfl
    | cons c t =>
      exfalso
      cases breaks : isLineBreak c with
      | false =>
        rw [splitLines_cons breaks] at none
        cases pieces : splitLines t with
        | nil => rw [pieces] at none; cases none
        | cons line lines => rw [pieces] at none; cases none
      | true =>
        by_cases carriage : c = '\r'
        · subst carriage
          rcases t with _ | ⟨d, t⟩
          · cases none
          · by_cases newline : d = '\n'
            · subst newline
              cases none
            · rw [splitLines] at none
              · cases none
              · intro rest _ same
                exact newline (List.head_eq_of_cons_eq same)
        · rw [splitLines_break breaks carriage] at none
          cases none
  · rintro rfl
    rfl

theorem splitLines_unbroken (t : Text) :
    ∀ line ∈ splitLines t, ∀ c ∈ line, isLineBreak c = false := by
  fun_induction splitLines t with
  | case1 => simp
  | case2 rest ih => exact List.forall_mem_cons.mpr ⟨by simp, ih⟩
  | case3 c rest carriage breaks ih => exact List.forall_mem_cons.mpr ⟨by simp, ih⟩
  | case4 c rest carriage plain none ih => simpa using plain
  | case5 c rest carriage plain line lines read ih =>
    rw [read] at ih
    obtain ⟨here, later⟩ := List.forall_mem_cons.mp ih
    exact List.forall_mem_cons.mpr
      ⟨List.forall_mem_cons.mpr ⟨by simpa using plain, here⟩, later⟩

theorem splitLines_sourceLines (t : Text) :
    splitLines t = (sourceLines t).flatMap SourceLine.lines := by
  fun_induction sourceLines t with
  | case1 => rfl
  | case2 rest ih => rw [splitLines, ih]; rfl
  | case3 c rest carriage breaks ih =>
    have once : splitLines (c :: rest) = [] :: splitLines rest := by
      rw [splitLines]
      · rw [isLineBreak_of_text breaks, if_pos rfl]
      · exact carriage
    have alone : SourceLine.lines ([], [c]) = [[]] := by
      show splitLines [c] = [[]]
      rw [splitLines]
      · rw [isLineBreak_of_text breaks, if_pos rfl]
        rfl
      · simp
    rw [once, ih, List.flatMap_cons, alone]
    rfl
  | case4 c rest carriage plain ended ih =>
    rw [ended] at ih
    rw [splitLines_eq_nil.mp ih, List.flatMap_cons, List.flatMap_nil, List.append_nil]
    rfl
  | case5 c rest carriage plain line lines read ih =>
    have filled := (sourceLines_plain rest line (by rw [read]; exact List.mem_cons_self)).filled
    rw [read, List.flatMap_cons] at ih
    rw [List.flatMap_cons]
    have other : c ≠ '\r' := by
      rintro rfl
      exact plain rfl
    show _ = splitLines (c :: SourceLine.text line) ++ _
    cases breaks : isLineBreak c with
    | true =>
      rw [splitLines_break breaks other, splitLines_break breaks other, ih]
      rfl
    | false =>
      rw [splitLines_cons breaks, splitLines_cons breaks, ih]
      cases pieces : SourceLine.lines line with
      | nil => exact absurd (splitLines_eq_nil.mp pieces) filled
      | cons first later =>
        have same : splitLines (SourceLine.text line) = first :: later := pieces
        rw [same]
        rfl

/-- Lines with the breaks between them. -/
def weave : List Text → Text → Text
  | [], breaks => breaks
  | line :: _, [] => line
  | line :: lines, c :: breaks => line ++ c :: weave lines breaks

namespace SourceLine

variable {line line' : Text × Text}

theorem carriage_of_plain {c : Char} (plain : isTextBreak c = false) : c ≠ '\r' := by
  rintro rfl
  cases plain

theorem length_lines (plain : Plain line) (ended : line.2 ≠ []) :
    (lines line).length = (breaks line).1.length + 1 := by
  obtain ⟨content, ending⟩ := line
  have one : splitLines ending = [[]] := by
    have known := plain.ended
    simp only [List.mem_cons, List.not_mem_nil, or_false] at known
    rcases known with rfl | rfl | rfl | rfl
    · exact absurd rfl ended
    · rfl
    · rfl
    · rfl
  have within := plain.within
  clear plain ended
  show (splitLines (content ++ ending)).length = (content.filter isLineBreak).length + 1
  induction content with
  | nil => rw [List.nil_append, one]; rfl
  | cons c content ih =>
    obtain ⟨here, later⟩ := List.forall_mem_cons.mp within
    have counted := ih later
    rw [List.cons_append]
    cases breaks : isLineBreak c with
    | true =>
      rw [splitLines_break breaks (carriage_of_plain here), List.length_cons, counted,
        List.filter_cons_of_pos breaks, List.length_cons]
    | false =>
      rw [splitLines_cons breaks, List.filter_cons_of_neg (by simp [breaks]), ← counted]
      cases read : splitLines (content ++ ending) with
      | nil =>
        rw [read] at counted
        cases counted
      | cons first lines => rfl

theorem eq_weave (plain : Plain line) : line.1 = weave (lines line) (breaks line).1 := by
  obtain ⟨content, ending⟩ := line
  have one : splitLines ending = [] ∨ splitLines ending = [[]] := by
    have known := plain.ended
    simp only [List.mem_cons, List.not_mem_nil, or_false] at known
    rcases known with rfl | rfl | rfl | rfl
    · exact .inl rfl
    · exact .inr rfl
    · exact .inr rfl
    · exact .inr rfl
  have within := plain.within
  clear plain
  show content = weave (splitLines (content ++ ending)) (content.filter isLineBreak)
  induction content with
  | nil => rcases one with none | one <;> simp [*, weave]
  | cons c content ih =>
    obtain ⟨here, later⟩ := List.forall_mem_cons.mp within
    have woven := ih later
    rw [List.cons_append]
    cases breaks : isLineBreak c with
    | true =>
      rw [splitLines_break breaks (carriage_of_plain here), List.filter_cons_of_pos breaks, weave,
        ← woven]
      rfl
    | false =>
      rw [splitLines_cons breaks, List.filter_cons_of_neg (by simp [breaks])]
      cases read : splitLines (content ++ ending) with
      | nil =>
        obtain ⟨rfl, -⟩ := List.append_eq_nil_iff.mp (splitLines_eq_nil.mp read)
        rfl
      | cons first later =>
        rw [read] at woven
        cases between : content.filter isLineBreak with
        | nil =>
          rw [between] at woven
          rw [woven]
          rfl
        | cons b bs =>
          rw [between] at woven
          rw [woven]
          rfl

theorem eq_of_lines (plain : Plain line) (plain' : Plain line') (same : lines line = lines line')
    (alike : breaks line = breaks line') : line = line' := by
  apply Prod.ext
  · rw [eq_weave plain, eq_weave plain', same, alike]
  · exact (Prod.mk.inj alike).2

variable {block block' : List (Text × Text)}

theorem eq_of_flatMap_lines (plain : ∀ line ∈ block, Plain line)
    (plain' : ∀ line ∈ block', Plain line) (ended : block.Pairwise fun line _ => line.2 ≠ [])
    (alike : block.map breaks = block'.map breaks)
    (same : block.flatMap lines = block'.flatMap lines) : block = block' := by
  induction block generalizing block' with
  | nil => exact (List.map_eq_nil_iff.mp alike.symm).symm
  | cons line block ih =>
    cases block' with
    | nil => cases alike
    | cons line' block' =>
      obtain ⟨first, later⟩ := List.cons_eq_cons.mp alike
      obtain ⟨here, there⟩ := List.forall_mem_cons.mp plain
      obtain ⟨here', there'⟩ := List.forall_mem_cons.mp plain'
      obtain ⟨ends, ended⟩ := List.pairwise_cons.mp ended
      rw [List.flatMap_cons, List.flatMap_cons] at same
      have split : lines line = lines line' ∧ block.flatMap lines = block'.flatMap lines := by
        cases block with
        | nil =>
          rw [List.map_nil, eq_comm, List.map_eq_nil_iff] at later
          subst later
          exact ⟨by simpa using same, rfl⟩
        | cons next block =>
          have ended : line.2 ≠ [] := ends next List.mem_cons_self
          have ended' : line'.2 ≠ [] := by
            rw [← (Prod.mk.inj first).2]
            exact ended
          apply List.append_inj same
          rw [length_lines here ended, length_lines here' ended', first]
      rw [eq_of_lines here here' split.1 first, ih there there' ended later split.2]

theorem length_flatMap_lines (plain : ∀ line ∈ block, Plain line)
    (plain' : ∀ line ∈ block', Plain line) (ended : ∀ line ∈ block, line.2 ≠ [])
    (alike : block.map breaks = block'.map breaks) :
    (block.flatMap lines).length = (block'.flatMap lines).length := by
  induction block generalizing block' with
  | nil => rw [List.map_eq_nil_iff.mp alike.symm]
  | cons line block ih =>
    cases block' with
    | nil => cases alike
    | cons line' block' =>
      obtain ⟨first, later⟩ := List.cons_eq_cons.mp alike
      obtain ⟨here, there⟩ := List.forall_mem_cons.mp plain
      obtain ⟨here', there'⟩ := List.forall_mem_cons.mp plain'
      obtain ⟨ends, ended⟩ := List.forall_mem_cons.mp ended
      have ends' : line'.2 ≠ [] := by
        rw [← (Prod.mk.inj first).2]
        exact ends
      rw [List.flatMap_cons, List.flatMap_cons, List.length_append, List.length_append,
        length_lines here ends, length_lines here' ends', first, ih there there' ended later]

end SourceLine

end AutoTrade
