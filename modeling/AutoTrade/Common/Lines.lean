import AutoTrade.Common.Text
import Mathlib.Data.List.DropRight
import Mathlib.Data.List.TakeWhile

/-!
# Lines of text

Python's `str.splitlines`, which breaks a text at more than the newline, and
`str.strip`.
-/

namespace AutoTrade

/-- The characters `str.splitlines` breaks at. -/
def isLineBreak (c : Char) : Bool :=
  c ∈ ['\n', '\r', '\x0b', '\x0c', '\x1c', '\x1d', '\x1e', '\u0085', '\u2028', '\u2029']

/-- Where a file opened as text ends its lines. -/
def isTextBreak (c : Char) : Bool := c = '\n' || c = '\r'

/-- `str.splitlines`. -/
def splitLines : Text → List Text
  | [] => []
  | '\r' :: '\n' :: rest => [] :: splitLines rest
  | c :: rest =>
    if isLineBreak c then [] :: splitLines rest
    else
      match splitLines rest with
      | [] => [[c]]
      | line :: lines => (c :: line) :: lines

/-- What reading a file as text makes of its line endings (`newline=None`). -/
def universalNewlines : Text → Text
  | [] => []
  | '\r' :: '\n' :: rest => '\n' :: universalNewlines rest
  | c :: rest => (if c = '\r' then '\n' else c) :: universalNewlines rest

/-- `str.isspace` of one character. -/
def isSpace (c : Char) : Bool :=
  c ∈ ['\t', '\n', '\x0b', '\x0c', '\r', '\x1c', '\x1d', '\x1e', '\x1f', ' ', '\u0085', '\u00a0',
    '\u1680', '\u2000', '\u2001', '\u2002', '\u2003', '\u2004', '\u2005', '\u2006', '\u2007',
    '\u2008', '\u2009', '\u200a', '\u2028', '\u2029', '\u202f', '\u205f', '\u3000']

/-- `str.strip`. -/
def stripText (t : Text) : Text := ((t.dropWhile isSpace).reverse.dropWhile isSpace).reverse

theorem stripText_eq_self {a z : Char} {body : Text} (first : isSpace a = false)
    (last : isSpace z = false) : stripText (a :: (body ++ [z])) = a :: (body ++ [z]) := by
  unfold stripText
  simp [first, last]

variable {t : Text} {c : Char}

theorem mem_of_mem_stripText (h : c ∈ stripText t) : c ∈ t := by
  have inside := List.mem_reverse.mp h
  have inside' := List.mem_reverse.mp ((List.dropWhile_sublist isSpace).subset inside)
  exact (List.dropWhile_sublist isSpace).subset inside'

variable {p : Char → Bool}

theorem mem_dropWhile_of_not (h : c ∈ t) (keeps : p c = false) : c ∈ t.dropWhile p := by
  induction t with
  | nil => cases h
  | cons d t ih =>
    rw [List.dropWhile_cons]
    split_ifs with drops
    · rcases List.mem_cons.mp h with rfl | later
      · rw [keeps] at drops
        cases drops
      · exact ih later
    · exact h

theorem mem_trim_of_not (h : c ∈ t) (keeps : p c = false) :
    c ∈ ((t.dropWhile p).reverse.dropWhile p).reverse := by
  have left := mem_dropWhile_of_not h keeps
  have right := mem_dropWhile_of_not (List.mem_reverse.mpr left) keeps
  exact List.mem_reverse.mpr right

theorem trim_ne_nil :
    ((t.dropWhile p).reverse.dropWhile p).reverse ≠ [] ↔ ∃ c ∈ t, p c = false := by
  constructor
  · intro filled
    by_contra blank
    have space : ∀ c ∈ t, p c = true := by
      intro c member
      by_contra other
      exact blank ⟨c, member, by simpa using other⟩
    have dropped : t.dropWhile p = [] := List.dropWhile_eq_nil_iff.mpr space
    exact filled (by simp [dropped])
  · rintro ⟨c, member, visible⟩ blank
    have inside := mem_trim_of_not member visible
    rw [blank] at inside
    cases inside

theorem mem_stripText_of_not (h : c ∈ t) (visible : isSpace c = false) :
    c ∈ stripText t := mem_trim_of_not h visible

theorem stripText_ne_nil : stripText t ≠ [] ↔ ∃ c ∈ t, isSpace c = false := trim_ne_nil

theorem stripText_stripText_ne_nil (h : stripText t ≠ []) : stripText (stripText t) ≠ [] := by
  obtain ⟨c, member, visible⟩ := stripText_ne_nil.mp h
  exact stripText_ne_nil.mpr ⟨c, mem_stripText_of_not member visible, visible⟩

theorem stripText_stripText (t : Text) : stripText (stripText t) = stripText t := by
  -- what is left starts as the text did once its leading space was dropped
  have start : (stripText t).dropWhile isSpace = stripText t := by
    have front : stripText t <+: t.dropWhile isSpace := List.rdropWhile_prefix isSpace _
    cases left : stripText t with
    | nil => rfl
    | cons c rest =>
      rw [left] at front
      obtain ⟨tail, whole⟩ := front
      have head := List.head?_dropWhile_not isSpace t
      rw [← whole] at head
      exact List.dropWhile_cons_of_neg (by simpa using head)
  have twice := List.rdropWhile_idempotent isSpace (t.dropWhile isSpace)
  show List.rdropWhile isSpace ((stripText t).dropWhile isSpace) = _
  rw [start]
  exact twice

theorem splitLines_cons (plain : isLineBreak c = false) (rest : Text) :
    splitLines (c :: rest) =
      match splitLines rest with
      | [] => [[c]]
      | line :: lines => (c :: line) :: lines := by
  have other : c ≠ '\r' := by
    rintro rfl
    revert plain
    decide
  cases rest with
  | nil => simp [splitLines, plain]
  | cons d rest =>
    rw [splitLines]
    · simp [plain]
    · intro rest' carriage
      exact absurd carriage other

theorem splitLines_break (breaks : isLineBreak c = true) (other : c ≠ '\r') (rest : Text) :
    splitLines (c :: rest) = [] :: splitLines rest := by
  rw [splitLines]
  · simp [breaks]
  · intro rest' carriage
    exact absurd carriage other

theorem splitLines_append {line : Text} (plain : ∀ c ∈ line, isLineBreak c = false)
    (breaks : isLineBreak c = true) (other : c ≠ '\r') (rest : Text) :
    splitLines (line ++ c :: rest) = line :: splitLines rest := by
  induction line with
  | nil => exact splitLines_break breaks other rest
  | cons d line ih =>
    have here := plain d List.mem_cons_self
    rw [List.cons_append, splitLines_cons here,
      ih fun e member => plain e (List.mem_cons_of_mem d member)]

theorem universalNewlines_eq_self (none : '\r' ∉ t) : universalNewlines t = t := by
  induction t with
  | nil => rfl
  | cons c t ih =>
    have other : c ≠ '\r' := fun same => none (same ▸ List.mem_cons_self)
    have later := ih fun member => none (List.mem_cons_of_mem c member)
    rw [universalNewlines]
    · rw [if_neg other, later]
    · intro rest carriage
      exact absurd carriage other

theorem splitLines_newline (none : '\r' ∉ t) (rest : Text) :
    splitLines (t ++ '\n' :: rest) = t.splitOnP isLineBreak ++ splitLines rest := by
  induction t with
  | nil => exact splitLines_break (by decide) (by decide) rest
  | cons c t ih =>
    have other : c ≠ '\r' := fun same => none (same ▸ List.mem_cons_self)
    have later := ih fun member => none (List.mem_cons_of_mem c member)
    cases breaks : isLineBreak c with
    | true =>
      rw [List.cons_append, splitLines_break breaks other, later,
        List.splitOnP_cons_eq_if_modifyHead, if_pos breaks]
      rfl
    | false =>
      rw [List.cons_append, splitLines_cons breaks, later,
        List.splitOnP_cons_eq_if_modifyHead, breaks]
      cases pieces : t.splitOnP isLineBreak with
      | nil => exact absurd pieces (List.splitOnP_ne_nil _ _)
      | cons line lines => rfl

theorem splitOnP_pieces (p : Char → Bool) (t : Text) :
    ∃ first later, t.splitOnP p = first :: later ∧
      (first = t ∧ later = [] ∧ (∀ c ∈ t, p c = false) ∨
        ∃ b rest, t = first ++ b :: rest ∧ p b = true) ∧
      ∀ piece ∈ later, ∃ a b z, t = a ++ b :: (piece ++ z) ∧ p b = true := by
  induction t with
  | nil => exact ⟨[], [], rfl, .inl ⟨rfl, rfl, by simp⟩, by simp⟩
  | cons c t ih =>
    obtain ⟨first, later, pieces, start, each⟩ := ih
    cases breaks : p c with
    | true =>
      have split : (c :: t).splitOnP p = [] :: first :: later := by
        rw [List.splitOnP_cons_eq_if_modifyHead, if_pos breaks, pieces]
      refine ⟨[], first :: later, split, .inr ⟨c, t, rfl, breaks⟩, ?_⟩
      intro piece member
      rcases List.mem_cons.mp member with rfl | member
      · rcases start with ⟨rfl, -⟩ | ⟨b, rest, whole, -⟩
        · exact ⟨[], c, [], by simp, breaks⟩
        · exact ⟨[], c, b :: rest, by simp [← whole], breaks⟩
      · obtain ⟨a, b, z, whole, there⟩ := each piece member
        exact ⟨c :: a, b, z, by rw [whole]; rfl, there⟩
    | false =>
      have split : (c :: t).splitOnP p = (c :: first) :: later := by
        rw [List.splitOnP_cons_eq_if_modifyHead, breaks, pieces]
        rfl
      refine ⟨c :: first, later, split, ?_, ?_⟩
      · rcases start with ⟨rfl, rfl, none⟩ | ⟨b, rest, whole, there⟩
        · exact .inl ⟨rfl, rfl, List.forall_mem_cons.mpr ⟨breaks, none⟩⟩
        · exact .inr ⟨b, rest, by rw [whole]; rfl, there⟩
      · intro piece member
        obtain ⟨a, b, z, whole, there⟩ := each piece member
        exact ⟨c :: a, b, z, by rw [whole]; rfl, there⟩

end AutoTrade
