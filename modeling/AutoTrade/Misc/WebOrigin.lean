import AutoTrade.Common.Text

/-!
# Where a browser goes

A URL reference resolved against an origin by the rules browsers follow, as far as the origin it
names: the reference is trimmed, its tabs and newlines removed, and where the scheme is a special
one a backslash counts as a slash. How an authority is read stays a parameter.
-/

namespace AutoTrade

namespace WebOrigin

structure Origin where
  scheme : Text
  host : Text
  port : Option Nat
  deriving DecidableEq

/-- What a reference resolves to; a scheme without an origin of its own is `other`. -/
inductive Resolved where
  | origin (o : Origin)
  | other
  | failure
  deriving DecidableEq

/-- The host parser: the origin of a scheme and an authority, if it is one. -/
structure Browser where
  authority : Text → Text → Option Origin

def isC0OrSpace (c : Char) : Bool := c.toNat ≤ 0x20

def isTabOrNewline (c : Char) : Bool := c = '\t' || c = '\n' || c = '\r'

/-- A reference that begins where it should, without what is trimmed behind it, tabs and newlines. -/
def trimmed (t : Text) : Text :=
  (t.reverse.dropWhile isC0OrSpace).reverse.filter (!isTabOrNewline ·)

/-- The reference without the spaces and controls around it, and without tabs and newlines. -/
def cleaned (t : Text) : Text := trimmed (t.dropWhile isC0OrSpace)

/-- What a special scheme reads as a slash. -/
def isSlash (c : Char) : Bool := c = '/' || c = '\\'

/-- Where the authority of a special scheme ends. -/
def endsAuthority (c : Char) : Bool := isSlash c || c = '?' || c = '#'

def isSchemeChar (c : Char) : Bool := c.isAlphanum || c = '+' || c = '-' || c = '.'

/-- The scheme of a reference that has one, in lower case, and what follows its colon. -/
def schemeSplit : Text → Option (Text × Text)
  | [] => none
  | c :: rest =>
    if c.isAlpha then
      match rest.dropWhile isSchemeChar with
      | ':' :: after => some ((c :: rest.takeWhile isSchemeChar).map Char.toLower, after)
      | _ => none
    else none

def specialSchemes : List Text := ["http", "https", "ws", "wss", "ftp"].map String.toList

/-- The host and port of an authority: what follows its last `@`. -/
def hostOf (authority : Text) : Text := (authority.reverse.takeWhile (· ≠ '@')).reverse

/-- The authority that follows any number of slashes. -/
def Browser.afterSlashes (browser : Browser) (scheme t : Text) : Resolved :=
  match browser.authority scheme (hostOf ((t.dropWhile isSlash).takeWhile (!endsAuthority ·))) with
  | some o => .origin o
  | none => .failure

/-- A reference without a scheme: two slashes lead to an authority, anything else stays. -/
def Browser.relative (browser : Browser) (base : Origin) : Text → Resolved
  | c :: d :: rest =>
    if isSlash c && isSlash d then browser.afterSlashes base.scheme rest else .origin base
  | _ => .origin base

/-- A reference resolved against an origin whose scheme is special. -/
def Browser.resolve (browser : Browser) (base : Origin) (reference : Text) : Resolved :=
  let t := cleaned reference
  match schemeSplit t with
  | none => browser.relative base t
  | some (scheme, rest) =>
    if scheme = base.scheme then
      if rest.take 2 = ['/', '/'] then browser.afterSlashes scheme rest
      else browser.relative base rest
    else if scheme ∈ specialSchemes then browser.afterSlashes scheme rest
    else .other

variable (browser : Browser) (base : Origin)

theorem schemeSplit_slash (rest : Text) : schemeSplit ('/' :: rest) = none := by
  simp [schemeSplit]

theorem tabOrNewline_of_c0 {c : Char} (tab : isTabOrNewline c = true) : isC0OrSpace c = true := by
  simp only [isTabOrNewline, Bool.or_eq_true, decide_eq_true_eq] at tab
  rcases tab with (rfl | rfl) | rfl <;> rfl

theorem trimmed_cons {c : Char} (plain : isC0OrSpace c = false) (rest : Text) :
    trimmed (c :: rest) = c :: trimmed rest := by
  have stays : isTabOrNewline c = false := by
    by_contra tab
    rw [tabOrNewline_of_c0 (Bool.not_eq_false _ ▸ tab)] at plain
    cases plain
  have kept : (rest.reverse ++ [c]).dropWhile isC0OrSpace =
      rest.reverse.dropWhile isC0OrSpace ++ [c] := by
    rw [List.dropWhile_append]
    split
    · rename_i none
      rw [List.isEmpty_iff.mp none]
      simp [plain]
    · rfl
  rw [trimmed, List.reverse_cons, kept]
  simp [stays, trimmed]

theorem head_trimmed {t : Text} (quiet : ∀ c ∈ t, isTabOrNewline c = false) :
    ∀ c ∈ (trimmed t).head?, c ∈ t.head? := by
  have same : trimmed t = (t.reverse.dropWhile isC0OrSpace).reverse := by
    refine List.filter_eq_self.mpr fun c member => ?_
    have inside := (List.dropWhile_sublist isC0OrSpace).subset (List.mem_reverse.mp member)
    simpa using quiet c (List.mem_reverse.mp inside)
  have before : trimmed t <+: t := by
    have suffix := (List.dropWhile_suffix (l := t.reverse) isC0OrSpace)
    rw [same]
    simpa using List.reverse_prefix.mpr suffix
  have ⟨rest, split⟩ := before
  intro c first
  rw [← split, List.head?_append, Option.mem_def.mp first]
  rfl

theorem resolve_stays {t rest : Text} (start : t.dropWhile isC0OrSpace = '/' :: rest)
    (quiet : ∀ c ∈ rest, isTabOrNewline c = false) (single : ∀ c ∈ rest.head?, isSlash c = false) :
    browser.resolve base t = .origin base := by
  have text : cleaned t = '/' :: trimmed rest := by
    rw [cleaned, start, trimmed_cons (by decide)]
  simp only [Browser.resolve, text, schemeSplit_slash]
  cases found : trimmed rest with
  | nil => rfl
  | cons d more =>
    have first := single d (head_trimmed quiet d (by rw [found]; rfl))
    simp [Browser.relative, first]

theorem resolve_plain {t rest : Text} {c : Char} (start : t.dropWhile isC0OrSpace = '/' :: c :: rest)
    (plain : isC0OrSpace c = false) (single : isSlash c = false) :
    browser.resolve base t = .origin base := by
  have text : cleaned t = '/' :: c :: trimmed rest := by
    rw [cleaned, start, trimmed_cons (by decide), trimmed_cons plain]
  simp [Browser.resolve, text, schemeSplit_slash, Browser.relative, single]

theorem resolve_away {t rest : Text} {c : Char} (start : t.dropWhile isC0OrSpace = '/' :: c :: rest)
    (double : isSlash c = true) :
    browser.resolve base t = browser.afterSlashes base.scheme (trimmed rest) := by
  have plain : isC0OrSpace c = false := by
    simp only [isSlash, Bool.or_eq_true, decide_eq_true_eq] at double
    rcases double with rfl | rfl <;> rfl
  have text : cleaned t = '/' :: c :: trimmed rest := by
    rw [cleaned, start, trimmed_cons (by decide), trimmed_cons plain]
  simp only [Browser.resolve, text, schemeSplit_slash]
  simp [Browser.relative, double, show isSlash '/' = true from rfl]

end WebOrigin

end AutoTrade
