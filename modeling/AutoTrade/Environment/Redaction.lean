import AutoTrade.Common.Lines

/-!
# Redaction

The secret-looking strings the host takes out of every record it writes: each
pattern is matched from left to right and every match replaced, as `re.sub` does.
`str.isalnum` is a parameter; the one boundary that asks for it is that of a URL.
-/

namespace AutoTrade

/-- A pattern: what a match at the start of a text, after a character, is replaced by,
    and what the match leaves. -/
abbrev SecretPattern := Option Char → Text → Option (Text × Text)

namespace SecretPattern

/-- `pattern.sub`, from a character on; the first `skip` are in a match. -/
def subFrom (pattern : SecretPattern) : Option Char → Nat → Text → Text
  | _, _, [] => []
  | _, skip + 1, c :: rest => subFrom pattern (some c) skip rest
  | before, 0, c :: rest =>
    match pattern before (c :: rest) with
    | some (replacement, left) =>
      replacement ++ subFrom pattern (some c) (rest.length - left.length) rest
    | none => c :: subFrom pattern (some c) 0 rest

def sub (pattern : SecretPattern) (text : Text) : Text := subFrom pattern none 0 text

theorem subFrom_eq_self {pattern : SecretPattern} {text : Text}
    (absent : ∀ before rest, rest <:+ text → pattern before rest = none) (before : Option Char) :
    subFrom pattern before 0 text = text := by
  induction text generalizing before with
  | nil => rfl
  | cons c rest ih =>
    rw [subFrom, absent before (c :: rest) List.suffix_rfl]
    refine congrArg (c :: ·) (ih (fun before tail inside => ?_) _)
    exact absent before tail (inside.trans (List.suffix_cons c rest))

end SecretPattern

/-- A literal, in the cases `folds` allows. -/
def eatFolded (folds : Char → Char → Bool) : Text → Text → Option Text
  | [], text => some text
  | c :: literal, d :: text => if folds c d then eatFolded folds literal text else none
  | _ :: _, [] => none

/-- What a letter matches under `(?i)`. -/
def foldsTo (letter c : Char) : Bool := c = letter || c = letter.toUpper ||
  (letter = 'i' && (c = 'İ' || c = 'ı'))

/-- One of some characters. -/
def oneOf (chars : List Char) : Text → Option Text
  | [] => none
  | c :: text => if c ∈ chars then some text else none

/-- `+` of a class: at least one character, and as many as there are. -/
def someOf (inClass : Char → Bool) (text : Text) : Option (Text × Text) :=
  if (text.takeWhile inClass).isEmpty then none
  else some (text.takeWhile inClass, text.dropWhile inClass)

/-- `{n,}` of a class. -/
def atLeast (n : Nat) (inClass : Char → Bool) (text : Text) : Option (Text × Text) :=
  if (text.takeWhile inClass).length < n then none
  else some (text.takeWhile inClass, text.dropWhile inClass)

def isKeyChar (c : Char) : Bool := c.isAlphanum || c = '_'

/-- Characters that do not end a URL: `[^\s'"<>]`. -/
def isUrlChar (c : Char) : Bool := !isSpace c && c ∉ ['\'', '"', '<', '>']

theorem eatFolded_suffix {folds : Char → Char → Bool} {literal text rest : Text}
    (h : eatFolded folds literal text = some rest) : rest <:+ text := by
  induction literal generalizing text with
  | nil => exact Option.some.inj h ▸ List.suffix_rfl
  | cons c literal ih =>
    cases text with
    | nil => cases h
    | cons d text =>
      rw [eatFolded] at h
      split at h
      · exact (ih h).trans (List.suffix_cons d text)
      · cases h

theorem eatFolded_eq_some {literal text rest : Text}
    (h : eatFolded (· = ·) literal text = some rest) : text = literal ++ rest := by
  induction literal generalizing text with
  | nil => exact Option.some.inj h
  | cons c literal ih =>
    cases text with
    | nil => cases h
    | cons d text =>
      simp only [eatFolded, decide_eq_true_eq] at h
      split_ifs at h with same
      rw [same, ih h, List.cons_append]

theorem oneOf_eq_none {chars text : List Char} (none : ∀ c ∈ chars, c ∉ text) :
    oneOf chars text = .none := by
  cases text with
  | nil => rfl
  | cons c rest => exact if_neg fun listed => none c listed List.mem_cons_self

theorem someOf_eq_none {inClass : Char → Bool} {text : Text}
    (none : ∀ c ∈ text, inClass c = false) : someOf inClass text = .none := by
  cases text with
  | nil => rfl
  | cons c rest => simp [someOf, none c List.mem_cons_self]

/-- `(?i)bearer\s+[A-Za-z0-9._~+/=-]+`. -/
def bearerPattern : SecretPattern := fun _ text => do
  let rest ← eatFolded foldsTo "bearer".toList text
  let (_, rest) ← someOf isSpace rest
  let (_, rest) ← someOf (fun c => c.isAlphanum || c ∈ "._~+/=-ſKİı".toList) rest
  return ("Bearer [redacted]".toList, rest)

/-- `(?i)(authorization\s*[:=]\s*)[^\s,;]+`. -/
def authorizationPattern : SecretPattern := fun _ text => do
  let rest ← eatFolded foldsTo "authorization".toList text
  let rest ← oneOf [':', '='] (rest.dropWhile isSpace)
  let value := rest.dropWhile isSpace
  let (_, rest) ← someOf (fun c => !isSpace c && c ∉ [',', ';']) value
  return (text.take (text.length - value.length) ++ "[redacted]".toList, rest)

/-- A key after a boundary: `(?<![A-Za-z0-9_])` and the literal. -/
def keyPattern (literal : Text) (inKey : Char → Bool) (least : Nat) : SecretPattern :=
  fun before text => do
    if before.any isKeyChar then none
    let rest ← eatFolded (· = ·) literal text
    let (_, rest) ← atLeast least inKey rest
    return (literal ++ "[redacted]".toList, rest)

/-- `vless://[^\s'"<>]+`. -/
def vlessPattern : SecretPattern := fun _ text => do
  let rest ← eatFolded (· = ·) "vless://".toList text
  let (_, rest) ← someOf isUrlChar rest
  return ("vless://[redacted]".toList, rest)

/-- The schemes that may carry a user: `(?:https?|socks5h?|socks4)://`. -/
def userSchemes : List Text :=
  ["https://", "http://", "socks5h://", "socks5://", "socks4://"].map String.toList

/-- `\b((?:https?|socks5h?|socks4)://)[^/\s'"<>:@]+:[^@\s'"<>]+@`. -/
def userPattern (isAlnum : Char → Bool) : SecretPattern := fun before text => do
  if before.any fun c => isAlnum c || c = '_' then none
  let scheme ← userSchemes.find? fun scheme => (eatFolded (· = ·) scheme text).isSome
  let (_, rest) ← someOf (fun c => isUrlChar c && c ∉ ['/', ':', '@']) (text.drop scheme.length)
  let rest ← oneOf [':'] rest
  let (_, rest) ← someOf (fun c => isUrlChar c && c ≠ '@') rest
  let rest ← oneOf ['@'] rest
  return (scheme ++ "[redacted]@".toList, rest)

/-- `SECRET_PATTERNS`. -/
def secretPatterns (isAlnum : Char → Bool) : List SecretPattern :=
  [bearerPattern, authorizationPattern,
    keyPattern "sk-".toList (fun c => isKeyChar c || c = '-') 16,
    keyPattern "hf_".toList Char.isAlphanum 8, vlessPattern, userPattern isAlnum]

/-- `sanitize_for_log` of a string. -/
def redact (isAlnum : Char → Bool) (text : Text) : Text :=
  (secretPatterns isAlnum).foldl (fun text pattern => pattern.sub text) text

/-- A text without blanks, colons or equal signs that starts no key. -/
structure Plain (text : Text) : Prop where
  noSpace : ∀ c ∈ text, isSpace c = false
  noMark : ':' ∉ text ∧ '=' ∉ text
  noSk : 'k' ∉ text
  noHf : ¬ ['h', 'f'] <:+: text

namespace Plain

variable {text : Text}

theorem suffix (plain : Plain text) {rest : Text} (inside : rest <:+ text) : Plain rest where
  noSpace c member := plain.noSpace c (inside.subset member)
  noMark := ⟨fun member => plain.noMark.1 (inside.subset member),
    fun member => plain.noMark.2 (inside.subset member)⟩
  noSk member := plain.noSk (inside.subset member)
  noHf between := plain.noHf (between.trans inside.isInfix)

theorem bearerPattern_eq_none (plain : Plain text) (before : Option Char) :
    bearerPattern before text = none := by
  unfold bearerPattern
  cases eaten : eatFolded foldsTo "bearer".toList text with
  | none => rfl
  | some rest =>
    have visible := (plain.suffix (eatFolded_suffix eaten)).noSpace
    simp [someOf_eq_none visible]

theorem authorizationPattern_eq_none (plain : Plain text) (before : Option Char) :
    authorizationPattern before text = none := by
  unfold authorizationPattern
  cases eaten : eatFolded foldsTo "authorization".toList text with
  | none => rfl
  | some rest =>
    have inside : rest.dropWhile isSpace <:+ text :=
      (List.dropWhile_suffix _).trans (eatFolded_suffix eaten)
    have unmarked : oneOf [':', '='] (rest.dropWhile isSpace) = none := by
      refine oneOf_eq_none fun c listed member => ?_
      have here := inside.subset member
      simp only [List.mem_cons, List.not_mem_nil, or_false] at listed
      rcases listed with rfl | rfl
      · exact plain.noMark.1 here
      · exact plain.noMark.2 here
    simp [unmarked]

theorem keyPattern_eq_none {literal : Text} (absent : ¬ literal <:+: text) (inKey : Char → Bool)
    (least : Nat) (before : Option Char) : keyPattern literal inKey least before text = none := by
  unfold keyPattern
  cases eaten : eatFolded (· = ·) literal text with
  | none => split <;> rfl
  | some rest => exact absurd ⟨[], rest, (eatFolded_eq_some eaten).symm⟩ absent

theorem vlessPattern_eq_none (plain : Plain text) (before : Option Char) :
    vlessPattern before text = none := by
  unfold vlessPattern
  cases eaten : eatFolded (· = ·) "vless://".toList text with
  | none => rfl
  | some rest =>
    refine absurd ?_ plain.noMark.1
    simp [eatFolded_eq_some eaten]

theorem userPattern_eq_none (plain : Plain text) (isAlnum : Char → Bool) (before : Option Char) :
    userPattern isAlnum before text = none := by
  unfold userPattern
  have none : userSchemes.find? (fun scheme => (eatFolded (· = ·) scheme text).isSome) = .none := by
    refine List.find?_eq_none.mpr fun scheme listed found => plain.noMark.1 ?_
    obtain ⟨rest, eaten⟩ := Option.isSome_iff_exists.mp found
    have mark : ∀ scheme ∈ userSchemes, ':' ∈ scheme := by decide
    have mark := mark scheme listed
    exact eatFolded_eq_some eaten ▸ List.mem_append_left _ mark
  rw [none]
  split <;> rfl

theorem redact_eq_self (plain : Plain text) (isAlnum : Char → Bool) : redact isAlnum text = text := by
  have all : ∀ pattern ∈ secretPatterns isAlnum, SecretPattern.sub pattern text = text := by
    intro pattern listed
    refine SecretPattern.subFrom_eq_self (fun before rest inside => ?_) none
    have plain := plain.suffix inside
    simp only [secretPatterns, List.mem_cons, List.not_mem_nil, or_false] at listed
    rcases listed with rfl | rfl | rfl | rfl | rfl | rfl
    · exact plain.bearerPattern_eq_none before
    · exact plain.authorizationPattern_eq_none before
    · refine keyPattern_eq_none (fun between => plain.noSk (between.subset ?_)) _ _ _
      simp
    · refine keyPattern_eq_none (fun between => plain.noHf (List.IsInfix.trans ?_ between)) _ _ _
      exact ⟨[], ['_'], rfl⟩
    · exact plain.vlessPattern_eq_none before
    · exact plain.userPattern_eq_none isAlnum before
  unfold redact
  generalize secretPatterns isAlnum = patterns at all
  induction patterns with
  | nil => rfl
  | cons pattern patterns ih =>
    rw [List.foldl_cons, all pattern List.mem_cons_self]
    exact ih fun other listed => all other (List.mem_cons_of_mem _ listed)

end Plain

end AutoTrade
