import AutoTrade.Ops.SafeNext

/-!
# Redirects of the login gateway

A next path that passes `_safe_next` begins with one slash, or with three: `urlsplit` reads two of
these as an empty netloc. A browser stays on the site where one slash begins the path and no
backslash follows; else it reads what comes next as an authority.
-/

namespace AutoTrade.LoginGateway

open WebOrigin (isC0OrSpace isTabOrNewline isSlash trimmed Origin Browser)

variable {invalid : Text → Bool} {browser : Browser} {base : Origin}

theorem quiet_of_fit {value : Text} (fit : unfit value = false) :
    ∀ c ∈ value, isTabOrNewline c = false := by
  intro c member
  have plain : isControl c = false := by
    by_contra control
    have held : value.any isControl = true :=
      List.any_eq_true.mpr ⟨c, member, Bool.not_eq_false _ ▸ control⟩
    simp [unfit, held] at fit
  by_contra tab
  simp only [isTabOrNewline, Bool.not_eq_false, Bool.or_eq_true, decide_eq_true_eq] at tab
  rcases tab with (rfl | rfl) | rfl <;> cases plain

theorem filter_of_fit {value : Text} (fit : unfit value = false) :
    (value.dropWhile isC0OrSpace).filter (!isTabOrNewline ·) = value.dropWhile isC0OrSpace := by
  refine List.filter_eq_self.mpr fun c member => ?_
  simpa using quiet_of_fit fit c ((List.dropWhile_sublist isC0OrSpace).subset member)

theorem takeScheme_slash (rest : Text) : takeScheme ('/' :: rest) = ([], '/' :: rest) := by
  rw [takeScheme, WebOrigin.schemeSplit_slash]

theorem takeScheme_cases (t : Text) : takeScheme t = ([], t) ∨ (takeScheme t).1 ≠ [] := by
  rw [takeScheme]
  cases t with
  | nil => exact .inl rfl
  | cons c rest =>
    rw [WebOrigin.schemeSplit]
    split
    · rename_i split same
      refine .inr ?_
      split at same
      · split at same
        · rw [← Option.some.inj same]
          simp
        · cases same
      · cases same
    · exact .inl rfl

/-- The path of a text past its netloc. -/
def pathOf (t : Text) : Text := (splitFirst '?' (splitFirst '#' t).1).1

/-- A text past its netloc that may follow: one slash, no fragment and no path of the gateway. -/
def mayFollow (t : Text) : Bool :=
  (splitFirst '#' t).2 = [] && t.head? = some '/' && t[1]? ≠ some '/' && pathOf t ∉ ownPaths

theorem head_splitFirst {c : Char} (t : Text) {d : Char} (other : d ≠ c) :
    (splitFirst c (d :: t)).1 = d :: (splitFirst c t).1 := by
  simp [splitFirst, other]

theorem head?_splitFirst (c : Char) (t : Text) :
    ∀ d ∈ (splitFirst c t).1.head?, d ∈ t.head? := by
  intro d first
  cases t with
  | nil => cases first
  | cons e t =>
    rw [splitFirst, List.takeWhile_cons] at first
    split at first
    · exact first
    · cases first

theorem head?_pathOf (t : Text) : ∀ d ∈ (pathOf t).head?, d ∈ t.head? := fun d first =>
  head?_splitFirst '#' t d (head?_splitFirst '?' _ d first)

theorem pathOf_slash (t : Text) : pathOf ('/' :: t) = '/' :: pathOf t := by
  rw [pathOf, head_splitFirst _ (by decide), head_splitFirst _ (by decide), pathOf]

theorem path_spec (t : Text) :
    ((pathOf t).head? = some '/' ∧ (pathOf t).take 2 ≠ ['/', '/']) ↔
      t.head? = some '/' ∧ t[1]? ≠ some '/' := by
  have start : (pathOf t).head? = some '/' ↔ t.head? = some '/' := by
    refine ⟨head?_pathOf t '/', fun first => ?_⟩
    rw [List.head?_eq_some_iff] at first
    have ⟨u, text⟩ := first
    rw [text, pathOf_slash]
    rfl
  rw [start]
  refine and_congr_right fun first => not_congr ?_
  have ⟨u, text⟩ := List.head?_eq_some_iff.mp first
  rw [text, pathOf_slash]
  constructor
  · intro double
    have second : (pathOf u).head? = some '/' := by
      cases found : pathOf u with
      | nil => simp [found] at double
      | cons d more => simpa [found] using double
    rw [List.getElem?_cons_succ, ← List.head?_eq_getElem?]
    exact head?_pathOf u '/' second
  · intro double
    rw [List.getElem?_cons_succ, ← List.head?_eq_getElem?] at double
    have ⟨v, text'⟩ := List.head?_eq_some_iff.mp double
    rw [text', pathOf_slash]
    rfl

/-- The value past its spaces, as `urlsplit` reads it. -/
def spelled (value : Text) : Text := value.dropWhile isC0OrSpace

theorem leadsAway_eq_false {scheme netloc query : Text} {t : Text} :
    SplitResult.leadsAway ⟨scheme, netloc, pathOf t, query, (splitFirst '#' t).2⟩ = false ∧
        pathOf t ∉ ownPaths ↔
      scheme = [] ∧ netloc = [] ∧ mayFollow t = true := by
  have path := path_spec t
  simp only [SplitResult.leadsAway, mayFollow, Bool.or_eq_false_iff, decide_eq_false_iff_not,
    not_not, Bool.and_eq_true, decide_eq_true_eq, ne_eq] at path ⊢
  tauto

theorem urlsplit_of_fit {value : Text} (fit : unfit value = false) :
    urlsplit invalid value =
      let cut := takeScheme (spelled value)
      let rest := takeNetloc cut.2
      if rest.1 ≠ [] ∧ invalid rest.1 then none
      else some ⟨cut.1, rest.1, pathOf rest.2, (splitFirst '?' (splitFirst '#' rest.2).1).2,
        (splitFirst '#' rest.2).2⟩ := by
  rw [urlsplit, filter_of_fit fit]
  rfl

variable {value location : Text}

theorem safeNext_cases (next : safeNext invalid value = some location) :
    location = ['/'] ∨ location = value ∧ unfit value = false ∧
      (takeNetloc (spelled value)).1 = [] ∧ mayFollow (takeNetloc (spelled value)).2 = true := by
  rw [safeNext] at next
  by_cases fit : unfit value = true
  · rw [if_pos fit] at next
    exact .inl (Option.some.inj next).symm
  have fit := Bool.eq_false_iff.mpr fit
  rw [if_neg (by simp [fit]), urlsplit_of_fit fit] at next
  have ⟨parsed, cut, made⟩ := Option.map_eq_some_iff.mp next
  simp only at cut
  split at cut
  · cases cut
  rw [← Option.some.inj cut] at made
  split at made
  · exact .inl made.symm
  rename_i passes
  simp only [Bool.or_eq_true, decide_eq_true_eq, not_or, Bool.not_eq_true] at passes
  have ⟨scheme, netloc, follows⟩ := leadsAway_eq_false.mp passes
  rcases takeScheme_cases (spelled value) with whole | some
  · rw [whole] at netloc follows
    exact .inr ⟨made.symm, fit, netloc, follows⟩
  · exact absurd scheme some

theorem safeNext_self {value : Text} (fit : unfit value = false)
    (start : (spelled value).head? = some '/') (netloc : (takeNetloc (spelled value)).1 = [])
    (follows : mayFollow (takeNetloc (spelled value)).2 = true) :
    safeNext invalid value = some value := by
  have ⟨rest, text⟩ := List.head?_eq_some_iff.mp start
  have whole : takeScheme (spelled value) = ([], spelled value) := by
    rw [text, takeScheme_slash]
  rw [safeNext, if_neg (by simp [fit]), urlsplit_of_fit fit, whole]
  simp only [netloc, ne_eq, not_true_eq_false, false_and, if_false, Option.map_some]
  rw [if_neg]
  simp only [Bool.or_eq_true, decide_eq_true_eq, not_or, Bool.not_eq_true]
  exact leadsAway_eq_false.mpr ⟨rfl, rfl, follows⟩

theorem takeNetloc_cases {t : Text} (follows : mayFollow (takeNetloc t).2 = true) :
    ∃ rest, (t = '/' :: rest ∧ rest.head? ≠ some '/') ∨ t = '/' :: '/' :: rest := by
  simp only [mayFollow, Bool.and_eq_true, decide_eq_true_eq] at follows
  have ⟨⟨⟨_, first⟩, second⟩, _⟩ := follows
  by_cases double : ∃ rest, t = '/' :: '/' :: rest
  · have ⟨rest, text⟩ := double
    exact ⟨rest, .inr text⟩
  · have whole : (takeNetloc t).2 = t := by
      rw [takeNetloc]
      intro rest text
      exact double ⟨rest, text⟩
    rw [whole] at first second
    have ⟨rest, text⟩ := List.head?_eq_some_iff.mp first
    rw [text, List.getElem?_cons_succ, ← List.head?_eq_getElem?] at second
    exact ⟨rest, .inl ⟨text, second⟩⟩

/-- What follows two characters a browser reads as slashes. -/
def pastSlashes : Text → Option Text
  | c :: d :: rest => if isSlash c && isSlash d then some rest else none
  | _ => none

/-- A value that is sent as a `Location` and that a browser reads an authority in, of another
origin. -/
structure Strays (browser : Browser) (base : Origin) (value : Text) : Prop where
  fit : unfit value = false
  latin1 : isLatin1 value = true
  netloc : (takeNetloc (spelled value)).1 = []
  follows : mayFollow (takeNetloc (spelled value)).2 = true
  away : ∃ rest, pastSlashes (spelled value) = some rest ∧
    browser.afterSlashes base.scheme (trimmed rest) ≠ .origin base

theorem resolve_root : browser.resolve base ['/'] = .origin base := by
  exact @WebOrigin.resolve_stays browser base ['/'] [] rfl nofun nofun

theorem resolve_passed {value : Text} (fit : unfit value = false)
    (follows : mayFollow (takeNetloc (spelled value)).2 = true) :
    browser.resolve base value = .origin base ↔
      ∀ rest, pastSlashes (spelled value) = some rest →
        browser.afterSlashes base.scheme (trimmed rest) = .origin base := by
  have ⟨rest, shape⟩ := takeNetloc_cases follows
  rcases shape with ⟨text, single⟩ | text
  · cases rest with
    | nil =>
      rw [@WebOrigin.resolve_stays browser base value [] text nofun nofun, text]
      simp [pastSlashes]
    | cons c rest =>
      by_cases backslash : isSlash c = true
      · rw [WebOrigin.resolve_away browser base text backslash, text]
        simp [pastSlashes, backslash, show isSlash '/' = true from rfl]
      · have quiet : ∀ d ∈ c :: rest, isTabOrNewline d = false := fun d member =>
          quiet_of_fit fit d ((List.dropWhile_sublist isC0OrSpace).subset
            (text ▸ List.mem_cons_of_mem _ member : d ∈ spelled value))
        have plain : ∀ d ∈ (c :: rest).head?, isSlash d = false := by
          simpa using backslash
        rw [WebOrigin.resolve_stays browser base text quiet plain, text]
        simp [pastSlashes, backslash]
  · rw [WebOrigin.resolve_away browser base text rfl, text]
    simp [pastSlashes, show isSlash '/' = true from rfl]

theorem safeNext_root : safeNext invalid ['/'] = some ['/'] := by
  refine safeNext_self (by decide) rfl rfl ?_
  decide

theorem safeNext_login : safeNext invalid "/login".toList = some ['/'] := by
  rw [safeNext, if_neg (by decide), urlsplit_of_fit (by decide)]
  rfl

theorem safeNext_idem (next : safeNext invalid value = some location) :
    safeNext invalid location = some location := by
  rcases safeNext_cases next with root | ⟨same, _⟩
  · rw [root, safeNext_root]
  · rw [same] at next ⊢
    exact next

theorem redirectLocation_next (next : safeNext invalid value = some location) :
    redirectLocation invalid location = (some location).filter isLatin1 := by
  rw [redirectLocation, safeNext_idem next]

/-- The next value a request carries into `Location`. -/
def RedirectRequest.next? : RedirectRequest → Option Text
  | .login next => next
  | .form next => some next
  | .logout | .check _ => none

theorem passed_stays (next : safeNext invalid value = some location)
    (latin1 : isLatin1 location = true) (stays : ¬Strays browser base value) :
    browser.resolve base location = .origin base := by
  rcases safeNext_cases next with root | ⟨same, fit, netloc, follows⟩
  · rw [root, resolve_root]
  · rw [same] at latin1 ⊢
    refine (resolve_passed fit follows).mpr fun rest past => ?_
    by_contra away
    exact stays ⟨fit, latin1, netloc, follows, rest, past, away⟩

theorem Strays.passes {value : Text} (strays : Strays browser base value) :
    safeNext invalid value = some value ∧ browser.resolve base value ≠ .origin base := by
  have ⟨rest, past, away⟩ := strays.away
  refine ⟨safeNext_self strays.fit ?_ strays.netloc strays.follows, fun stays => ?_⟩
  · have ⟨tail, shape⟩ := takeNetloc_cases strays.follows
    rcases shape with ⟨text, _⟩ | text
    · rw [text]
      rfl
    · rw [text]
      rfl
  · exact away ((resolve_passed strays.fit strays.follows).mp stays rest past)

theorem sent_next {value : Text} :
    (∀ location ∈ (safeNext invalid value).bind (redirectLocation invalid),
        browser.resolve base location = .origin base) ↔ ¬Strays browser base value := by
  constructor
  · intro stays strays
    have ⟨passes, away⟩ := @Strays.passes invalid _ _ _ strays
    refine away (stays value ?_)
    rw [passes, Option.bind_some, redirectLocation_next passes]
    simp [Option.filter, strays.latin1]
  · intro stays location sent
    have ⟨next, passes, header⟩ := Option.bind_eq_some_iff.mp sent
    rw [redirectLocation_next passes, Option.filter_eq_some_iff] at header
    have same := Option.some.inj header.1
    rw [← same]
    exact passed_stays passes (same ▸ header.2) stays

theorem sent_root : ∀ location ∈ redirectLocation invalid ['/'],
    browser.resolve base location = .origin base := by
  intro location sent
  rw [redirectLocation_next safeNext_root] at sent
  rw [← Option.some.inj (Option.filter_eq_some_iff.mp sent).1]
  exact resolve_root

/-- The headers a gateway sends name its own origin, unless a login carries a next value that
strays: one that passes the check, with three slashes or with a slash and a backslash before an
authority of another origin. -/
theorem sentLocation_stays_iff (request : RedirectRequest) :
    (∀ location ∈ sentLocation invalid request, browser.resolve base location = .origin base) ↔
      ∀ value ∈ request.next?, ¬Strays browser base value := by
  cases request with
  | login next =>
    cases next with
    | none => exact ⟨fun _ => nofun, fun _ => sent_root⟩
    | some value =>
      simp only [RedirectRequest.next?, Option.mem_def, Option.some.injEq, forall_eq']
      rw [← @sent_next invalid]
      cases found : safeNext invalid value with
      | none =>
        simp only [sentLocation, found, Option.getD_none, Option.bind_none]
        exact ⟨fun _ => nofun, fun _ => sent_root⟩
      | some location => simp [sentLocation, found]
  | form value =>
    simp only [RedirectRequest.next?, Option.mem_def, Option.some.injEq, forall_eq']
    exact sent_next
  | logout =>
    refine ⟨fun _ => nofun, fun _ location sent => ?_⟩
    rw [sentLocation, redirectLocation, safeNext_login] at sent
    rw [← Option.some.inj (Option.filter_eq_some_iff.mp sent).1]
    exact resolve_root
  | check original =>
    refine ⟨fun _ => nofun, fun _ location sent => ?_⟩
    have ⟨next, _, made⟩ := Option.map_eq_some_iff.mp sent
    rw [← made]
    exact WebOrigin.resolve_plain browser base rfl (by decide) (by decide)

/-- A browser that takes an authority for a host. -/
def plainBrowser : Browser := ⟨fun scheme host => if host = [] then none else some ⟨scheme, host, none⟩⟩

/-- Three slashes pass: the browser goes to another site. -/
theorem login_leads_away :
    sentLocation (fun _ => false) (.form "///evil.example/".toList) = some "///evil.example/".toList ∧
      plainBrowser.resolve ⟨"https".toList, "console.example".toList, none⟩ "///evil.example/".toList =
        .origin ⟨"https".toList, "evil.example".toList, none⟩ := by
  decide +kernel

end AutoTrade.LoginGateway
