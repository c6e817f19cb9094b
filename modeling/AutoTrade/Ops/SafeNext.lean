import AutoTrade.Common.Utf8
import AutoTrade.Misc.WebOrigin
import AutoTrade.Ops.LoginGateway

/-!
# Where a login goes on to

`_safe_next` and the headers of `ops/login-gateway/gateway.py` it stands in: `Location` after a
login or a logout, and `X-Login-Location` for a request without a session. The value is parsed by
`urlsplit`; a browser resolves the header by its own rules.
-/

namespace AutoTrade.LoginGateway

open WebOrigin (isC0OrSpace isTabOrNewline Origin Browser)

/-- What `urlsplit` makes of a text. -/
structure SplitResult where
  scheme : Text
  netloc : Text
  path : Text
  query : Text
  fragment : Text

/-- A text before and after the first `c` in it. -/
def splitFirst (c : Char) (t : Text) : Text × Text :=
  (t.takeWhile (· ≠ c), (t.dropWhile (· ≠ c)).tail)

/-- The scheme, if there is one, and the rest. -/
def takeScheme (t : Text) : Text × Text :=
  match WebOrigin.schemeSplit t with
  | some split => split
  | none => ([], t)

def endsNetloc (c : Char) : Bool := c = '/' || c = '?' || c = '#'

/-- The netloc, if two slashes introduce one, and the rest. -/
def takeNetloc : Text → Text × Text
  | '/' :: '/' :: rest => (rest.takeWhile (!endsNetloc ·), rest.dropWhile (!endsNetloc ·))
  | t => ([], t)

/-- `urlsplit`; `invalid` is whether it refuses a netloc with a `ValueError`. -/
def urlsplit (invalid : Text → Bool) (url : Text) : Option SplitResult :=
  let url := (url.dropWhile isC0OrSpace).filter (!isTabOrNewline ·)
  let (scheme, url) := takeScheme url
  let (netloc, url) := takeNetloc url
  if netloc ≠ [] ∧ invalid netloc then none
  else
    let (url, fragment) := splitFirst '#' url
    let (path, query) := splitFirst '?' url
    some ⟨scheme, netloc, path, query, fragment⟩

/-- `MAX_NEXT_BYTES`. -/
def maxNextBytes : Nat := 2048

/-- The gateway's own paths. -/
def ownPaths : List Text :=
  ["/login", "/logout", "/check", "/login.css", "/login-logo.png", "/gongan.png"].map String.toList

/-- A text that is no next path whatever it names. -/
def unfit (value : Text) : Bool :=
  value.isEmpty || decide (maxNextBytes < byteLength value) || value.any isControl

/-- More than a path and a query, or a path that does not begin with one slash. -/
def SplitResult.leadsAway (parsed : SplitResult) : Bool :=
  parsed.scheme ≠ [] || parsed.netloc ≠ [] || parsed.fragment ≠ [] ||
    parsed.path.head? ≠ some '/' || parsed.path.take 2 = ['/', '/']

/-- `_safe_next`; none where `urlsplit` raises. -/
def safeNext (invalid : Text → Bool) (value : Text) : Option Text :=
  if unfit value then some ['/']
  else
    (urlsplit invalid value).map fun parsed =>
      if parsed.leadsAway || parsed.path ∈ ownPaths then ['/'] else value

/-- A header holds characters of Latin-1; sending another raises. -/
def isLatin1 (value : Text) : Bool := value.all fun c => c.toNat < 256

/-- `_redirect`: the `Location` sent. -/
def redirectLocation (invalid : Text → Bool) (location : Text) : Option Text :=
  (safeNext invalid location).filter isLatin1

/-- The bytes `quote` leaves as they are. -/
def isUnreserved (b : Nat) : Bool :=
  (Char.ofNat b).isAlphanum || Char.ofNat b ∈ "_.-~".toList

def upperHexDigit (n : Nat) : Char := "0123456789ABCDEF".toList.getD n '0'

/-- `quote(text, safe="")`. -/
def quote (text : Text) : Text :=
  (Utf8.encode text).flatMap fun b =>
    if b < 128 ∧ isUnreserved b then [Char.ofNat b]
    else ['%', upperHexDigit (b / 16), upperHexDigit (b % 16)]

/-- A request that is answered with one of the headers. -/
inductive RedirectRequest where
  /-- `GET /login` with a session; the next value of its query, none if that is malformed. -/
  | login (next : Option Text)
  /-- A `POST /login` that succeeds. -/
  | form (next : Text)
  | logout
  /-- `GET /check` without a session, with its `X-Original-URI`. -/
  | check (original : Option Text)

/-- The value of the header sent. -/
def sentLocation (invalid : Text → Bool) : RedirectRequest → Option Text
  | .login none => redirectLocation invalid ['/']
  | .login (some next) => redirectLocation invalid ((safeNext invalid next).getD ['/'])
  | .form next => (safeNext invalid next).bind (redirectLocation invalid)
  | .logout => redirectLocation invalid "/login".toList
  | .check original =>
    (safeNext invalid (original.getD ['/'])).map fun original =>
      "/login?next=".toList ++ quote original

end AutoTrade.LoginGateway
