import AutoTrade.Common.Text
import AutoTrade.Misc.Dict
import Mathlib.Algebra.Order.Ring.Rat
import Mathlib.Data.List.MinMax

/-!
# The login gateway

Sessions by the digest of their token, in memory and in the session store: a login
commits a new one, a logout takes one out, and a start reads the store. Memory
changes only after the store holds the change.
-/

namespace AutoTrade.LoginGateway

/-- `TOKEN_RE`. -/
def isToken (token : Text) : Bool :=
  decide (40 ≤ token.length ∧ token.length ≤ 128) &&
    token.all fun c => c.isAlphanum || c = '_' || c = '-'

/-- `TOKEN_DIGEST_RE`. -/
def isTokenDigest (digest : Text) : Bool :=
  digest.length = 64 && digest.all fun c => c ∈ "0123456789abcdef".toList

/-- A SHA-256 digest, as `hexdigest` writes it. -/
structure TokenDigest where
  text : Text
  hex : isTokenDigest text = true
  deriving DecidableEq

/-- What `secrets.token_urlsafe(32)` makes. -/
structure FreshToken where
  text : Text
  urlsafe : isToken text = true

/-- A control character, one that no name holds. -/
def isControl (c : Char) : Bool := c.toNat < 32 || c.toNat = 127

/-- `_valid_username`. -/
def validUsername (username : Text) : Bool :=
  !username.isEmpty && decide (username.length ≤ 64) && decide (byteLength username ≤ 128) &&
    username.all fun c => c ≠ ':' && !isControl c

/-- `_valid_password`. -/
def validPassword (password : Text) : Bool :=
  !password.isEmpty && decide (password.length ≤ 256) && decide (byteLength password ≤ 1024) &&
    decide ('\x00' ∉ password)

structure Session where
  username : Text
  createdAt : ℚ
  deriving DecidableEq

abbrev Sessions := Dict TokenDigest Session

/-- What the gateway is configured with and relies on: the digest of a token, the
    check of a password and the path a login may go on to. -/
structure Config where
  sessionSeconds : Nat
  maxSessions : Nat
  digest : Text → TokenDigest
  verify : Text → Text → Bool
  safeNext : Text → Text

/-- A JSON value, as far as the store is read. -/
inductive StoreValue where
  | text (t : Text)
  | number (x : ℚ)
  | other
  | obj (fields : List (Text × StoreValue))

/-- The session store on disk. -/
inductive Store where
  | missing
  | unreadable
  | value (raw : StoreValue)

inductive GatewayError where
  | unreadableStore
  | invalidStore
  | storeWrite
  | noSession
  | cookieNotAscii
  deriving DecidableEq

def StoreValue.field? (key : String) : StoreValue → Option StoreValue
  | .obj fields => (fields.find? fun field => field.1 = key.toList).map Prod.snd
  | _ => none

/-- `_valid_session_entry`, with the session it makes. -/
def sessionEntry (digest : Text) (entry : StoreValue) : Option (TokenDigest × Session) :=
  if hex : isTokenDigest digest = true then
    match entry with
    | .obj fields =>
      if fields.length = 2 then
        match entry.field? "username", entry.field? "created_at" with
        | some (.text username), some (.number createdAt) =>
          if validUsername username then some (⟨digest, hex⟩, ⟨username, createdAt⟩) else none
        | _, _ => none
      else none
    | _ => none
  else none

/-- Less than the session lifetime has passed. -/
def Config.live (config : Config) (now : ℚ) (session : Session) : Bool :=
  decide (now - session.createdAt < config.sessionSeconds)

/-- `_load_sessions`. -/
def loadSessions (config : Config) (now : ℚ) : Store → Except GatewayError Sessions
  | .missing => .ok Dict.empty
  | .unreadable => .error .unreadableStore
  | .value (.obj [(name, .obj entries)]) =>
    if name = "sessions".toList then
      match entries.mapM fun entry => sessionEntry entry.1 entry.2 with
      | some sessions => .ok (Dict.ofList (sessions.filter fun entry => config.live now entry.2))
      | none => .error .invalidStore
    else .error .invalidStore
  | .value _ => .error .invalidStore

/-- What `_save_sessions` writes of a session. -/
def savedEntry (entry : TokenDigest × Session) : Text × StoreValue :=
  (entry.1.text, .obj [("username".toList, .text entry.2.username),
    ("created_at".toList, .number entry.2.createdAt)])

/-- The file `_save_sessions` replaces the store with. -/
def saveSessions (sessions : Sessions) : Store :=
  .value (.obj [("sessions".toList, .obj (sessions.entries.map savedEntry))])

/-- The store, and the sessions in memory of a gateway that runs. -/
structure Gateway where
  sessions : Option Sessions := none
  store : Store := .missing

/-- `_commit_locked`; `written` is whether the store could be replaced. -/
def commit (sessions : Sessions) (written : Bool) : Except GatewayError Gateway :=
  if written then .ok ⟨some sessions, saveSessions sessions⟩ else .error .storeWrite

/-- `_live_locked`. -/
def Config.liveSessions (config : Config) (now : ℚ) (sessions : Sessions) : Sessions :=
  sessions.filter fun _ session => config.live now session

/-- The digest of a token the gateway looks up, if it looks like one. -/
def Config.digest? (config : Config) (token : Option Text) : Option TokenDigest :=
  (token.filter fun t => isToken t).map config.digest

/-- The sessions a login adds to: the live ones but the one it comes from. -/
def Config.before (config : Config) (now : ℚ) (previous : Option Text) (sessions : Sessions) :
    Sessions :=
  match config.digest? previous with
  | some digest => (config.liveSessions now sessions).erase digest
  | none => config.liveSessions now sessions

/-- The oldest of the sessions, the first of them where several are. -/
def oldest (sessions : Sessions) : Option TokenDigest :=
  (sessions.entries.argmin fun entry => entry.2.createdAt).map Prod.fst

/-- The session that makes room for one more, if it must. -/
def Config.evicted (config : Config) (sessions : Sessions) : Option TokenDigest :=
  if config.maxSessions ≤ sessions.entries.length then oldest sessions else none

/-- `create_session`. -/
def createSession (config : Config) (sessions : Sessions) (username : Text) (previous : Option Text)
    (now : ℚ) (token : FreshToken) (written : Bool) : Except GatewayError Gateway :=
  let before := config.before now previous sessions
  let session : Session := ⟨username, now⟩
  if config.maxSessions ≤ before.entries.length then
    match oldest before with
    | some digest => commit ((before.erase digest).set (config.digest token.text) session) written
    | none => .error .noSession
  else commit (before.set (config.digest token.text) session) written

/-- `check_session`. -/
def checkSession (config : Config) (sessions : Sessions) (token : Option Text) (now : ℚ) : Bool :=
  match config.digest? token with
  | some digest => (sessions.get? digest).any (config.live now)
  | none => false

/-- `remove_session`. -/
def removeSession (config : Config) (g : Gateway) (sessions : Sessions) (token : Option Text)
    (now : ℚ) (written : Bool) : Except GatewayError Gateway :=
  match config.digest? token with
  | none => .ok g
  | some digest =>
    if digest ∈ sessions.keys then commit ((config.liveSessions now sessions).erase digest) written
    else .ok g

/-- The form of a login, once read. -/
structure LoginForm where
  username : Text
  password : Text
  csrf : Text
  next : Text

/-- A login: its form unless it is malformed, and the cookies it comes with. -/
structure LoginRequest where
  form : Option LoginForm
  csrfCookie : Option Text
  previous : Option Text

inductive Reply where
  /-- The login page again. -/
  | loginPage (status : Nat) (error : String) (next : Text)
  /-- On to a path, with the session cookie it sets. -/
  | loggedIn (token next : Text)
  | loggedOut
  | badRequest
  | tooLarge
  | accepted
  | refused
  /-- The request failed; nothing was sent. -/
  | failed (e : GatewayError)
  | unavailable

/-- `_post_login`. -/
def postLogin (config : Config) (g : Gateway) (sessions : Sessions) (request : LoginRequest)
    (now : ℚ) (token : FreshToken) (written : Bool) : Gateway × Reply :=
  match request.form with
  | none => (g, .loginPage 400 "请求无效，请重试" (config.safeNext ['/']))
  | some form =>
    let next := config.safeNext form.next
    let cookie := request.csrfCookie.getD []
    -- `compare_digest` takes no text that is not ASCII
    if isToken form.csrf && cookie.any fun c => 127 < c.toNat then (g, .failed .cookieNotAscii)
    else if !isToken form.csrf || cookie ≠ form.csrf then
      (g, .loginPage 400 "页面已过期，请重新登录" (config.safeNext next))
    else if !validUsername form.username || !validPassword form.password then
      (g, .loginPage 401 "用户名或密码不正确" (config.safeNext next))
    else if !config.verify form.username form.password then
      (g, .loginPage 401 "用户名或密码不正确" (config.safeNext next))
    else
      match createSession config sessions form.username request.previous now token written with
      | .ok g' => (g', .loggedIn token.text (config.safeNext next))
      | .error e => (g, .failed e)

/-- `MAX_BODY_BYTES`. -/
def maxBodyBytes : Nat := 4096

/-- `_post_logout`; a length that is not a number is none. -/
def postLogout (config : Config) (g : Gateway) (sessions : Sessions) (contentLength : Option Nat)
    (token : Option Text) (now : ℚ) (written : Bool) : Gateway × Reply :=
  match contentLength with
  | none => (g, .badRequest)
  | some length =>
    if maxBodyBytes < length then (g, .tooLarge)
    else
      match removeSession config g sessions token now written with
      | .ok g' => (g', .loggedOut)
      | .error e => (g, .failed e)

/-- `_get_check`. -/
def getCheck (config : Config) (sessions : Sessions) (token : Option Text) (now : ℚ) : Reply :=
  if checkSession config sessions token now then .accepted else .refused

/-- A start: the store is read and replaced by the sessions that are still live. -/
def start (config : Config) (store : Store) (now : ℚ) (written : Bool) : Except GatewayError Gateway := do
  let sessions ← loadSessions config now store
  commit sessions written

inductive GatewayOp where
  | login (request : LoginRequest) (now : ℚ) (token : FreshToken) (written : Bool)
  | logout (contentLength : Option Nat) (token : Option Text) (now : ℚ) (written : Bool)
  | check (token : Option Text) (now : ℚ)
  | restart (now : ℚ) (written : Bool)

/-- When the gateway reads its clock. -/
def GatewayOp.now : GatewayOp → ℚ
  | .login _ now _ _ | .logout _ _ now _ | .check _ now | .restart now _ => now

/-- The tokens a request makes or presents. -/
def GatewayOp.tokens : GatewayOp → List Text
  | .login request _ token _ => token.text :: request.previous.toList
  | .logout _ token _ _ | .check token _ => token.toList
  | .restart _ _ => []

/-- Whether the store could be replaced, where it is. -/
def GatewayOp.written : GatewayOp → Bool
  | .login _ _ _ written | .logout _ _ _ written | .restart _ written => written
  | .check _ _ => true

def GatewayOp.starts : GatewayOp → Bool
  | .restart _ _ => true
  | _ => false

/-- A request; a gateway that did not start serves none. -/
def Gateway.serves (g : Gateway) (request : Sessions → Gateway × Reply) : Gateway × Reply :=
  match g.sessions with
  | none => (g, .unavailable)
  | some sessions => request sessions

/-- One request or start. -/
def step (config : Config) (g : Gateway) : GatewayOp → Gateway × Reply
  | .login request now token written =>
    g.serves fun sessions => postLogin config g sessions request now token written
  | .logout contentLength token now written =>
    g.serves fun sessions => postLogout config g sessions contentLength token now written
  | .check token now => g.serves fun sessions => (g, getCheck config sessions token now)
  | .restart now written =>
    match start config g.store now written with
    | .ok g' => (g', .accepted)
    | .error e => (⟨none, g.store⟩, .failed e)

/-- A login or a logout that reported success. -/
inductive Report where
  | loggedIn (token : Text) (previous : Option Text) (evicted : Option TokenDigest) (issued : ℚ)
  | loggedOut (token : Option Text)

/-- What a request reports. -/
def reportOf (config : Config) (g : Gateway) : GatewayOp → Option Report
  | .login request now token written =>
    match g.sessions, (step config g (.login request now token written)).2 with
    | some sessions, .loggedIn _ _ =>
      some (.loggedIn token.text request.previous
        (config.evicted (config.before now request.previous sessions)) now)
    | _, _ => none
  | .logout contentLength token now written =>
    match (step config g (.logout contentLength token now written)).2 with
    | .loggedOut => some (.loggedOut token)
    | _ => none
  | .check _ _ | .restart _ _ => none

/-- A gateway with what its requests reported. -/
structure Served where
  gateway : Gateway := {}
  reports : List Report := []

def Served.step (config : Config) (s : Served) (op : GatewayOp) : Served :=
  ⟨(LoginGateway.step config s.gateway op).1, s.reports ++ (reportOf config s.gateway op).toList⟩

/-- The gateway after some requests and starts. -/
def serve (config : Config) (ops : List GatewayOp) : Served :=
  ops.foldl (Served.step config) {}

end AutoTrade.LoginGateway
