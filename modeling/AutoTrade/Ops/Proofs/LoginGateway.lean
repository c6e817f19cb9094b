import AutoTrade.Misc.Runs
import AutoTrade.Ops.LoginGateway
import Mathlib.Tactic.Linarith

/-!
# The life of a login session

The store and the memory of a gateway hold the same sessions, and those are the ones
that logins reported and nothing reported since has ended, while they last. So a
token is accepted by that law whatever was refused, failed or restarted in between.
-/

namespace AutoTrade.LoginGateway

variable {config : Config}

/-- A report ends the session of a token: it presents the token, or its login evicted it. -/
def Ends (config : Config) (token : Text) : Report → Prop
  | .loggedIn _ previous evicted _ => previous = some token ∨ evicted = some (config.digest token)
  | .loggedOut presented => presented = some token

/-- A login reported a token, and nothing reported since ends it. -/
def Standing (config : Config) (reports : List Report) (token : Text) (issued : ℚ) : Prop :=
  ∃ before previous evicted after, reports = before ++ .loggedIn token previous evicted issued :: after ∧
    ∀ report ∈ after, ¬ Ends config token report

theorem standing_nil {token : Text} {issued : ℚ} : ¬ Standing config [] token issued := by
  rintro ⟨before, previous, evicted, after, whole, -⟩
  simp at whole

theorem standing_snoc {reports : List Report} {report : Report} {token : Text} {issued : ℚ} :
    Standing config (reports ++ [report]) token issued ↔
      (∃ previous evicted, report = .loggedIn token previous evicted issued) ∨
        (Standing config reports token issued ∧ ¬ Ends config token report) := by
  constructor
  · rintro ⟨before, previous, evicted, after, whole, lasts⟩
    rcases List.eq_nil_or_concat after with rfl | ⟨front, last, rfl⟩
    · obtain ⟨-, same⟩ := List.append_inj' whole rfl
      exact .inl ⟨previous, evicted, (List.cons.inj same).1⟩
    · have whole' : reports ++ [report] =
          (before ++ .loggedIn token previous evicted issued :: front) ++ [last] := by
        simpa using whole
      obtain ⟨rfl, same⟩ := List.append_inj' whole' rfl
      obtain rfl := (List.cons.inj same).1
      simp only [List.concat_eq_append, List.mem_append, List.mem_singleton] at lasts
      exact .inr ⟨⟨before, previous, evicted, front, rfl, fun r member => lasts r (.inl member)⟩,
        lasts report (.inr rfl)⟩
  · rintro (⟨previous, evicted, rfl⟩ | ⟨⟨before, previous, evicted, after, rfl, lasts⟩, stays⟩)
    · exact ⟨reports, previous, evicted, [], rfl, by simp⟩
    · refine ⟨before, previous, evicted, after ++ [report], by simp, fun r member => ?_⟩
      rcases List.mem_append.mp member with old | new
      · exact lasts r old
      · exact List.mem_singleton.mp new ▸ stays

variable {digest : TokenDigest}

theorem digest?_eq_some {token : Option Text} :
    config.digest? token = some digest ↔
      ∃ t, token = some t ∧ isToken t = true ∧ config.digest t = digest := by
  unfold Config.digest?
  simp only [Option.map_eq_some_iff, Option.filter_eq_some_iff, and_assoc]

variable {sessions : Sessions}

theorem liveSessions_get? {now : ℚ} {s : Session} :
    (config.liveSessions now sessions).get? digest = some s ↔
      sessions.get? digest = some s ∧ config.live now s = true := Dict.get?_filter

theorem erase_get? {gone digest : TokenDigest} {s : Session} :
    (sessions.erase gone).get? digest = some s ↔ sessions.get? digest = some s ∧ gone ≠ digest := by
  rw [Dict.get?_erase]
  split <;> simp_all

variable {previous : Option Text}

theorem before_get? {now : ℚ} {s : Session} :
    (config.before now previous sessions).get? digest = some s ↔
      (sessions.get? digest = some s ∧ config.live now s = true) ∧
        config.digest? previous ≠ some digest := by
  unfold Config.before
  cases presented : config.digest? previous with
  | none => simp [liveSessions_get?]
  | some gone => simp [erase_get?, liveSessions_get?]

theorem length_before_le (config : Config) (now : ℚ) (previous : Option Text) (sessions : Sessions) :
    (config.before now previous sessions).entries.length ≤ sessions.entries.length := by
  have live : (config.liveSessions now sessions).entries.length ≤ sessions.entries.length :=
    List.length_filter_le ..
  unfold Config.before
  split
  · exact (List.length_filter_le ..).trans live
  · exact live

theorem oldest_eq_some (first : oldest sessions = some digest) :
    ∃ s, sessions.get? digest = some s ∧
      ∀ other t, sessions.get? other = some t → s.createdAt ≤ t.createdAt := by
  obtain ⟨entry, least, rfl⟩ := Option.map_eq_some_iff.mp first
  refine ⟨entry.2, Dict.mem_entries_iff.mp (List.argmin_mem least), fun other t found => ?_⟩
  exact List.le_of_mem_argmin (f := fun entry : TokenDigest × Session => entry.2.createdAt)
    (Dict.mem_entries_iff.mpr found) least

theorem createSession_eq_ok {username : Text} {now : ℚ} {token : FreshToken} {written : Bool}
    {g : Gateway} (h : createSession config sessions username previous now token written = .ok g) :
    written = true ∧ ∃ room : Sessions,
      g = ⟨some (room.set (config.digest token.text) ⟨username, now⟩),
        saveSessions (room.set (config.digest token.text) ⟨username, now⟩)⟩ ∧
      (∀ digest s, room.get? digest = some s ↔
        (config.before now previous sessions).get? digest = some s ∧
          config.evicted (config.before now previous sessions) ≠ some digest) ∧
      (sessions.entries.length ≤ config.maxSessions → room.entries.length < config.maxSessions) := by
  have shorter := length_before_le config now previous sessions
  unfold createSession at h
  dsimp only at h
  generalize config.before now previous sessions = before at h shorter ⊢
  unfold Config.evicted
  by_cases full : config.maxSessions ≤ before.entries.length
  · rw [if_pos full] at h ⊢
    cases first : oldest before with
    | none =>
      rw [first] at h
      cases h
    | some gone =>
      rw [first] at h
      obtain ⟨s, found, -⟩ := oldest_eq_some first
      have less := Dict.length_erase (Dict.mem_keys_iff.mpr ⟨s, found⟩)
      cases written with
      | false => cases h
      | true =>
        refine ⟨rfl, before.erase gone, (Except.ok.inj h).symm, fun digest t => ?_, fun bound => ?_⟩
        · rw [erase_get?]
          simp
        · omega
  · rw [if_neg full] at h ⊢
    cases written with
    | false => cases h
    | true =>
      refine ⟨rfl, before, (Except.ok.inj h).symm, fun digest t => by simp, fun bound => ?_⟩
      omega

theorem removeSession_eq_ok {g g' : Gateway} {token : Option Text} {now : ℚ} {written : Bool}
    (h : removeSession config g sessions token now written = .ok g') :
    (∃ rest : Sessions, written = true ∧ g' = ⟨some rest, saveSessions rest⟩ ∧
      (∀ digest s, rest.get? digest = some s ↔
        (config.liveSessions now sessions).get? digest = some s ∧ config.digest? token ≠ some digest) ∧
      rest.entries.length ≤ (config.liveSessions now sessions).entries.length) ∨
    (g' = g ∧ ∀ digest s, sessions.get? digest = some s → config.digest? token ≠ some digest) := by
  unfold removeSession at h
  cases looked : config.digest? token with
  | none =>
    rw [looked] at h
    exact .inr ⟨(Except.ok.inj h).symm, by simp⟩
  | some gone =>
    rw [looked] at h
    dsimp only at h
    split_ifs at h with held
    · cases written with
      | false => cases h
      | true =>
        refine .inl ⟨_, rfl, (Except.ok.inj h).symm, fun digest s => ?_, List.length_filter_le ..⟩
        rw [erase_get?]
        simp
    · refine .inr ⟨(Except.ok.inj h).symm, fun digest s found same => held ?_⟩
      obtain rfl := Option.some.inj same
      exact Dict.mem_keys_iff.mpr ⟨s, found⟩

theorem sessionEntry_savedEntry {entry : TokenDigest × Session}
    (named : validUsername entry.2.username = true) :
    sessionEntry (savedEntry entry).1 (savedEntry entry).2 = some entry := by
  obtain ⟨⟨text, hex⟩, username, createdAt⟩ := entry
  show sessionEntry text (.obj [("username".toList, .text username),
    ("created_at".toList, .number createdAt)]) = _
  rw [sessionEntry, dif_pos hex]
  show (if validUsername username then some _ else none) = _
  rw [if_pos named]

theorem loadSessions_saveSessions
    (named : ∀ digest s, sessions.get? digest = some s → validUsername s.username = true)
    (now : ℚ) :
    loadSessions config now (saveSessions sessions) = .ok (config.liveSessions now sessions) := by
  have entries : ((sessions.entries.map savedEntry).mapM fun entry => sessionEntry entry.1 entry.2) =
      some sessions.entries := by
    have valid : ∀ entry ∈ sessions.entries, validUsername entry.2.username = true :=
      fun entry member => named _ _ (Dict.mem_entries_iff.mp member)
    revert valid
    generalize sessions.entries = entries
    intro valid
    induction entries with
    | nil => rfl
    | cons entry rest ih =>
      have first := sessionEntry_savedEntry (valid entry List.mem_cons_self)
      rw [List.map_cons, List.mapM_cons, first,
        ih fun other member => valid other (List.mem_cons_of_mem _ member)]
      rfl
  unfold loadSessions saveSessions
  simp only [entries, if_true]
  exact congrArg Except.ok (Dict.ofList_entries (config.liveSessions now sessions))

/-- The sessions held are the ones the law lets stand at the last reading of the clock. -/
structure Kept (config : Config) (known : Set Text) (reports : List Report) (last : ℚ)
    (held : Sessions) : Prop where
  issued : ∀ digest s, held.get? digest = some s →
    ∃ token, config.digest token = digest ∧ Standing config reports token s.createdAt
  standing : ∀ token issued, Standing config reports token issued →
    last - issued < config.sessionSeconds →
      ∃ s, held.get? (config.digest token) = some s ∧ issued ≤ s.createdAt
  past : ∀ token issued, Standing config reports token issued →
    token ∈ known ∧ isToken token = true ∧ issued ≤ last
  named : ∀ digest s, held.get? digest = some s → validUsername s.username = true
  bounded : held.entries.length ≤ config.maxSessions

namespace Kept

variable {known : Set Text} {reports : List Report} {last now : ℚ} {held : Sessions}

theorem empty : Kept config known [] last Dict.empty where
  issued := by simp
  standing _ _ stands := absurd stands standing_nil
  past _ _ stands := absurd stands standing_nil
  named := by simp
  bounded := Nat.zero_le _

theorem later (kept : Kept config known reports last held) (passes : last ≤ now) :
    Kept config known reports now held :=
  { kept with
    standing := fun token issued stands lasts => kept.standing token issued stands (by linarith)
    past := fun token issued stands =>
      ⟨(kept.past token issued stands).1, (kept.past token issued stands).2.1,
        (kept.past token issued stands).2.2.trans passes⟩ }

theorem live (kept : Kept config known reports now held) :
    Kept config known reports now (config.liveSessions now held) :=
  { kept with
    issued := fun digest s found => kept.issued digest s (liveSessions_get?.mp found).1
    standing := by
      intro token issued stands lasts
      obtain ⟨s, found, least⟩ := kept.standing token issued stands lasts
      refine ⟨s, liveSessions_get?.mpr ⟨found, decide_eq_true ?_⟩, least⟩
      linarith
    named := fun digest s found => kept.named digest s (liveSessions_get?.mp found).1
    bounded := (List.length_filter_le ..).trans kept.bounded }

theorem at_now (kept : Kept config known reports now held) {token : Text} {issued : ℚ}
    (stands : Standing config reports token issued) (lasts : now - issued < config.sessionSeconds) :
    ∃ s, held.get? (config.digest token) = some s ∧ config.live now s = true ∧ issued ≤ s.createdAt := by
  obtain ⟨s, found, least⟩ := kept.standing token issued stands lasts
  refine ⟨s, found, decide_eq_true ?_, least⟩
  linarith

theorem login (kept : Kept config known reports now held) (injective : Set.InjOn config.digest known)
    {username : Text} (name : validUsername username = true) {token : FreshToken}
    (fresh : token.text ∈ known) {previous : Option Text} (presented : ∀ t ∈ previous, t ∈ known)
    {written : Bool} {g : Gateway}
    (h : createSession config held username previous now token written = .ok g) :
    ∃ held', g = ⟨some held', saveSessions held'⟩ ∧
      Kept config known (reports ++ [.loggedIn token.text previous
        (config.evicted (config.before now previous held)) now]) now held' := by
  obtain ⟨-, room, rfl, rest, bound⟩ := createSession_eq_ok h
  refine ⟨_, rfl, ?_, ?_, ?_, ?_, ?_⟩
  · intro digest s found
    rw [Dict.get?_set] at found
    split_ifs at found with same
    · obtain rfl := Option.some.inj found
      exact ⟨token.text, same, standing_snoc.mpr (.inl ⟨_, _, rfl⟩)⟩
    · obtain ⟨stays, kept'⟩ := (rest digest s).mp found
      obtain ⟨⟨here, -⟩, other⟩ := before_get?.mp stays
      obtain ⟨t, rfl, stands⟩ := kept.issued digest s here
      refine ⟨t, rfl, standing_snoc.mpr (.inr ⟨stands, ?_⟩)⟩
      rintro (presents | evicts)
      · exact other (digest?_eq_some.mpr ⟨t, presents, (kept.past t _ stands).2.1, rfl⟩)
      · exact kept' evicts
  · intro t issued stands lasts
    rcases standing_snoc.mp stands with ⟨_, _, same⟩ | ⟨before, lasting⟩
    · obtain ⟨rfl, -, -, rfl⟩ := Report.loggedIn.inj same
      exact ⟨_, Dict.get?_set_self .., le_refl _⟩
    · obtain ⟨member, shape, past⟩ := kept.past t issued before
      obtain ⟨s, found, live, least⟩ := kept.at_now before lasts
      rw [Dict.get?_set]
      split_ifs with same
      · exact ⟨_, rfl, past⟩
      · refine ⟨s, (rest _ s).mpr ⟨before_get?.mpr ⟨⟨found, live⟩, ?_⟩, ?_⟩, least⟩
        · intro presents
          obtain ⟨p, rfl, -, digests⟩ := digest?_eq_some.mp presents
          obtain rfl := injective (presented p rfl) member digests
          exact lasting (.inl rfl)
        · exact fun evicts => lasting (.inr evicts)
  · intro t issued stands
    rcases standing_snoc.mp stands with ⟨_, _, same⟩ | ⟨before, -⟩
    · obtain ⟨rfl, -, -, rfl⟩ := Report.loggedIn.inj same
      exact ⟨fresh, token.urlsafe, le_refl _⟩
    · exact kept.past t issued before
  · intro digest s found
    rw [Dict.get?_set] at found
    split_ifs at found
    · exact Option.some.inj found ▸ name
    · exact kept.named digest s (before_get?.mp ((rest digest s).mp found).1).1.1
  · have grown := Dict.length_set_le room (config.digest token.text) ⟨username, now⟩
    have less := bound kept.bounded
    omega

theorem logout (kept : Kept config known reports now held) (injective : Set.InjOn config.digest known)
    {token : Option Text} (presented : ∀ t ∈ token, t ∈ known) {held' : Sessions}
    (rest : ∀ digest s, held'.get? digest = some s ↔
      held.get? digest = some s ∧ config.digest? token ≠ some digest)
    (bound : held'.entries.length ≤ held.entries.length) :
    Kept config known (reports ++ [.loggedOut token]) now held' where
  issued digest s found := by
    obtain ⟨here, other⟩ := (rest digest s).mp found
    obtain ⟨t, rfl, stands⟩ := kept.issued digest s here
    refine ⟨t, rfl, standing_snoc.mpr (.inr ⟨stands, fun presents => other ?_⟩)⟩
    exact digest?_eq_some.mpr ⟨t, presents, (kept.past t _ stands).2.1, rfl⟩
  standing t issued stands lasts := by
    rcases standing_snoc.mp stands with ⟨_, _, same⟩ | ⟨before, lasting⟩
    · cases same
    · obtain ⟨s, found, least⟩ := kept.standing t issued before lasts
      refine ⟨s, (rest _ s).mpr ⟨found, fun presents => lasting ?_⟩, least⟩
      obtain ⟨p, rfl, -, digests⟩ := digest?_eq_some.mp presents
      exact congrArg some (injective (presented p rfl) (kept.past t issued before).1 digests)
  past t issued stands := by
    rcases standing_snoc.mp stands with ⟨_, _, same⟩ | ⟨before, -⟩
    · cases same
    · exact kept.past t issued before
  named digest s found := kept.named digest s ((rest digest s).mp found).1
  bounded := bound.trans kept.bounded

theorem accepts (kept : Kept config known reports now held) (injective : Set.InjOn config.digest known)
    {token : Text} (member : token ∈ known) :
    checkSession config held (some token) now = true ↔
      ∃ issued, Standing config reports token issued ∧ now - issued < config.sessionSeconds := by
  unfold checkSession
  constructor
  · intro accepted
    cases looked : config.digest? (some token) with
    | none => simp [looked] at accepted
    | some digest =>
      obtain ⟨t, same, -, rfl⟩ := digest?_eq_some.mp looked
      obtain rfl := Option.some.inj same
      simp only [looked, Option.any_eq_true] at accepted
      obtain ⟨s, found, live⟩ := accepted
      obtain ⟨t', digests, stands⟩ := kept.issued _ s found
      obtain rfl := injective (kept.past t' _ stands).1 member digests
      exact ⟨s.createdAt, stands, of_decide_eq_true live⟩
  · rintro ⟨issued, stands, lasts⟩
    obtain ⟨s, found, live, -⟩ := kept.at_now stands lasts
    have looked : config.digest? (some token) = some (config.digest token) :=
      digest?_eq_some.mpr ⟨token, rfl, (kept.past token issued stands).2.1, rfl⟩
    simp [looked, found, live]

end Kept

variable (config) in
theorem postLogin_cases (g : Gateway) (sessions : Sessions) (request : LoginRequest) (now : ℚ)
    (token : FreshToken) (written : Bool) :
    (∃ username next, validUsername username = true ∧
      createSession config sessions username request.previous now token written =
        .ok (postLogin config g sessions request now token written).1 ∧
      (postLogin config g sessions request now token written).2 = .loggedIn token.text next) ∨
    ((postLogin config g sessions request now token written).1 = g ∧
      ∀ t next, (postLogin config g sessions request now token written).2 ≠ .loggedIn t next) := by
  unfold postLogin
  split
  · exact .inr ⟨rfl, by simp⟩
  · rename_i form read
    dsimp only
    split_ifs with ascii csrf names verified
    · exact .inr ⟨rfl, by simp⟩
    · exact .inr ⟨rfl, by simp⟩
    · exact .inr ⟨rfl, by simp⟩
    · exact .inr ⟨rfl, by simp⟩
    · split
      · rename_i g' created
        have name : validUsername form.username = true := by
          simp only [Bool.or_eq_true, Bool.not_eq_true', not_or, Bool.not_eq_false] at names
          exact names.1
        exact .inl ⟨form.username, _, name, created, rfl⟩
      · exact .inr ⟨rfl, by simp⟩

variable (config) in
theorem postLogout_cases (g : Gateway) (sessions : Sessions) (length : Option Nat)
    (token : Option Text) (now : ℚ) (written : Bool) :
    (removeSession config g sessions token now written =
        .ok (postLogout config g sessions length token now written).1 ∧
      (postLogout config g sessions length token now written).2 = .loggedOut) ∨
    ((postLogout config g sessions length token now written).1 = g ∧
      (postLogout config g sessions length token now written).2 ≠ .loggedOut) := by
  unfold postLogout
  split
  · exact .inr ⟨rfl, by simp⟩
  · split_ifs
    · exact .inr ⟨rfl, by simp⟩
    · split
      · rename_i g' removed
        exact .inl ⟨removed, rfl⟩
      · exact .inr ⟨rfl, by simp⟩

/-- What a gateway holds, in its store and in memory while it runs. -/
structure Serving (config : Config) (known : Set Text) (last : ℚ) (s : Served) (held : Sessions) :
    Prop where
  kept : Kept config known s.reports last held
  stored : ∀ now, loadSessions config now s.gateway.store = .ok (config.liveSessions now held)
  memory : ∀ sessions ∈ s.gateway.sessions, sessions = held

namespace Serving

variable {known : Set Text} {last : ℚ} {s : Served} {held : Sessions}

variable {now : ℚ}

theorem idle (serving : Serving config known last s held) (passes : last ≤ now) :
    Serving config known now s held :=
  { serving with kept := serving.kept.later passes }

theorem committed {reports : List Report} (kept : Kept config known reports now held) :
    Serving config known now ⟨⟨some held, saveSessions held⟩, reports⟩ held where
  kept := kept
  stored := loadSessions_saveSessions kept.named
  memory _ here := (Option.some.inj here).symm

variable {written : Bool}

theorem login (serving : Serving config known last s held)
    (injective : Set.InjOn config.digest known) {request : LoginRequest} {token : FreshToken}
    (passes : last ≤ now) (fresh : token.text ∈ known)
    (presented : ∀ t ∈ request.previous, t ∈ known) :
    ∃ held', Serving config known now (s.step config (.login request now token written)) held' := by
  have serving := serving.idle passes
  unfold Served.step reportOf
  cases memory : s.gateway.sessions with
  | none => exact ⟨held, by simpa [LoginGateway.step, Gateway.serves, memory] using serving⟩
  | some sessions =>
    obtain rfl := serving.memory sessions memory
    simp only [LoginGateway.step, Gateway.serves, memory]
    rcases postLogin_cases config s.gateway sessions request now token written with
      ⟨username, next, name, created, reply⟩ | ⟨same, silent⟩
    · obtain ⟨held', after, kept⟩ := serving.kept.login injective name fresh presented created
      refine ⟨held', ?_⟩
      simp only [reply, Option.toList_some, after]
      exact committed kept
    · refine ⟨sessions, ?_⟩
      rw [same]
      cases reply : (postLogin config s.gateway sessions request now token written).2 with
      | loggedIn t next => exact absurd reply (silent t next)
      | _ => simpa using serving

theorem logout (serving : Serving config known last s held)
    (injective : Set.InjOn config.digest known) {length : Option Nat} {token : Option Text}
    (passes : last ≤ now) (presented : ∀ t ∈ token, t ∈ known) :
    ∃ held', Serving config known now (s.step config (.logout length token now written)) held' := by
  have serving := serving.idle passes
  unfold Served.step reportOf
  cases memory : s.gateway.sessions with
  | none => exact ⟨held, by simpa [LoginGateway.step, Gateway.serves, memory] using serving⟩
  | some sessions =>
    obtain rfl := serving.memory sessions memory
    simp only [LoginGateway.step, Gateway.serves, memory]
    rcases postLogout_cases config s.gateway sessions length token now written with
      ⟨removed, reply⟩ | ⟨same, silent⟩
    · simp only [reply, Option.toList_some]
      rcases removeSession_eq_ok removed with ⟨rest, -, after, stays, bound⟩ | ⟨same, absent⟩
      · rw [after]
        exact ⟨rest, committed (serving.kept.live.logout injective presented stays bound)⟩
      · rw [same]
        refine ⟨sessions, { serving with kept := ?_ }⟩
        refine serving.kept.logout injective presented (fun digest t => ?_) (le_refl _)
        exact ⟨fun found => ⟨found, absent digest t found⟩, And.left⟩
    · refine ⟨sessions, ?_⟩
      rw [same]
      cases reply : (postLogout config s.gateway sessions length token now written).2 with
      | loggedOut => exact absurd reply silent
      | _ => simpa using serving

theorem restart (serving : Serving config known last s held) (passes : last ≤ now) :
    ∃ held', Serving config known now (s.step config (.restart now written)) held' := by
  have serving := serving.idle passes
  have started : start config s.gateway.store now written =
      commit (config.liveSessions now held) written := by
    rw [start, serving.stored now]
    rfl
  simp only [Served.step, reportOf, LoginGateway.step, started, Option.toList_none, List.append_nil]
  cases written with
  | false => exact ⟨held, serving.kept, serving.stored, nofun⟩
  | true => exact ⟨_, committed serving.kept.live⟩

theorem step (serving : Serving config known last s held) (injective : Set.InjOn config.digest known)
    {op : GatewayOp} (passes : last ≤ op.now) (presented : ∀ t ∈ op.tokens, t ∈ known) :
    ∃ held', Serving config known op.now (s.step config op) held' := by
  cases op with
  | login request now token written =>
    refine serving.login injective passes (presented _ List.mem_cons_self) fun t came => ?_
    exact presented t (List.mem_cons_of_mem _ (Option.mem_toList.mpr came))
  | logout length token now written =>
    exact serving.logout injective passes fun t came => presented t (Option.mem_toList.mpr came)
  | check token now =>
    refine ⟨held, ?_⟩
    have serving : Serving config known now s held := serving.idle passes
    have same : s.step config (.check token now) = s := by
      unfold Served.step LoginGateway.step Gateway.serves reportOf
      cases s.gateway.sessions <;> simp
    exact same.symm ▸ serving
  | restart now written => exact serving.restart passes

theorem run {ops : List GatewayOp} (serving : Serving config known last s held)
    (injective : Set.InjOn config.digest known)
    (ordered : (ops.map GatewayOp.now).Pairwise (· ≤ ·)) (since : ∀ op ∈ ops, last ≤ op.now)
    (presented : ∀ op ∈ ops, ∀ t ∈ op.tokens, t ∈ known) (passes : ∀ op ∈ ops, op.now ≤ now)
    (present : last ≤ now) :
    ∃ held', Serving config known now (ops.foldl (Served.step config) s) held' := by
  induction ops generalizing s held last with
  | nil => exact ⟨held, serving.idle present⟩
  | cons op rest ih =>
    obtain ⟨held', after⟩ := serving.step injective (since op List.mem_cons_self)
      (presented op List.mem_cons_self)
    obtain ⟨first, later⟩ := List.pairwise_cons.mp ordered
    exact ih after later (fun other member => first _ (List.mem_map_of_mem member))
      (fun other member => presented other (List.mem_cons_of_mem _ member))
      (fun other member => passes other (List.mem_cons_of_mem _ member)) (passes op List.mem_cons_self)

end Serving

theorem serving_serve {known : Set Text} {ops : List GatewayOp}
    (injective : Set.InjOn config.digest known) (ordered : (ops.map GatewayOp.now).Pairwise (· ≤ ·))
    (presented : ∀ op ∈ ops, ∀ t ∈ op.tokens, t ∈ known) {now : ℚ}
    (passes : ∀ op ∈ ops, op.now ≤ now) : ∃ held, Serving config known now (serve config ops) held := by
  have fresh : ∀ first, Serving config known first {} Dict.empty :=
    fun first => ⟨.empty, fun _ => rfl, nofun⟩
  cases ops with
  | nil => exact ⟨_, fresh now⟩
  | cons op rest =>
    refine (fresh op.now).run injective ordered ?_ presented passes (passes op List.mem_cons_self)
    intro other member
    rcases List.mem_cons.mp member with rfl | later
    · exact le_refl _
    · exact (List.pairwise_cons.mp ordered).1 _ (List.mem_map_of_mem later)

theorem step_unwritten (g : Gateway) {op : GatewayOp} (failed : op.written = false) :
    (step config g op).1.store = g.store ∧
      (op.starts = false → (step config g op).1 = g) := by
  cases op with
  | login request now token written =>
    obtain rfl : written = false := failed
    suffices same : (step config g (.login request now token false)).1 = g from
      ⟨congrArg Gateway.store same, fun _ => same⟩
    unfold step Gateway.serves
    cases g.sessions with
    | none => rfl
    | some sessions =>
      rcases postLogin_cases config g sessions request now token false with
        ⟨username, next, -, created, -⟩ | ⟨same, -⟩
      · exact absurd (createSession_eq_ok created).1 (by decide)
      · exact same
  | logout length token now written =>
    obtain rfl : written = false := failed
    suffices same : (step config g (.logout length token now false)).1 = g from
      ⟨congrArg Gateway.store same, fun _ => same⟩
    unfold step Gateway.serves
    cases g.sessions with
    | none => rfl
    | some sessions =>
      rcases postLogout_cases config g sessions length token now false with
        ⟨removed, -⟩ | ⟨same, -⟩
      · rcases removeSession_eq_ok removed with ⟨_, written, -⟩ | ⟨same, -⟩
        · cases written
        · exact same
      · exact same
  | check token now => cases failed
  | restart now written =>
    obtain rfl : written = false := failed
    refine ⟨?_, nofun⟩
    have fails : ∃ e, start config g.store now false = .error e := by
      unfold start
      cases loadSessions config now g.store
      · exact ⟨_, rfl⟩
      · exact ⟨.storeWrite, rfl⟩
    obtain ⟨e, fails⟩ := fails
    simp [step, fails]

theorem evicted_oldest (evicts : config.evicted sessions = some digest) :
    config.maxSessions ≤ sessions.entries.length ∧ ∃ s, sessions.get? digest = some s ∧
      ∀ other t, sessions.get? other = some t → s.createdAt ≤ t.createdAt := by
  unfold Config.evicted at evicts
  split_ifs at evicts with full
  exact ⟨full, oldest_eq_some evicts⟩

/-- The life of a session: when its token is accepted, that a failed write changes no
    acceptance, how many there are, which is evicted, and that the store is taken back. -/
structure Lifecycle (config : Config) (served : Served) (token : Text) (now : ℚ) : Prop where
  accepted : ∀ sessions, served.gateway.sessions = some sessions →
    (checkSession config sessions (some token) now = true ↔
      ∃ issued, Standing config served.reports token issued ∧ now - issued < config.sessionSeconds)
  unwritten : ∀ op : GatewayOp, op.written = false →
    (step config served.gateway op).1.store = served.gateway.store ∧
      (op.starts = false → (step config served.gateway op).1 = served.gateway)
  bounded : ∀ sessions, served.gateway.sessions = some sessions →
    sessions.entries.length ≤ config.maxSessions
  evicted : ∀ request issued fresh written previous digest time,
    reportOf config served.gateway (.login request issued fresh written) =
      some (.loggedIn fresh.text previous (some digest) time) →
    ∃ sessions s, served.gateway.sessions = some sessions ∧
      config.maxSessions ≤ (config.before issued previous sessions).entries.length ∧
      (config.before issued previous sessions).get? digest = some s ∧
      ∀ other t, (config.before issued previous sessions).get? other = some t →
        s.createdAt ≤ t.createdAt
  restarts : ∀ later, ∃ sessions, loadSessions config later served.gateway.store = .ok sessions

/-- Two tokens, and the digests they have. -/
def tokenOf (c : Char) : Text := List.replicate 43 c

def twoDigests (token : Text) : TokenDigest :=
  if token = tokenOf 'a' then
    ⟨"66d34fba71f8f450f7e45598853e53bfc23bbd129027cbb131a2f4ffd7878cd0".toList, by decide +kernel⟩
  else ⟨"f01b57226261ae3756b93936e1c4e6b849f9a5b0933fa3b91843bf4195b9d964".toList, by decide +kernel⟩

/-- A gateway for one session. -/
def oneSession : Config :=
  { sessionSeconds := 86400, maxSessions := 1, digest := twoDigests, verify := fun _ _ => true,
    safeNext := id }

/-- Two logins, the second of which evicts the first, and a restart. -/
def twoLogins : List GatewayOp :=
  let csrf := tokenOf 'c'
  let request : LoginRequest :=
    { form := some ⟨"user".toList, "password".toList, csrf, ['/']⟩, csrfCookie := some csrf,
      previous := none }
  [.restart 0 true, .login request 10 ⟨tokenOf 'a', by decide +kernel⟩ true,
    .login request 20 ⟨tokenOf 'b', by decide +kernel⟩ true, .restart 30 true]

end AutoTrade.LoginGateway
