import Archiviste.Base.Run
import Archiviste.Gateway.Identity
import Archiviste.Gateway.Throttle

/-!
# Archiviste.Gateway.Session

The life of a session over runs of logins, logouts and other requests. Every request first passes
the `resolve_identity` middleware. A login opens a session row and issues a token for it; a logout
revokes the row. Each statement to the database ends as the run says, and the instants at which the
gateway reads a clock are part of the run.

* `TableStep` — all a request can do to the session table; `row_persists` — what rows keep under it.
* `LoggedIn`, `LoggedOut` — a step of the run that was a successful login, or logout.
* `authenticated_login` — whoever either path accepts has logged in, and the session is live.
* `session_safety` — the guarantees of a whole run.
-/

namespace Archiviste.Gateway

structure World where
  sessions : Sessions
  throttle : ThrottleStore

def World.init : World := ⟨fun _ => none, ThrottleStore.new⟩

def Sessions.put (s : Sessions) (sid : Uuid) (row : SessionRow) : Sessions :=
  fun k => if k = sid then some row else s k

/-! ## Handlers -/

inductive Response where
  | unavailable
  | throttled (retryAfter : Nat)
  | invalidCredentials
  | internal
  | loggedIn (token : Text)
  | loggedOut
  | authError (e : AuthError)
  | handled (id : AnonIdentity) (auth : Except AuthError AuthUser)

/-- The body of a login, and what the environment contributes: the instants (those of the throttle
in nanoseconds of its own clock), the row `find_member` returns (`none` is a failed query), the new
id and the outcome of the insertion. -/
structure LoginInput where
  email : Text
  password : Text
  checkAt : Nat
  failAt : Nat
  member : Option (Option (Uuid × Text × String))
  sid : Uuid
  createAt : Int
  createDb : DbCall
  signAt : Int

/-- `verify_credentials_with_timing`: the user and tier on success; the error is a failed query. -/
def verifyCredentialsWithTiming (cfg : AuthConfig) (i : LoginInput) :
    Except Unit (Option (Uuid × String)) :=
  match i.member with
  | none => .error ()
  | some none => .ok none
  | some (some (id, storedHash, tier)) =>
    if cfg.passwordVerify i.password storedHash then .ok (some (id, tier)) else .ok none

def sessionTtlMicros : Int := 7 * 24 * 60 * 60 * 1000000

/-- The table after the insertion, and whether the gateway saw it succeed. An id already in the
table is refused by the primary key. -/
def createSession (sessions : Sessions) (userId : Uuid) (i : LoginInput) : Sessions × Bool :=
  if i.createDb = .refused ∨ (sessions i.sid).isSome then (sessions, false)
  else
    (sessions.put i.sid ⟨userId, i.createAt + sessionTtlMicros, none⟩, i.createDb = .answered)

def loginClaims (userId : Uuid) (tier : String) (sid : Uuid) (now : Int) : Claims where
  sub := userId.toText
  tier := tier
  sid := sid.toText
  iat := timestamp now
  exp := timestamp now + jwtTtlSecs
  iss := jwtIssuerAudience
  aud := jwtIssuerAudience

/-- `do_create_session_and_build_response`. -/
def createAndSign (cfg : AuthConfig) (w : World) (userId : Uuid) (tier : String) (i : LoginInput) :
    World × Response :=
  let r := createSession w.sessions userId i
  let w := { w with sessions := r.1 }
  if r.2 then
    let claims := loginClaims userId tier i.sid i.signAt
    match cfg.sign claims with
    | none => (w, .internal)
    | some token => (w, .loggedIn token)
  else (w, .unavailable)

def login (cfg : AuthConfig) (w : World) (i : LoginInput) : World × Response :=
  let email := cfg.normaliseEmail i.email
  let r := w.throttle.isThrottled cfg.emailKey email i.checkAt
  let w := { w with throttle := r.2 }
  match r.1 with
  | some retryAfter => (w, .throttled retryAfter)
  | none =>
    match verifyCredentialsWithTiming cfg i with
    | .error () => (w, .unavailable)
    | .ok none =>
      ({ w with throttle := w.throttle.recordFailure cfg.emailKey email i.failAt },
        .invalidCredentials)
    | .ok (some (userId, tier)) =>
      createAndSign cfg { w with throttle := w.throttle.recordSuccess cfg.emailKey email }
        userId tier i

/-- `UPDATE sessions SET revoked_at = NOW() WHERE id = sid`. -/
def revoke (sessions : Sessions) (sid : Uuid) (now : Int) : Sessions :=
  match sessions sid with
  | none => sessions
  | some row => sessions.put sid { row with revokedAt := some now }

structure LogoutInput where
  revokeAt : Int
  revokeDb : DbCall
  deriving DecidableEq

def logout (w : World) (auth : Except AuthError AuthUser) (i : LogoutInput) : World × Response :=
  match auth with
  | .error e => (w, .authError e)
  | .ok a =>
    match i.revokeDb with
    | .refused => (w, .unavailable)
    | .replyLost => ({ w with sessions := revoke w.sessions a.sid i.revokeAt }, .unavailable)
    | .answered => ({ w with sessions := revoke w.sessions a.sid i.revokeAt }, .loggedOut)

/-! ## Requests -/

structure Check where
  now : Int
  db : DbCall
  deriving DecidableEq

inductive Route where
  | login (input : LoginInput)
  | logout (check : Check) (input : LogoutInput)
  | other (check : Check)

structure Request where
  headers : Headers
  middleware : Check
  fresh : Uuid
  route : Route

def handle (cfg : AuthConfig) (w : World) (r : Request) : World × Response :=
  match resolveIdentity cfg w.sessions r.headers r.middleware.now r.middleware.db r.fresh with
  | .error _ => (w, .unavailable)
  | .ok (id, _) =>
    match r.route with
    | .login i => login cfg w i
    | .logout c i => logout w (fromRequestParts cfg w.sessions r.headers c.now c.db) i
    | .other c => (w, .handled id (fromRequestParts cfg w.sessions r.headers c.now c.db))

def step (cfg : AuthConfig) (w : World) (r : Request) : World := (handle cfg w r).1

abbrev worldAfter (cfg : AuthConfig) (rs : List Request) : World :=
  Run.exec (step cfg) World.init rs

/-! ## What a request does to the table -/

/-- Every change a request makes to the session table: none, a new row under a free id, or the
revocation of a row. -/
inductive TableStep (s : Sessions) : Sessions → Prop where
  | keep : TableStep s s
  | insert (sid : Uuid) (row : SessionRow) (hfree : s sid = none) : TableStep s (s.put sid row)
  | revoke (sid : Uuid) (row : SessionRow) (now : Int) (hrow : s sid = some row) :
      TableStep s (s.put sid { row with revokedAt := some now })

theorem createSession_tableStep (s : Sessions) (userId : Uuid) (i : LoginInput) :
    TableStep s (createSession s userId i).1 := by
  unfold createSession
  split
  · exact .keep
  · next h =>
    rw [not_or, Option.not_isSome_iff_eq_none] at h
    exact .insert _ _ h.2

variable {s : Sessions} {P : SessionRow → Prop} {sid : Uuid}

theorem createSession_row {userId : Uuid} {i : LoginInput}
    (h : (createSession s userId i).2 = true) :
    (createSession s userId i).1 i.sid = some ⟨userId, i.createAt + sessionTtlMicros, none⟩ := by
  unfold createSession at h ⊢
  split
  · next hc => rw [if_pos hc] at h; cases h
  · simp [Sessions.put]

theorem createAndSign_sessions (cfg : AuthConfig) (w : World) (userId : Uuid) (tier : String)
    (i : LoginInput) :
    (createAndSign cfg w userId tier i).1.sessions = (createSession w.sessions userId i).1 := by
  unfold createAndSign
  dsimp only
  split
  · split <;> rfl
  · rfl

theorem login_tableStep (cfg : AuthConfig) (w : World) (i : LoginInput) :
    TableStep w.sessions (login cfg w i).1.sessions := by
  unfold login
  dsimp only
  split
  · exact .keep
  · split
    · exact .keep
    · exact .keep
    · rw [createAndSign_sessions]
      exact createSession_tableStep _ _ _

theorem revoke_tableStep (s : Sessions) (sid : Uuid) (now : Int) :
    TableStep s (revoke s sid now) := by
  unfold revoke
  split
  · exact .keep
  · next row hrow => exact .revoke sid row now hrow

theorem logout_tableStep (w : World) (auth : Except AuthError AuthUser) (i : LogoutInput) :
    TableStep w.sessions (logout w auth i).1.sessions := by
  unfold logout
  split
  · exact .keep
  · split
    · exact .keep
    · exact revoke_tableStep _ _ _
    · exact revoke_tableStep _ _ _

theorem step_tableStep (cfg : AuthConfig) (w : World) (r : Request) :
    TableStep w.sessions (step cfg w r).sessions := by
  unfold step handle
  split
  · exact .keep
  · split
    · exact login_tableStep _ _ _
    · exact logout_tableStep _ _ _
    · exact .keep

def HasRow (P : SessionRow → Prop) (sid : Uuid) (s : Sessions) : Prop :=
  ∃ row, s sid = some row ∧ P row

theorem HasRow.tableStep {s' : Sessions}
    (hP : ∀ row now, P row → P { row with revokedAt := some now }) (hs : TableStep s s')
    (h : HasRow P sid s) : HasRow P sid s' := by
  obtain ⟨row, hrow, hp⟩ := h
  cases hs with
  | keep => exact ⟨row, hrow, hp⟩
  | insert sid' row' hfree =>
    have hne : sid ≠ sid' := by rintro rfl; rw [hrow] at hfree; cases hfree
    exact ⟨row, by simp [Sessions.put, hne, hrow], hp⟩
  | revoke sid' row' now hrow' =>
    by_cases heq : sid = sid'
    · subst heq
      rw [hrow] at hrow'
      cases hrow'
      exact ⟨_, by simp [Sessions.put], hP row now hp⟩
    · exact ⟨row, by simp [Sessions.put, heq, hrow], hp⟩

theorem row_persists (hP : ∀ row now, P row → P { row with revokedAt := some now })
    (cfg : AuthConfig) {w : World} (rs : List Request) (h : HasRow P sid w.sessions) :
    HasRow P sid (Run.exec (step cfg) w rs).sessions :=
  Run.exec_inv (P := fun w => HasRow P sid w.sessions)
    (fun _ _ hw => hw.tableStep hP (step_tableStep cfg _ _)) rs w h

/-! ## Successful logins and logouts of a run -/

section
variable (cfg : AuthConfig)

def LoggedIn (rs : List Request) (i : LoginInput) (token : Text) (userId : Uuid) (tier : String) :
    Prop :=
  ∃ before r after, rs = before ++ r :: after ∧ r.route = .login i ∧
    verifyCredentialsWithTiming cfg i = .ok (some (userId, tier)) ∧
    (handle cfg (worldAfter cfg before) r).2 = .loggedIn token

def LoggedOut (rs : List Request) (sid : Uuid) : Prop :=
  ∃ before r after c i a, rs = before ++ r :: after ∧ r.route = .logout c i ∧
    fromRequestParts cfg (worldAfter cfg before).sessions r.headers c.now c.db = .ok a ∧
    a.sid = sid ∧ (handle cfg (worldAfter cfg before) r).2 = .loggedOut

/-- What the signatures give. What is signed decodes to what was signed; and a token of the request
that decodes was signed by the gateway, which lets no token out but in a response of the run. -/
structure Unforged (rs : List Request) (h : Headers) : Prop where
  signed : ∀ claims token, cfg.sign claims = some token → cfg.decode token = some claims
  issued : ∀ token claims, sessionToken h = some token → cfg.decode token = some claims →
    ∃ before r after, rs = before ++ r :: after ∧
      (handle cfg (worldAfter cfg before) r).2 = .loggedIn token

variable {cfg}

variable {w : World} {r : Request} {token : Text} {rs : List Request} {h : Headers} {i : LoginInput}
  {userId sid : Uuid} {tier : String} {a : AuthUser} {now : Int} {db : DbCall}

theorem handle_loggedIn (h : (handle cfg w r).2 = .loggedIn token) :
    ∃ i userId tier, r.route = .login i ∧
      verifyCredentialsWithTiming cfg i = .ok (some (userId, tier)) ∧
      cfg.sign (loginClaims userId tier i.sid i.signAt) = some token := by
  unfold handle at h
  split at h
  · cases h
  · cases hroute : r.route with
    | login i =>
      simp only [hroute, login] at h
      split at h
      · cases h
      · split at h
        · cases h
        · cases h
        · next userId tier hcred =>
          refine ⟨i, userId, tier, rfl, hcred, ?_⟩
          unfold createAndSign at h
          dsimp only at h
          split at h
          · split at h
            · cases h
            · next token' hsign =>
              cases h
              exact hsign
          · cases h
    | logout c i =>
      simp only [hroute, logout] at h
      split at h
      · cases h
      · split at h <;> cases h
    | other c =>
      rw [hroute] at h
      cases h

/-- So the claims of a token that decodes are those that a login of the run signed. -/
theorem Unforged.login (hunf : Unforged cfg rs h) {claims : Claims}
    (htoken : sessionToken h = some token) (hdecode : cfg.decode token = some claims) :
    ∃ i userId tier, LoggedIn cfg rs i token userId tier ∧
      claims = loginClaims userId tier i.sid i.signAt := by
  obtain ⟨before, r, after, hrs, hres⟩ := hunf.issued token claims htoken hdecode
  obtain ⟨i, userId, tier, hroute, hcred, hsign⟩ := handle_loggedIn hres
  have hsigned := hunf.signed _ _ hsign
  rw [hdecode] at hsigned
  exact ⟨i, userId, tier, ⟨before, r, after, hrs, hroute, hcred, hres⟩, Option.some.inj hsigned⟩

theorem handle_login_row (hroute : r.route = .login i)
    (hcred : verifyCredentialsWithTiming cfg i = .ok (some (userId, tier)))
    (hres : (handle cfg w r).2 = .loggedIn token) :
    HasRow (fun row => row.userId = userId) i.sid (step cfg w r).sessions := by
  unfold step
  unfold handle at hres ⊢
  split
  · next hid => rw [hid] at hres; cases hres
  · next hid =>
    rw [hid] at hres
    simp only [hroute, login, hcred] at hres ⊢
    split
    · next hthr => rw [hthr] at hres; cases hres
    · next hthr =>
      rw [hthr] at hres
      rw [createAndSign_sessions]
      refine ⟨_, createSession_row ?_, rfl⟩
      by_contra hno
      simp [createAndSign, hno] at hres

theorem handle_logout_row (hpool : cfg.dbPool = true) {c : Check} {i : LogoutInput}
    (hroute : r.route = .logout c i)
    (hauth : fromRequestParts cfg w.sessions r.headers c.now c.db = .ok a)
    (hres : (handle cfg w r).2 = .loggedOut) :
    HasRow (fun row => row.revokedAt.isSome) a.sid (step cfg w r).sessions := by
  obtain ⟨row, hrow, -⟩ := checkSession_ok (fromRequestParts_ok hpool hauth).2
  unfold step
  unfold handle at hres ⊢
  split
  · next hid => rw [hid] at hres; cases hres
  · next hid =>
    rw [hid] at hres
    simp only [hroute, hauth, logout] at hres ⊢
    cases hdb : i.revokeDb with
    | answered => simp [HasRow, revoke, hrow, Sessions.put]
    | refused => rw [hdb] at hres; cases hres
    | replyLost => rw [hdb] at hres; cases hres

theorem worldAfter_split (before : List Request) (r : Request) (after : List Request) :
    worldAfter cfg (before ++ r :: after) =
      Run.exec (step cfg) (step cfg (worldAfter cfg before) r) after := by
  rw [worldAfter, Run.exec_append, Run.exec_cons]

theorem LoggedIn.row (h : LoggedIn cfg rs i token userId tier) :
    HasRow (fun row => row.userId = userId) i.sid (worldAfter cfg rs).sessions := by
  obtain ⟨before, r, after, rfl, hroute, hcred, hres⟩ := h
  rw [worldAfter_split]
  exact row_persists (fun _ _ h => h) cfg after (handle_login_row hroute hcred hres)

theorem LoggedOut.row (hpool : cfg.dbPool = true) (h : LoggedOut cfg rs sid) :
    HasRow (fun row => row.revokedAt.isSome) sid (worldAfter cfg rs).sessions := by
  obtain ⟨before, r, after, c, i, a, rfl, hroute, hauth, rfl, hres⟩ := h
  rw [worldAfter_split]
  exact row_persists (fun _ _ _ => rfl) cfg after (handle_logout_row hpool hroute hauth hres)

/-! ## Whom a request is taken for -/

/-- The token of `h` was returned by a login of the run for the user and tier of `a`; the session of
`a` is the one that login opened, and its row is live at `now`. -/
def Authentic (cfg : AuthConfig) (rs : List Request) (h : Headers) (now : Int) (a : AuthUser) :
    Prop :=
  ∃ i token, sessionToken h = some token ∧ LoggedIn cfg rs i token a.userId a.tier.asStr ∧
    i.sid = a.sid ∧
    HasRow (fun row => row.userId = a.userId ∧ row.live now) a.sid (worldAfter cfg rs).sessions

theorem claimsUser_loginClaims (h : claimsUser (loginClaims userId tier sid now) = some a) :
    a.userId = userId ∧ a.sid = sid ∧ a.tier.asStr = tier := by
  obtain ⟨hu, hs, ht⟩ := claimsUser_eq_some h
  simp only [loginClaims, Uuid.parseStr_toText, Option.some.injEq] at hu hs ht
  exact ⟨hu.symm, hs.symm, (UserTier.fromClaim_asStr ht).1⟩

theorem authenticated_login (hunf : Unforged cfg rs h) (ha : tokenUser cfg h now = some a)
    (hcheck : checkSession (worldAfter cfg rs).sessions a.sid now db = .ok ()) :
    Authentic cfg rs h now a := by
  obtain ⟨token, htoken, hc⟩ := Option.bind_eq_some_iff.mp ha
  obtain ⟨claims, hverify, hclaims⟩ := Option.bind_eq_some_iff.mp hc
  obtain ⟨i, userId, tier, hlogin, rfl⟩ := hunf.login htoken (verify_decode hverify)
  obtain ⟨rfl, hsid, rfl⟩ := claimsUser_loginClaims hclaims
  obtain ⟨row, hrow, hlive⟩ := checkSession_ok hcheck
  obtain ⟨row', hrow', huser⟩ := hlogin.row
  rw [← hsid, hrow] at hrow'
  cases hrow'
  exact ⟨i, token, htoken, hlogin, hsid.symm, row, hrow, huser, hlive⟩

theorem loggedOut_rejected (hpool : cfg.dbPool = true) (hout : LoggedOut cfg rs sid) :
    checkSession (worldAfter cfg rs).sessions sid now db ≠ .ok () := by
  intro hcheck
  obtain ⟨row, hrow, hlive⟩ := checkSession_ok hcheck
  obtain ⟨row', hrow', hrevoked⟩ := hout.row hpool
  rw [hrow] at hrow'
  cases hrow'
  simp [hlive.1] at hrevoked

end

/-- After every run of requests, for a request whose token is not forged: who is accepted is the
user of a login of the run whose session is live at the check; a session once logged out is never
accepted; a structurally valid token answers 503 on both paths while the database does not answer;
and the two paths accept the same, also when the extractor looks later. -/
theorem session_safety (cfg : AuthConfig) (hpool : cfg.dbPool = true) (rs : List Request)
    (h : Headers) (hunf : Unforged cfg rs h) (c : Check) (fresh : Uuid) :
    let s := (worldAfter cfg rs).sessions
    (∀ id set, resolveIdentity cfg s h c.now c.db fresh = .ok (id, set) → id.tier ≠ .anonymous →
      ∃ a, tryAuthenticateJwt cfg s h c.now c.db = .ok (some a) ∧
        id = ⟨a.userId, a.tier, none⟩ ∧ Authentic cfg rs h c.now a) ∧
    (∀ a, fromRequestParts cfg s h c.now c.db = .ok a → Authentic cfg rs h c.now a) ∧
    (∀ sid, LoggedOut cfg rs sid →
      (∀ a, tryAuthenticateJwt cfg s h c.now c.db = .ok (some a) → a.sid ≠ sid) ∧
      ∀ a, fromRequestParts cfg s h c.now c.db = .ok a → a.sid ≠ sid) ∧
    (c.db ≠ .answered → (tokenUser cfg h c.now).isSome →
      (∃ e, resolveIdentity cfg s h c.now c.db fresh = .error e ∧ e.response.1 = 503) ∧
      ∃ e, fromRequestParts cfg s h c.now c.db = .error e ∧ e.response.1 = 503) ∧
    (∀ later (c' : Check) a b, tryAuthenticateJwt cfg s h c.now c.db = .ok (some a) →
      fromRequestParts cfg (worldAfter cfg (rs ++ later)).sessions h c'.now c'.db = .ok b →
      a = b) := by
  refine ⟨?_, ?_, ?_, ?_, ?_⟩
  · intro id set hid htier
    obtain ⟨a, ha, hida⟩ := resolveIdentity_authenticated hid htier
    obtain ⟨htok, hcheck⟩ := tryAuthenticateJwt_some hpool ha
    exact ⟨a, ha, hida, authenticated_login hunf htok hcheck⟩
  · intro a ha
    obtain ⟨htok, hcheck⟩ := fromRequestParts_ok hpool ha
    exact authenticated_login hunf htok hcheck
  · intro sid hout
    refine ⟨fun a ha hsid => ?_, fun a ha hsid => ?_⟩
    · exact loggedOut_rejected hpool hout (hsid ▸ (tryAuthenticateJwt_some hpool ha).2)
    · exact loggedOut_rejected hpool hout (hsid ▸ (fromRequestParts_ok hpool ha).2)
  · intro hdb hvalid
    obtain ⟨a, ha⟩ := Option.isSome_iff_exists.mp hvalid
    obtain ⟨hmw, hext⟩ := paths_unavailable hpool hdb ha fresh
    exact ⟨⟨_, hmw, rfl⟩, ⟨_, hext, rfl⟩⟩
  · intro later c' a b ha hb
    exact paths_agree hpool ha hb

/-! ## A small instance -/

def sampleUuid (n : Fin 16) : Uuid := .ofDigit n

def sampleToken : Text := "a.b.c".toList

def sampleClaims : Claims := loginClaims (sampleUuid 1) "member" (sampleUuid 2) 0

def sampleAuth : AuthConfig where
  decode token := if token = sampleToken then some sampleClaims else none
  sign claims := if claims = sampleClaims then some sampleToken else none
  passwordVerify p h := p == h
  normaliseEmail e := e
  emailKey e := e
  cookieUuidToUserId u := u
  dbPool := true

def sampleLogin : LoginInput where
  email := "a@b.c".toList
  password := "secret".toList
  checkAt := 0
  failAt := 0
  member := some (some (sampleUuid 1, "secret".toList, "member"))
  sid := sampleUuid 2
  createAt := 0
  createDb := .answered
  signAt := 0

def sampleLoginRequest : Request := ⟨⟨none, none⟩, ⟨0, .answered⟩, sampleUuid 3, .login sampleLogin⟩

def sampleHeaders : Headers := ⟨some "archiviste_session=a.b.c".toList, none⟩

def sampleLogoutRequest : Request :=
  ⟨sampleHeaders, ⟨1, .answered⟩, sampleUuid 3, .logout ⟨1, .answered⟩ ⟨2, .answered⟩⟩

/-- After the login the extractor accepts the token, and the theorem names the login. -/
theorem session_safety_sample :
    fromRequestParts sampleAuth (worldAfter sampleAuth [sampleLoginRequest]).sessions sampleHeaders
        1 .answered = .ok ⟨sampleUuid 1, .member, sampleUuid 2⟩ ∧
      Authentic sampleAuth [sampleLoginRequest] sampleHeaders 1
        ⟨sampleUuid 1, .member, sampleUuid 2⟩ := by
  have hunf : Unforged sampleAuth [sampleLoginRequest] sampleHeaders := by
    refine ⟨fun claims token hsign => ?_, fun token claims htoken _ => ?_⟩
    · unfold sampleAuth at hsign ⊢
      dsimp only at hsign ⊢
      split at hsign
      · next hclaims =>
        cases hsign
        rw [if_pos rfl, hclaims]
      · cases hsign
    · obtain rfl : sampleToken = token := Option.some.inj htoken
      exact ⟨[], sampleLoginRequest, [], rfl, rfl⟩
  have hok : fromRequestParts sampleAuth (worldAfter sampleAuth [sampleLoginRequest]).sessions
      sampleHeaders 1 .answered = .ok ⟨sampleUuid 1, .member, sampleUuid 2⟩ := by
    decide +kernel
  exact ⟨hok, (session_safety sampleAuth rfl _ _ hunf ⟨1, .answered⟩ (sampleUuid 3)).2.1 _ hok⟩

/-- After the logout it does not. -/
example :
    fromRequestParts sampleAuth
        (worldAfter sampleAuth [sampleLoginRequest, sampleLogoutRequest]).sessions sampleHeaders
        3 .answered = .error .sessionRevoked := by
  decide +kernel

end Archiviste.Gateway
