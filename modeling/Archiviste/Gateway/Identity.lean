import Archiviste.Base.Uuid

/-!
# Archiviste.Gateway.Identity

Who a request comes from. The session token is read from the cookie or the `Authorization` header,
verified as a JWT, and checked against the session table. Two paths do it: the `resolve_identity`
middleware, which falls back to an anonymous identity, and the `AuthUser` extractor, which answers
401.

The JWT library is the parameter `decode`, the claims of a token whose EdDSA signature verifies.
Instants are microseconds since the epoch.

* `tokenUser` — the user, tier and session a token names, before any look at the session table.
* `tryAuthenticateJwt_eq`, `fromRequestParts_eq` — each path as one check of that session.
* `paths_agree` — when both accept, at whatever moments, they accept the same user, tier and session.
-/

namespace Archiviste.Gateway

/-! ## Tiers, claims and configuration -/

inductive UserTier where
  | anonymous
  | member
  | author
  deriving DecidableEq, Repr

namespace UserTier

def asStr : UserTier → String
  | .anonymous => "anonymous"
  | .member => "member"
  | .author => "author"

def fromClaim (s : String) : Option UserTier :=
  if s = "member" then some .member
  else if s = "author" then some .author
  else none

theorem fromClaim_asStr {s : String} {t : UserTier} (h : fromClaim s = some t) :
    t.asStr = s ∧ t ≠ .anonymous := by
  unfold fromClaim at h
  split at h
  · next hs => cases h; exact ⟨hs.symm, by decide⟩
  · split at h
    · next hs => cases h; exact ⟨hs.symm, by decide⟩
    · cases h

end UserTier

structure Claims where
  sub : Text
  tier : String
  sid : Text
  iat : Int
  exp : Int
  iss : String
  aud : String
  deriving DecidableEq

/-- The parts of the gateway's state that no request changes, with the libraries it calls. -/
structure AuthConfig where
  /-- The claims of a token with a valid EdDSA signature. -/
  decode : Text → Option Claims
  /-- `jwt::sign`. -/
  sign : Claims → Option Text
  /-- `password::verify`, with an error read as a mismatch. -/
  passwordVerify : Text → Text → Bool
  /-- NFKC, trim and lower case. -/
  normaliseEmail : Text → Text
  emailKey : Text → Text
  /-- The UUIDv5 of an anonymous cookie. -/
  cookieUuidToUserId : Uuid → Uuid
  /-- Whether a database pool is configured. -/
  dbPool : Bool

/-! ## Headers -/

/-- The first `Cookie` and `Authorization` values of a request. -/
structure Headers where
  cookie : Option Text
  authorization : Option Text
  deriving DecidableEq

/-- `HeaderValue::to_str`: visible ASCII and tabs only. -/
def toStr (v : Text) : Option Text :=
  if v.all (fun c => (32 ≤ c.toNat && c.toNat < 127) || c == '\t') then some v else none

/-- The first part `name=value` of a cookie header whose value `accept` takes. On visible ASCII,
`trim` removes what Python's `strip` does. -/
def cookieValue {β : Type} (name : String) (accept : Text → Option β) (header : Text) : Option β :=
  (Text.splitOn ';' header).findSome? fun part =>
    (Text.dropPrefix? (name ++ "=").toList (Text.strip part)).bind accept

def sessionCookieName : String := "archiviste_session"

def anonCookieName : String := "archiviste_anon"

/-- The cookie first, then `Authorization: Bearer`. -/
def sessionToken (h : Headers) : Option Text :=
  match (h.cookie.bind toStr).bind
      (cookieValue sessionCookieName fun v => if v = [] then none else some v) with
  | some token => some token
  | none => (h.authorization.bind toStr).bind (Text.dropPrefix? "Bearer ".toList)

/-- The reader of the middleware. -/
def extractSessionToken (h : Headers) : Option Text := sessionToken h

/-- The reader of the extractor, the same code. -/
def extractBearerToken (h : Headers) : Option Text := sessionToken h

def parseAnonCookie (h : Headers) : Option Uuid :=
  (h.cookie.bind toStr).bind (cookieValue anonCookieName Uuid.parseStr)

/-! ## Tokens -/

def jwtIssuerAudience : String := "archiviste-gateway"

def iatLeewaySecs : Int := 60

def jwtTtlSecs : Int := 7 * 24 * 60 * 60

/-- `datetime.timestamp()`. -/
def timestamp (micros : Int) : Int := micros / 1000000

/-- `jwt::verify(token).ok()`. -/
def verify (cfg : AuthConfig) (token : Text) (now : Int) : Option Claims :=
  if (Text.splitOn '.' token).length ≠ 3 then none
  else
    match cfg.decode token with
    | none => none
    | some c =>
      if c.iss = jwtIssuerAudience ∧ c.aud = jwtIssuerAudience ∧
          timestamp now - iatLeewaySecs ≤ c.exp
      then some c else none

variable {cfg : AuthConfig} {now : Int} {c : Claims} {a : AuthUser} {db : DbCall} {h : Headers}

theorem verify_decode {token : Text} (h : verify cfg token now = some c) :
    cfg.decode token = some c := by
  unfold verify at h
  split at h
  · cases h
  · split at h
    · cases h
    · next c' hc' =>
      split at h
      · cases h; exact hc'
      · cases h

structure AuthUser where
  userId : Uuid
  tier : UserTier
  sid : Uuid
  deriving DecidableEq

/-- The user a set of claims names, if its ids and its tier are well formed. -/
def claimsUser (c : Claims) : Option AuthUser :=
  match Uuid.parseStr c.sub, Uuid.parseStr c.sid, UserTier.fromClaim c.tier with
  | some userId, some sid, some tier => some ⟨userId, tier, sid⟩
  | _, _, _ => none

theorem claimsUser_eq_some (h : claimsUser c = some a) :
    Uuid.parseStr c.sub = some a.userId ∧ Uuid.parseStr c.sid = some a.sid ∧
      UserTier.fromClaim c.tier = some a.tier := by
  unfold claimsUser at h
  split at h
  · next h₁ h₂ h₃ => cases h; exact ⟨h₁, h₂, h₃⟩
  · cases h

def tokenUser (cfg : AuthConfig) (h : Headers) (now : Int) : Option AuthUser :=
  (sessionToken h).bind fun token => (verify cfg token now).bind claimsUser

/-! ## The session table -/

structure SessionRow where
  userId : Uuid
  expiresAt : Int
  revokedAt : Option Int
  deriving DecidableEq

abbrev Sessions := Uuid → Option SessionRow

/-- How one statement sent to the database ends. `replyLost` is a statement the database ran and
the gateway saw fail. -/
inductive DbCall where
  | answered
  | refused
  | replyLost
  deriving DecidableEq, Repr

inductive SessionError where
  | revoked
  | unavailable
  deriving DecidableEq, Repr

def SessionRow.live (row : SessionRow) (now : Int) : Prop :=
  row.revokedAt = none ∧ ¬row.expiresAt < now

instance (row : SessionRow) (now : Int) : Decidable (row.live now) :=
  inferInstanceAs (Decidable (_ ∧ _))

def checkSession (sessions : Sessions) (sid : Uuid) (now : Int) (db : DbCall) :
    Except SessionError Unit :=
  if db ≠ .answered then .error .unavailable
  else
    match sessions sid with
    | none => .error .revoked
    | some row => if row.live now then .ok () else .error .revoked

theorem checkSession_ok {sessions : Sessions} {sid : Uuid}
    (h : checkSession sessions sid now db = .ok ()) :
    ∃ row, sessions sid = some row ∧ row.live now := by
  unfold checkSession at h
  split at h
  · cases h
  · split at h
    · cases h
    · next row hrow =>
      split at h
      · next hlive => exact ⟨row, hrow, hlive⟩
      · cases h

theorem checkSession_down (sessions : Sessions) (sid : Uuid) (now : Int) (h : db ≠ .answered) :
    checkSession sessions sid now db = .error .unavailable := if_pos h

/-! ## The two paths -/

section
variable (cfg : AuthConfig) (sessions : Sessions) (h : Headers) (now : Int) (db : DbCall)

inductive JwtAuthError where
  | dbUnavailable
  deriving DecidableEq, Repr

/-- `none` is the anonymous fallback: no token, a bad one, or a session that is not live. -/
def tryAuthenticateJwt : Except JwtAuthError (Option AuthUser) :=
  match extractSessionToken h with
  | none => .ok none
  | some token =>
    match verify cfg token now with
    | none => .ok none
    | some claims =>
      match Uuid.parseStr claims.sub with
      | none => .ok none
      | some userId =>
        match Uuid.parseStr claims.sid with
        | none => .ok none
        | some sid =>
          match UserTier.fromClaim claims.tier with
          | none => .ok none
          | some tier =>
            if cfg.dbPool then
              match checkSession sessions sid now db with
              | .ok () => .ok (some ⟨userId, tier, sid⟩)
              | .error .revoked => .ok none
              | .error .unavailable => .error .dbUnavailable
            else .ok (some ⟨userId, tier, sid⟩)

structure AnonIdentity where
  userId : Uuid
  tier : UserTier
  fingerprint : Option Text
  deriving DecidableEq

/-- The identity the middleware attaches, and the anonymous cookie it sets. The error is the 503
that stops the request. -/
def resolveIdentity (fresh : Uuid) : Except JwtAuthError (AnonIdentity × Option Text) :=
  match tryAuthenticateJwt cfg sessions h now db with
  | .error e => .error e
  | .ok (some auth) => .ok (⟨auth.userId, auth.tier, none⟩, none)
  | .ok none =>
    match parseAnonCookie h with
    | some cookie =>
      .ok (⟨cfg.cookieUuidToUserId cookie, .anonymous, some cookie.toText⟩, none)
    | none =>
      .ok (⟨cfg.cookieUuidToUserId fresh, .anonymous, some fresh.toText⟩, some fresh.toText)

inductive AuthError where
  | invalidToken
  | sessionRevoked
  | upstream
  deriving DecidableEq, Repr

def AuthError.response : AuthError → Nat × String
  | .invalidToken => (401, "invalid_token")
  | .sessionRevoked => (401, "session_revoked")
  | .upstream => (503, "upstream_unavailable")

def JwtAuthError.response : JwtAuthError → Nat × String
  | .dbUnavailable => (503, "upstream_unavailable")

/-- `AuthUser::from_request_parts`. -/
def fromRequestParts : Except AuthError AuthUser :=
  match extractBearerToken h with
  | none => .error .invalidToken
  | some token =>
    match verify cfg token now with
    | none => .error .invalidToken
    | some claims =>
      match Uuid.parseStr claims.sub with
      | none => .error .invalidToken
      | some userId =>
        match Uuid.parseStr claims.sid with
        | none => .error .invalidToken
        | some sid =>
          match UserTier.fromClaim claims.tier with
          | none => .error .invalidToken
          | some tier =>
            if cfg.dbPool then
              match checkSession sessions sid now db with
              | .ok () => .ok ⟨userId, tier, sid⟩
              | .error .revoked => .error .sessionRevoked
              | .error .unavailable => .error .upstream
            else .ok ⟨userId, tier, sid⟩

variable {cfg sessions h now db}

/-! ## Each path as one check of the token's session -/

theorem tryAuthenticateJwt_eq (hpool : cfg.dbPool = true) :
    tryAuthenticateJwt cfg sessions h now db =
      match tokenUser cfg h now with
      | none => .ok none
      | some a =>
        match checkSession sessions a.sid now db with
        | .ok () => .ok (some a)
        | .error .revoked => .ok none
        | .error .unavailable => .error .dbUnavailable := by
  unfold tryAuthenticateJwt tokenUser claimsUser extractSessionToken
  cases sessionToken h with
  | none => rfl
  | some token =>
    cases hv : verify cfg token now with
    | none => simp [hv]
    | some c =>
      cases hu : Uuid.parseStr c.sub <;> cases hs : Uuid.parseStr c.sid <;>
        cases ht : UserTier.fromClaim c.tier <;> simp [hv, hu, hs, ht, hpool]

theorem fromRequestParts_eq (hpool : cfg.dbPool = true) :
    fromRequestParts cfg sessions h now db =
      match tokenUser cfg h now with
      | none => .error .invalidToken
      | some a =>
        match checkSession sessions a.sid now db with
        | .ok () => .ok a
        | .error .revoked => .error .sessionRevoked
        | .error .unavailable => .error .upstream := by
  unfold fromRequestParts tokenUser claimsUser extractBearerToken
  cases sessionToken h with
  | none => rfl
  | some token =>
    cases hv : verify cfg token now with
    | none => simp [hv]
    | some c =>
      cases hu : Uuid.parseStr c.sub <;> cases hs : Uuid.parseStr c.sid <;>
        cases ht : UserTier.fromClaim c.tier <;> simp [hv, hu, hs, ht, hpool]

variable {a : AuthUser}

theorem tryAuthenticateJwt_some (hpool : cfg.dbPool = true)
    (hok : tryAuthenticateJwt cfg sessions h now db = .ok (some a)) :
    tokenUser cfg h now = some a ∧ checkSession sessions a.sid now db = .ok () := by
  rw [tryAuthenticateJwt_eq hpool] at hok
  grind

theorem fromRequestParts_ok (hpool : cfg.dbPool = true)
    (hok : fromRequestParts cfg sessions h now db = .ok a) :
    tokenUser cfg h now = some a ∧ checkSession sessions a.sid now db = .ok () := by
  rw [fromRequestParts_eq hpool] at hok
  grind

/-- A database that does not answer stops a structurally valid token on both paths. -/
theorem paths_unavailable (hpool : cfg.dbPool = true) (hdb : db ≠ .answered)
    (ha : tokenUser cfg h now = some a) (fresh : Uuid) :
    resolveIdentity cfg sessions h now db fresh = .error .dbUnavailable ∧
      fromRequestParts cfg sessions h now db = .error .upstream := by
  constructor
  · simp only [resolveIdentity, tryAuthenticateJwt_eq hpool, ha, checkSession_down _ _ _ hdb]
  · simp only [fromRequestParts_eq hpool, ha, checkSession_down _ _ _ hdb]

/-- Only a checked session gives an identity that is not anonymous. -/
theorem resolveIdentity_authenticated {fresh : Uuid} {id : AnonIdentity} {set : Option Text}
    (hok : resolveIdentity cfg sessions h now db fresh = .ok (id, set))
    (htier : id.tier ≠ .anonymous) :
    ∃ a, tryAuthenticateJwt cfg sessions h now db = .ok (some a) ∧
      id = ⟨a.userId, a.tier, none⟩ := by
  unfold resolveIdentity at hok
  split at hok
  · cases hok
  · next a ha => cases hok; exact ⟨a, ha, rfl⟩
  · split at hok <;> (cases hok; exact absurd rfl htier)

end

theorem tokenUser_inj {t₁ t₂ : Int} {b : AuthUser} (ha : tokenUser cfg h t₁ = some a)
    (hb : tokenUser cfg h t₂ = some b) : a = b := by
  unfold tokenUser at ha hb
  cases ht : sessionToken h with
  | none => rw [ht] at ha; cases ha
  | some token =>
    simp only [ht, Option.bind_some] at ha hb
    obtain ⟨c₁, hc₁, h₁⟩ := Option.bind_eq_some_iff.mp ha
    obtain ⟨c₂, hc₂, h₂⟩ := Option.bind_eq_some_iff.mp hb
    have hc : c₁ = c₂ :=
      Option.some.inj ((verify_decode hc₁).symm.trans (verify_decode hc₂))
    subst hc
    exact Option.some.inj (h₁.symm.trans h₂)

/-- When both paths accept a request, at whatever moments and states of the table, they accept the
same user, tier and session. -/
theorem paths_agree (hpool : cfg.dbPool = true) {s₁ s₂ : Sessions} {t₁ t₂ : Int} {d₁ d₂ : DbCall}
    {b : AuthUser} (ha : tryAuthenticateJwt cfg s₁ h t₁ d₁ = .ok (some a))
    (hb : fromRequestParts cfg s₂ h t₂ d₂ = .ok b) : a = b :=
  tokenUser_inj (tryAuthenticateJwt_some hpool ha).1 (fromRequestParts_ok hpool hb).1

end Archiviste.Gateway
