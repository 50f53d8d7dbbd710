import Archiviste.Base.Chrono
import Archiviste.Base.Eff
import Archiviste.Base.Run
import Archiviste.Base.Text

/-!
# Archiviste.Gateway.Tokens

The two token providers of the gateway. Each keeps the last token of the metadata server with its
expiry and hands it out until a minute before; `get_or_refresh` and `fetch_id_token` are one function
that differs in the fetch. A panic of `chrono` is the exception of an `Eff`, a `TokenError` is a
value.

* `refresh`             — the read-lock path, the double check and the fetch.
* `refresh_never_panics_iff` — no sequence of calls panics exactly when every fetch is safe.
* `tokens_never_panic_iff`   — for which `expires_in` and `exp` that is.
-/

namespace Archiviste.Gateway

open Chrono

inductive TokenError where
  | fetch
  | timeout
  | network
  deriving DecidableEq

/-- The answer of the metadata server: none, a status that is no success, a body that cannot be
read as what is expected, or a body. -/
inductive Reply (β : Type) where
  | failed (isTimeout : Bool)
  | refused
  | unreadable
  | body (b : β)

def Reply.toExcept {β : Type} : Reply β → Except TokenError β
  | .failed true => .error .timeout
  | .failed false => .error .network
  | .refused => .error .fetch
  | .unreadable => .error .fetch
  | .body b => .ok b

inductive LogEvent where
  | expParseFailed (reason : Text)

abbrev Task := Eff LogEvent Panic

def orPanic {α : Type} (x : Except Panic α) : Task α := ⟨[], x⟩

variable {β : Type} {now t : DateTime} {s : Int} {codec : Codec}

theorem result_orPanic_ok {α : Type} (a : α) (k : α → Task β) :
    (orPanic (.ok a) >>= k).result = (k a).result := rfl

theorem result_orPanic_error {α : Type} (e : Panic) (k : α → Task β) :
    (orPanic (.error e) >>= k).result = .error e := rfl

structure CachedToken where
  bearer : Text
  expiresAt : DateTime

def refreshAheadSecs : Int64 := 60

def fallbackLifetimeMinutes : Int64 := 55

/-! ## The cache -/

/-- A fetch: the clock where it reads it, and the answer. -/
structure Fetch (β : Type) where
  now : DateTime
  reply : Reply β

/-- A call: the clock on the read-lock path and after the write lock, and the fetch if it comes to
that. -/
structure Call (β : Type) where
  readAt : DateTime
  writeAt : DateTime
  fetch : Fetch β

abbrev Cache := Option CachedToken

/-- `Utc::now() < cached.expires_at - Duration::seconds(REFRESH_AHEAD_SECS)`. -/
def isFresh (now : DateTime) (cached : CachedToken) : Task Bool := do
  let margin ← orPanic (Duration.seconds refreshAheadSecs)
  let deadline ← orPanic (cached.expiresAt.sub margin)
  return now.before deadline

def served (now : DateTime) : Cache → Task (Option CachedToken)
  | none => return none
  | some cached => do
    if ← isFresh now cached then return some cached
    return none

section Refresh

variable {β : Type} (fetch : Fetch β → Task (Except TokenError CachedToken))

/-- The cache after the call, and the token with whether it came from the cache. -/
def refresh (cache : Cache) (call : Call β) : Task (Cache × Except TokenError (Text × Bool)) := do
  match ← served call.readAt cache with
  | some cached => return (cache, .ok (cached.bearer, true))
  | none =>
    match ← served call.writeAt cache with
    | some cached => return (cache, .ok (cached.bearer, true))
    | none =>
      match ← fetch call.fetch with
      | .ok fresh => return (some fresh, .ok (fresh.bearer, false))
      | .error e => return (cache, .error e)

end Refresh

section Calls

variable {β γ : Type} (provider : Cache → Call β → Task (Cache × γ))

/-- A call that panics leaves the cache as it was. -/
def afterCall (cache : Cache) (call : Call β) : Cache :=
  match (provider cache call).result with
  | .ok (cache', _) => cache'
  | .error _ => cache

def NeverPanics (calls : List (Call β)) : Prop :=
  Run.Along (afterCall provider) (fun cache call => ∃ r, (provider cache call).result = .ok r)
    none calls

end Calls

/-! ## The access token -/

structure MetadataTokenResponse where
  accessToken : Text
  expiresIn : Int64

def fetchToken (f : Fetch MetadataTokenResponse) : Task (Except TokenError CachedToken) :=
  match f.reply.toExcept with
  | .error e => return .error e
  | .ok body => do
    let lifetime ← orPanic (Duration.seconds body.expiresIn)
    let expiresAt ← orPanic (f.now.add lifetime)
    return .ok ⟨body.accessToken, expiresAt⟩

def getOrRefresh : Cache → Call MetadataTokenResponse →
    Task (Cache × Except TokenError (Text × Bool)) :=
  refresh fetchToken

/-! ## The ID token -/

/-- A member of a JSON payload: an integer of 64 bits, or anything else. -/
inductive Member where
  | integer (n : Int64)
  | other

/-- The base64url decoder and the JSON decoder, which gives the members of the payload by name. -/
structure Codec where
  base64Decode : Text → Option (List UInt8)
  fromSlice : List UInt8 → Option (Text → Option Member)

section IdToken

variable (codec : Codec)

def decodeExpFromPayload (payloadB64 : Text) : Except Text Int64 :=
  match codec.base64Decode payloadB64 with
  | none => .error "b64_decode".toList
  | some bytes =>
    match codec.fromSlice bytes with
    | none => .error "json_decode".toList
    | some payload =>
      match payload "exp".toList with
      | none => .error "missing_exp".toList
      | some .other => .error "exp_not_numeric".toList
      | some (.integer n) => .ok n

def fallbackExpiresAt (now : DateTime) : Task DateTime := do
  let lifetime ← orPanic (Duration.minutes fallbackLifetimeMinutes)
  orPanic (now.add lifetime)

/-- The `exp` of a token, or the reason why it has none. -/
def jwtExp (jwt : Text) : Except Text Int64 :=
  match Text.splitOn '.' jwt with
  | _ :: payloadB64 :: _ => decodeExpFromPayload codec payloadB64
  | _ => .error "missing_segment".toList

def parseJwtExp (now : DateTime) (jwt : Text) : Task DateTime :=
  match jwtExp codec jwt with
  | .error reason => do
    Eff.perform (.expParseFailed reason)
    fallbackExpiresAt now
  | .ok exp =>
    match DateTime.fromTimestamp exp with
    | some t => return t
    | none => fallbackExpiresAt now

def fetchFromMetadata (f : Fetch Text) : Task (Except TokenError CachedToken) :=
  match f.reply.toExcept with
  | .error e => return .error e
  | .ok jwt => do
    let expiresAt ← parseJwtExp codec f.now jwt
    return .ok ⟨jwt, expiresAt⟩

def fetchIdToken (cache : Cache) (call : Call Text) :
    Task (Cache × Except TokenError Text) := do
  let (cache, token) ← refresh (fetchFromMetadata codec) cache call
  return (cache, token.map Prod.fst)

end IdToken

/-! ## When nothing panics -/

/-- An expiry whose freshness test does not panic. -/
def Lasting (n : Int) : Prop :=
  (minSeconds + 60) * Chrono.second ≤ n ∧ n < (maxSeconds + 1) * Chrono.second

theorem margin_ok : Duration.seconds refreshAheadSecs = .ok ⟨60 * Chrono.second⟩ := by rfl

theorem lifetime_ok :
    Duration.minutes fallbackLifetimeMinutes = .ok ⟨3300 * Chrono.second⟩ := by rfl

theorem lasting_iff_sub (t : DateTime) : Lasting t.ns ↔ InRange (t.ns - 60 * Chrono.second) := by
  have ht := t.inRange
  simp only [Lasting, InRange, minSeconds, maxSeconds, Chrono.second] at *
  omega

theorem isFresh_ok_iff {cached : CachedToken} :
    (∃ b, (isFresh now cached).result = .ok b) ↔ Lasting cached.expiresAt.ns := by
  rw [lasting_iff_sub]
  unfold isFresh
  rw [margin_ok, result_orPanic_ok]
  by_cases h : InRange (cached.expiresAt.ns - 60 * Chrono.second)
  · have hsub : cached.expiresAt.sub ⟨60 * Chrono.second⟩ = .ok ⟨_, h⟩ := dif_pos h
    rw [hsub, result_orPanic_ok]
    exact iff_of_true ⟨_, rfl⟩ h
  · have hsub : cached.expiresAt.sub ⟨60 * Chrono.second⟩ = .error .subtractionOverflowed :=
      dif_neg h
    rw [hsub, result_orPanic_error]
    exact iff_of_false (fun ⟨b, hb⟩ => by cases hb) h

def Calm (cache : Cache) : Prop := ∀ cached, cache = some cached → Lasting cached.expiresAt.ns

theorem served_ok {cache : Cache} (h : Calm cache) (now : DateTime) :
    ∃ cached?, (served now cache).result = .ok cached? := by
  cases cache with
  | none => exact ⟨none, rfl⟩
  | some cached =>
    obtain ⟨fresh, hfresh⟩ := isFresh_ok_iff.mpr (h cached rfl)
    unfold served
    rw [Eff.result_bind_of_ok hfresh]
    cases fresh with
    | true => exact ⟨_, rfl⟩
    | false => exact ⟨_, rfl⟩

section Refresh

variable {β : Type} {fetch : Fetch β → Task (Except TokenError CachedToken)}

/-- The fetch does not panic, and what it returns makes no later freshness test panic. -/
def SafeFetch (fetch : Fetch β → Task (Except TokenError CachedToken)) (f : Fetch β) : Prop :=
  ∃ r, (fetch f).result = .ok r ∧ ∀ cached, r = .ok cached → Lasting cached.expiresAt.ns

theorem refresh_calm {cache : Cache} {call : Call β} (hcalm : Calm cache)
    (hsafe : SafeFetch fetch call.fetch) :
    ∃ r, (refresh fetch cache call).result = .ok r ∧ Calm r.1 := by
  obtain ⟨read, hread⟩ := served_ok hcalm call.readAt
  obtain ⟨write, hwrite⟩ := served_ok hcalm call.writeAt
  obtain ⟨fetched, hfetched, hlasting⟩ := hsafe
  unfold refresh
  rw [Eff.result_bind_of_ok hread]
  cases read with
  | some cached => exact ⟨_, rfl, hcalm⟩
  | none =>
    dsimp only
    rw [Eff.result_bind_of_ok hwrite]
    cases write with
    | some cached => exact ⟨_, rfl, hcalm⟩
    | none =>
      dsimp only
      rw [Eff.result_bind_of_ok hfetched]
      cases fetched with
      | error e => exact ⟨_, rfl, hcalm⟩
      | ok fresh =>
        refine ⟨_, rfl, ?_⟩
        rintro cached ⟨⟩
        exact hlasting fresh rfl

theorem neverPanics_of_safe {calls : List (Call β)}
    (hsafe : ∀ call ∈ calls, SafeFetch fetch call.fetch) :
    NeverPanics (refresh fetch) calls := by
  have hrun : ∀ cache, Calm cache → Run.Along (afterCall (refresh fetch))
      (fun cache call => ∃ r, (refresh fetch cache call).result = .ok r) cache calls := by
    induction calls with
    | nil => exact fun _ _ => trivial
    | cons call calls ih =>
      intro cache hcalm
      obtain ⟨r, hr, hcalm'⟩ := refresh_calm hcalm (hsafe call (by simp))
      refine ⟨⟨r, hr⟩, ih (fun c hc => hsafe c (by simp [hc])) _ ?_⟩
      rwa [afterCall, hr]
  exact hrun none (fun _ h => by cases h)

variable {f : Fetch β}

theorem refresh_empty (t : DateTime) {r : Except TokenError CachedToken}
    (hr : (fetch f).result = .ok r) :
    (refresh fetch none ⟨t, t, f⟩).result = .ok (match r with
      | .ok fresh => (some fresh, .ok (fresh.bearer, false))
      | .error e => (none, .error e)) := by
  unfold refresh
  rw [Eff.result_bind_of_ok (a := none) rfl]
  dsimp only
  rw [Eff.result_bind_of_ok (a := none) rfl]
  dsimp only
  rw [Eff.result_bind_of_ok hr]
  cases r <;> rfl

theorem safe_of_neverPanics
    (h : NeverPanics (refresh fetch) [⟨f.now, f.now, f⟩, ⟨f.now, f.now, f⟩]) :
    SafeFetch fetch f := by
  obtain ⟨⟨first, hfirst⟩, ⟨second, hsecond⟩, -⟩ := h
  obtain ⟨r, hr⟩ : ∃ r, (fetch f).result = .ok r := by
    unfold refresh at hfirst
    rw [Eff.result_bind_of_ok (a := none) rfl] at hfirst
    dsimp only at hfirst
    rw [Eff.result_bind_of_ok (a := none) rfl] at hfirst
    obtain ⟨r, hr, -⟩ := Eff.result_bind_eq_ok.mp hfirst
    exact ⟨r, hr⟩
  refine ⟨r, hr, ?_⟩
  rintro cached rfl
  -- the second call tests the token of the first
  rw [afterCall, refresh_empty f.now hr] at hsecond
  obtain ⟨hit, hhit, -⟩ := Eff.result_bind_eq_ok.mp hsecond
  obtain ⟨fresh, hfresh, -⟩ := Eff.result_bind_eq_ok.mp hhit
  exact isFresh_ok_iff.mp ⟨fresh, hfresh⟩

/-- No sequence of calls panics exactly when every fetch is safe. -/
theorem refresh_never_panics_iff (R : Fetch β → Prop) :
    (∀ calls : List (Call β), (∀ call ∈ calls, R call.fetch) →
      NeverPanics (refresh fetch) calls) ↔ ∀ f, R f → SafeFetch fetch f := by
  constructor
  · intro h f hf
    exact safe_of_neverPanics (h _ (by simp [hf]))
  · intro h calls hcalls
    exact neverPanics_of_safe fun call hcall => h _ (hcalls call hcall)

end Refresh

/-! ## The two providers -/

theorem Reply.toExcept_eq_ok {reply : Reply β} {b : β} :
    reply.toExcept = .ok b ↔ reply = .body b := by
  rcases reply with (_ | _) | _ | _ | b' <;> simp [Reply.toExcept]

theorem Lasting.inRange {n : Int} (h : Lasting n) : InRange n := by
  simp only [Lasting, InRange, minSeconds, maxSeconds, Chrono.second] at *
  omega

theorem safeFetch_iff {fetch : Fetch β → Task (Except TokenError CachedToken)} {f : Fetch β}
    (bearer : β → Text) (expiry : DateTime → β → Int)
    (hfail : ∀ e, f.reply.toExcept = .error e → (fetch f).result = .ok (.error e))
    (hin : ∀ b, f.reply.toExcept = .ok b → ∀ h : InRange (expiry f.now b),
      (fetch f).result = .ok (.ok ⟨bearer b, ⟨_, h⟩⟩))
    (hout : ∀ b, f.reply.toExcept = .ok b → ¬ InRange (expiry f.now b) →
      ∃ p, (fetch f).result = .error p) :
    SafeFetch fetch f ↔ ∀ b, f.reply = .body b → Lasting (expiry f.now b) := by
  constructor
  · rintro ⟨r, hr, hlasting⟩ b hb
    rw [← Reply.toExcept_eq_ok] at hb
    by_cases hn : InRange (expiry f.now b)
    · rw [hin b hb hn] at hr
      cases hr
      exact hlasting _ rfl
    · obtain ⟨p, hp⟩ := hout b hb hn
      rw [hp] at hr
      cases hr
  · intro h
    cases hreply : f.reply.toExcept with
    | error e => exact ⟨_, hfail e hreply, fun _ hc => by cases hc⟩
    | ok b =>
      have hlasting := h b (Reply.toExcept_eq_ok.mp hreply)
      refine ⟨_, hin b hreply hlasting.inRange, ?_⟩
      rintro cached ⟨⟩
      exact hlasting

theorem add_ok (h : InRange (t.ns + s * Chrono.second)) :
    t.add ⟨s * Chrono.second⟩ = .ok ⟨_, h⟩ := dif_pos h

theorem add_panics (h : ¬ InRange (t.ns + s * Chrono.second)) :
    t.add ⟨s * Chrono.second⟩ = .error .additionOverflowed := dif_neg h

theorem safeFetch_token_iff {f : Fetch MetadataTokenResponse} :
    SafeFetch fetchToken f ↔ ∀ body, f.reply = .body body →
      Lasting (f.now.ns + body.expiresIn.toInt * Chrono.second) := by
  refine safeFetch_iff MetadataTokenResponse.accessToken
    (fun now body => now.ns + body.expiresIn.toInt * Chrono.second) ?_ ?_ ?_
  · intro e he
    simp only [fetchToken, he]
    rfl
  · intro body hbody h
    simp only [fetchToken, hbody]
    rw [Duration.seconds, DateTime.ofSeconds_of_inRange h, result_orPanic_ok, add_ok h,
      result_orPanic_ok]
    rfl
  · intro body hbody h
    simp only [fetchToken, hbody]
    -- the duration is out of bounds already, or else the sum is
    cases hdur : Duration.seconds body.expiresIn with
    | error p => exact ⟨p, rfl⟩
    | ok d =>
      obtain rfl : d = ⟨body.expiresIn.toInt * Chrono.second⟩ := by
        unfold Duration.seconds Duration.ofSeconds at hdur
        split at hdur
        · cases hdur
          rfl
        · cases hdur
      rw [result_orPanic_ok, add_panics h, result_orPanic_error]
      exact ⟨_, rfl⟩

/-- The instant, in nanoseconds, up to which an ID token is taken to be valid. -/
def idTokenExpiry (codec : Codec) (now : DateTime) (jwt : Text) : Int :=
  match jwtExp codec jwt with
  | .ok exp =>
    if InRange (exp.toInt * Chrono.second) then exp.toInt * Chrono.second
    else now.ns + 3300 * Chrono.second
  | .error _ => now.ns + 3300 * Chrono.second

theorem fallbackExpiresAt_ok (h : InRange (now.ns + 3300 * Chrono.second)) :
    (fallbackExpiresAt now).result = .ok ⟨_, h⟩ := by
  rw [fallbackExpiresAt, lifetime_ok, result_orPanic_ok, add_ok h]
  rfl

theorem fallbackExpiresAt_panics (h : ¬ InRange (now.ns + 3300 * Chrono.second)) :
    (fallbackExpiresAt now).result = .error .additionOverflowed := by
  rw [fallbackExpiresAt, lifetime_ok, result_orPanic_ok, add_panics h]
  rfl

theorem parseJwtExp_result (codec : Codec) (now : DateTime) (jwt : Text) :
    (∀ h : InRange (idTokenExpiry codec now jwt),
      (parseJwtExp codec now jwt).result = .ok ⟨_, h⟩) ∧
    (¬ InRange (idTokenExpiry codec now jwt) →
      (parseJwtExp codec now jwt).result = .error .additionOverflowed) := by
  unfold idTokenExpiry parseJwtExp
  cases jwtExp codec jwt with
  | error reason =>
    dsimp only
    rw [Eff.result_bind_of_ok rfl]
    exact ⟨fallbackExpiresAt_ok, fallbackExpiresAt_panics⟩
  | ok exp =>
    dsimp only
    by_cases hexp : InRange (exp.toInt * Chrono.second)
    · have hstamp : DateTime.fromTimestamp exp = some ⟨_, hexp⟩ := dif_pos hexp
      simp only [hexp, if_true, hstamp]
      exact ⟨fun _ => rfl, fun h => absurd trivial h⟩
    · have hstamp : DateTime.fromTimestamp exp = none := dif_neg hexp
      simp only [hexp, if_false, hstamp]
      exact ⟨fallbackExpiresAt_ok, fallbackExpiresAt_panics⟩

theorem safeFetch_idToken_iff {f : Fetch Text} :
    SafeFetch (fetchFromMetadata codec) f ↔ ∀ jwt, f.reply = .body jwt →
      Lasting (idTokenExpiry codec f.now jwt) := by
  refine safeFetch_iff (fun jwt => jwt) (idTokenExpiry codec) ?_ ?_ ?_
  · intro e he
    simp only [fetchFromMetadata, he]
    rfl
  · intro jwt hjwt h
    simp only [fetchFromMetadata, hjwt]
    rw [Eff.result_bind_of_ok ((parseJwtExp_result codec f.now jwt).1 h)]
    rfl
  · intro jwt hjwt h
    simp only [fetchFromMetadata, hjwt]
    exact ⟨_, Eff.result_bind_of_error ((parseJwtExp_result codec f.now jwt).2 h) _⟩

theorem fetchIdToken_result (codec : Codec) (cache : Cache) (call : Call Text) :
    (fetchIdToken codec cache call).result =
      (refresh (fetchFromMetadata codec) cache call).result.map
        fun r => (r.1, r.2.map Prod.fst) := by
  unfold fetchIdToken
  cases h : (refresh (fetchFromMetadata codec) cache call).result with
  | error p => rw [Eff.result_bind_of_error h]; rfl
  | ok r => rw [Eff.result_bind_of_ok h]; rfl

theorem neverPanics_fetchIdToken {calls : List (Call Text)} :
    NeverPanics (fetchIdToken codec) calls ↔
      NeverPanics (refresh (fetchFromMetadata codec)) calls := by
  have hafter : afterCall (fetchIdToken codec) = afterCall (refresh (fetchFromMetadata codec)) := by
    funext cache call
    rw [afterCall, afterCall, fetchIdToken_result]
    cases (refresh (fetchFromMetadata codec) cache call).result <;> rfl
  have hreturns : ∀ cache call, (∃ r, (fetchIdToken codec cache call).result = .ok r) ↔
      ∃ r, (refresh (fetchFromMetadata codec) cache call).result = .ok r := by
    intro cache call
    rw [fetchIdToken_result]
    cases (refresh (fetchFromMetadata codec) cache call).result <;> simp [Except.map]
  simp only [NeverPanics, hafter, hreturns]

/-- No sequence of calls panics exactly when every token expires within the range of instants, a
minute at least after its beginning. The expiry of an ID token is its `exp` if that is in the range,
and 55 minutes from now otherwise. -/
theorem tokens_never_panic_iff (codec : Codec) (R : Fetch MetadataTokenResponse → Prop)
    (S : Fetch Text → Prop) :
    ((∀ calls, (∀ call ∈ calls, R call.fetch) → NeverPanics getOrRefresh calls) ↔
      ∀ f body, R f → f.reply = .body body →
        Lasting (f.now.ns + body.expiresIn.toInt * Chrono.second)) ∧
    ((∀ calls, (∀ call ∈ calls, S call.fetch) → NeverPanics (fetchIdToken codec) calls) ↔
      ∀ f jwt, S f → f.reply = .body jwt → Lasting (idTokenExpiry codec f.now jwt)) := by
  constructor
  · rw [show (∀ calls, (∀ call ∈ calls, R call.fetch) → NeverPanics getOrRefresh calls) ↔ _ from
      refresh_never_panics_iff R]
    simp only [safeFetch_token_iff]
    exact ⟨fun h f body hf => h f hf body, fun h f hf body => h f body hf⟩
  · simp only [neverPanics_fetchIdToken, refresh_never_panics_iff, safeFetch_idToken_iff]
    exact ⟨fun h f jwt hf => h f hf jwt, fun h f hf jwt => h f jwt hf⟩

def epoch : DateTime := ⟨0, by decide⟩

def expCodec (exp : Int64) : Codec :=
  ⟨fun _ => some [], fun _ => some fun _ => some (.integer exp)⟩

def callWith {β : Type} (b : β) : Call β := ⟨epoch, epoch, ⟨epoch, .body b⟩⟩

/-- A lifetime of `i64::MAX` seconds panics at once. An `exp` in the first minute of the range is
served and cached, and then every further call panics. -/
theorem extreme_expiries_panic :
    (getOrRefresh none (callWith ⟨[], 9223372036854775807⟩)).result =
        .error .durationOutOfBounds ∧
      ∃ cache, (fetchIdToken (expCodec (-8334601228800)) none (callWith "h.p.s".toList)).result =
          .ok (cache, .ok "h.p.s".toList) ∧
        ∀ call, (fetchIdToken (expCodec (-8334601228800)) cache call).result =
          .error .subtractionOverflowed := by
  refine ⟨by rfl, some ⟨"h.p.s".toList, ⟨-8334601228800 * Chrono.second, by decide⟩⟩, by rfl, ?_⟩
  intro call
  rw [fetchIdToken_result, refresh]
  rfl

end Archiviste.Gateway
