import Archiviste.Gateway.Chat
import Archiviste.Generate.StreamRouter

/-!
# Archiviste.Retrieve.Validation

The validation of `POST /v1/retrieve`, and the way of a query to it: the gateway accepts a body,
the worker accepts what the gateway forwards, puts the last user turn before the query, and sends
the result to `/v1/retrieve`, which validates it again.

* `parseRequest_forwards` — the worker accepts whatever the gateway forwards.
* `accepted_downstream_iff` — when the last of the validations accepts too.
-/

namespace Archiviste.Retrieve

open Gateway (ValidatedRequest parseAndValidate workersBody workersHeaders AnonIdentity)
open Generate (Ctx GenerateRequest MessageRow UserTier isValidUuid isValidUuid_toText
  loadMemoryWindow modelValidate parseRequest retrievalQueryOf utf8Len)

/-! ## The endpoint -/

def maxQueryBytes : Nat := 4096
def topKDefault : Nat := 5
def topKMin : Nat := 1
def topKMax : Nat := 20

def allowedUserTiers : List Text :=
  ["anonymous".toList, "members".toList, "author_only".toList]

def validateQuery : Json → Except String Text
  | .str value =>
    if Text.strip value = [] then .error "invalid_query"
    else if maxQueryBytes < utf8Len value then .error "invalid_query"
    else .ok value
  | _ => .error "invalid_query"

/-- `None` takes the default. An integer is a number without a fraction part. -/
def validateTopK : Option Json → Except String Int
  | none | some .null => .ok topKDefault
  | some (.num q) =>
    if q.den ≠ 1 then .error "invalid_top_k"
    else if q.num < topKMin ∨ topKMax < q.num then .error "invalid_top_k"
    else .ok q.num
  | some _ => .error "invalid_top_k"

def validateUserTier : Json → Except String Text
  | .str value => if value ∈ allowedUserTiers then .ok value else .error "invalid_user_tier"
  | _ => .error "invalid_user_tier"

/-- `_validate_body`: the query, the number of results and the tier. -/
def validateBody (payload : Json) : Except String (Text × Int × Text) :=
  match payload.get? "query".toList, payload.get? "user_tier".toList with
  | some query, some userTier => do
    let query ← validateQuery query
    let topK ← validateTopK (payload.get? "top_k".toList)
    let userTier ← validateUserTier userTier
    pure (query, topK, userTier)
  | _, _ => .error "invalid_request"

/-- The body `RetrieveClient.search` posts. -/
def searchBody (query : Text) (topK : Nat) (userTier : UserTier) : Json :=
  .obj [("query".toList, .str query), ("top_k".toList, .num topK),
    ("user_tier".toList, .str userTier.name.toList)]

/-! ## Through the gateway and the worker -/

def internalTier : Gateway.UserTier → UserTier
  | .anonymous => .anonymous
  | .member => .members
  | .author => .authorOnly

/-- The request the worker reads out of a forwarded body. -/
def forwardedRequest (v : ValidatedRequest) (identity : AnonIdentity) (requestId : Uuid) :
    GenerateRequest :=
  ⟨v.query, v.conversationId, identity.userId.toText, internalTier identity.tier, requestId.toText⟩

theorem parseRequest_forwards {body : Option Json} {v : ValidatedRequest}
    (h : parseAndValidate body = .ok v) (identity : AnonIdentity) (requestId : Uuid) :
    parseRequest (workersBody v requestId.toText) (workersHeaders identity) =
      .ok (forwardedRequest v identity requestId) := by
  have hsize : ¬ (v.query = [] ∨ Generate.queryMaxBytes < utf8Len v.query) := by
    have haccepted := Gateway.parseAndValidate_query h
    exact not_or.2 (haccepted.imp_right Nat.not_lt.2)
  have hconv : ∀ c, v.conversationId = some c → isValidUuid c = true := by
    intro c hc
    obtain ⟨u, rfl⟩ := Gateway.parseAndValidate_conversationId h hc
    exact isValidUuid_toText u
  have htier : (some identity.tier.asStr.toList).bind Generate.contractTierToInternal =
      some (internalTier identity.tier) := by
    cases identity.tier <;> rfl
  have hvalid : modelValidate (workersBody v requestId.toText) identity.userId.toText
      (internalTier identity.tier) requestId.toText = .ok (forwardedRequest v identity requestId) := by
    have hquery : (workersBody v requestId.toText).get? "query".toList = some (.str v.query) := rfl
    simp only [modelValidate, hquery, if_neg hsize]
    obtain ⟨query, _ | c⟩ := v <;> rfl
  have hrequest : (workersBody v requestId.toText).get? "request_id".toList =
      some (.str requestId.toText) := rfl
  simp only [parseRequest, workersHeaders, htier, hrequest, isValidUuid_toText, Bool.not_true,
    Bool.false_eq_true, if_false, hvalid]
  obtain ⟨query, _ | c⟩ := v
  · rfl
  · show (if (!isValidUuid c) = true then _ else _) = _
    simp [hconv c rfl]

theorem validateQuery_str (query : Text) :
    (∃ q, validateQuery (.str query) = .ok q) ↔
      (∃ c ∈ query, Text.isSpace c = false) ∧ utf8Len query ≤ maxQueryBytes := by
  simp only [validateQuery, Text.strip_eq_nil]
  split_ifs with hblank hlong
  · simp_all
  · simp [hlong]
  · simp_all

variable {query turn : Text} {rows : Option (List MessageRow)}

/-- The endpoint judges the query alone: the worker sends a tier and a number of results that
pass. -/
theorem validateBody_searchBody {k : Nat} (tier : UserTier) (hk : topKMin ≤ k) (hk' : k ≤ topKMax) :
    (∃ r, validateBody (searchBody query k tier) = .ok r) ↔
      (∃ c ∈ query, Text.isSpace c = false) ∧ utf8Len query ≤ maxQueryBytes := by
  have htop : validateTopK (some (.num k)) = .ok (k : Int) := by
    have hrange : ¬ ((k : ℚ).num < topKMin ∨ topKMax < (k : ℚ).num) := by
      rw [Rat.num_natCast]
      omega
    have hden : ¬ (k : ℚ).den ≠ 1 := by simp
    simp only [validateTopK]
    rw [if_neg hden, if_neg hrange, Rat.num_natCast]
  have htier : validateUserTier (.str tier.name.toList) = .ok tier.name.toList := by
    cases tier <;> decide
  have hbody : validateBody (searchBody query k tier) =
      (validateQuery (.str query)).bind fun q => .ok (q, (k : Int), tier.name.toList) := by
    show (do
      let query ← validateQuery (.str query)
      let topK ← validateTopK (some (.num k))
      let userTier ← validateUserTier (.str tier.name.toList)
      pure (query, topK, userTier)) = _
    rw [htop, htier]
    rfl
  rw [← validateQuery_str, hbody]
  cases validateQuery (.str query) <;> simp [Except.bind]

/-- The user turns of a stored history are queries the gateway accepted. -/
def AcceptedTurns (rows : Option (List MessageRow)) : Prop :=
  ∀ stored, rows = some stored → ∀ row ∈ stored, row.role = .user →
    ∃ body v, parseAndValidate body = .ok v ∧ v.query = row.content

theorem lastUserTurn_ne_nil (h : AcceptedTurns rows) {budget : Int}
    (hturn : (loadMemoryWindow rows budget).lastUserTurn = some turn) : turn ≠ [] := by
  unfold loadMemoryWindow at hturn
  split at hturn
  · cases hturn
  · next stored =>
    split at hturn
    · cases hturn
    · obtain ⟨row, hfind, rfl⟩ := Option.map_eq_some_iff.1 hturn
      have hrole := List.find?_some hfind
      obtain ⟨body, v, hv, hquery⟩ :=
        h stored rfl row (List.mem_of_find?_eq_some hfind) (by simpa using hrole)
      rw [← hquery]
      exact (Gateway.parseAndValidate_query hv).1

/-- What the last validation asks of a query and of the user turn put before it. -/
def Searchable (lastTurn : Option Text) (query : Text) : Prop :=
  match lastTurn with
  | none => ∃ c ∈ query, Text.isSpace c = false
  | some turn => (∃ c ∈ turn ++ query, Text.isSpace c = false) ∧
      utf8Len turn + 1 + utf8Len query ≤ maxQueryBytes

theorem searchable_iff (h : AcceptedTurns rows) (budget : Int)
    (hsize : utf8Len query ≤ maxQueryBytes) :
    ((∃ c ∈ retrievalQueryOf (loadMemoryWindow rows budget) query, Text.isSpace c = false) ∧
      utf8Len (retrievalQueryOf (loadMemoryWindow rows budget) query) ≤ maxQueryBytes) ↔
    Searchable (loadMemoryWindow rows budget).lastUserTurn query := by
  cases hlast : (loadMemoryWindow rows budget).lastUserTurn with
  | none =>
    have hquery : retrievalQueryOf (loadMemoryWindow rows budget) query = query := by
      simp [retrievalQueryOf, Generate.truthy, hlast]
    rw [hquery]
    exact and_iff_left hsize
  | some turn =>
    have hquery : retrievalQueryOf (loadMemoryWindow rows budget) query = turn ++ '\n' :: query := by
      simp [retrievalQueryOf, Generate.truthy, hlast, lastUserTurn_ne_nil h hlast]
    have hlen : utf8Len (turn ++ '\n' :: query) = utf8Len turn + 1 + utf8Len query := by
      rw [Generate.utf8Len_append, ← List.singleton_append, Generate.utf8Len_append, Nat.add_assoc]
      rfl
    have hspace : Text.isSpace '\n' = true := rfl
    rw [hquery, hlen]
    simp [Searchable, or_and_right, exists_or, hspace]

/-- A body the gateway accepts is accepted by the worker. The retrieval it leads to is accepted
exactly when the query and the user turn before it are not both blank and together still within the
limit each of them was held to. -/
theorem accepted_downstream_iff {body : Option Json} {v : ValidatedRequest}
    (h : parseAndValidate body = .ok v) (identity : AnonIdentity) (requestId : Uuid)
    {rows : Option (List MessageRow)} (hrows : AcceptedTurns rows) (budget : Int) (freshId : Text) :
    ∃ p, parseRequest (workersBody v requestId.toText) (workersHeaders identity) = .ok p ∧
      ∀ k ∈ [Generate.topK, Generate.topKStream],
        ((∃ r, validateBody (searchBody
            (Ctx.build p freshId (loadMemoryWindow rows budget)).retrievalQuery k p.userTier) =
          .ok r) ↔
        Searchable (loadMemoryWindow rows budget).lastUserTurn v.query) := by
  refine ⟨_, parseRequest_forwards h identity requestId, fun k hk => ?_⟩
  have hk : k = 5 := by simpa [Generate.topK, Generate.topKStream] using hk
  subst hk
  rw [validateBody_searchBody _ (by decide) (by decide)]
  exact searchable_iff hrows budget (Gateway.parseAndValidate_query h).2

def anonymousVisitor : AnonIdentity := ⟨Uuid.ofDigit 1, .anonymous, none⟩

def queryBody (query : Text) : Option Json := some (.obj [("query".toList, .str query)])

theorem parseAndValidate_queryBody (hne : query ≠ [])
    (hsize : utf8Len query ≤ Gateway.maxQueryBytes) :
    parseAndValidate (queryBody query) = .ok ⟨query, none⟩ := by
  show (if query = [] ∨ Gateway.maxQueryBytes < utf8Len query then _ else _) = _
  rw [if_neg (not_or.2 ⟨hne, Nat.not_lt.2 hsize⟩)]
  rfl

def historyOf (turn : Text) : Option (List MessageRow) := some [⟨.user, 0, turn, 1⟩]

theorem acceptedTurns_historyOf (hne : turn ≠ []) (hsize : utf8Len turn ≤ Gateway.maxQueryBytes) :
    AcceptedTurns (historyOf turn) := by
  intro stored hstored row hrow _
  cases hstored
  obtain rfl := List.mem_singleton.1 hrow
  exact ⟨_, _, parseAndValidate_queryBody hne hsize, rfl⟩

theorem accepted_downstream_iff_followup :
    ∃ p, parseRequest (workersBody ⟨"Et sa soeur ?".toList, none⟩ (Uuid.ofDigit 2).toText)
        (workersHeaders anonymousVisitor) = .ok p ∧
      ∃ r, validateBody (searchBody (Ctx.build p []
        (loadMemoryWindow (historyOf "Qui est Nocilia ?".toList) 100)).retrievalQuery
          Generate.topK p.userTier) = .ok r := by
  have hturns : AcceptedTurns (historyOf "Qui est Nocilia ?".toList) :=
    acceptedTurns_historyOf (by decide) (by decide)
  obtain ⟨p, hp, hsearch⟩ := accepted_downstream_iff (v := ⟨"Et sa soeur ?".toList, none⟩)
    (parseAndValidate_queryBody (by decide) (by decide)) anonymousVisitor (Uuid.ofDigit 2) hturns
    100 []
  refine ⟨p, hp, (hsearch Generate.topK (by decide)).2 ?_⟩
  exact ⟨⟨'Q', by decide, rfl⟩, by decide⟩

theorem utf8Len_replicate_a (n : Nat) : utf8Len (List.replicate n 'a') = n := by
  rw [utf8Len, List.map_replicate, List.sum_replicate_nat]
  exact Nat.mul_one n

/-- A query of one space passes the gateway and the worker and is refused by the retrieval. So is,
as a follow-up, a query of 2048 characters after another. -/
theorem accepted_query_refused :
    (parseAndValidate (queryBody [' ']) = .ok ⟨[' '], none⟩ ∧
      ∃ p, parseRequest (workersBody ⟨[' '], none⟩ (Uuid.ofDigit 2).toText)
          (workersHeaders anonymousVisitor) = .ok p ∧
        ¬ ∃ r, validateBody (searchBody (Ctx.build p []
          (loadMemoryWindow none 100)).retrievalQuery Generate.topK p.userTier) = .ok r) ∧
    ∃ query : Text, parseAndValidate (queryBody query) = .ok ⟨query, none⟩ ∧
      AcceptedTurns (historyOf query) ∧
      ∃ p, parseRequest (workersBody ⟨query, none⟩ (Uuid.ofDigit 2).toText)
          (workersHeaders anonymousVisitor) = .ok p ∧
        ¬ ∃ r, validateBody (searchBody (Ctx.build p []
          (loadMemoryWindow (historyOf query) 100)).retrievalQuery Generate.topK p.userTier) =
            .ok r := by
  have hblank : parseAndValidate (queryBody [' ']) = .ok ⟨[' '], none⟩ :=
    parseAndValidate_queryBody (by decide) (by decide)
  refine ⟨⟨hblank, _, parseRequest_forwards hblank _ _, ?_⟩, ?_⟩
  · rintro ⟨r, hr⟩
    cases hr
  obtain ⟨query, hne, hlen⟩ : ∃ query : Text, query ≠ [] ∧ utf8Len query = 2048 :=
    ⟨List.replicate 2048 'a', List.cons_ne_nil _ _, utf8Len_replicate_a 2048⟩
  have hsize : utf8Len query ≤ Gateway.maxQueryBytes := hlen ▸ by decide
  have hlong := parseAndValidate_queryBody hne hsize
  have hturns := acceptedTurns_historyOf hne hsize
  refine ⟨query, hlong, hturns, _, parseRequest_forwards hlong _ _, ?_⟩
  rw [validateBody_searchBody _ (by decide) (by decide)]
  refine mt (searchable_iff hturns 100 hsize).1 ?_
  rintro ⟨-, htotal⟩
  rw [hlen] at htotal
  exact absurd htotal (by decide)

end Archiviste.Retrieve
