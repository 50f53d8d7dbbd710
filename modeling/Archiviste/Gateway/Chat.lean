import Archiviste.Base.Json
import Archiviste.Gateway.Identity
import Archiviste.Generate.Models

/-!
# Archiviste.Gateway.Chat

What the gateway's chat handlers send to the workers: the validated body, with the conversation id
in its canonical form, and the identity the middleware resolved, in two headers. `chat` and
`chat_stream` share this code and differ in the worker endpoint they call.

* `parseAndValidate_conversationId` — a conversation id that is forwarded is a printed UUID.
* `parseRequest_forwarded` — what the worker reads back from a forwarded request it accepts.
-/

namespace Archiviste.Gateway

open Generate (utf8Len parseRequest)

structure ValidatedRequest where
  query : Text
  conversationId : Option Text
  deriving DecidableEq

def maxQueryBytes : Nat := 4096

/-- `none` is a body that is no JSON. -/
def parseAndValidate (body : Option Json) : Except String ValidatedRequest :=
  match body with
  | none => .error "invalid_request"
  | some value =>
    match value.get? "query".toList with
    | some (.str query) =>
      if query = [] ∨ maxQueryBytes < utf8Len query then .error "invalid_request"
      else
        match value.get? "conversation_id".toList with
        | none | some .null => .ok ⟨query, none⟩
        | some (.str s) =>
          match Uuid.parseStr s with
          | some u => .ok ⟨query, some u.toText⟩
          | none => .error "invalid_request"
        | some _ => .error "invalid_request"
    | _ => .error "invalid_request"

def workersBody (req : ValidatedRequest) (requestId : Text) : Json :=
  .obj [("query".toList, .str req.query),
    ("conversation_id".toList, match req.conversationId with | none => .null | some c => .str c),
    ("request_id".toList, .str requestId)]

def workersHeaders (identity : AnonIdentity) : Generate.Headers :=
  ⟨some identity.userId.toText, some identity.tier.asStr.toList⟩

variable {body : Option Json} {v : ValidatedRequest}

theorem parseAndValidate_conversationId {c : Text} (h : parseAndValidate body = .ok v)
    (hc : v.conversationId = some c) : ∃ u : Uuid, c = u.toText := by
  unfold parseAndValidate at h
  repeat' split at h
  all_goals cases h
  all_goals cases hc
  exact ⟨_, rfl⟩

theorem parseAndValidate_query (h : parseAndValidate body = .ok v) :
    v.query ≠ [] ∧ utf8Len v.query ≤ maxQueryBytes := by
  unfold parseAndValidate at h
  repeat' split at h
  all_goals cases h
  all_goals exact (not_or.1 ‹¬ (_ ∨ _)›).imp_right Nat.le_of_not_lt

theorem parseRequest_forwarded {identity : AnonIdentity} {requestId : Text}
    {p : Generate.GenerateRequest}
    (h : parseRequest (workersBody v requestId) (workersHeaders identity) = .ok p) :
    p.userId = identity.userId.toText ∧ p.conversationId = v.conversationId := by
  obtain ⟨huser, hconv⟩ := Generate.parseRequest_ok h
  refine ⟨(Option.some.inj huser).symm, hconv.trans ?_⟩
  obtain ⟨query, conversationId⟩ := v
  cases conversationId <;> rfl

end Archiviste.Gateway
