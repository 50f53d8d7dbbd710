import Archiviste.Base.Dict
import Archiviste.Base.Float
import Archiviste.Base.Json
import Archiviste.Base.Regex
import Archiviste.Base.Uuid

/-!
# Archiviste.Generate.Models

The request and answer records of the generation service, and the validation both of its
endpoints run before anything else (`parseRequest`).

Texts a user or a model writes are lists of characters. A cost is a whole number of
micro-euros: `compute_cost_eur` quantizes every cost to six decimals.
-/

namespace Archiviste.Generate

open Regex

/-- Internal tier names, after the boundary mapping from the contract vocabulary. -/
inductive UserTier where
  | anonymous | members | authorOnly
  deriving DecidableEq, Repr

def UserTier.name : UserTier → String
  | .anonymous => "anonymous"
  | .members => "members"
  | .authorOnly => "author_only"

inductive Mode where
  | canon | offTopic | loreGap | mystery
  deriving DecidableEq, Repr

def Mode.name : Mode → String
  | .canon => "canon"
  | .offTopic => "off_topic"
  | .loreGap => "lore_gap"
  | .mystery => "mystery"

inductive Intent where
  | inDomain | offTopic
  deriving DecidableEq, Repr

structure Chunk where
  sourcePath : Text
  ord : Int
  text : Text
  score : PyFloat
  accessTier : String
  deriving DecidableEq

structure Citation where
  sourcePath : Text
  chunkOrds : List Int
  deriving DecidableEq, Repr

structure Usage where
  promptTokens : Option Int
  completionTokens : Option Int
  costEur : Option Int
  deriving DecidableEq, Repr

structure IntentResult where
  intent : Intent
  promptTokens : Option Int
  completionTokens : Option Int
  costEur : Option Int
  latencyMs : Int
  deriving DecidableEq, Repr

structure GenerateRequest where
  query : Text
  conversationId : Option Text
  userId : Text
  userTier : UserTier
  requestId : Text
  deriving DecidableEq, Repr

/-- A message for the language model, by role. -/
inductive Message where
  | system (content : Text)
  | human (content : Text)
  | ai (content : Text)
  deriving DecidableEq, Repr

/-- The double nearest to 0.45. -/
def loreGapThreshold : PyFloat := .fin (mkRat 8106479329266893 18014398509481984)

/-! ## Validation -/

def queryMaxBytes : Nat := 4 * 1024

def utf8Len (s : Text) : Nat := (s.map Char.utf8Size).sum

theorem utf8Len_append (s t : Text) : utf8Len (s ++ t) = utf8Len s + utf8Len t := by
  simp [utf8Len]

def isHexLower (c : Char) : Bool := ('0' ≤ c && c ≤ '9') || ('a' ≤ c && c ≤ 'f')

/-- `^[0-9a-f]{8}-[0-9a-f]{4}-[0-9a-f]{4}-[0-9a-f]{4}-[0-9a-f]{12}$`. -/
def uuidRe : Re :=
  .seqs [.check Pos.atStart, .repeated 8 isHexLower, .char '-', .repeated 4 isHexLower, .char '-',
    .repeated 4 isHexLower, .char '-', .repeated 4 isHexLower, .char '-',
    .repeated 12 isHexLower, .check Pos.atDollar]

def isValidUuid (value : Text) : Bool := (matchAt uuidRe (Pos.start value)).isSome

theorem hexDigit_of_isHexLower {c : Char} (h : isHexLower c = true) :
    ∃ n, Uuid.hexDigit n = c := by
  have hbounds : (48 ≤ c.toNat ∧ c.toNat ≤ 57) ∨ (97 ≤ c.toNat ∧ c.toNat ≤ 102) := by
    simpa [isHexLower, Char.le_def, UInt32.le_iff_toNat_le] using h
  rcases hbounds with ⟨hlo, hhi⟩ | ⟨hlo, hhi⟩
  · refine ⟨⟨c.toNat - 48, by omega⟩, ?_⟩
    rw [Uuid.hexDigit, if_pos (show c.toNat - 48 < 10 by omega), Nat.add_sub_cancel' hlo,
      Char.ofNat_toNat]
  · refine ⟨⟨c.toNat - 87, by omega⟩, ?_⟩
    rw [Uuid.hexDigit, if_neg (show ¬ c.toNat - 87 < 10 by omega),
      Nat.add_sub_cancel' (show 87 ≤ c.toNat by omega), Char.ofNat_toNat]

theorem digits_of_isHexLower {t : Text} (h : ∀ c ∈ t, isHexLower c = true) :
    ∃ digits : List (Fin 16), digits.map Uuid.hexDigit = t := by
  induction t with
  | nil => exact ⟨[], rfl⟩
  | cons c t ih =>
    obtain ⟨n, rfl⟩ := hexDigit_of_isHexLower (h c List.mem_cons_self)
    obtain ⟨digits, rfl⟩ := ih fun c hc => h c (List.mem_cons_of_mem _ hc)
    exact ⟨n :: digits, rfl⟩

variable {value : Text} {payload : Json} {p : GenerateRequest} {headers : Headers}

/-- The pattern accepts the printed form of a UUID, and, since `$` matches before a last newline,
that form with a newline after it. -/
theorem isValidUuid_form (h : isValidUuid value = true) :
    ∃ u : Uuid, value = u.toText ∨ value = u.toText ++ ['\n'] := by
  obtain ⟨q, hq⟩ := reaches_of_matchAt h
  simp only [uuidRe, Re.seqs, List.foldr_cons, List.foldr_nil, reaches_seq, reaches_check,
    reaches_eps, Re.char] at hq
  obtain ⟨_, ⟨-, rfl⟩, q₁, h₁, _, hy₁, q₂, h₂, _, hy₂, q₃, h₃, _, hy₃, q₄, h₄, _, hy₄, q₅, h₅, _,
    ⟨hend, rfl⟩, rfl⟩ := hq
  obtain ⟨t₁, hl₁, ha₁, e₁⟩ := reaches_repeated h₁
  obtain ⟨t₂, hl₂, ha₂, e₂⟩ := reaches_repeated h₂
  obtain ⟨t₃, hl₃, ha₃, e₃⟩ := reaches_repeated h₃
  obtain ⟨t₄, hl₄, ha₄, e₄⟩ := reaches_repeated h₄
  obtain ⟨t₅, hl₅, ha₅, e₅⟩ := reaches_repeated h₅
  obtain ⟨c₁, hc₁, f₁⟩ := reaches_cls hy₁
  obtain ⟨c₂, hc₂, f₂⟩ := reaches_cls hy₂
  obtain ⟨c₃, hc₃, f₃⟩ := reaches_cls hy₃
  obtain ⟨c₄, hc₄, f₄⟩ := reaches_cls hy₄
  have hvalue : value = t₁ ++ '-' :: t₂ ++ '-' :: t₃ ++ '-' :: t₄ ++ '-' :: t₅ ++ q.after := by
    rw [f₁, e₂, f₂, e₃, f₃, e₄, f₄, e₅] at e₁
    simp only [beq_iff_eq] at hc₁ hc₂ hc₃ hc₄
    simpa [Pos.start, hc₁, hc₂, hc₃, hc₄] using e₁
  obtain ⟨digits, hdigits⟩ := @digits_of_isHexLower (t₁ ++ t₂ ++ t₃ ++ t₄ ++ t₅)
    (by simpa [or_imp, forall_and] using ⟨ha₁, ha₂, ha₃, ha₄, ha₅⟩)
  have hlen : digits.length = 32 := by
    rw [← List.length_map (f := Uuid.hexDigit), hdigits]
    simp [hl₁, hl₂, hl₃, hl₄, hl₅]
  refine ⟨⟨digits, hlen⟩, ?_⟩
  have htext : Uuid.toText ⟨digits, hlen⟩ =
      t₁ ++ '-' :: t₂ ++ '-' :: t₃ ++ '-' :: t₄ ++ '-' :: t₅ := by
    rw [Uuid.toText, hdigits, Uuid.hyphenate_groups t₅ hl₁ hl₂ hl₃ hl₄]
  rw [hvalue, htext]
  simp only [Pos.atDollar, Bool.or_eq_true, beq_iff_eq] at hend
  rcases hend with hend | hend
  · exact .inl (by rw [hend, List.append_nil])
  · exact .inr (by rw [hend])

theorem isHexLower_hexDigit (n : Fin 16) : isHexLower (Uuid.hexDigit n) = true := by
  revert n; decide

theorem isValidUuid_groups {a b c d e : Text} (ha : a.length = 8) (hb : b.length = 4)
    (hc : c.length = 4) (hd : d.length = 4) (he : e.length = 12)
    (hex : ∀ x ∈ a ++ b ++ c ++ d ++ e, isHexLower x = true) :
    isValidUuid (a ++ '-' :: b ++ '-' :: c ++ '-' :: d ++ '-' :: e) = true := by
  simp only [List.mem_append, or_imp, forall_and] at hex
  obtain ⟨⟨⟨⟨hexa, hexb⟩, hexc⟩, hexd⟩, hexe⟩ := hex
  have group {n : Nat} {t : Text} (ht : t.length = n) (h : ∀ x ∈ t, isHexLower x = true)
      (before after : Text) : Reaches (.repeated n isHexLower) ⟨before, t ++ after⟩
        ⟨t.reverse ++ before, after⟩ := ht ▸ Reaches.repeated t h before after
  have hyphen (before after : Text) :
      Reaches (.char '-') ⟨before, '-' :: after⟩ ⟨'-' :: before, after⟩ := Reaches.cls rfl
  simp only [List.append_assoc, List.cons_append]
  rw [← List.append_nil e]
  apply matchAt_isSome.2
  simp only [uuidRe, Re.seqs, List.foldr_cons, List.foldr_nil, reaches_seq, reaches_check,
    reaches_eps]
  exact ⟨_, _, ⟨rfl, rfl⟩, _, group ha hexa _ _, _, hyphen _ _, _, group hb hexb _ _, _, hyphen _ _,
    _, group hc hexc _ _, _, hyphen _ _, _, group hd hexd _ _, _, hyphen _ _,
    _, group he hexe _ _, _, ⟨rfl, rfl⟩, rfl⟩

theorem isValidUuid_toText (u : Uuid) : isValidUuid u.toText = true := by
  refine isValidUuid_groups (by simp [u.length_digits]) (by simp [u.length_digits])
    (by simp [u.length_digits]) (by simp [u.length_digits]) (by simp [u.length_digits]) ?_
  intro x hx
  have hmem : x ∈ u.digits.map Uuid.hexDigit := by
    simp only [List.mem_append] at hx
    rcases hx with (((hx | hx) | hx) | hx) | hx
    · exact List.mem_of_mem_take hx
    · exact List.mem_of_mem_drop (List.mem_of_mem_take hx)
    · exact List.mem_of_mem_drop (List.mem_of_mem_take hx)
    · exact List.mem_of_mem_drop (List.mem_of_mem_take hx)
    · exact List.mem_of_mem_drop hx
  obtain ⟨n, -, rfl⟩ := List.mem_map.1 hmem
  exact isHexLower_hexDigit n

theorem eq_toText_of_pgParse {u : Uuid} (h : isValidUuid value = true)
    (hu : Uuid.pgParse value = some u) : value = u.toText := by
  obtain ⟨v, rfl | rfl⟩ := isValidUuid_form h
  · rw [Uuid.pgParse_toText] at hu
    rw [Option.some.inj hu]
  · rw [Uuid.pgParse_concat] at hu
    cases hu

/-- A refusal of the generation endpoints: HTTP status and error code. -/
structure GenerateError where
  status : Nat
  code : String
  deriving DecidableEq, Repr

structure Headers where
  xUserId : Option Text
  xUserTier : Option Text

def contractTierToInternal (t : Text) : Option UserTier :=
  if t = "anonymous".toList then some .anonymous
  else if t = "member".toList then some .members
  else if t = "author".toList then some .authorOnly
  else none

/-- `GenerateRequest.model_validate`, given the identity fields `_parse_request` has put in the
payload. Every field that fails is reported as `invalid_query`. -/
def modelValidate (payload : Json) (userId : Text) (userTier : UserTier) (requestId : Text) :
    Except GenerateError GenerateRequest :=
  match payload.get? "query".toList with
  | some (.str query) =>
    if query = [] ∨ queryMaxBytes < utf8Len query then .error ⟨400, "invalid_query"⟩
    else
      match payload.get? "conversation_id".toList with
      | none | some .null => .ok ⟨query, none, userId, userTier, requestId⟩
      | some (.str c) => .ok ⟨query, some c, userId, userTier, requestId⟩
      | some _ => .error ⟨400, "invalid_query"⟩
  | _ => .error ⟨400, "invalid_query"⟩

def parseRequest (payload : Json) (headers : Headers) : Except GenerateError GenerateRequest :=
  match headers.xUserId with
  | none => .error ⟨400, "invalid_user_id"⟩
  | some rawUserId =>
    if !isValidUuid rawUserId then .error ⟨400, "invalid_user_id"⟩
    else
      match headers.xUserTier.bind contractTierToInternal with
      | none => .error ⟨422, "invalid_user_tier"⟩
      | some tier =>
        match payload.get? "request_id".toList with
        | some (.str requestId) =>
          if !isValidUuid requestId then .error ⟨400, "invalid_request_id"⟩
          else
            match payload.get? "conversation_id".toList with
            | some (.str c) =>
              if !isValidUuid c then .error ⟨400, "invalid_conversation_id"⟩
              else modelValidate payload rawUserId tier requestId
            | _ => modelValidate payload rawUserId tier requestId
        | _ => .error ⟨400, "invalid_request_id"⟩

/-- The conversation id a payload carries as a string. -/
def payloadConversation (payload : Json) : Option Text :=
  match payload.get? "conversation_id".toList with
  | some (.str c) => some c
  | _ => none

theorem modelValidate_ok {userId requestId : Text} {tier : UserTier}
    (h : modelValidate payload userId tier requestId = .ok p) :
    p.userId = userId ∧ p.requestId = requestId ∧ p.conversationId = payloadConversation payload := by
  unfold modelValidate at h
  unfold payloadConversation
  repeat' split at h
  all_goals cases h
  all_goals next hc => exact ⟨rfl, rfl, by rw [hc]⟩

theorem parseRequest_validated (h : parseRequest payload headers = .ok p) :
    ∃ raw tier requestId, headers.xUserId = some raw ∧ isValidUuid requestId = true ∧
      modelValidate payload raw tier requestId = .ok p := by
  unfold parseRequest at h
  repeat' split at h
  all_goals first
    | cases h
    | exact ⟨_, _, _, by assumption, by simp_all, h⟩

theorem parseRequest_ok (h : parseRequest payload headers = .ok p) :
    headers.xUserId = some p.userId ∧ p.conversationId = payloadConversation payload := by
  obtain ⟨raw, tier, requestId, hraw, -, hp⟩ := parseRequest_validated h
  obtain ⟨huser, -, hconv⟩ := modelValidate_ok hp
  exact ⟨by rw [huser, hraw], hconv⟩

theorem parseRequest_requestId (h : parseRequest payload headers = .ok p) :
    isValidUuid p.requestId = true := by
  obtain ⟨raw, tier, requestId, -, hid, hp⟩ := parseRequest_validated h
  rw [(modelValidate_ok hp).2.1]
  exact hid

end Archiviste.Generate
