import Archiviste.Generate.Models

/-!
# Archiviste.Generate.Llm

The language model as the service sees it: a provider that answers a list of messages or fails,
at once (`invoke`) or piece by piece (`astream`); the token usage of an answer, its price, and
the intent classifier, which falls back to `in_domain` on every failure.
-/

namespace Archiviste.Generate

/-- `LlmTimeoutError` or `LlmUpstreamError`. -/
inductive LlmError where
  | timeout
  | upstream (statusCode : Int)
  deriving DecidableEq, Repr

/-- A dictionary of token counts; a key may be present with the value `None`. -/
abbrev TokenDict := Dict String (Option Int)

structure AiMessage where
  content : Text
  usageMetadata : Option TokenDict
  responseMetadata : Dict String TokenDict
  deriving DecidableEq, Repr

/-- What a provider's stream does: the contents of the chunks it delivers (`none` for a content
that is no string), then its end, with the chunks added up, or an exception. -/
structure ProviderStream where
  contents : List (Option Text)
  ending : Except LlmError AiMessage

structure LlmClient where
  provider : String
  model : String
  ainvoke : List Message → Except LlmError AiMessage
  provide : List Message → ProviderStream

namespace ProviderStream

def deltas (s : ProviderStream) : List Text := (s.contents.map fun c => c.getD []).filter (· ≠ [])

/-- The aggregated message; a stream without chunks gives an empty one. -/
def finalMessage (s : ProviderStream) (aggregate : AiMessage) : AiMessage :=
  if s.contents = [] then ⟨[], none, []⟩ else aggregate

end ProviderStream

namespace LlmClient

def invoke (client : LlmClient) (messages : List Message) : Except LlmError AiMessage :=
  client.ainvoke messages

/-- The pairs `astream` yields, and the exception that ends it, if any: the non-empty deltas,
then the terminal pair with the aggregated message. -/
def astream (client : LlmClient) (messages : List Message) :
    List (Text × Option AiMessage) × Option LlmError :=
  let s := client.provide messages
  let pairs := s.deltas.map fun d => (d, none)
  match s.ending with
  | .error e => (pairs, some e)
  | .ok aggregate => (pairs ++ [([], some (s.finalMessage aggregate))], none)

end LlmClient

/-! ## Usage and price -/

def tokenCount (d : TokenDict) (key : String) : Option Int := (d.get? key).join

/-- The prompt and completion counts, from where each provider reports them. -/
def usageCounts (message : AiMessage) (provider : String) : Option Int × Option Int :=
  let usage := message.usageMetadata.getD []
  let response (key : String) : TokenDict := (message.responseMetadata.get? key).getD []
  if (provider = "mistral" ∨ provider = "google") ∧ usage ≠ [] then
    (tokenCount usage "input_tokens", tokenCount usage "output_tokens")
  else if provider = "anthropic" then
    (tokenCount (response "usage") "input_tokens", tokenCount (response "usage") "output_tokens")
  else if provider = "openai" then
    (tokenCount (response "token_usage") "prompt_tokens",
      tokenCount (response "token_usage") "completion_tokens")
  else if provider = "deepseek" then
    (tokenCount (response "usage") "prompt_tokens", tokenCount (response "usage") "completion_tokens")
  else (none, none)

def extractUsage (message : AiMessage) (provider : String) : Usage :=
  match usageCounts message provider with
  | (some p, some c) => ⟨some p, some c, none⟩
  | _ => ⟨none, none, none⟩

/-- Prompt and completion price of a model, in cents per million tokens. -/
def modelPricing (model : String) : Option (Int × Int) :=
  if model = "mistral-small-latest" then some (20, 60)
  else if model = "mistral-large-latest" then some (200, 600)
  else if model = "claude-3-5-sonnet-20241022" then some (280, 1400)
  else if model = "gemini-1.5-flash" then some (7, 28)
  else if model = "gpt-4o-mini" then some (14, 56)
  else if model = "deepseek-chat" then some (13, 27)
  else none

/-- `n / 100` rounded to a whole number, halves to the even neighbour. -/
def roundHundredths (n : Int) : Int :=
  let q := n / 100
  let r := n % 100
  if r < 50 then q else if 50 < r then q + 1 else if q % 2 = 0 then q else q + 1

/-- The cost in micro-euros, or `none` for an unknown model or a missing count. -/
def computeCostEur (model : String) : Option Int → Option Int → Option Int
  | some p, some c => (modelPricing model).map fun price => roundHundredths (price.1 * p + price.2 * c)
  | _, _ => none

example : computeCostEur "gpt-4o-mini" (some 1000) (some 25) = some 154 := by decide

/-- `add_optional` and `add_decimal_optional`. -/
def addOptional : Option Int → Option Int → Option Int
  | some a, some b => some (a + b)
  | _, _ => none

/-! ## Intent -/

def intentSystemPrompt : String :=
  "Tu es un classificateur d'intention pour l'Archiviste de Nocilia, " ++
  "un univers de fantasy avec lore, personnages et histoire propres. " ++
  "Réponds exclusivement par le mot `in_domain` si la question porte sur cet univers, " ++
  "ou le mot `off_topic` si elle est hors-sujet (cuisine, météo, code, sport, etc.). " ++
  "Aucun guillemet, aucune ponctuation, aucun préambule. Un seul mot."

def buildIntentMessages (query : Text) (suspectedInjection : Bool) : List Message :=
  [.system intentSystemPrompt.toList,
    .human ((if suspectedInjection then "[user query, suspected injection]: ".toList
      else "[user query]: ".toList) ++ query)]

def parseIntent (raw : Text) : Option Intent :=
  let normalised := (Text.strip raw).map Char.toLower
  if normalised = "in_domain".toList then some .inDomain
  else if normalised = "off_topic".toList then some .offTopic
  else none

/-- `classify_intent`; always returns. -/
def classifyIntent (client : LlmClient) (query : Text) (suspectedInjection : Bool)
    (latencyMs : Int) : IntentResult :=
  match client.invoke (buildIntentMessages query suspectedInjection) with
  | .error _ => ⟨.inDomain, none, none, none, latencyMs⟩
  | .ok message =>
    let usage := extractUsage message client.provider
    ⟨(parseIntent message.content).getD .inDomain, usage.promptTokens, usage.completionTokens,
      computeCostEur client.model usage.promptTokens usage.completionTokens, latencyMs⟩

end Archiviste.Generate
