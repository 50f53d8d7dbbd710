import Archiviste.Generate.Acl
import Archiviste.Generate.Pipeline
import Archiviste.Generate.Prompt

/-!
# Archiviste.Generate.Router

`POST /v1/generate`: retrieve, filter, choose the mode, call the model once, finalize.

`chooseMode` is the part of `_decide_mode` after retrieval; it is pure in the retrieved chunks.
`invokeAndFinalize_*` and `generate_*` say what the endpoint does in each case; later proofs use
these and unfold nothing.
-/

namespace Archiviste.Generate

def topK : Nat := 5

structure GenerateResponse where
  answer : Text
  citations : List Citation
  mode : Mode
  conversationId : Text
  requestId : Text
  usage : Usage
  retrieveMs : Int
  llmMs : Int
  deriving DecidableEq, Repr

def maxScoreOf (chunks : List Chunk) : PyFloat := PyFloat.maxD .zero (chunks.map (·.score))

/-! ## The prepared modes -/

def offTopicMode (ctx : Ctx) (intentResult : IntentResult) : PreparedMode where
  mode := .offTopic
  messages := buildOffTopicMessages ctx.parsed.query (truthy ctx.suspected) ctx.memoryMessages
  visibleChunks := []
  retrieveMs := 0
  maxScore := .zero
  blockedCount := 0
  intentResult := intentResult

def mysteryMode (ctx : Ctx) (clock : Clock) (intentResult : IntentResult) (blockedCount : Nat) :
    PreparedMode where
  mode := .mystery
  messages := buildMysteryMessages ctx.parsed.query (truthy ctx.suspected) ctx.memoryMessages
  visibleChunks := []
  retrieveMs := clock.retrieveMs
  maxScore := .zero
  blockedCount := blockedCount
  intentResult := intentResult

def loreGapMode (ctx : Ctx) (clock : Clock) (intentResult : IntentResult)
    (visibleChunks : List Chunk) (blockedCount : Nat) : PreparedMode where
  mode := .loreGap
  messages := buildLoreGapMessages ctx.parsed.query (truthy ctx.suspected) ctx.memoryMessages
  visibleChunks := visibleChunks
  retrieveMs := clock.retrieveMs
  maxScore := maxScoreOf visibleChunks
  blockedCount := blockedCount
  intentResult := intentResult

def canonMode (ctx : Ctx) (clock : Clock) (intentResult : IntentResult)
    (visibleChunks : List Chunk) (blockedCount : Nat) : PreparedMode where
  mode := .canon
  messages :=
    buildMessages ctx.parsed.query visibleChunks (truthy ctx.suspected) ctx.memoryMessages
  visibleChunks := visibleChunks
  retrieveMs := clock.retrieveMs
  maxScore := maxScoreOf visibleChunks
  blockedCount := blockedCount
  intentResult := intentResult

def chooseMode (ctx : Ctx) (clock : Clock) (intentResult : IntentResult) (chunks : List Chunk) :
    PreparedMode :=
  let acl := filterChunksByTier chunks ctx.parsed.userTier.name
  if acl.visible = [] ∧ 1 ≤ acl.blockedCount then
    mysteryMode ctx clock intentResult acl.blockedCount
  else if (maxScoreOf acl.visible).lt loreGapThreshold then
    loreGapMode ctx clock intentResult acl.visible acl.blockedCount
  else canonMode ctx clock intentResult acl.visible acl.blockedCount

def decideMode (svc : Services) (ctx : Ctx) (clock : Clock) (intentResult : IntentResult) :
    Eff Effect Exc PreparedMode :=
  if intentResult.intent = .offTopic then pure (offTopicMode ctx intentResult)
  else do
    Eff.perform (.retrieve ctx.retrievalQuery topK ctx.parsed.userTier ctx.parsed.requestId)
    match svc.searchFor ctx topK with
    | .error .retrieveError => Eff.raise (.generate ⟨502, "retrieve_failed"⟩)
    | .error .uncaught => Eff.raise .uncaught
    | .ok chunks => pure (chooseMode ctx clock intentResult chunks)

/-- The modes whose usage and latency include those of the classifier. -/
def usesClassifierTokens (mode : Mode) : Bool := mode = .loreGap || mode = .offTopic

def failureRow (ctx : Ctx) (clock : Clock) (prepared : PreparedMode) (statusCode : Nat) :
    QueryLogRow where
  requestId := ctx.parsed.requestId
  userId := ctx.parsed.userId
  conversationId := ctx.conversationId
  queryText := ctx.parsed.query
  mode := prepared.mode
  intent := rowIntent prepared.mode prepared.intentResult
  statusCode := statusCode
  latencyMs := clock.latencyMs
  promptTokens :=
    if usesClassifierTokens prepared.mode then prepared.intentResult.promptTokens else none
  completionTokens :=
    if usesClassifierTokens prepared.mode then prepared.intentResult.completionTokens else none
  costEur := if usesClassifierTokens prepared.mode then prepared.intentResult.costEur else none

def buildUsage (client : LlmClient) (prepared : PreparedMode) (message : AiMessage) : Usage :=
  let raw := extractUsage message client.provider
  let cost := computeCostEur client.model raw.promptTokens raw.completionTokens
  if usesClassifierTokens prepared.mode then
    { promptTokens := addOptional prepared.intentResult.promptTokens raw.promptTokens
      completionTokens := addOptional prepared.intentResult.completionTokens raw.completionTokens
      costEur := addOptional prepared.intentResult.costEur cost }
  else ⟨raw.promptTokens, raw.completionTokens, cost⟩

def blockingLlmMs (clock : Clock) (prepared : PreparedMode) : Int :=
  if usesClassifierTokens prepared.mode then prepared.intentResult.latencyMs + clock.llmMs
  else clock.llmMs

def blockingResult (svc : Services) (clock : Clock) (prepared : PreparedMode)
    (message : AiMessage) : GenerationResult where
  persistedContent := message.content
  usage := buildUsage svc.llm prepared message
  citations := extractCitations (extractFollowups message.content).1 prepared.visibleChunks
  llmMs := blockingLlmMs clock prepared
  followups := (extractFollowups message.content).2

def blockingResponse (ctx : Ctx) (prepared : PreparedMode) (result : GenerationResult) :
    GenerateResponse where
  answer := (extractFollowups result.persistedContent).1
  citations := result.citations
  mode := prepared.mode
  conversationId := ctx.conversationId
  requestId := ctx.parsed.requestId
  usage := result.usage
  retrieveMs := prepared.retrieveMs
  llmMs := result.llmMs

def invokeAndFinalize (svc : Services) (ctx : Ctx) (clock : Clock) (prepared : PreparedMode) :
    Eff Effect Exc GenerateResponse := do
  Eff.perform (.llm prepared.messages)
  match svc.llm.invoke prepared.messages with
  | .error .timeout =>
    Eff.perform (.queryLog (failureRow ctx clock prepared 504))
    Eff.raise (.generate ⟨504, "llm_timeout"⟩)
  | .error (.upstream _) =>
    Eff.perform (.queryLog (failureRow ctx clock prepared 502))
    Eff.raise (.generate ⟨502, "llm_upstream"⟩)
  | .ok message =>
    let result := blockingResult svc clock prepared message
    let _ ← finalizeGeneration svc ctx clock prepared result
    pure (blockingResponse ctx prepared result)

def generate (svc : Services) (ctx : Ctx) (clock : Clock) (intentResult : IntentResult) :
    Eff Effect Exc GenerateResponse := do
  let prepared ← decideMode svc ctx clock intentResult
  invokeAndFinalize svc ctx clock prepared

/-- `_handle_generate`; `window` is what the memory read returns, `classifyMs` the latency of the
classifier call. -/
def handleGenerate (svc : Services) (payload : Json) (headers : Headers) (freshId : Text)
    (window : Text → Text → MemoryWindow) (classifyMs : Int) (clock : Clock) :
    Eff Effect Exc GenerateResponse :=
  match parseRequest payload headers with
  | .error e => Eff.raise (.generate e)
  | .ok parsed => do
    let turns := window (conversationIdOf parsed freshId) parsed.userId
    let ctx := Ctx.build parsed freshId turns
    Eff.perform (.llm (buildIntentMessages ctx.retrievalQuery (intentSuspected ctx turns)))
    generate svc ctx clock
      (classifyIntent svc.llm ctx.retrievalQuery (intentSuspected ctx turns) classifyMs)

/-! ## What a call does -/

def lowScore (userTier : String) (chunks : List Chunk) : Bool :=
  (maxScoreOf (visibleTo userTier chunks)).lt loreGapThreshold

theorem chooseMode_eq (ctx : Ctx) (clock : Clock) (intentResult : IntentResult)
    (chunks : List Chunk) :
    chooseMode ctx clock intentResult chunks =
      if OnlyBlocked ctx.parsed.userTier.name chunks then
        mysteryMode ctx clock intentResult
          (filterChunksByTier chunks ctx.parsed.userTier.name).blockedCount
      else if lowScore ctx.parsed.userTier.name chunks then
        loreGapMode ctx clock intentResult (visibleTo ctx.parsed.userTier.name chunks)
          (filterChunksByTier chunks ctx.parsed.userTier.name).blockedCount
      else
        canonMode ctx clock intentResult (visibleTo ctx.parsed.userTier.name chunks)
          (filterChunksByTier chunks ctx.parsed.userTier.name).blockedCount := by
  refine if_congr (onlyBlocked_iff chunks ctx.parsed.userTier.name) rfl ?_
  rw [filterChunksByTier_visible]
  rfl

variable {svc : Services} {prepared : PreparedMode} {ctx : Ctx} {intentResult : IntentResult}

theorem invokeAndFinalize_error {e : LlmError} (h : svc.llm.invoke prepared.messages = .error e)
    (ctx : Ctx) (clock : Clock) :
    invokeAndFinalize svc ctx clock prepared =
      ⟨[.llm prepared.messages, .queryLog (failureRow ctx clock prepared e.status)],
        .error (.generate ⟨e.status, e.code.name⟩)⟩ := by
  cases e <;> simp [invokeAndFinalize, h, LlmError.status, LlmError.code, StreamErrorCode.name]

theorem invokeAndFinalize_ok {message : AiMessage}
    (h : svc.llm.invoke prepared.messages = .ok message) (ctx : Ctx) (clock : Clock) :
    invokeAndFinalize svc ctx clock prepared =
      ⟨.llm prepared.messages ::
          finalizeTrace svc ctx clock prepared (blockingResult svc clock prepared message),
        .ok (blockingResponse ctx prepared (blockingResult svc clock prepared message))⟩ := by
  obtain ⟨action, hf⟩ :=
    finalizeGeneration_eq svc ctx clock prepared (blockingResult svc clock prepared message)
  simp [invokeAndFinalize, h, hf]

theorem generate_retrieveError (hi : intentResult.intent = .inDomain)
    (hs : svc.searchFor ctx topK = .error .retrieveError) (clock : Clock) :
    generate svc ctx clock intentResult =
      ⟨[.retrieve ctx.retrievalQuery topK ctx.parsed.userTier ctx.parsed.requestId],
        .error (.generate ⟨502, "retrieve_failed"⟩)⟩ := by
  simp [generate, decideMode, hi, hs]

theorem generate_uncaught (hi : intentResult.intent = .inDomain)
    (hs : svc.searchFor ctx topK = .error .uncaught) (clock : Clock) :
    generate svc ctx clock intentResult =
      ⟨[.retrieve ctx.retrievalQuery topK ctx.parsed.userTier ctx.parsed.requestId],
        .error .uncaught⟩ := by
  simp [generate, decideMode, hi, hs]

theorem generate_retrieved {chunks : List Chunk} (hi : intentResult.intent = .inDomain)
    (hs : svc.searchFor ctx topK = .ok chunks) (clock : Clock) :
    generate svc ctx clock intentResult =
      ⟨.retrieve ctx.retrievalQuery topK ctx.parsed.userTier ctx.parsed.requestId ::
          (invokeAndFinalize svc ctx clock (chooseMode ctx clock intentResult chunks)).trace,
        (invokeAndFinalize svc ctx clock (chooseMode ctx clock intentResult chunks)).result⟩ := by
  simp [generate, decideMode, hi, hs]

theorem generate_offTopic (hi : intentResult.intent = .offTopic) (svc : Services) (ctx : Ctx)
    (clock : Clock) :
    generate svc ctx clock intentResult =
      invokeAndFinalize svc ctx clock (offTopicMode ctx intentResult) := by
  simp [generate, decideMode, hi]

end Archiviste.Generate
