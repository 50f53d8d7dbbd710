import Archiviste.Generate.Router

/-!
# Archiviste.Generate.StreamRouter

`POST /v1/generate/stream`: the same pipeline as a generator of server-sent events.

The four mode branches of the source are one generator, `streamBranch`, with the values each of
them uses (`canonBranch`, `mysteryBranch`, `loreGapBranch`, `offTopicBranch`). The model is read
to its end before the first token is sent.

`streamBranch_ok` and `streamBranch_error` say what a branch does, `streamGenerate_*` which
branch is taken; later proofs use these and unfold nothing.
-/

namespace Archiviste.Generate

def topKStream : Nat := 5

/-! ## Reading the model -/

/-- One pair of `astream`: the terminal pair carries the message, every other one a delta. -/
def collectStep (acc : List Text × Option AiMessage) (pair : Text × Option AiMessage) :
    List Text × Option AiMessage :=
  match pair.2 with
  | some final => (acc.1, some final)
  | none => (acc.1 ++ [pair.1], acc.2)

def collectLlmStream (client : LlmClient) (messages : List Message) :
    Except LlmError (List Text × Option AiMessage) :=
  match client.astream messages with
  | (_, some e) => .error e
  | (pairs, none) => .ok (pairs.foldl collectStep ([], none))

def rawStreamUsage (client : LlmClient) (finalMessage : Option AiMessage) : Usage :=
  match finalMessage with
  | some message => extractUsage message client.provider
  | none => ⟨none, none, none⟩

def buildStreamUsage (client : LlmClient) (finalMessage : Option AiMessage) : Usage :=
  let raw := rawStreamUsage client finalMessage
  ⟨raw.promptTokens, raw.completionTokens,
    computeCostEur client.model raw.promptTokens raw.completionTokens⟩

def combineUsage (intentResult : IntentResult) (rawUsage : Usage) (client : LlmClient) : Usage where
  promptTokens := addOptional intentResult.promptTokens rawUsage.promptTokens
  completionTokens := addOptional intentResult.completionTokens rawUsage.completionTokens
  costEur := addOptional intentResult.costEur
    (computeCostEur client.model rawUsage.promptTokens rawUsage.completionTokens)

/-! ## Mode branches -/

def streamFailureRow (ctx : Ctx) (clock : Clock) (intentResult : IntentResult) (mode : Mode)
    (statusCode : Nat) (promptTokens completionTokens : Option Int) : QueryLogRow where
  requestId := ctx.parsed.requestId
  userId := ctx.parsed.userId
  conversationId := ctx.conversationId
  queryText := ctx.parsed.query
  mode := mode
  intent := rowIntent mode intentResult
  statusCode := statusCode
  latencyMs := clock.latencyMs
  promptTokens := promptTokens
  completionTokens := completionTokens
  costEur := none

def insertFailureLog (ctx : Ctx) (clock : Clock) (intentResult : IntentResult) (mode : Mode)
    (statusCode : Nat) (promptTokens completionTokens : Option Int) : Eff Effect Exc Unit :=
  Eff.perform (.queryLog
    (streamFailureRow ctx clock intentResult mode statusCode promptTokens completionTokens))

/-- What a mode branch puts into the common generator. -/
structure StreamBranch where
  prepared : PreparedMode
  /-- Token counts of the row inserted when the model fails. -/
  failurePromptTokens : Option Int
  failureCompletionTokens : Option Int
  usage : Option AiMessage → Usage
  llmMs : Int
  /-- Citations and follow-ups of the whole answer. -/
  extract : Text → List Citation × List Text

def StreamBranch.result (b : StreamBranch) (answer : Text) (finalMessage : Option AiMessage) :
    GenerationResult where
  persistedContent := answer
  usage := b.usage finalMessage
  citations := (b.extract answer).1
  llmMs := b.llmMs
  followups := (b.extract answer).2

def StreamBranch.doneEvent (b : StreamBranch) (result : GenerationResult) : Event :=
  .sseDone result.citations result.usage b.prepared.retrieveMs result.llmMs result.followups

def streamBranch (svc : Services) (ctx : Ctx) (clock : Clock) (b : StreamBranch) :
    Eff Effect Exc Unit := do
  Eff.perform (.event (.sseMeta b.prepared.mode ctx.conversationId ctx.parsed.requestId))
  Eff.perform (.llm b.prepared.messages)
  match collectLlmStream svc.llm b.prepared.messages with
  | .error .timeout =>
    insertFailureLog ctx clock b.prepared.intentResult b.prepared.mode 504
      b.failurePromptTokens b.failureCompletionTokens
    Eff.perform (.event (.sseError .llmTimeout))
  | .error (.upstream _) =>
    insertFailureLog ctx clock b.prepared.intentResult b.prepared.mode 502
      b.failurePromptTokens b.failureCompletionTokens
    Eff.perform (.event (.sseError .llmUpstream))
  | .ok (tokenParts, finalMessage) =>
    Eff.performAll (tokenParts.map fun part => .event (.sseToken part))
    let result := b.result tokenParts.flatten finalMessage
    let _ ← finalizeGeneration svc ctx clock b.prepared result
    Eff.perform (.event (b.doneEvent result))

def mysteryBranch (svc : Services) (ctx : Ctx) (clock : Clock) (intentResult : IntentResult)
    (blockedCount : Nat) : StreamBranch where
  prepared := mysteryMode ctx clock intentResult blockedCount
  failurePromptTokens := none
  failureCompletionTokens := none
  usage := buildStreamUsage svc.llm
  llmMs := clock.llmMs
  extract := fun _ => ([], [])

def loreGapBranch (svc : Services) (ctx : Ctx) (clock : Clock) (intentResult : IntentResult)
    (chunks : List Chunk) : StreamBranch where
  prepared := loreGapMode ctx clock intentResult chunks 0
  failurePromptTokens := intentResult.promptTokens
  failureCompletionTokens := intentResult.completionTokens
  usage := fun final => combineUsage intentResult (rawStreamUsage svc.llm final) svc.llm
  llmMs := intentResult.latencyMs + clock.llmMs
  extract := fun _ => ([], [])

def offTopicBranch (svc : Services) (ctx : Ctx) (clock : Clock) (intentResult : IntentResult) :
    StreamBranch where
  prepared := offTopicMode ctx intentResult
  failurePromptTokens := intentResult.promptTokens
  failureCompletionTokens := intentResult.completionTokens
  usage := fun final => combineUsage intentResult (rawStreamUsage svc.llm final) svc.llm
  llmMs := intentResult.latencyMs + clock.llmMs
  extract := fun _ => ([], [])

def canonBranch (svc : Services) (ctx : Ctx) (clock : Clock) (intentResult : IntentResult)
    (visibleChunks : List Chunk) (blockedCount : Nat) : StreamBranch where
  prepared := canonMode ctx clock intentResult visibleChunks blockedCount
  failurePromptTokens := none
  failureCompletionTokens := none
  usage := buildStreamUsage svc.llm
  llmMs := clock.llmMs
  extract := fun rawAnswer =>
    (extractCitations (extractFollowups rawAnswer).1 visibleChunks, (extractFollowups rawAnswer).2)

def streamMystery (svc : Services) (ctx : Ctx) (clock : Clock) (intentResult : IntentResult)
    (blockedCount : Nat) : Eff Effect Exc Unit :=
  streamBranch svc ctx clock (mysteryBranch svc ctx clock intentResult blockedCount)

def streamLoreGap (svc : Services) (ctx : Ctx) (clock : Clock) (intentResult : IntentResult)
    (chunks : List Chunk) : Eff Effect Exc Unit :=
  streamBranch svc ctx clock (loreGapBranch svc ctx clock intentResult chunks)

def streamOffTopic (svc : Services) (ctx : Ctx) (clock : Clock) (intentResult : IntentResult) :
    Eff Effect Exc Unit :=
  streamBranch svc ctx clock (offTopicBranch svc ctx clock intentResult)

def streamCanon (svc : Services) (ctx : Ctx) (clock : Clock) (intentResult : IntentResult) :
    Eff Effect Exc Unit := do
  Eff.perform (.retrieve ctx.retrievalQuery topKStream ctx.parsed.userTier ctx.parsed.requestId)
  match svc.searchFor ctx topKStream with
  | .error .retrieveError =>
    insertFailureLog ctx clock intentResult .canon 502 none none
    Eff.perform (.event (.sseError .retrieveFailed))
  | .error .uncaught => Eff.raise .uncaught
  | .ok chunks =>
    let acl := filterChunksByTier chunks ctx.parsed.userTier.name
    if acl.visible = [] ∧ 1 ≤ acl.blockedCount then
      streamMystery svc ctx clock intentResult acl.blockedCount
    else if (maxScoreOf acl.visible).lt loreGapThreshold then
      streamLoreGap svc ctx clock intentResult acl.visible
    else
      streamBranch svc ctx clock (canonBranch svc ctx clock intentResult acl.visible acl.blockedCount)

def streamGenerate (svc : Services) (ctx : Ctx) (clock : Clock) (intentResult : IntentResult) :
    Eff Effect Exc Unit :=
  if intentResult.intent = .offTopic then streamOffTopic svc ctx clock intentResult
  else streamCanon svc ctx clock intentResult

/-- `post_generate_stream`: a refused request is answered before any event is sent. -/
def postGenerateStream (svc : Services) (payload : Json) (headers : Headers) (freshId : Text)
    (window : Text → Text → MemoryWindow) (classifyMs : Int) (clock : Clock) :
    Eff Effect Exc Unit :=
  match parseRequest payload headers with
  | .error e => Eff.raise (.generate e)
  | .ok parsed => do
    let turns := window (conversationIdOf parsed freshId) parsed.userId
    let ctx := Ctx.build parsed freshId turns
    Eff.perform (.llm (buildIntentMessages ctx.retrievalQuery (intentSuspected ctx turns)))
    streamGenerate svc ctx clock
      (classifyIntent svc.llm ctx.retrievalQuery (intentSuspected ctx turns) classifyMs)

/-! ## What a stream does -/

theorem collectStep_deltas (deltas : List Text) :
    ∀ acc : List Text × Option AiMessage,
      (deltas.map fun d => (d, (none : Option AiMessage))).foldl collectStep acc =
        (acc.1 ++ deltas, acc.2) := by
  induction deltas with
  | nil => intro acc; simp
  | cons d ds ih => intro acc; simp [ih, collectStep]

variable {client : LlmClient} {messages : List Message} {e : LlmError} {svc : Services}
  {b : StreamBranch} {intentResult : IntentResult} {ctx : Ctx}

theorem collectLlmStream_ok {aggregate : AiMessage}
    (h : (client.provide messages).ending = .ok aggregate) :
    collectLlmStream client messages = .ok ((client.provide messages).deltas,
      some ((client.provide messages).finalMessage aggregate)) := by
  simp [collectLlmStream, LlmClient.astream, h, collectStep_deltas, collectStep]

theorem collectLlmStream_error (h : (client.provide messages).ending = .error e) :
    collectLlmStream client messages = .error e := by
  simp [collectLlmStream, LlmClient.astream, h]

theorem streamBranch_error (h : collectLlmStream svc.llm b.prepared.messages = .error e)
    (ctx : Ctx) (clock : Clock) :
    streamBranch svc ctx clock b =
      ⟨[.event (.sseMeta b.prepared.mode ctx.conversationId ctx.parsed.requestId),
          .llm b.prepared.messages,
          .queryLog (streamFailureRow ctx clock b.prepared.intentResult b.prepared.mode e.status
            b.failurePromptTokens b.failureCompletionTokens),
          .event (.sseError e.code)], .ok ()⟩ := by
  cases e <;> simp [streamBranch, insertFailureLog, h, LlmError.status, LlmError.code]

theorem streamBranch_ok {parts : List Text} {final : Option AiMessage}
    (h : collectLlmStream svc.llm b.prepared.messages = .ok (parts, final)) (ctx : Ctx)
    (clock : Clock) :
    streamBranch svc ctx clock b =
      ⟨.event (.sseMeta b.prepared.mode ctx.conversationId ctx.parsed.requestId) ::
          .llm b.prepared.messages :: (parts.map fun part => .event (.sseToken part)) ++
          finalizeTrace svc ctx clock b.prepared (b.result parts.flatten final) ++
          [.event (b.doneEvent (b.result parts.flatten final))],
        .ok ()⟩ := by
  obtain ⟨action, hf⟩ :=
    finalizeGeneration_eq svc ctx clock b.prepared (b.result parts.flatten final)
  simp [streamBranch, h, hf]

def branchOf (svc : Services) (ctx : Ctx) (clock : Clock) (intentResult : IntentResult)
    (chunks : List Chunk) : StreamBranch :=
  if OnlyBlocked ctx.parsed.userTier.name chunks then
    mysteryBranch svc ctx clock intentResult
      (filterChunksByTier chunks ctx.parsed.userTier.name).blockedCount
  else if lowScore ctx.parsed.userTier.name chunks then
    loreGapBranch svc ctx clock intentResult (visibleTo ctx.parsed.userTier.name chunks)
  else
    canonBranch svc ctx clock intentResult (visibleTo ctx.parsed.userTier.name chunks)
      (filterChunksByTier chunks ctx.parsed.userTier.name).blockedCount

theorem streamGenerate_offTopic (hi : intentResult.intent = .offTopic) (svc : Services)
    (ctx : Ctx) (clock : Clock) :
    streamGenerate svc ctx clock intentResult =
      streamBranch svc ctx clock (offTopicBranch svc ctx clock intentResult) := by
  simp [streamGenerate, streamOffTopic, hi]

theorem streamGenerate_retrieveError (hi : intentResult.intent = .inDomain)
    (hs : svc.searchFor ctx topKStream = .error .retrieveError) (clock : Clock) :
    streamGenerate svc ctx clock intentResult =
      ⟨[.retrieve ctx.retrievalQuery topKStream ctx.parsed.userTier ctx.parsed.requestId,
          .queryLog (streamFailureRow ctx clock intentResult .canon 502 none none),
          .event (.sseError .retrieveFailed)], .ok ()⟩ := by
  simp [streamGenerate, streamCanon, insertFailureLog, hi, hs]

theorem streamGenerate_uncaught (hi : intentResult.intent = .inDomain)
    (hs : svc.searchFor ctx topKStream = .error .uncaught) (clock : Clock) :
    streamGenerate svc ctx clock intentResult =
      ⟨[.retrieve ctx.retrievalQuery topKStream ctx.parsed.userTier ctx.parsed.requestId],
        .error .uncaught⟩ := by
  simp [streamGenerate, streamCanon, hi, hs]

theorem streamGenerate_retrieved {chunks : List Chunk} (hi : intentResult.intent = .inDomain)
    (hs : svc.searchFor ctx topKStream = .ok chunks) (clock : Clock) :
    streamGenerate svc ctx clock intentResult =
      ⟨.retrieve ctx.retrievalQuery topKStream ctx.parsed.userTier ctx.parsed.requestId ::
          (streamBranch svc ctx clock (branchOf svc ctx clock intentResult chunks)).trace,
        (streamBranch svc ctx clock (branchOf svc ctx clock intentResult chunks)).result⟩ := by
  have hb := onlyBlocked_iff chunks ctx.parsed.userTier.name
  simp only [streamGenerate, streamCanon, hi, hs, reduceCtorEq, if_false, Eff.perform_eq,
    Eff.bind_ok, streamMystery, streamLoreGap, List.singleton_append]
  by_cases ho : OnlyBlocked ctx.parsed.userTier.name chunks
  · rw [branchOf, if_pos (hb.mpr ho), if_pos ho]
  · rw [branchOf, if_neg (mt hb.mp ho), if_neg ho, filterChunksByTier_visible]
    cases hl : lowScore ctx.parsed.userTier.name chunks <;> rw [lowScore] at hl <;> simp [hl]

end Archiviste.Generate
