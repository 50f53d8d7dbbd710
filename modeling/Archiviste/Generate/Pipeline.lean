import Archiviste.Base.Eff
import Archiviste.Generate.Llm
import Archiviste.Generate.Memory
import Archiviste.Generate.Parser

/-!
# Archiviste.Generate.Pipeline

What both generation endpoints share: the services they call, the effects those calls are, the
retrieval client, and the finalize step (persist the two turns, raise the lore-gap ticket, insert
the `query_log` row).

The services are given by what they answer: a reply to `/v1/retrieve`, a status to each append,
the outcome of the ticket service. Log lines are not modelled.
-/

namespace Archiviste.Generate

/-- The reply to one HTTP call; a body that is no JSON is `none`. -/
inductive HttpReply where
  | transportError
  | reply (statusCode : Nat) (body : Option Json)

inductive TicketAction where
  | created | incremented | skippedError | skipped
  deriving DecidableEq, Repr

structure AppendArgs where
  conversationId : Text
  role : Role
  content : Text
  timestamp : Int
  userId : Text
  deriving DecidableEq, Repr

structure QueryLogRow where
  requestId : Text
  userId : Text
  conversationId : Text
  queryText : Text
  mode : Mode
  intent : Intent
  statusCode : Nat
  latencyMs : Int
  promptTokens : Option Int
  completionTokens : Option Int
  costEur : Option Int
  deriving DecidableEq, Repr

inductive StreamErrorCode where
  | llmTimeout | llmUpstream | retrieveFailed | internal
  deriving DecidableEq, Repr

def StreamErrorCode.name : StreamErrorCode → String
  | .llmTimeout => "llm_timeout"
  | .llmUpstream => "llm_upstream"
  | .retrieveFailed => "retrieve_failed"
  | .internal => "internal"

def LlmError.status : LlmError → Nat
  | .timeout => 504
  | .upstream _ => 502

def LlmError.code : LlmError → StreamErrorCode
  | .timeout => .llmTimeout
  | .upstream _ => .llmUpstream

/-- A server-sent event of the streaming endpoint. -/
inductive Event where
  | sseMeta (mode : Mode) (conversationId requestId : Text)
  | sseToken (text : Text)
  | sseDone (citations : List Citation) (usage : Usage) (retrieveMs llmMs : Int)
      (followups : List Text)
  | sseError (code : StreamErrorCode)
  deriving DecidableEq, Repr

/-- A call to another service, or an event sent to the client. -/
inductive Effect where
  | retrieve (query : Text) (topK : Nat) (userTier : UserTier) (requestId : Text)
  | llm (messages : List Message)
  | append (args : AppendArgs)
  | ticket (conversationId question requestId : Text)
  | queryLog (row : QueryLogRow)
  | event (e : Event)
  deriving DecidableEq, Repr

/-- `_GenerateError`, or any exception the endpoints do not catch. -/
inductive Exc where
  | generate (e : GenerateError)
  | uncaught
  deriving DecidableEq, Repr

structure Services where
  llm : LlmClient
  /-- `POST /v1/retrieve`. -/
  retrieve : Text → Nat → UserTier → Text → HttpReply
  /-- `Chunk.model_validate`; `none` is a `ValidationError`. -/
  chunkModelValidate : Json → Option Chunk
  /-- Status of the append call; `none` is a transport error. -/
  postMessage : AppendArgs → Option Nat
  createOrIncrement : Text → Text → Text → TicketAction
  dbPool : Bool
  embedder : Bool

/-- The readings of the clock one request makes. -/
structure Clock where
  retrieveMs : Int
  llmMs : Int
  latencyMs : Int
  userTurnAt : Int
  assistantTurnAt : Int
  deriving DecidableEq, Repr

/-- The request context of both endpoints. -/
structure Ctx where
  parsed : GenerateRequest
  conversationId : Text
  suspected : Option Text
  memoryMessages : List Message
  retrievalQuery : Text

structure PreparedMode where
  mode : Mode
  messages : List Message
  visibleChunks : List Chunk
  retrieveMs : Int
  maxScore : PyFloat
  blockedCount : Nat
  intentResult : IntentResult
  deriving DecidableEq

structure GenerationResult where
  persistedContent : Text
  usage : Usage
  citations : List Citation
  llmMs : Int
  followups : List Text
  deriving DecidableEq, Repr

/-! ## Context -/

/-- `bool(s)` of an optional string. -/
def truthy (s : Option Text) : Bool := s.getD [] ≠ []

/-- The last user turn, put before the query, makes an elliptical follow-up self-contained. -/
def retrievalQueryOf (window : MemoryWindow) (query : Text) : Text :=
  if truthy window.lastUserTurn then window.lastUserTurn.getD [] ++ '\n' :: query else query

/-- `parsed.conversation_id or str(uuid.uuid4())`, `freshId` being the id drawn. -/
def conversationIdOf (parsed : GenerateRequest) (freshId : Text) : Text :=
  if truthy parsed.conversationId then parsed.conversationId.getD [] else freshId

def Ctx.build (parsed : GenerateRequest) (freshId : Text) (window : MemoryWindow) : Ctx where
  parsed := parsed
  conversationId := conversationIdOf parsed freshId
  suspected := detectInjection parsed.query
  memoryMessages := window.messages
  retrievalQuery := retrievalQueryOf window parsed.query

/-- The classifier sees the last user turn too, so a poisoned one marks the query as suspected. -/
def intentSuspected (ctx : Ctx) (window : MemoryWindow) : Bool :=
  truthy ctx.suspected || truthy (window.lastUserTurn.bind detectInjection)

/-! ## Retrieval client -/

/-- `RetrieveError` is handled by the endpoints; the other exceptions `search` lets through are
not. -/
inductive SearchError where
  | retrieveError
  | uncaught
  deriving DecidableEq, Repr

/-- The items a `for` loop over a decoded JSON value visits; `none` where Python raises
`TypeError`. -/
def iterItems : Json → Option (List Json)
  | .arr items => some items
  | .str s => some (s.map fun c => .str [c])
  | .obj ms => some (ms.map fun m => .str m.1)
  | _ => none

def rawChunks : Json → Json
  | .obj ms => (Json.get? (.obj ms) "chunks".toList).getD (.arr [])
  | _ => .arr []

/-- `RetrieveClient.search` on the reply it gets. -/
def RetrieveClient.search (validate : Json → Option Chunk) : HttpReply → Except SearchError (List Chunk)
  | .transportError => .error .retrieveError
  | .reply statusCode body =>
    if statusCode / 100 ≠ 2 then .error .retrieveError
    else
      match body with
      | none => .error .uncaught
      | some payload =>
        match (iterItems (rawChunks payload)).bind fun items => items.mapM validate with
        | none => .error .uncaught
        | some chunks => .ok chunks

/-- The outcome of `retrieve_client.search` for a request. -/
def Services.searchFor (svc : Services) (ctx : Ctx) (topK : Nat) :
    Except SearchError (List Chunk) :=
  RetrieveClient.search svc.chunkModelValidate
    (svc.retrieve ctx.retrievalQuery topK ctx.parsed.userTier ctx.parsed.requestId)

/-! ## Finalize -/

def rowIntent (mode : Mode) (intentResult : IntentResult) : Intent :=
  if mode = .offTopic then .offTopic else intentResult.intent

def appendOk (svc : Services) (args : AppendArgs) : Bool :=
  match svc.postMessage args with
  | none => false
  | some statusCode => statusCode / 100 = 2

/-- `conversation_client.append_message`; never raises. -/
def appendMessage (svc : Services) (args : AppendArgs) : Eff Effect Exc Bool := do
  Eff.perform (.append args)
  pure (appendOk svc args)

def maybeCreateTicket (svc : Services) (ctx : Ctx) (prepared : PreparedMode)
    (userOk asstOk : Bool) : Eff Effect Exc TicketAction :=
  if prepared.mode ≠ .loreGap then pure .skipped
  else if !(userOk && asstOk) then pure .skippedError
  else if !(svc.dbPool && svc.embedder) then pure .skippedError
  else do
    Eff.perform (.ticket ctx.conversationId ctx.parsed.query ctx.parsed.requestId)
    pure (svc.createOrIncrement ctx.conversationId ctx.parsed.query ctx.parsed.requestId)

def userTurn (ctx : Ctx) (clock : Clock) : AppendArgs :=
  ⟨ctx.conversationId, .user, ctx.parsed.query, clock.userTurnAt, ctx.parsed.userId⟩

def assistantTurn (ctx : Ctx) (clock : Clock) (content : Text) : AppendArgs :=
  ⟨ctx.conversationId, .assistant, content, clock.assistantTurnAt, ctx.parsed.userId⟩

def successRow (ctx : Ctx) (clock : Clock) (prepared : PreparedMode) (result : GenerationResult) :
    QueryLogRow where
  requestId := ctx.parsed.requestId
  userId := ctx.parsed.userId
  conversationId := ctx.conversationId
  queryText := ctx.parsed.query
  mode := prepared.mode
  intent := rowIntent prepared.mode prepared.intentResult
  statusCode := 200
  latencyMs := clock.latencyMs
  promptTokens := result.usage.promptTokens
  completionTokens := result.usage.completionTokens
  costEur := result.usage.costEur

def finalizeGeneration (svc : Services) (ctx : Ctx) (clock : Clock) (prepared : PreparedMode)
    (result : GenerationResult) : Eff Effect Exc TicketAction := do
  let userOk ← appendMessage svc (userTurn ctx clock)
  let asstOk ← appendMessage svc (assistantTurn ctx clock result.persistedContent)
  let action ← maybeCreateTicket svc ctx prepared userOk asstOk
  Eff.perform (.queryLog (successRow ctx clock prepared result))
  pure action

/-! ## What finalize does -/

def ticketCalls (svc : Services) (ctx : Ctx) (clock : Clock) (mode : Mode) (content : Text) :
    List Effect :=
  if mode = .loreGap ∧ appendOk svc (userTurn ctx clock) ∧
      appendOk svc (assistantTurn ctx clock content) ∧ svc.dbPool ∧ svc.embedder then
    [.ticket ctx.conversationId ctx.parsed.query ctx.parsed.requestId]
  else []

theorem appendMessage_eq (svc : Services) (args : AppendArgs) :
    appendMessage svc args = ⟨[.append args], .ok (appendOk svc args)⟩ := rfl

/-- Everything a finalized run does after the model has answered. -/
def finalizeTrace (svc : Services) (ctx : Ctx) (clock : Clock) (prepared : PreparedMode)
    (result : GenerationResult) : List Effect :=
  .append (userTurn ctx clock) :: .append (assistantTurn ctx clock result.persistedContent) ::
    (ticketCalls svc ctx clock prepared.mode result.persistedContent ++
      [.queryLog (successRow ctx clock prepared result)])

theorem maybeCreateTicket_trace (svc : Services) (ctx : Ctx) (clock : Clock)
    (prepared : PreparedMode) (content : Text) :
    ∃ action, maybeCreateTicket svc ctx prepared (appendOk svc (userTurn ctx clock))
        (appendOk svc (assistantTurn ctx clock content)) =
      ⟨ticketCalls svc ctx clock prepared.mode content, .ok action⟩ := by
  unfold maybeCreateTicket ticketCalls
  by_cases hm : prepared.mode = .loreGap
  · generalize appendOk svc (userTurn ctx clock) = u
    generalize appendOk svc (assistantTurn ctx clock content) = a
    cases u <;> cases a <;> cases svc.dbPool <;> cases svc.embedder <;> simp [hm]
  · simp [hm]

theorem finalizeGeneration_eq (svc : Services) (ctx : Ctx) (clock : Clock)
    (prepared : PreparedMode) (result : GenerationResult) :
    ∃ action, finalizeGeneration svc ctx clock prepared result =
      ⟨finalizeTrace svc ctx clock prepared result, .ok action⟩ := by
  obtain ⟨action, h⟩ := maybeCreateTicket_trace svc ctx clock prepared result.persistedContent
  exact ⟨action, by simp [finalizeGeneration, appendMessage_eq, h, finalizeTrace]⟩

/-! ## Reading a trace -/

@[simp] def Effect.event? : Effect → Option Event
  | .event e => some e
  | _ => none

@[simp] def Effect.append? : Effect → Option AppendArgs
  | .append args => some args
  | _ => none

@[simp] def Effect.row? : Effect → Option QueryLogRow
  | .queryLog row => some row
  | _ => none

@[simp] def Effect.messages? : Effect → Option (List Message)
  | .llm messages => some messages
  | _ => none

@[simp] def Effect.ticket? : Effect → Option Effect
  | .ticket c q r => some (.ticket c q r)
  | _ => none

abbrev eventsOf (trace : List Effect) : List Event := Eff.reads Effect.event? trace

abbrev appendsOf (trace : List Effect) : List AppendArgs := Eff.reads Effect.append? trace

abbrev rowsOf (trace : List Effect) : List QueryLogRow := Eff.reads Effect.row? trace

abbrev llmCallsOf (trace : List Effect) : List (List Message) := Eff.reads Effect.messages? trace

abbrev ticketsOf (trace : List Effect) : List Effect := Eff.reads Effect.ticket? trace

section
variable (svc : Services) (ctx : Ctx) (clock : Clock) (mode : Mode) (content : Text)
  (prepared : PreparedMode) (result : GenerationResult)

@[simp] theorem ticketsOf_ticketCalls :
    ticketsOf (ticketCalls svc ctx clock mode content) = ticketCalls svc ctx clock mode content := by
  unfold ticketCalls
  split <;> simp

theorem reads_ticketCalls {β : Type} (f : Effect → Option β)
    (hf : ∀ c q r, f (.ticket c q r) = none) :
    Eff.reads f (ticketCalls svc ctx clock mode content) = [] := by
  unfold ticketCalls
  split <;> simp [hf]

@[simp] theorem eventsOf_finalizeTrace :
    eventsOf (finalizeTrace svc ctx clock prepared result) = [] := by
  simp [finalizeTrace, reads_ticketCalls _ _ _ _ _ Effect.event? fun _ _ _ => rfl]

@[simp] theorem appendsOf_finalizeTrace :
    appendsOf (finalizeTrace svc ctx clock prepared result) =
      [userTurn ctx clock, assistantTurn ctx clock result.persistedContent] := by
  simp [finalizeTrace, reads_ticketCalls _ _ _ _ _ Effect.append? fun _ _ _ => rfl]

@[simp] theorem rowsOf_finalizeTrace :
    rowsOf (finalizeTrace svc ctx clock prepared result) =
      [successRow ctx clock prepared result] := by
  simp [finalizeTrace, reads_ticketCalls _ _ _ _ _ Effect.row? fun _ _ _ => rfl]

@[simp] theorem llmCallsOf_finalizeTrace :
    llmCallsOf (finalizeTrace svc ctx clock prepared result) = [] := by
  simp [finalizeTrace, reads_ticketCalls _ _ _ _ _ Effect.messages? fun _ _ _ => rfl]

@[simp] theorem ticketsOf_finalizeTrace :
    ticketsOf (finalizeTrace svc ctx clock prepared result) =
      ticketCalls svc ctx clock prepared.mode result.persistedContent := by
  simp [finalizeTrace]

end

/-! ## A small instance

Values for the concrete runs of the modules that follow: a strict reading of a chunk, services
that answer every retrieval alike and log every turn, and an anonymous caller with no history. -/

def readChunk (item : Json) : Option Chunk :=
  match item.get? "source_path".toList, item.get? "ord".toList, item.get? "text".toList,
      (item.get? "score".toList).getD (.num 0),
      (item.get? "access_tier".toList).getD (.str "public".toList) with
  | some (.str path), some (.num ord), some (.str text), .num score, .str tier =>
    if ord.den = 1 then some ⟨path, ord.num, text, .fin score, String.ofList tier⟩ else none
  | _, _, _, _, _ => none

def chunkJson (path text : String) (score : ℚ) (tier : String) : Json :=
  .obj [("source_path".toList, .str path.toList), ("ord".toList, .num 0),
    ("text".toList, .str text.toList), ("score".toList, .num score),
    ("access_tier".toList, .str tier.toList)]

def chunksReply (items : List Json) : HttpReply :=
  .reply 200 (some (.obj [("chunks".toList, .arr items)]))

def sampleServices (llm : LlmClient) (reply : HttpReply) : Services where
  llm := llm
  retrieve := fun _ _ _ _ => reply
  chunkModelValidate := readChunk
  postMessage := fun _ => some 201
  createOrIncrement := fun _ _ _ => .created
  dbPool := true
  embedder := true

def sampleCtx : Ctx where
  parsed := ⟨"Qui est Mara ?".toList, none, "u".toList, .anonymous, "r".toList⟩
  conversationId := "c".toList
  suspected := none
  memoryMessages := []
  retrievalQuery := "Qui est Mara ?".toList

def sampleClock : Clock := ⟨3, 40, 50, 1000, 1001⟩

def answering (pieces : List String) : LlmClient :=
  let message : AiMessage := ⟨(pieces.map String.toList).flatten, none, []⟩
  { provider := "mistral"
    model := "mistral-small-latest"
    ainvoke := fun _ => .ok message
    provide := fun _ => ⟨pieces.map fun p => some p.toList, .ok message⟩ }

def failing (e : LlmError) : LlmClient where
  provider := "mistral"
  model := "mistral-small-latest"
  ainvoke := fun _ => .error e
  provide := fun _ => ⟨[some "Ma".toList], .error e⟩

end Archiviste.Generate
