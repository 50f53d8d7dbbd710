import Archiviste.Generate.StreamGrammar

/-!
# Archiviste.Generate.Parity

The blocking and the streaming endpoint on the same request, intent, retrieval result and model.

* `Mirrors` — a stream branch and a prepared mode that agree on mode, messages, intent, usage and
  the tokens of a failure row. Every branch mirrors the mode the blocking router prepares.
* `successParity_of_mirrors` — for mirrored modes all that is left to compare is the citations.
* `failureParity_of_mirrors` — for mirrored modes all that is left to compare is the cost.

The two routers part in two places: a lore-gap stream never cites, and a failed stream never logs
a cost; and only the stream logs a failed retrieval.
-/

namespace Archiviste.Generate

/-! ## What is compared -/

def AppendArgs.untimed (args : AppendArgs) : AppendArgs := { args with timestamp := 0 }

def QueryLogRow.timeless (row : QueryLogRow) : QueryLogRow := { row with latencyMs := 0 }

def reported (events : List Event) : Option (List Citation × Usage) :=
  match events.getLast? with
  | some (.sseDone citations usage _ _ _) => some (citations, usage)
  | _ => none

structure SuccessParity (blocking : Eff Effect Exc GenerateResponse)
    (stream : Eff Effect Exc Unit) : Prop where
  response : ∃ r, blocking.result = .ok r ∧ stream.result = .ok () ∧
    announcedMode (eventsOf stream.trace) = some r.mode ∧
    reported (eventsOf stream.trace) = some (r.citations, r.usage)
  messages : llmCallsOf blocking.trace = llmCallsOf stream.trace
  turns : (appendsOf blocking.trace).map AppendArgs.untimed =
    (appendsOf stream.trace).map AppendArgs.untimed
  ticket : ticketsOf blocking.trace = ticketsOf stream.trace
  row : (rowsOf blocking.trace).map QueryLogRow.timeless =
    (rowsOf stream.trace).map QueryLogRow.timeless

def blockingCode (run : Eff Effect Exc GenerateResponse) : Option String :=
  match run.result with
  | .error (.generate e) => some e.code
  | _ => none

def streamCode (run : Eff Effect Exc Unit) : Option String :=
  match (eventsOf run.trace).getLast? with
  | some (.sseError code) => some code.name
  | _ => none

structure FailureParity (blocking : Eff Effect Exc GenerateResponse)
    (stream : Eff Effect Exc Unit) : Prop where
  row : (rowsOf blocking.trace).map QueryLogRow.timeless =
    (rowsOf stream.trace).map QueryLogRow.timeless
  code : blockingCode blocking = streamCode stream
  blockingSilent : appendsOf blocking.trace = [] ∧ ticketsOf blocking.trace = []
  streamSilent : appendsOf stream.trace = [] ∧ ticketsOf stream.trace = []

/-- The model answers `m`, whole or in pieces that add up to it, with the same metadata. -/
structure Answers (client : LlmClient) (messages : List Message) (m : AiMessage) : Prop where
  invoked : client.invoke messages = .ok m
  streamed : ∃ aggregate, (client.provide messages).ending = .ok aggregate ∧
    ((client.provide messages).contents.map fun c => c.getD []).flatten = m.content ∧
    ((client.provide messages).finalMessage aggregate).usageMetadata = m.usageMetadata ∧
    ((client.provide messages).finalMessage aggregate).responseMetadata = m.responseMetadata

/-- The model fails with `e`, at once or after any number of pieces. -/
structure Fails (client : LlmClient) (messages : List Message) (e : LlmError) : Prop where
  invoked : client.invoke messages = .error e
  streamed : (client.provide messages).ending = .error e

/-! ## Mirrored modes -/

structure Mirrors (client : LlmClient) (p : PreparedMode) (b : StreamBranch) : Prop where
  mode : b.prepared.mode = p.mode
  messages : b.prepared.messages = p.messages
  intentResult : b.prepared.intentResult = p.intentResult
  usage : ∀ final m : AiMessage, final.usageMetadata = m.usageMetadata →
    final.responseMetadata = m.responseMetadata → b.usage (some final) = buildUsage client p m
  failurePrompt : b.failurePromptTokens =
    if usesClassifierTokens p.mode then p.intentResult.promptTokens else none
  failureCompletion : b.failureCompletionTokens =
    if usesClassifierTokens p.mode then p.intentResult.completionTokens else none

variable {m : AiMessage} {svc : Services} {p : PreparedMode} {b : StreamBranch}
  {blocking : Eff Effect Exc GenerateResponse} {stream : Eff Effect Exc Unit}
  {query requestId : Text} {k : Nat} {tier : UserTier} {ctx : Ctx} {intentResult : IntentResult}
  {chunks : List Chunk}

theorem extractUsage_congr {final : AiMessage} (hu : final.usageMetadata = m.usageMetadata)
    (hr : final.responseMetadata = m.responseMetadata) (provider : String) :
    extractUsage final provider = extractUsage m provider := by
  simp only [extractUsage, usageCounts, hu, hr]

section
variable (svc : Services) (ctx : Ctx) (c₁ c₂ : Clock) (intentResult : IntentResult)
  (visible : List Chunk) (n k : Nat)

theorem mirrors_offTopic :
    Mirrors svc.llm (offTopicMode ctx intentResult) (offTopicBranch svc ctx c₂ intentResult) where
  mode := rfl
  messages := rfl
  intentResult := rfl
  usage _ _ hu hr := by
    simp only [offTopicBranch, rawStreamUsage, extractUsage_congr hu hr]
    rfl
  failurePrompt := rfl
  failureCompletion := rfl

theorem mirrors_mystery :
    Mirrors svc.llm (mysteryMode ctx c₁ intentResult n)
      (mysteryBranch svc ctx c₂ intentResult k) where
  mode := rfl
  messages := rfl
  intentResult := rfl
  usage _ _ hu hr := by
    simp only [mysteryBranch, buildStreamUsage, rawStreamUsage, extractUsage_congr hu hr]
    rfl
  failurePrompt := rfl
  failureCompletion := rfl

theorem mirrors_loreGap :
    Mirrors svc.llm (loreGapMode ctx c₁ intentResult visible n)
      (loreGapBranch svc ctx c₂ intentResult visible) where
  mode := rfl
  messages := rfl
  intentResult := rfl
  usage _ _ hu hr := by
    simp only [loreGapBranch, rawStreamUsage, extractUsage_congr hu hr]
    rfl
  failurePrompt := rfl
  failureCompletion := rfl

theorem mirrors_canon :
    Mirrors svc.llm (canonMode ctx c₁ intentResult visible n)
      (canonBranch svc ctx c₂ intentResult visible k) where
  mode := rfl
  messages := rfl
  intentResult := rfl
  usage _ _ hu hr := by
    simp only [canonBranch, buildStreamUsage, rawStreamUsage, extractUsage_congr hu hr]
    rfl
  failurePrompt := rfl
  failureCompletion := rfl

end

/-! ## A mode that succeeds -/

theorem deltas_flatten (s : ProviderStream) :
    s.deltas.flatten = (s.contents.map fun c => c.getD []).flatten := by
  unfold ProviderStream.deltas
  induction s.contents with
  | nil => rfl
  | cons c cs ih =>
    cases hc : c.getD [] with
    | nil => simpa [hc] using ih
    | cons x xs => simpa [hc] using ih

/-- The append service does not look at the timestamp it is given. -/
def TimeBlind (svc : Services) : Prop :=
  ∀ args t, svc.postMessage { args with timestamp := t } = svc.postMessage args

theorem ticketCalls_congr (h : TimeBlind svc) (ctx : Ctx) (c₁ c₂ : Clock) (mode : Mode)
    (content : Text) :
    ticketCalls svc ctx c₁ mode content = ticketCalls svc ctx c₂ mode content := by
  have hu : appendOk svc (userTurn ctx c₁) = appendOk svc (userTurn ctx c₂) := by
    simp only [appendOk, ← h (userTurn ctx c₁) c₂.userTurnAt]
    rfl
  have ha : appendOk svc (assistantTurn ctx c₁ content) =
      appendOk svc (assistantTurn ctx c₂ content) := by
    simp only [appendOk, ← h (assistantTurn ctx c₁ content) c₂.assistantTurnAt]
    rfl
  rw [ticketCalls, ticketCalls, hu, ha]

@[simp] theorem reported_done (first : Event) (events : List Event) (citations : List Citation)
    (usage : Usage) (retrieveMs llmMs : Int) (followups : List Text) :
    reported (first :: (events ++ [.sseDone citations usage retrieveMs llmMs followups])) =
      some (citations, usage) := by
  rw [← List.cons_append, reported, List.getLast?_append]
  rfl

theorem successParity_of_mirrors (hm : Mirrors svc.llm p b) (hans : Answers svc.llm p.messages m)
    (ht : TimeBlind svc) (ctx : Ctx) (c₁ c₂ : Clock) :
    SuccessParity (invokeAndFinalize svc ctx c₁ p) (streamBranch svc ctx c₂ b) ↔
      (b.extract m.content).1 =
        extractCitations (extractFollowups m.content).1 p.visibleChunks := by
  obtain ⟨aggregate, hend, htext, hu, hr⟩ := hans.streamed
  have hcol := collectLlmStream_ok hend
  rw [← hm.messages] at hcol
  have hflat : (svc.llm.provide b.prepared.messages).deltas.flatten = m.content := by
    rw [hm.messages, deltas_flatten, htext]
  have husage := hm.usage _ m hu hr
  rw [← hm.messages] at husage
  rw [invokeAndFinalize_ok hans.invoked, streamBranch_ok hcol, hflat]
  constructor
  · rintro ⟨⟨r, hres, -, -, hrep⟩, -, -, -, -⟩
    simp only [Except.ok.injEq] at hres
    subst hres
    simp [StreamBranch.doneEvent, StreamBranch.result, blockingResponse, blockingResult] at hrep
    exact hrep.1
  · intro hc
    refine ⟨⟨_, rfl, rfl, ?_, ?_⟩, ?_, ?_, ?_, ?_⟩
    · simp [announcedMode, blockingResponse, hm.mode]
    · simp [StreamBranch.doneEvent, StreamBranch.result, blockingResponse, blockingResult, hc,
        husage]
    · simp [reads_tokens Effect.messages? fun _ => rfl, hm.messages]
    · simp [reads_tokens Effect.append? fun _ => rfl, userTurn, assistantTurn, AppendArgs.untimed,
        blockingResult, StreamBranch.result]
    · simp [reads_tokens Effect.ticket? fun _ => rfl, hm.mode, blockingResult, StreamBranch.result,
        ticketCalls_congr ht ctx c₁ c₂]
    · simp [reads_tokens Effect.row? fun _ => rfl, successRow, QueryLogRow.timeless, rowIntent,
        hm.mode, hm.intentResult, blockingResult, StreamBranch.result, husage]

theorem SuccessParity.cons_iff :
    SuccessParity ⟨.retrieve query k tier requestId :: blocking.trace, blocking.result⟩
        ⟨.retrieve query k tier requestId :: stream.trace, stream.result⟩ ↔
      SuccessParity blocking stream := by
  constructor <;> rintro ⟨h₁, h₂, h₃, h₄, h₅⟩ <;>
    exact ⟨by simpa using h₁, by simpa using h₂, by simpa using h₃, by simpa using h₄,
      by simpa using h₅⟩

/-! ## Success -/

/-- The caller may see chunks, all of them below the threshold, and the body of the answer names
the path of one in brackets. -/
def LoreGapCited (svc : Services) (ctx : Ctx) (intentResult : IntentResult)
    (answer : List Message → AiMessage) : Prop :=
  intentResult.intent = .inDomain ∧
    ∃ chunks, svc.searchFor ctx topK = .ok chunks ∧
      ¬ OnlyBlocked ctx.parsed.userTier.name chunks ∧
      lowScore ctx.parsed.userTier.name chunks = true ∧
      ∃ path ∈ citedPieces (extractFollowups (answer (buildLoreGapMessages ctx.parsed.query
          (truthy ctx.suspected) ctx.memoryMessages)).content).1,
        HasPath (visibleTo ctx.parsed.userTier.name chunks) path

theorem successParity_retrieved {answer : List Message → AiMessage}
    (hans : ∀ messages, Answers svc.llm messages (answer messages)) (ht : TimeBlind svc)
    (c₁ c₂ : Clock) :
    SuccessParity (invokeAndFinalize svc ctx c₁ (chooseMode ctx c₁ intentResult chunks))
        (streamBranch svc ctx c₂ (branchOf svc ctx c₂ intentResult chunks)) ↔
      (¬ OnlyBlocked ctx.parsed.userTier.name chunks →
        lowScore ctx.parsed.userTier.name chunks = true →
        ∀ path ∈ citedPieces (extractFollowups (answer (buildLoreGapMessages ctx.parsed.query
            (truthy ctx.suspected) ctx.memoryMessages)).content).1,
          ¬ HasPath (visibleTo ctx.parsed.userTier.name chunks) path) := by
  rw [chooseMode_eq, branchOf]
  by_cases ho : OnlyBlocked ctx.parsed.userTier.name chunks
  · rw [if_pos ho, if_pos ho,
      successParity_of_mirrors (mirrors_mystery svc ctx c₁ c₂ intentResult _ _) (hans _) ht]
    simp [ho, mysteryBranch, mysteryMode, extractCitations_nil]
  · rw [if_neg ho, if_neg ho]
    cases hl : lowScore ctx.parsed.userTier.name chunks with
    | true =>
      rw [if_pos rfl, if_pos rfl, successParity_of_mirrors
        (mirrors_loreGap svc ctx c₁ c₂ intentResult _ _) (hans _) ht, eq_comm]
      simp only [loreGapBranch, loreGapMode, extractCitations_eq_nil, ho, not_false_eq_true,
        forall_const]
    | false =>
      rw [if_neg Bool.false_ne_true, if_neg Bool.false_ne_true, successParity_of_mirrors
        (mirrors_canon svc ctx c₁ c₂ intentResult _ _ _) (hans _) ht]
      simp [canonBranch, canonMode]

/-- On an answered request the two endpoints agree on mode, messages, turns, ticket call,
citations, usage and row exactly when the answer of a lore gap names no visible path. -/
theorem success_parity_iff (svc : Services) (ctx : Ctx) (c₁ c₂ : Clock)
    (intentResult : IntentResult) (answer : List Message → AiMessage)
    (hans : ∀ messages, Answers svc.llm messages (answer messages)) (ht : TimeBlind svc)
    (hret : intentResult.intent = .offTopic ∨ ∃ chunks, svc.searchFor ctx topK = .ok chunks) :
    SuccessParity (generate svc ctx c₁ intentResult) (streamGenerate svc ctx c₂ intentResult) ↔
      ¬ LoreGapCited svc ctx intentResult answer := by
  cases hi : intentResult.intent with
  | offTopic =>
    rw [generate_offTopic hi, streamGenerate_offTopic hi,
      successParity_of_mirrors (mirrors_offTopic svc ctx c₂ intentResult) (hans _) ht]
    simp [LoreGapCited, hi, offTopicBranch, offTopicMode, extractCitations_nil]
  | inDomain =>
    obtain hoff | ⟨chunks, hs⟩ := hret
    · rw [hi] at hoff
      cases hoff
    · rw [generate_retrieved hi hs, streamGenerate_retrieved hi hs, topKStream, topK,
        SuccessParity.cons_iff, successParity_retrieved hans ht]
      simp [LoreGapCited, hi, hs]

theorem answers_answering (pieces : List String) (messages : List Message) :
    Answers (answering pieces) messages ⟨(pieces.map String.toList).flatten, none, []⟩ where
  invoked := rfl
  streamed := by
    refine ⟨_, rfl, by simp [answering, Function.comp_def], ?_, ?_⟩
    · cases pieces <;> rfl
    · cases pieces <;> rfl

/-- A lore gap answered in two pieces without a path. -/
theorem success_parity_sample :
    let svc := sampleServices (answering ["Pas encore ", "documenté."])
      (chunksReply [chunkJson "a.md" "Mara." 0 "public"])
    SuccessParity (generate svc sampleCtx sampleClock ⟨.inDomain, none, none, none, 7⟩)
      (streamGenerate svc sampleCtx ⟨4, 60, 80, 2000, 2002⟩ ⟨.inDomain, none, none, none, 7⟩) := by
  intro svc
  refine (success_parity_iff svc sampleCtx sampleClock ⟨4, 60, 80, 2000, 2002⟩
    ⟨.inDomain, none, none, none, 7⟩ _ (answers_answering ["Pas encore ", "documenté."])
    (fun _ _ => rfl) (.inr ⟨_, rfl⟩)).mpr ?_
  rintro ⟨-, _, -, -, -, path, hp, -⟩
  have hnone : citedPieces (extractFollowups
      (["Pas encore ", "documenté."].map String.toList).flatten).1 = [] := by decide +kernel
  rw [hnone] at hp
  cases hp

/-- A lore-gap answer that names the one visible chunk: the blocking endpoint cites it, the stream
does not. -/
theorem success_parity_fails :
    let svc := sampleServices (answering ["Voir [a.md]."])
      (chunksReply [chunkJson "a.md" "Mara." 0 "public"])
    ¬ SuccessParity (generate svc sampleCtx sampleClock ⟨.inDomain, none, none, none, 7⟩)
      (streamGenerate svc sampleCtx sampleClock ⟨.inDomain, none, none, none, 7⟩) := by
  intro svc h
  obtain ⟨r, hr, -, -, hrep⟩ := h.response
  have hb : (generate svc sampleCtx sampleClock ⟨.inDomain, none, none, none, 7⟩).result.toOption.map
      (·.citations) = some [⟨"a.md".toList, [0]⟩] := by decide +kernel
  have hs : (reported (eventsOf (streamGenerate svc sampleCtx sampleClock
      ⟨.inDomain, none, none, none, 7⟩).trace)).map (·.1) = some [] := by decide +kernel
  rw [hr] at hb
  rw [hrep] at hs
  simp only [Except.toOption, Option.map_some, Option.some.injEq] at hb hs
  rw [hs] at hb
  cases hb

/-! ## Failure -/

theorem failureParity_of_mirrors (hm : Mirrors svc.llm p b)
    (hfails : ∀ messages, ∃ e, Fails svc.llm messages e) (ctx : Ctx) (c₁ c₂ : Clock) :
    FailureParity (invokeAndFinalize svc ctx c₁ p) (streamBranch svc ctx c₂ b) ↔
      (usesClassifierTokens p.mode = true → p.intentResult.costEur = none) := by
  obtain ⟨e, hf⟩ := hfails p.messages
  have hcol := collectLlmStream_error hf.streamed
  rw [← hm.messages] at hcol
  rw [invokeAndFinalize_error hf.invoked, streamBranch_error hcol]
  have hrow : QueryLogRow.timeless (failureRow ctx c₁ p e.status) =
      QueryLogRow.timeless (streamFailureRow ctx c₂ b.prepared.intentResult b.prepared.mode e.status
        b.failurePromptTokens b.failureCompletionTokens) ↔
      (usesClassifierTokens p.mode = true → p.intentResult.costEur = none) := by
    simp [failureRow, streamFailureRow, QueryLogRow.timeless, hm.mode, hm.intentResult,
      hm.failurePrompt, hm.failureCompletion]
  constructor
  · rintro ⟨h, -, -, -⟩
    exact hrow.mp (by simpa using h)
  · intro h
    exact ⟨by simpa using hrow.mpr h, by simp [blockingCode, streamCode], by simp, by simp⟩

theorem FailureParity.cons_iff :
    FailureParity ⟨.retrieve query k tier requestId :: blocking.trace, blocking.result⟩
        ⟨.retrieve query k tier requestId :: stream.trace, stream.result⟩ ↔
      FailureParity blocking stream := by
  constructor <;> rintro ⟨h₁, h₂, h₃, h₄⟩ <;>
    exact ⟨by simpa using h₁, by simpa [blockingCode, streamCode] using h₂, by simpa using h₃,
      by simpa using h₄⟩

theorem failureParity_retrieved (hf : ∀ messages, ∃ e, Fails svc.llm messages e) (c₁ c₂ : Clock) :
    FailureParity (invokeAndFinalize svc ctx c₁ (chooseMode ctx c₁ intentResult chunks))
        (streamBranch svc ctx c₂ (branchOf svc ctx c₂ intentResult chunks)) ↔
      (¬ OnlyBlocked ctx.parsed.userTier.name chunks →
        lowScore ctx.parsed.userTier.name chunks = true → intentResult.costEur = none) := by
  rw [chooseMode_eq, branchOf]
  by_cases ho : OnlyBlocked ctx.parsed.userTier.name chunks
  · rw [if_pos ho, if_pos ho,
      failureParity_of_mirrors (mirrors_mystery svc ctx c₁ c₂ intentResult _ _) hf]
    simp [ho, mysteryMode, usesClassifierTokens]
  · rw [if_neg ho, if_neg ho]
    cases hl : lowScore ctx.parsed.userTier.name chunks with
    | true =>
      rw [if_pos rfl, if_pos rfl,
        failureParity_of_mirrors (mirrors_loreGap svc ctx c₁ c₂ intentResult _ _) hf]
      simp [ho, loreGapMode, usesClassifierTokens]
    | false =>
      rw [if_neg Bool.false_ne_true, if_neg Bool.false_ne_true,
        failureParity_of_mirrors (mirrors_canon svc ctx c₁ c₂ intentResult _ _ _) hf]
      simp [canonMode, usesClassifierTokens]

/-- The classifier call had a known cost, and the mode is one whose failure row carries it. -/
def CostDropped (svc : Services) (ctx : Ctx) (intentResult : IntentResult) : Prop :=
  intentResult.costEur ≠ none ∧
    (intentResult.intent = .offTopic ∨ ∃ chunks, svc.searchFor ctx topK = .ok chunks ∧
      ¬ OnlyBlocked ctx.parsed.userTier.name chunks ∧
      lowScore ctx.parsed.userTier.name chunks = true)

/-- On a failed request the two endpoints agree on row, code and silence exactly when retrieval
was not refused and no classifier cost is dropped. -/
theorem failure_parity_iff (svc : Services) (ctx : Ctx) (c₁ c₂ : Clock)
    (intentResult : IntentResult)
    (hfail : (intentResult.intent = .inDomain ∧ ∃ e, svc.searchFor ctx topK = .error e) ∨
      ∀ messages, ∃ e, Fails svc.llm messages e) :
    FailureParity (generate svc ctx c₁ intentResult) (streamGenerate svc ctx c₂ intentResult) ↔
      ¬ (intentResult.intent = .inDomain ∧ svc.searchFor ctx topK = .error .retrieveError) ∧
        ¬ CostDropped svc ctx intentResult := by
  cases hi : intentResult.intent with
  | offTopic =>
    have hf : ∀ messages, ∃ e, Fails svc.llm messages e := by
      rcases hfail with ⟨hin, -⟩ | hf
      · rw [hi] at hin
        cases hin
      · exact hf
    rw [generate_offTopic hi, streamGenerate_offTopic hi,
      failureParity_of_mirrors (mirrors_offTopic svc ctx c₂ intentResult) hf]
    simp [CostDropped, hi, offTopicMode, usesClassifierTokens]
  | inDomain =>
    cases hs : svc.searchFor ctx topK with
    | ok chunks =>
      have hf : ∀ messages, ∃ e, Fails svc.llm messages e := by
        rcases hfail with ⟨-, e, he⟩ | hf
        · rw [hs] at he
          cases he
        · exact hf
      rw [generate_retrieved hi hs, streamGenerate_retrieved hi hs, topKStream, topK,
        FailureParity.cons_iff, failureParity_retrieved hf]
      simp only [CostDropped, hi, hs, reduceCtorEq, and_false, not_false_eq_true, true_and,
        false_or, Except.ok.injEq, exists_eq_left']
      tauto
    | error e =>
      cases e with
      | retrieveError =>
        rw [generate_retrieveError hi hs, streamGenerate_retrieveError hi hs]
        simp only [and_self, not_true_eq_false, false_and, iff_false]
        -- only the stream inserts a row
        rintro ⟨hrow, -, -, -⟩
        simp at hrow
      | uncaught =>
        rw [generate_uncaught hi hs, streamGenerate_uncaught hi hs]
        simp only [CostDropped, hi, hs, Except.error.injEq, reduceCtorEq, and_false,
          not_false_eq_true, false_and, exists_false, or_false, and_self, iff_true]
        exact ⟨by simp, by simp [blockingCode, streamCode], by simp, by simp⟩

/-- A refusal that times out, its classifier call being of unknown cost. -/
theorem failure_parity_sample :
    let svc := sampleServices (failing .timeout) .transportError
    FailureParity (generate svc sampleCtx sampleClock ⟨.offTopic, some 20, some 1, none, 7⟩)
      (streamGenerate svc sampleCtx sampleClock ⟨.offTopic, some 20, some 1, none, 7⟩) := by
  intro svc
  refine (failure_parity_iff svc sampleCtx sampleClock sampleClock
    ⟨.offTopic, some 20, some 1, none, 7⟩ (.inr fun _ => ⟨.timeout, rfl, rfl⟩)).mpr ⟨?_, ?_⟩
  · rintro ⟨h, -⟩
    cases h
  · rintro ⟨h, -⟩
    exact h rfl

/-- The same refusal with a known cost, and a refused retrieval: the rows differ. -/
theorem failure_parity_fails :
    let down := sampleServices (failing .timeout) .transportError
    let refused := sampleServices (answering ["Oui."]) .transportError
    ¬ FailureParity (generate down sampleCtx sampleClock ⟨.offTopic, some 20, some 1, some 5, 7⟩)
        (streamGenerate down sampleCtx sampleClock ⟨.offTopic, some 20, some 1, some 5, 7⟩) ∧
      ¬ FailureParity (generate refused sampleCtx sampleClock ⟨.inDomain, none, none, none, 7⟩)
        (streamGenerate refused sampleCtx sampleClock ⟨.inDomain, none, none, none, 7⟩) := by
  refine ⟨fun h => absurd h.row ?_, fun h => absurd h.row ?_⟩
  · decide +kernel
  · decide +kernel

end Archiviste.Generate
