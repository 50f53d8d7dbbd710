import Archiviste.Frontend.PersistedAnswer
import Archiviste.Frontend.SseStream
import Archiviste.Generate.StreamGrammar

/-!
# Archiviste.Frontend.ChatForm

The chat form: its state, the request it sends, and the turn it makes of the event stream that
answers. The local variables of the loop over the stream are a `Turn`; the loop is left by a `done`
or an `error` event, by the end of the stream, or by a read that fails.

* `consumeStreamIntoThread` — the form after a stream that arrived in the given reads.
* `Truthful`                — what a turn should do: count as answered only when `done` came.
* `turn_truthful_iff`       — when it does. A stream that merely stops is taken for a complete one.
-/

namespace Archiviste.Frontend

open Generate (Event Effect Services Ctx Clock IntentResult appendsOf eventsOf streamGenerate
  OneTerminal streamGenerate_oneTerminal streamGenerate_error_stores_nothing)

inductive Role where
  | user
  | assistant
  deriving DecidableEq, Repr

structure Message where
  role : Role
  text : Text
  mode : Option Text
  citations : Option (List Json)
  conversationId : Option Text
  followups : Option (List Text)

structure ChatForm where
  currentConversationId : Option Text
  messages : List Message
  streamingText : Option Text
  isStreaming : Bool
  errorMessage : Option Text

/-- The body of the request: `conversation_id` is left out when there is none. -/
structure ChatRequest where
  query : Text
  conversationId : Option Text
  deriving DecidableEq

def errorMessageFrench : Text :=
  "Une erreur est survenue. Veuillez réessayer dans quelques instants.".toList

/-- `s || undefined`. -/
def truthy (s : Text) : Option Text := if s = [] then none else some s

namespace ChatForm

def mount (initialMessages : List Message) (initialConversationId : Option Text) : ChatForm :=
  ⟨initialConversationId, initialMessages, none, false, none⟩

def hasConversation (f : ChatForm) : Bool := !f.messages.isEmpty || f.isStreaming

/-- `sendQuery` up to its request; `none` when there is nothing to send or a stream is running. -/
def sendQuery (f : ChatForm) (rawQuery : Text) : Option (ChatForm × ChatRequest) :=
  let query := Js.trim rawQuery
  if query = [] ∨ f.isStreaming = true then none
  else
    some ({ f with
        errorMessage := none
        messages := f.messages ++ [⟨.user, query, none, none, none, none⟩]
        streamingText := some []
        isStreaming := true },
      ⟨query, f.currentConversationId.bind truthy⟩)

def fail (f : ChatForm) : ChatForm :=
  { f with streamingText := none, isStreaming := false, errorMessage := some errorMessageFrench }

end ChatForm

/-! ## The loop over the stream -/

/-- The local variables of `consumeStreamIntoThread`. -/
structure Turn where
  accumulated : Text := []
  mode : Option Text := none
  citations : Option (List Json) := none
  conversationId : Option Text := none
  followups : Option (List Text) := none

def Turn.message (t : Turn) : Message :=
  ⟨.assistant, (truthy (stripFollowupBlock t.accumulated)).getD errorMessageFrench, t.mode,
    t.citations, t.conversationId, t.followups⟩

def ChatForm.commit (f : ChatForm) (t : Turn) : ChatForm :=
  { f with
    streamingText := none
    isStreaming := false
    currentConversationId := t.conversationId <|> f.currentConversationId
    messages := f.messages ++ [t.message] }

inductive TurnState where
  | reading (turn : Turn)
  | committed
  | failed

/-- `xs.length > 0 ? xs : undefined`. -/
def nonEmpty {α : Type} (xs : List α) : Option (List α) := if xs.isEmpty then none else some xs

def readChunk : ChatForm × TurnState → SseChunk → ChatForm × TurnState
  | (f, .reading t), .metaChunk mode conversationId _ =>
    (f, .reading { t with
      mode := truthy mode
      conversationId := truthy conversationId <|> t.conversationId })
  | (f, .reading t), .tokenChunk text =>
    ({ f with streamingText := some (t.accumulated ++ text) },
      .reading { t with accumulated := t.accumulated ++ text })
  | (f, .reading _), .streamErrorChunk _ => (f.fail, .failed)
  | (f, .reading t), .doneChunk citations _ _ _ followups =>
    (f.commit { t with citations := nonEmpty citations, followups := nonEmpty followups },
      .committed)
  | s, _ => s

/-- How the bytes end: the stream is closed, or a read is rejected. -/
inductive StreamEnd where
  | closed
  | aborted
  deriving DecidableEq, Repr

def streamEnds : StreamEnd → ChatForm × TurnState → ChatForm × TurnState
  | .closed, (f, .reading t) => (f.commit t, .committed)
  | .aborted, (f, .reading _) => (f.fail, .failed)
  | _, s => s

/-- What `consumeSseStream` has yielded when a read is rejected: the text left in the buffer is
never looked at. -/
def consumeAborted (codec : Codec) : Text → List (List UInt8) → List SseChunk
  | _, [] => []
  | buffer, value :: reads =>
    let blocks := Framing.splitBlocks (buffer ++ decode value)
    blocks.dropLast.filterMap (blockChunk codec) ++
      consumeAborted codec (blocks.getLastD []) reads

def received (codec : Codec) (reads : List (List UInt8)) : StreamEnd → List SseChunk
  | .closed => consumeSseStream codec reads
  | .aborted => consumeAborted codec [] reads

def consumeStreamIntoThread (codec : Codec) (f : ChatForm) (reads : List (List UInt8))
    (ending : StreamEnd) : ChatForm :=
  (streamEnds ending ((received codec reads ending).foldl readChunk (f, .reading {}))).1

/-! ## What a turn should do -/

def SseChunk.isDone : SseChunk → Bool
  | .doneChunk .. => true
  | _ => false

def SseChunk.isError : SseChunk → Bool
  | .streamErrorChunk _ => true
  | _ => false

/-- There is a new turn or a new conversation id only if `done` was among the chunks; otherwise an
error is shown, nothing else has changed, and the worker has stored nothing. -/
structure Truthful (sent after : ChatForm) (chunks : List SseChunk)
    (stored : List Generate.AppendArgs) : Prop where
  onlyDone : after.messages ≠ sent.messages ∨
    after.currentConversationId ≠ sent.currentConversationId → ∃ c ∈ chunks, c.isDone = true
  otherwise : (¬ ∃ c ∈ chunks, c.isDone = true) →
    after.errorMessage = some errorMessageFrench ∧ after.messages = sent.messages ∧
      after.currentConversationId = sent.currentConversationId ∧ stored = []

/-! ## The chunks of a stream that is cut -/

theorem consumeAborted_cut (codec : Codec) (reads : List (List UInt8)) : ∀ buffer,
    consumeAborted codec buffer reads <+: consumeFrom codec buffer reads := by
  induction reads with
  | nil => intro buffer; exact List.nil_prefix
  | cons value reads ih =>
    intro buffer
    exact (List.prefix_append_right_inj _).2 (ih _)

variable {codec : Codec} {reads : List (List UInt8)} {chunks : List SseChunk} {sent : ChatForm}
  {stored : List Generate.AppendArgs} {ending : StreamEnd}

theorem received_prefix {events : List Event} (h : ∀ e ∈ events, codec.Lawful (eventData codec e))
    (hreads : reads.flatten <+: streamBytes codec events) (ending : StreamEnd) :
    received codec reads ending <+: events.map (chunkOf codec) := by
  have hwhole : consumeSseStream codec reads <+: events.map (chunkOf codec) := by
    have htext : decode reads.flatten <+: streamText codec events :=
      decode_streamBytes h ▸ hreads.map _
    rw [consumeSseStream_eq]
    exact yields_cut h htext
  cases ending with
  | closed => exact hwhole
  | aborted => exact (consumeAborted_cut codec reads []).trans hwhole

theorem isTerminal_iff (codec : Codec) (e : Event) :
    e.isTerminal = ((chunkOf codec e).isDone || (chunkOf codec e).isError) := by
  cases e <;> rfl

theorem foldl_readChunk (h : ∀ c ∈ chunks, (c.isDone || c.isError) = false) :
    ∀ (f : ChatForm) (t : Turn),
    ∃ text t', chunks.foldl readChunk (f, .reading t) =
      ({ f with streamingText := text }, .reading t') := by
  induction chunks with
  | nil => intro f t; exact ⟨f.streamingText, t, rfl⟩
  | cons c chunks ih =>
    intro f t
    have hc := h c List.mem_cons_self
    have hrest : ∀ c ∈ chunks, (c.isDone || c.isError) = false :=
      fun c hmem => h c (List.mem_cons_of_mem _ hmem)
    cases c with
    | metaChunk mode conversationId requestId => exact ih hrest f _
    | tokenChunk text => exact ih hrest { f with streamingText := some (t.accumulated ++ text) } _
    | doneChunk citations usage retrieveMs llmMs followups => cases hc
    | streamErrorChunk error => cases hc

/-! ## The three ways out of the loop -/

theorem Truthful.of_done {after : ChatForm} (h : ∃ c ∈ chunks, c.isDone = true) :
    Truthful sent after chunks stored :=
  ⟨fun _ => h, fun hnone => absurd h hnone⟩

theorem truthful_fail {text : Option Text} (h : ¬ ∃ c ∈ chunks, c.isDone = true) :
    Truthful sent (ChatForm.fail { sent with streamingText := text }) chunks stored ↔
      stored = [] := by
  constructor
  · intro htruthful
    exact (htruthful.otherwise h).2.2.2
  · rintro rfl
    exact ⟨fun hchanged => by simp [ChatForm.fail] at hchanged, fun _ => ⟨rfl, rfl, rfl, rfl⟩⟩

theorem truthful_unfinished
    (h : ∀ c ∈ received codec reads ending, (c.isDone || c.isError) = false) (sent : ChatForm)
    (stored : List Generate.AppendArgs) :
    Truthful sent (consumeStreamIntoThread codec sent reads ending) (received codec reads ending)
      stored ↔ ending = .aborted ∧ stored = [] := by
  have hnone : ¬ ∃ c ∈ received codec reads ending, c.isDone = true := by
    rintro ⟨c, hc, hdone⟩
    simpa [hdone] using h c hc
  obtain ⟨text, t, hfold⟩ := foldl_readChunk h sent {}
  cases ending with
  | closed =>
    -- the loop ends as after a `done`, and the answer so far becomes a turn
    simp only [reduceCtorEq, false_and, iff_false]
    intro htruthful
    have hmessages := (htruthful.otherwise hnone).2.1
    simp [consumeStreamIntoThread, hfold, streamEnds, ChatForm.commit] at hmessages
  | aborted =>
    simp only [true_and]
    rw [consumeStreamIntoThread, hfold]
    exact truthful_fail hnone

theorem truthful_error {last : SseChunk}
    (hreceived : received codec reads ending = chunks ++ [last])
    (h : ∀ c ∈ chunks, (c.isDone || c.isError) = false) (hlast : last.isError = true)
    (sent : ChatForm) :
    Truthful sent (consumeStreamIntoThread codec sent reads ending) (received codec reads ending)
      [] := by
  obtain ⟨text, t, hfold⟩ := foldl_readChunk h sent {}
  have hnone : ¬ ∃ c ∈ received codec reads ending, c.isDone = true := by
    rw [hreceived]
    rintro ⟨c, hc, hdone⟩
    rcases List.mem_append.1 hc with hc | hc
    · simpa [hdone] using h c hc
    · rw [List.mem_singleton.1 hc] at hdone
      cases last <;> simp [SseChunk.isDone, SseChunk.isError] at hdone hlast
  have hafter : consumeStreamIntoThread codec sent reads ending =
      ChatForm.fail { sent with streamingText := text } := by
    rw [consumeStreamIntoThread, hreceived, List.foldl_append, hfold]
    cases last with
    | streamErrorChunk error => cases ending <;> rfl
    | metaChunk mode conversationId requestId => cases hlast
    | tokenChunk text => cases hlast
    | doneChunk citations usage retrieveMs llmMs followups => cases hlast
  rw [hafter]
  exact (truthful_fail hnone).2 rfl

/-- For every run of the worker and every beginning of its bytes, however it arrives and ends: the
turn is truthful exactly when the loop was left by `done`, by `error`, or by a rejected read with
nothing stored by the worker. -/
theorem turn_truthful_iff {codec : Codec} {svc : Services} {ctx : Ctx} {clock : Clock}
    {intentResult : IntentResult} {t : List Effect}
    (ht : t <+: (streamGenerate svc ctx clock intentResult).trace)
    (hlawful : ∀ e ∈ eventsOf t, codec.Lawful (eventData codec e))
    {reads : List (List UInt8)} (hreads : reads.flatten <+: streamBytes codec (eventsOf t))
    (sent : ChatForm) (ending : StreamEnd) :
    Truthful sent (consumeStreamIntoThread codec sent reads ending) (received codec reads ending)
        (appendsOf t) ↔
      (∃ c ∈ received codec reads ending, c.isDone = true) ∨
      (∃ c ∈ received codec reads ending, c.isError = true) ∨
      (ending = .aborted ∧ appendsOf t = []) := by
  have hchunks := received_prefix hlawful hreads ending
  have honce : OneTerminal (eventsOf t) :=
    (streamGenerate_oneTerminal svc ctx clock intentResult).of_cut (Eff.reads_prefix _ ht)
  obtain ⟨body, last, hevents, hbody, hlast⟩ := honce
  have hbody' : ∀ c ∈ body.map (chunkOf codec), (c.isDone || c.isError) = false := by
    intro c hc
    obtain ⟨e, he, rfl⟩ := List.mem_map.1 hc
    rw [← isTerminal_iff]
    exact hbody e he
  -- the chunks stop before the terminal event, or with it
  have hcases : received codec reads ending <+: body.map (chunkOf codec) ∨
      ∃ e, last = some e ∧
        received codec reads ending = body.map (chunkOf codec) ++ [chunkOf codec e] := by
    rw [hevents, List.map_append] at hchunks
    rcases last with _ | e
    · exact .inl (by simpa using hchunks)
    · rcases List.prefix_concat_iff.1 hchunks with heq | hpart
      · exact .inr ⟨e, rfl, heq⟩
      · exact .inl hpart
  rcases hcases with hpart | ⟨e, rfl, hreceived⟩
  · have hopen : ∀ c ∈ received codec reads ending, (c.isDone || c.isError) = false :=
      fun c hc => hbody' c (hpart.subset hc)
    rw [truthful_unfinished hopen]
    constructor
    · exact fun h => .inr (.inr h)
    · rintro (⟨c, hc, hdone⟩ | ⟨c, hc, herror⟩ | h)
      · simpa [hdone] using hopen c hc
      · simpa [herror] using hopen c hc
      · exact h
  · have hmem : chunkOf codec e ∈ received codec reads ending := by
      rw [hreceived]
      exact List.mem_append_right _ (List.mem_singleton_self _)
    have hterminal := hlast e rfl
    cases e with
    | sseMeta mode conversationId requestId => cases hterminal
    | sseToken text => cases hterminal
    | sseDone citations usage retrieveMs llmMs followups =>
      have hdone : ∃ c ∈ received codec reads ending, c.isDone = true := ⟨_, hmem, rfl⟩
      exact ⟨fun _ => .inl hdone, fun _ => .of_done hdone⟩
    | sseError code =>
      have herror : Event.sseError code ∈ eventsOf t := by
        rw [hevents]
        exact List.mem_append_right _ (List.mem_singleton_self _)
      rw [streamGenerate_error_stores_nothing ht herror]
      have htruthful := truthful_error hreceived hbody' rfl sent
      exact ⟨fun _ => .inr (.inl ⟨_, hmem, rfl⟩), fun _ => htruthful⟩

/-- The JSON of one `meta` event. -/
def metaText : Text :=
  "\x7b\"mode\": \"off_topic\", \"conversation_id\": \"c\", \"request_id\": \"r\"\x7d".toList

def metaCodec : Codec where
  dumps _ := metaText
  parse t :=
    if t = metaText then
      some (.obj [("mode".toList, .str "off_topic".toList),
        ("conversation_id".toList, .str "c".toList), ("request_id".toList, .str "r".toList)])
    else none
  toDouble q := q
  stringOf _ := []

def announced : List Effect :=
  (streamGenerate (Generate.sampleServices (Generate.answering ["Non."]) .transportError)
    Generate.sampleCtx Generate.sampleClock ⟨.offTopic, none, none, none, 7⟩).trace.take 1

theorem eventsOf_announced :
    eventsOf announced = [.sseMeta .offTopic "c".toList "r".toList] := rfl

theorem metaCodec_lawful : ∀ e ∈ eventsOf announced, metaCodec.Lawful (eventData metaCodec e) := by
  intro e he
  rw [eventsOf_announced, List.mem_singleton] at he
  subst he
  exact ⟨by decide, ⟨metaText.tail.dropLast, by decide⟩, rfl, fun t _ hne => if_neg hne⟩

def freshForm : ChatForm := ChatForm.mount [] none

def announcedBytes : List UInt8 := streamBytes metaCodec (eventsOf announced)

/-- The connection is lost there. -/
theorem turn_truthful_iff_announced :
    Truthful freshForm (consumeStreamIntoThread metaCodec freshForm [announcedBytes] .aborted)
        (received metaCodec [announcedBytes] .aborted) (appendsOf announced) ↔
      (∃ c ∈ received metaCodec [announcedBytes] .aborted, c.isDone = true) ∨
      (∃ c ∈ received metaCodec [announcedBytes] .aborted, c.isError = true) ∨
      (StreamEnd.aborted = .aborted ∧ appendsOf announced = []) :=
  turn_truthful_iff (t := announced) (List.take_prefix 1 _) metaCodec_lawful
    (by rw [List.flatten_singleton]; exact List.prefix_refl _) freshForm .aborted

/-- The stream is closed there, with nothing stored by the worker: the form has a new assistant
turn, whose text is the error message, and goes on in conversation `c`. -/
theorem closed_stream_counts_as_answer :
    (consumeStreamIntoThread metaCodec freshForm [announcedBytes] .closed).currentConversationId =
        some "c".toList ∧
      (consumeStreamIntoThread metaCodec freshForm [announcedBytes] .closed).messages.map
          (fun m => (m.role, m.text)) = [(.assistant, errorMessageFrench)] ∧
      (consumeStreamIntoThread metaCodec freshForm [announcedBytes] .closed).errorMessage = none ∧
      appendsOf announced = [] ∧
      ¬ Truthful freshForm (consumeStreamIntoThread metaCodec freshForm [announcedBytes] .closed)
        (received metaCodec [announcedBytes] .closed) (appendsOf announced) := by
  -- the stream is read once for the three fields
  have hread : (fun f : ChatForm => (f.currentConversationId,
      f.messages.map (fun m => (m.role, m.text)), f.errorMessage))
        (consumeStreamIntoThread metaCodec freshForm [announcedBytes] .closed) =
      (some "c".toList, [(.assistant, errorMessageFrench)], none) := by decide +kernel
  obtain ⟨hid, hrest⟩ := Prod.mk.inj hread
  obtain ⟨hmessages, herror⟩ := Prod.mk.inj hrest
  refine ⟨hid, hmessages, herror, rfl, fun htruthful => ?_⟩
  have hnone : ¬ ∃ c ∈ received metaCodec [announcedBytes] .closed, c.isDone = true := by
    decide +kernel
  rw [(htruthful.otherwise hnone).2.2.1] at hid
  cases hid

end Archiviste.Frontend
