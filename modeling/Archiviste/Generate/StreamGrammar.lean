import Archiviste.Generate.StreamRouter

/-!
# Archiviste.Generate.StreamGrammar

The order of the events of a stream, and when it persists anything.

* `Grammar` — one `meta`, then tokens, then one terminal event.
* `PersistsOnDone` — the two turns are appended, and the ticket call of the mode is made, exactly
  in the runs that end in `done`.

* `OneTerminal` — no stream, whole or broken off, has an event after its terminal one.

A mode branch keeps both whatever the model does (`streamBranch_grammar`,
`streamBranch_persists`). Retrieval comes before the mode is known, so a stream whose retrieval
fails is one `error` event and has no `meta`.
-/

namespace Archiviste.Generate

def Event.isTerminal : Event → Bool
  | .sseDone .. | .sseError _ => true
  | _ => false

def Grammar (events : List Event) : Prop :=
  ∃ (mode : Mode) (conversationId requestId : Text) (tokens : List Text) (terminal : Event),
    terminal.isTerminal = true ∧
    events = .sseMeta mode conversationId requestId :: tokens.map .sseToken ++ [terminal]

def endsInDone (events : List Event) : Bool :=
  match events.getLast? with
  | some (.sseDone ..) => true
  | _ => false

def announcedMode : List Event → Option Mode
  | .sseMeta mode _ _ :: _ => some mode
  | _ => none

@[simp] def Event.token? : Event → Option Text
  | .sseToken text => some text
  | _ => none

def sentText (events : List Event) : Text := (Eff.reads Event.token? events).flatten

structure PersistsOnDone (svc : Services) (ctx : Ctx) (clock : Clock) (trace : List Effect) :
    Prop where
  done : endsInDone (eventsOf trace) = true →
    appendsOf trace = [userTurn ctx clock, assistantTurn ctx clock (sentText (eventsOf trace))] ∧
      ∃ mode, announcedMode (eventsOf trace) = some mode ∧
        ticketsOf trace = ticketCalls svc ctx clock mode (sentText (eventsOf trace))
  otherwise : endsInDone (eventsOf trace) = false → appendsOf trace = [] ∧ ticketsOf trace = []

/-! ## Mode branches -/

@[simp] theorem eventsOf_tokens (parts : List Text) :
    eventsOf (parts.map fun part => Effect.event (.sseToken part)) = parts.map .sseToken := by
  induction parts with
  | nil => rfl
  | cons part parts ih => simp [ih]

theorem reads_tokens {β : Type} (f : Effect → Option β) (hf : ∀ e, f (.event e) = none)
    (parts : List Text) : Eff.reads f (parts.map fun part => Effect.event (.sseToken part)) = [] := by
  induction parts with
  | nil => rfl
  | cons part parts ih => simp [hf, ih]

@[simp] theorem token_reads (parts : List Text) :
    Eff.reads Event.token? (parts.map Event.sseToken) = parts := by
  induction parts with
  | nil => rfl
  | cons part parts ih => simp [ih]

@[simp] theorem endsInDone_concat (first last : Event) (events : List Event) :
    endsInDone (first :: (events ++ [last])) = endsInDone [last] := by
  rw [← List.cons_append, endsInDone, List.getLast?_append]
  rfl

section
variable (svc : Services) (ctx : Ctx) (clock : Clock) (b : StreamBranch)

theorem streamBranch_result : (streamBranch svc ctx clock b).result = .ok () := by
  cases h : collectLlmStream svc.llm b.prepared.messages with
  | error e => rw [streamBranch_error h]
  | ok p => rw [streamBranch_ok h]

theorem streamBranch_grammar : Grammar (eventsOf (streamBranch svc ctx clock b).trace) := by
  cases h : collectLlmStream svc.llm b.prepared.messages with
  | error e =>
    refine ⟨b.prepared.mode, ctx.conversationId, ctx.parsed.requestId, [], .sseError e.code, rfl, ?_⟩
    rw [streamBranch_error h]
    simp
  | ok p =>
    refine ⟨b.prepared.mode, ctx.conversationId, ctx.parsed.requestId, p.1,
      b.doneEvent (b.result p.1.flatten p.2), rfl, ?_⟩
    rw [streamBranch_ok h]
    simp

theorem streamBranch_persists :
    PersistsOnDone svc ctx clock (streamBranch svc ctx clock b).trace := by
  cases h : collectLlmStream svc.llm b.prepared.messages with
  | error e =>
    rw [streamBranch_error h]
    exact ⟨by simp [endsInDone], by simp⟩
  | ok p =>
    have hs : sentText (eventsOf (streamBranch svc ctx clock b).trace) = p.1.flatten := by
      rw [streamBranch_ok h]
      simp [sentText, StreamBranch.doneEvent]
    refine ⟨fun _ => ?_, ?_⟩
    · rw [hs, streamBranch_ok h]
      refine ⟨?_, b.prepared.mode, by simp [announcedMode], ?_⟩
      · simp [reads_tokens Effect.append? fun _ => rfl, StreamBranch.result]
      · simp [reads_tokens Effect.ticket? fun _ => rfl, StreamBranch.result]
    · rw [streamBranch_ok h]
      intro hd
      simp [StreamBranch.doneEvent] at hd
      cases hd

end

/-! ## Whole streams -/

theorem PersistsOnDone.cons {svc : Services} {ctx : Ctx} {clock : Clock} {trace : List Effect}
    (h : PersistsOnDone svc ctx clock trace) (query : Text) (k : Nat) (tier : UserTier)
    (requestId : Text) :
    PersistsOnDone svc ctx clock (.retrieve query k tier requestId :: trace) :=
  ⟨by simpa using h.done, by simpa using h.otherwise⟩

theorem streamGenerate_persists (svc : Services) (ctx : Ctx) (clock : Clock)
    (intentResult : IntentResult) :
    PersistsOnDone svc ctx clock (streamGenerate svc ctx clock intentResult).trace := by
  cases hi : intentResult.intent with
  | offTopic =>
    rw [streamGenerate_offTopic hi]
    exact streamBranch_persists svc ctx clock _
  | inDomain =>
    cases hs : svc.searchFor ctx topKStream with
    | ok chunks =>
      rw [streamGenerate_retrieved hi hs]
      exact (streamBranch_persists svc ctx clock _).cons _ _ _ _
    | error e =>
      cases e with
      | retrieveError =>
        rw [streamGenerate_retrieveError hi hs]
        exact ⟨by simp [endsInDone], by simp⟩
      | uncaught =>
        rw [streamGenerate_uncaught hi hs]
        exact ⟨by simp [endsInDone], by simp⟩

/-- A stream whose retrieval is not needed or returns chunks follows the grammar; one whose
retrieval fails is a single `error`. The turns and the ticket call of a run belong to its ending in
`done`. -/
theorem streamGenerate_events (svc : Services) (ctx : Ctx) (clock : Clock)
    (intentResult : IntentResult) :
    (intentResult.intent = .offTopic ∨ (∃ chunks, svc.searchFor ctx topKStream = .ok chunks) →
        (streamGenerate svc ctx clock intentResult).result = .ok () ∧
          Grammar (eventsOf (streamGenerate svc ctx clock intentResult).trace)) ∧
      (intentResult.intent = .inDomain → svc.searchFor ctx topKStream = .error .retrieveError →
        (streamGenerate svc ctx clock intentResult).result = .ok () ∧
          eventsOf (streamGenerate svc ctx clock intentResult).trace =
            [.sseError .retrieveFailed]) ∧
      PersistsOnDone svc ctx clock (streamGenerate svc ctx clock intentResult).trace := by
  refine ⟨?_, ?_, streamGenerate_persists svc ctx clock intentResult⟩
  · intro h
    cases hi : intentResult.intent with
    | offTopic =>
      rw [streamGenerate_offTopic hi]
      exact ⟨streamBranch_result svc ctx clock _, streamBranch_grammar svc ctx clock _⟩
    | inDomain =>
      obtain hoff | ⟨chunks, hs⟩ := h
      · rw [hi] at hoff
        cases hoff
      · rw [streamGenerate_retrieved hi hs]
        exact ⟨streamBranch_result svc ctx clock _, by
          simpa using streamBranch_grammar svc ctx clock (branchOf svc ctx clock intentResult chunks)⟩
  · intro hi hs
    rw [streamGenerate_retrieveError hi hs]
    simp

/-! ## The terminal event -/

/-- At most one terminal event, and nothing after it. -/
def OneTerminal (events : List Event) : Prop :=
  ∃ (body : List Event) (last : Option Event), events = body ++ last.toList ∧
    (∀ e ∈ body, e.isTerminal = false) ∧ ∀ e ∈ last, e.isTerminal = true

variable {events : List Event} {code : StreamErrorCode}

theorem Grammar.oneTerminal (h : Grammar events) : OneTerminal events := by
  obtain ⟨mode, conversationId, requestId, tokens, terminal, hterminal, rfl⟩ := h
  refine ⟨.sseMeta mode conversationId requestId :: tokens.map .sseToken, some terminal, rfl, ?_, ?_⟩
  · intro e he
    rcases List.mem_cons.1 he with rfl | he
    · rfl
    · obtain ⟨text, -, rfl⟩ := List.mem_map.1 he
      rfl
  · intro e he
    cases he
    exact hterminal

theorem OneTerminal.of_cut {part : List Event} (h : OneTerminal events) (hpart : part <+: events) :
    OneTerminal part := by
  obtain ⟨body, last, rfl, hbody, hlast⟩ := h
  have hcut : part <+: body → OneTerminal part := fun hp =>
    ⟨part, none, (List.append_nil part).symm, fun e he => hbody e (hp.subset he), by simp⟩
  rcases last with _ | last
  · exact hcut (by simpa using hpart)
  · rcases List.prefix_concat_iff.1 hpart with rfl | hp
    · exact ⟨body, some last, rfl, hbody, hlast⟩
    · exact hcut hp

theorem OneTerminal.not_done (h : OneTerminal events) (herror : .sseError code ∈ events) :
    endsInDone events = false := by
  obtain ⟨body, last, rfl, hbody, -⟩ := h
  rcases List.mem_append.1 herror with hmem | hmem
  · cases hbody _ hmem
  · obtain rfl : last = some (.sseError code) := by simpa using hmem
    simp [endsInDone]

theorem streamGenerate_oneTerminal (svc : Services) (ctx : Ctx) (clock : Clock)
    (intentResult : IntentResult) :
    OneTerminal (eventsOf (streamGenerate svc ctx clock intentResult).trace) := by
  cases hi : intentResult.intent with
  | offTopic =>
    rw [streamGenerate_offTopic hi]
    exact (streamBranch_grammar svc ctx clock _).oneTerminal
  | inDomain =>
    cases hs : svc.searchFor ctx topKStream with
    | ok chunks =>
      rw [streamGenerate_retrieved hi hs]
      simpa using (streamBranch_grammar svc ctx clock
        (branchOf svc ctx clock intentResult chunks)).oneTerminal
    | error e =>
      cases e with
      | retrieveError =>
        rw [streamGenerate_retrieveError hi hs]
        exact ⟨[], some (.sseError .retrieveFailed), by simp, by simp, by simp [Event.isTerminal]⟩
      | uncaught =>
        rw [streamGenerate_uncaught hi hs]
        exact ⟨[], none, by simp, by simp, by simp⟩

/-- A stream that has sent an error has stored no turn, up to wherever it got. -/
theorem streamGenerate_error_stores_nothing {svc : Services} {ctx : Ctx} {clock : Clock}
    {intentResult : IntentResult} {t : List Effect}
    (ht : t <+: (streamGenerate svc ctx clock intentResult).trace)
    (herror : .sseError code ∈ eventsOf t) : appendsOf t = [] := by
  have hall : Event.sseError code ∈ eventsOf (streamGenerate svc ctx clock intentResult).trace :=
    (Eff.reads_prefix _ ht).subset herror
  have hnone := ((streamGenerate_persists svc ctx clock intentResult).otherwise
    ((streamGenerate_oneTerminal svc ctx clock intentResult).not_done hall)).1
  have hpart : appendsOf t <+: appendsOf (streamGenerate svc ctx clock intentResult).trace :=
    Eff.reads_prefix _ ht
  rw [hnone] at hpart
  exact List.prefix_nil.1 hpart

theorem not_grammar_error (code : StreamErrorCode) : ¬ Grammar [.sseError code] := by
  rintro ⟨_, _, _, _, _, -, h⟩
  simp at h

/-- A refused retrieval gives no `meta`, and a canon answer ends in `done` without a ticket. -/
theorem streamGenerate_without_meta :
    ¬ Grammar (eventsOf (streamGenerate (sampleServices (answering ["Oui."]) .transportError)
        sampleCtx sampleClock ⟨.inDomain, none, none, none, 7⟩).trace) ∧
      let run := streamGenerate
        (sampleServices (answering ["Oui."]) (chunksReply [chunkJson "a.md" "Mara." 1 "public"]))
        sampleCtx sampleClock ⟨.inDomain, none, none, none, 7⟩
      endsInDone (eventsOf run.trace) = true ∧ ticketsOf run.trace = [] := by
  refine ⟨?_, by decide +kernel⟩
  exact not_grammar_error .retrieveFailed

end Archiviste.Generate
