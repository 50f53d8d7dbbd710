import Archiviste.Base.Run
import Archiviste.Conversation.Ownership

/-!
# Archiviste.Conversation.QueryLog

The rows of `query_log`. A request makes at most one insert into it, as its last call. The row refers
to the user and to the conversation of the request, and the database refuses it when one of them has
no row of its own; the error is logged and swallowed. Those rows are made by the transaction of
`create_if_absent`, the first step of an append, and a request that fails before it has an answer
appends nothing.

Requests run as processes that perform one effect a turn, in any interleaving. The input of a turn
that appends says how far the call of `post_message` gets.

* `request_rows` — the insert of a request, and when it makes none.
* `backed_of_append` — an append that commits makes the rows its request refers to.
* `one_row_iff` — a finished request has exactly one row when it makes an insert and the tables, at
  that time, accept it.
-/

namespace Archiviste.Conversation

open Generate (AppendArgs Clock Ctx Effect GenerateRequest Headers IntentResult MemoryWindow
  PreparedMode QueryLogRow Services StreamBranch conversationIdOf parseRequest rowsOf topK)

/-! ## Requests -/

/-- A request to `/v1/generate` or `/v1/generate/stream`, with what the environment contributes. -/
structure GenRequest where
  stream : Bool
  payload : Json
  headers : Headers
  freshId : Uuid
  services : Services
  window : Text → Text → MemoryWindow
  classifyMs : Int
  clock : Clock

namespace GenRequest

def trace (r : GenRequest) : List Effect :=
  if r.stream then
    (Generate.postGenerateStream r.services r.payload r.headers r.freshId.toText r.window
      r.classifyMs r.clock).trace
  else
    (Generate.handleGenerate r.services r.payload r.headers r.freshId.toText r.window r.classifyMs
      r.clock).trace

variable (r : GenRequest) (p : GenerateRequest)

def turns : MemoryWindow := r.window (conversationIdOf p r.freshId.toText) p.userId

def ctx : Ctx := Ctx.build p r.freshId.toText (r.turns p)

def intentResult : IntentResult :=
  Generate.classifyIntent r.services.llm (r.ctx p).retrievalQuery
    (Generate.intentSuspected (r.ctx p) (r.turns p)) r.classifyMs

/-- The request gets past retrieval, or is a stream, which logs a `RetrieveError` too. -/
def Logs : Prop :=
  (r.intentResult p).intent = .offTopic ∨
    (∃ chunks, r.services.searchFor (r.ctx p) topK = .ok chunks) ∨
    (r.stream = true ∧ r.services.searchFor (r.ctx p) topK = .error .retrieveError)

end GenRequest

/-- The row names the request, its user and its conversation. -/
structure RequestRow (ctx : Ctx) (row : QueryLogRow) : Prop where
  requestId : row.requestId = ctx.parsed.requestId
  userId : row.userId = ctx.parsed.userId
  conversationId : row.conversationId = ctx.conversationId

def OneInsert (ctx : Ctx) (trace : List Effect) : Prop :=
  ∃ row, rowsOf trace = [row] ∧ RequestRow ctx row

section
variable (svc : Services) (ctx : Ctx) (clock : Clock)

theorem invokeAndFinalize_rows (prepared : PreparedMode) :
    OneInsert ctx (Generate.invokeAndFinalize svc ctx clock prepared).trace := by
  cases hr : svc.llm.invoke prepared.messages with
  | error e =>
    rw [Generate.invokeAndFinalize_error hr]
    exact ⟨Generate.failureRow ctx clock prepared e.status, by simp, rfl, rfl, rfl⟩
  | ok message =>
    rw [Generate.invokeAndFinalize_ok hr]
    exact ⟨Generate.successRow ctx clock prepared
      (Generate.blockingResult svc clock prepared message), by simp, rfl, rfl, rfl⟩

theorem streamBranch_rows (b : StreamBranch) :
    OneInsert ctx (Generate.streamBranch svc ctx clock b).trace := by
  cases h : Generate.collectLlmStream svc.llm b.prepared.messages with
  | error e =>
    rw [Generate.streamBranch_error h]
    exact ⟨Generate.streamFailureRow ctx clock b.prepared.intentResult b.prepared.mode e.status
      b.failurePromptTokens b.failureCompletionTokens, by simp, rfl, rfl, rfl⟩
  | ok parts =>
    rw [Generate.streamBranch_ok h]
    refine ⟨Generate.successRow ctx clock b.prepared (b.result parts.1.flatten parts.2), ?_,
      rfl, rfl, rfl⟩
    simp [Generate.reads_tokens Effect.row? fun _ => rfl]

theorem OneInsert.retrieve {trace : List Effect} (h : OneInsert ctx trace) (query : Text) (k : Nat)
    (tier : Generate.UserTier) (requestId : Text) :
    OneInsert ctx (.retrieve query k tier requestId :: trace) := by
  obtain ⟨row, hrows, hrow⟩ := h
  exact ⟨row, by simpa using hrows, hrow⟩

theorem generate_rows (intentResult : IntentResult) :
    (intentResult.intent = .inDomain ∧ (∃ e, svc.searchFor ctx topK = .error e) ∧
        rowsOf (Generate.generate svc ctx clock intentResult).trace = []) ∨
      ((intentResult.intent = .offTopic ∨ ∃ chunks, svc.searchFor ctx topK = .ok chunks) ∧
        OneInsert ctx (Generate.generate svc ctx clock intentResult).trace) := by
  cases hi : intentResult.intent with
  | offTopic =>
    rw [Generate.generate_offTopic hi]
    exact .inr ⟨.inl rfl, invokeAndFinalize_rows svc ctx clock _⟩
  | inDomain =>
    cases hs : svc.searchFor ctx topK with
    | error e =>
      refine .inl ⟨rfl, ⟨e, rfl⟩, ?_⟩
      cases e with
      | retrieveError => rw [Generate.generate_retrieveError hi hs]; simp
      | uncaught => rw [Generate.generate_uncaught hi hs]; simp
    | ok chunks =>
      rw [Generate.generate_retrieved hi hs]
      exact .inr ⟨.inr ⟨chunks, rfl⟩, (invokeAndFinalize_rows svc ctx clock _).retrieve _ _ _ _ _⟩

theorem streamGenerate_rows (intentResult : IntentResult) :
    (intentResult.intent = .inDomain ∧ svc.searchFor ctx topK = .error .uncaught ∧
        rowsOf (Generate.streamGenerate svc ctx clock intentResult).trace = []) ∨
      ((intentResult.intent = .offTopic ∨ (∃ chunks, svc.searchFor ctx topK = .ok chunks) ∨
          svc.searchFor ctx topK = .error .retrieveError) ∧
        OneInsert ctx (Generate.streamGenerate svc ctx clock intentResult).trace) := by
  cases hi : intentResult.intent with
  | offTopic =>
    rw [Generate.streamGenerate_offTopic hi]
    exact .inr ⟨.inl rfl, streamBranch_rows svc ctx clock _⟩
  | inDomain =>
    cases hs : svc.searchFor ctx topK with
    | error e =>
      cases e with
      | retrieveError =>
        rw [Generate.streamGenerate_retrieveError hi hs]
        refine .inr ⟨.inr (.inr rfl), ?_⟩
        exact ⟨Generate.streamFailureRow ctx clock intentResult .canon 502 none none, by simp,
          rfl, rfl, rfl⟩
      | uncaught =>
        rw [Generate.streamGenerate_uncaught hi hs]
        exact .inl ⟨rfl, rfl, by simp⟩
    | ok chunks =>
      rw [Generate.streamGenerate_retrieved hi hs]
      exact .inr ⟨.inr (.inl ⟨chunks, rfl⟩), (streamBranch_rows svc ctx clock _).retrieve _ _ _ _ _⟩

end

/-- A request that `Logs` makes one insert; any other makes none. -/
theorem request_rows {r : GenRequest} {p : GenerateRequest}
    (hp : parseRequest r.payload r.headers = .ok p) :
    (¬ r.Logs p ∧ rowsOf r.trace = []) ∨ (r.Logs p ∧ OneInsert (r.ctx p) r.trace) := by
  unfold GenRequest.Logs
  cases hstream : r.stream with
  | true =>
    have htrace : rowsOf r.trace = rowsOf (Generate.streamGenerate r.services (r.ctx p) r.clock
        (r.intentResult p)).trace := by
      simp [GenRequest.trace, hstream, Generate.postGenerateStream, hp, GenRequest.ctx,
        GenRequest.turns, GenRequest.intentResult]
    rw [OneInsert, htrace]
    rcases streamGenerate_rows r.services (r.ctx p) r.clock (r.intentResult p) with
      ⟨hi, hs, hrows⟩ | ⟨hlog, hone⟩
    · exact .inl ⟨by simp [hi, hs], hrows⟩
    · exact .inr ⟨by simpa using hlog, hone⟩
  | false =>
    have htrace : rowsOf r.trace = rowsOf (Generate.generate r.services (r.ctx p) r.clock
        (r.intentResult p)).trace := by
      simp [GenRequest.trace, hstream, Generate.handleGenerate, hp, GenRequest.ctx,
        GenRequest.turns, GenRequest.intentResult]
    rw [OneInsert, htrace]
    rcases generate_rows r.services (r.ctx p) r.clock (r.intentResult p) with
      ⟨hi, ⟨e, hs⟩, hrows⟩ | ⟨hlog, hone⟩
    · exact .inl ⟨by simp [hi, hs], hrows⟩
    · exact .inr ⟨by simpa using hlog, hone⟩

/-! ## The tables -/

structure StoredRow where
  requestId : Uuid
  row : QueryLogRow
  deriving DecidableEq

/-- The tables a row of `query_log` refers to, and that table itself. -/
structure Tables where
  users : List Uuid
  world : World
  queryLog : List StoredRow

/-- A value of an `INT` column. -/
def Int4 (n : Int) : Prop := -2 ^ 31 ≤ n ∧ n < 2 ^ 31

/-- Each value is one its column takes: no NUL in a text, a latency that is not negative, integers
of 32 bits, and a cost of `NUMERIC(10, 6)`. -/
def Fits (row : QueryLogRow) : Prop :=
  '\x00' ∉ row.queryText ∧ Int4 row.statusCode ∧ Int4 row.latencyMs ∧ 0 ≤ row.latencyMs ∧
    (∀ n ∈ row.promptTokens, Int4 n) ∧ (∀ n ∈ row.completionTokens, Int4 n) ∧
    ∀ cost ∈ row.costEur, -10 ^ 10 < cost ∧ cost < 10 ^ 10

instance (n : Int) : Decidable (Int4 n) := inferInstanceAs (Decidable (_ ∧ _))

instance (row : QueryLogRow) : Decidable (Fits row) := inferInstanceAs (Decidable (_ ∧ _))

/-- `QueryLogRepository.insert` with the database up: a row that breaks a constraint is dropped, and
the error is swallowed. -/
def insertQueryLog (t : Tables) (row : QueryLogRow) : Tables :=
  match Uuid.pgParse row.requestId, Uuid.pgParse row.userId, Uuid.pgParse row.conversationId with
  | some requestId, some userId, some conversationId =>
    if Fits row ∧ (∀ stored ∈ t.queryLog, stored.requestId ≠ requestId) ∧ userId ∈ t.users ∧
        (t.world.conversations conversationId).isSome then
      { t with queryLog := t.queryLog ++ [⟨requestId, row⟩] }
    else t
  | _, _, _ => t

/-- The user of a call whose transaction commits in `create_if_absent`, which upserts it. The call
is refused before on the same grounds as in `startStep`. -/
def upsertedUser (cfg : Config) (call : Call) (i : StepInput) : Option Uuid :=
  if !isValidConversationId call.conversationId then none
  else
    match parseBody cfg call.payload with
    | .error _ => none
    | .ok m =>
      match Uuid.pgParse call.conversationId, Uuid.pgParse m.userId, i.outcome with
      | none, _, _ | _, none, _ | _, _, .fails => none
      | some _, some userId, _ => some userId

/-- A call of `post_message`, as far as its inputs go. -/
def runCall (cfg : Config) (call : Call) (w : World) (inputs : List StepInput) : World :=
  (Run.exec (fun (s : World × Phase) i =>
    let r := postStep cfg call i s.1 s.2
    (r.1, r.2.1)) (w, .start) inputs).1

/-- A call without inputs does not reach the handler. -/
def appendTables (cfg : Config) (t : Tables) (inputs : List StepInput) (args : AppendArgs) :
    Tables :=
  let call := appendCall cfg args
  { t with
    users := (inputs.head?.bind (upsertedUser cfg call)).elim t.users t.users.insert
    world := runCall cfg call t.world inputs }

def applyEffect (cfg : Config) (t : Tables) (inputs : List StepInput) : Effect → Tables
  | .append args => appendTables cfg t inputs args
  | .queryLog row => insertQueryLog t row
  | _ => t

/-! ## The system -/

structure LogSystem (ι : Type) where
  tables : Tables
  todo : ι → List Effect

section
variable {ι : Type} [DecidableEq ι]

def LogSystem.start (requests : ι → GenRequest) (t : Tables) : LogSystem ι :=
  ⟨t, fun k => (requests k).trace⟩

def logStep (cfg : Config) (s : LogSystem ι) (a : ι × List StepInput) : LogSystem ι :=
  match s.todo a.1 with
  | [] => s
  | e :: rest => ⟨applyEffect cfg s.tables a.2 e, Function.update s.todo a.1 rest⟩

def rowsFor (t : Tables) (requestId : Text) : List StoredRow :=
  t.queryLog.filter fun stored => Uuid.pgParse requestId = some stored.requestId

/-- The constraints of `query_log` but for the unique key: the ids are UUIDs, the values fit, and
the user and the conversation have a row. -/
def Accepts (t : Tables) (row : QueryLogRow) : Prop :=
  (Uuid.pgParse row.requestId).isSome ∧ Fits row ∧
    (∃ userId ∈ t.users, Uuid.pgParse row.userId = some userId) ∧
    ∃ conversationId, Uuid.pgParse row.conversationId = some conversationId ∧
      (t.world.conversations conversationId).isSome

/-- If the turn is the insert of the request `k`, the tables accept the row. -/
def Backed (k : ι) (s : LogSystem ι) (a : ι × List StepInput) : Prop :=
  a.1 = k → ∀ row rest, s.todo k = .queryLog row :: rest → Accepts s.tables row

/-! ## One insert -/

theorem insertQueryLog_cases (t : Tables) (row : QueryLogRow) :
    insertQueryLog t row = t ∨ ∃ requestId, Uuid.pgParse row.requestId = some requestId ∧
      insertQueryLog t row = { t with queryLog := t.queryLog ++ [⟨requestId, row⟩] } := by
  unfold insertQueryLog
  split
  · next requestId _ _ hid _ _ =>
    split
    · exact .inr ⟨requestId, hid, rfl⟩
    · exact .inl rfl
  · exact .inl rfl

variable {t : Tables} {row : QueryLogRow} {args : AppendArgs} {cfg : Config} {i : StepInput}
  {inputs : List StepInput} {u : Uuid}

theorem rowsFor_insert_other {requestId : Text}
    (h : ∀ u, Uuid.pgParse row.requestId = some u → Uuid.pgParse requestId ≠ some u) :
    rowsFor (insertQueryLog t row) requestId = rowsFor t requestId := by
  rcases insertQueryLog_cases t row with heq | ⟨u, hu, heq⟩
  · rw [heq]
  · rw [heq]
    simp [rowsFor, List.filter_append, h u hu]

/-- The first insert of a request stores its row exactly when the tables accept it. -/
theorem rowsFor_insert_own (h : rowsFor t row.requestId = []) :
    (rowsFor (insertQueryLog t row) row.requestId).length = 1 ↔ Accepts t row := by
  have hunique : ∀ u, Uuid.pgParse row.requestId = some u →
      ∀ stored ∈ t.queryLog, stored.requestId ≠ u := by
    intro u hu stored hstored heq
    have hmem : stored ∈ rowsFor t row.requestId :=
      List.mem_filter.mpr ⟨hstored, by simp [hu, heq]⟩
    rw [h] at hmem
    cases hmem
  unfold Accepts insertQueryLog
  cases hid : Uuid.pgParse row.requestId with
  | none => simp [h]
  | some requestId =>
    cases huser : Uuid.pgParse row.userId with
    | none => simp [h]
    | some userId =>
      cases hconv : Uuid.pgParse row.conversationId with
      | none => simp [h]
      | some conversationId =>
        dsimp only
        split
        · next hok =>
          have hone : rowsFor { t with queryLog := t.queryLog ++ [⟨requestId, row⟩] } row.requestId =
              [⟨requestId, row⟩] := by
            unfold rowsFor at h ⊢
            rw [List.filter_append, h]
            simp [hid]
          simp [hone, hok.1, hok.2.2]
        · next hno =>
          simp only [h, List.length_nil, Nat.zero_ne_one, false_iff]
          rintro ⟨-, hfits, ⟨_, hknown, heq⟩, _, heq', hrow⟩
          cases heq
          cases heq'
          exact hno ⟨hfits, hunique requestId hid, hknown, hrow⟩

/-! ## What backs a row -/

section
variable {cfg : Config} {call : Call} {i : StepInput} {w : World} {c : Uuid}

theorem isSome_ownerOf : (ownerOf w c).isSome = (w.conversations c).isSome :=
  Option.isSome_map

theorem postStep_kept {phase : Phase} (h : (w.conversations c).isSome) :
    ((postStep cfg call i w phase).1.conversations c).isSome := by
  rw [← isSome_ownerOf] at h ⊢
  cases phase with
  | start =>
    obtain ⟨u, hu⟩ := Option.isSome_iff_exists.mp h
    have hkept := (startStep_started cfg call i w).kept c u hu
    rw [show (postStep cfg call i w .start).1 = (startStep cfg call i w).1 from rfl, hkept]
    rfl
  | running f pc =>
    rw [(postStep_running cfg call i w f pc).1, (runStep_tables cfg _ i f w pc).1]
    exact h
  | done r => exact h

theorem runCall_kept {s : World × Phase} (h : (s.1.conversations c).isSome)
    (inputs : List StepInput) :
    ((Run.exec (fun (s : World × Phase) i =>
      let r := postStep cfg call i s.1 s.2
      (r.1, r.2.1)) s inputs).1.conversations c).isSome :=
  Run.exec_inv (P := fun s : World × Phase => (s.1.conversations c).isSome)
    (fun _ _ hs => postStep_kept hs) inputs s h

theorem startStep_upserted {u : Uuid} (h : upsertedUser cfg call i = some u) :
    (∃ m, parseBody cfg call.payload = .ok m ∧ Uuid.pgParse m.userId = some u) ∧
      ∃ cid, Uuid.pgParse call.conversationId = some cid ∧
        ((startStep cfg call i w).1.conversations cid).isSome := by
  unfold upsertedUser at h
  split at h
  · cases h
  next hid =>
  split at h
  · cases h
  next m hm =>
  split at h
  · cases h
  · cases h
  · cases h
  next cid _ hcid huser hout =>
  cases h
  refine ⟨⟨m, hm, huser⟩, cid, hcid, ?_⟩
  have hrow : ((createIfAbsent w.conversations cid u (gcsUri cfg call.conversationId)
      m.timestamp).1 cid).isSome := by
    unfold createIfAbsent
    split
    · next hrow => simp [hrow]
    · simp
  unfold startStep
  rw [if_neg hid, hm]
  dsimp only
  rw [hcid, huser]
  cases ho : i.outcome with
  | fails => exact absurd ho hout
  | ok | notVisible =>
    dsimp only
    split
    · next hlost => exact hlost.2
    · split <;> exact hrow

end

structure Grown (t t' : Tables) : Prop where
  users : t.users ⊆ t'.users
  conversations : ∀ c, (t.world.conversations c).isSome → (t'.world.conversations c).isSome

theorem applyEffect_grown (cfg : Config) (t : Tables) (inputs : List StepInput) (e : Effect) :
    Grown t (applyEffect cfg t inputs e) := by
  have hself : Grown t t := ⟨List.Subset.refl _, fun _ h => h⟩
  cases e with
  | append args =>
    refine ⟨?_, fun c h => runCall_kept (s := (t.world, .start)) h inputs⟩
    simp only [applyEffect, appendTables]
    cases inputs.head?.bind (upsertedUser cfg (appendCall cfg args)) with
    | none => exact List.Subset.refl _
    | some u => exact fun v hv => List.mem_insert_of_mem hv
  | queryLog row =>
    rcases insertQueryLog_cases t row with heq | ⟨_, -, heq⟩
    · rw [applyEffect, heq]
      exact hself
    · rw [applyEffect, heq]
      exact ⟨List.Subset.refl _, fun _ h => h⟩
  | _ => exact hself

def Known (t : Tables) (args : AppendArgs) : Prop :=
  (∃ userId ∈ t.users, Uuid.pgParse args.userId = some userId) ∧
    ∃ conversationId, Uuid.pgParse args.conversationId = some conversationId ∧
      (t.world.conversations conversationId).isSome

theorem Known.grown {t' : Tables} (h : Known t args) (hgrown : Grown t t') : Known t' args := by
  obtain ⟨⟨userId, huser, hparse⟩, conversationId, hcid, hrow⟩ := h
  exact ⟨⟨userId, hgrown.users huser, hparse⟩, conversationId, hcid,
    hgrown.conversations _ hrow⟩

theorem appendTables_known (h : upsertedUser cfg (appendCall cfg args) i = some u) :
    Known (appendTables cfg t (i :: inputs) args) args := by
  obtain ⟨⟨m, hm, huser⟩, cid, hcid, hrow⟩ :=
    @startStep_upserted cfg (appendCall cfg args) i t.world u h
  refine ⟨⟨u, ?_, appendCall_userId hm ▸ huser⟩, cid, hcid, ?_⟩
  · simp only [appendTables, List.head?_cons, Option.bind_some, h]
    exact List.mem_insert_self
  · exact runCall_kept (s := ((startStep cfg (appendCall cfg args) i t.world).1, _)) hrow inputs

theorem logStep_grown (cfg : Config) (s : LogSystem ι) (a : ι × List StepInput) :
    Grown s.tables (logStep cfg s a).tables := by
  unfold logStep
  split
  · exact ⟨List.Subset.refl _, fun _ h => h⟩
  · exact applyEffect_grown cfg s.tables a.2 _

/-- Once an append of a request has committed, the user and the conversation have their rows, in
every state of every continuation. -/
theorem backed_of_append {s : LogSystem ι} {k : ι} {rest : List Effect}
    (htodo : s.todo k = .append args :: rest)
    (h : upsertedUser cfg (appendCall cfg args) i = some u) (schedule : List (ι × List StepInput)) :
    Run.Always (logStep cfg) (fun s => Known s.tables args) (logStep cfg s (k, i :: inputs))
      schedule := by
  refine Run.always_of_inv (P := fun s : LogSystem ι => Known s.tables args)
    (fun s a hs => hs.grown (logStep_grown cfg s a)) schedule _ ?_
  simp only [logStep, htodo, applyEffect]
  exact appendTables_known h

/-! ## One request -/

def OwnRows (ids : ι → Text) (s : LogSystem ι) : Prop :=
  ∀ j, ∀ row ∈ rowsOf (s.todo j), row.requestId = ids j

section
variable {cfg : Config} {ids : ι → Text} {s : LogSystem ι} {a : ι × List StepInput} {k : ι}

variable {e : Effect}

theorem logStep_cons {rest : List Effect} (h : s.todo a.1 = e :: rest) :
    logStep cfg s a = ⟨applyEffect cfg s.tables a.2 e, Function.update s.todo a.1 rest⟩ := by
  rw [logStep, h]

theorem logStep_todo (cfg : Config) (s : LogSystem ι) (a : ι × List StepInput) (k : ι) :
    (logStep cfg s a).todo k = if a.1 = k then (s.todo k).tail else s.todo k := by
  unfold logStep
  split
  · next htodo =>
    split
    · next hk => rw [← hk, htodo]; rfl
    · rfl
  · next e rest htodo =>
    dsimp only
    split
    · next hk => rw [← hk, htodo, Function.update_self]; rfl
    · next hk => rw [Function.update_of_ne (Ne.symm hk)]

theorem rowsOf_cons (e : Effect) (trace : List Effect) :
    rowsOf (e :: trace) = e.row?.toList ++ rowsOf trace := Eff.reads_cons _ _ _

theorem OwnRows.step (h : OwnRows ids s) : OwnRows ids (logStep cfg s a) := by
  intro j row hrow
  rw [logStep_todo] at hrow
  split at hrow
  · refine h j row ?_
    cases htodo : s.todo j with
    | nil => rwa [htodo] at hrow
    | cons e rest =>
      rw [htodo] at hrow
      rw [rowsOf_cons]
      exact List.mem_append_right _ hrow
  · exact h j row hrow

theorem applyEffect_queryLog {t : Tables} {inputs : List StepInput} (h : e.row? = none) :
    (applyEffect cfg t inputs e).queryLog = t.queryLog := by
  cases e with
  | queryLog row => simp at h
  | _ => rfl

theorem logStep_rowsFor (hown : OwnRows ids s)
    (hapart : ∀ j u, Uuid.pgParse (ids j) = some u → Uuid.pgParse (ids k) = some u → j = k)
    (h : a.1 = k → ∀ row rest, s.todo k ≠ .queryLog row :: rest) :
    rowsFor (logStep cfg s a).tables (ids k) = rowsFor s.tables (ids k) := by
  cases htodo : s.todo a.1 with
  | nil => rw [logStep, htodo]
  | cons e rest =>
    rw [logStep_cons htodo]
    cases hrow : e.row? with
    | none => rw [rowsFor, applyEffect_queryLog hrow, rowsFor]
    | some row =>
      cases e with
      | queryLog row' =>
        cases hrow
        refine rowsFor_insert_other fun u hu hk => ?_
        have hid : row.requestId = ids a.1 := hown a.1 row (by rw [htodo]; simp)
        have hak : a.1 = k := hapart a.1 u (hid ▸ hu) hk
        exact h hak row rest (hak ▸ htodo)
      | _ => cases hrow

theorem exec_rowsFor {schedule : List (ι × List StepInput)}
    (hapart : ∀ j u, Uuid.pgParse (ids j) = some u → Uuid.pgParse (ids k) = some u → j = k) :
    ∀ {s : LogSystem ι}, OwnRows ids s → rowsOf (s.todo k) = [] →
      rowsFor (Run.exec (logStep cfg) s schedule).tables (ids k) = rowsFor s.tables (ids k) ∧
        Run.Along (logStep cfg) (Backed k) s schedule := by
  induction schedule with
  | nil => intro s _ _; exact ⟨rfl, trivial⟩
  | cons a schedule ih =>
    intro s hown hnone
    have hnot : ∀ row rest, s.todo k ≠ .queryLog row :: rest := by
      intro row rest htodo
      rw [htodo] at hnone
      simp at hnone
    have hnext : rowsOf ((logStep cfg s a).todo k) = [] := by
      rw [logStep_todo]
      split
      · cases htodo : s.todo k with
        | nil => rfl
        | cons e rest =>
          rw [htodo, rowsOf_cons] at hnone
          exact (List.append_eq_nil_iff.mp hnone).2
      · exact hnone
    obtain ⟨hrows, hbacked⟩ := ih hown.step hnext
    refine ⟨hrows.trans (logStep_rowsFor hown hapart fun _ => hnot), ?_, hbacked⟩
    exact fun _ row rest htodo => absurd htodo (hnot row rest)

/-- A request with one insert left and no row yet: when it has made the insert, it has one row
exactly if the tables accepted it. -/
theorem exec_rowsFor_iff {schedule : List (ι × List StepInput)} {row : QueryLogRow}
    (hapart : ∀ j u, Uuid.pgParse (ids j) = some u → Uuid.pgParse (ids k) = some u → j = k) :
    ∀ {s : LogSystem ι}, OwnRows ids s → rowsOf (s.todo k) = [row] →
      rowsFor s.tables (ids k) = [] → (Run.exec (logStep cfg) s schedule).todo k = [] →
      ((rowsFor (Run.exec (logStep cfg) s schedule).tables (ids k)).length = 1 ↔
        Run.Along (logStep cfg) (Backed k) s schedule) := by
  induction schedule with
  | nil =>
    intro s _ hrow _ hdone
    rw [Run.exec_nil] at hdone
    rw [hdone] at hrow
    simp at hrow
  | cons a schedule ih =>
    intro s hown hrow hnone hdone
    rw [Run.exec_cons] at hdone ⊢
    have hid : row.requestId = ids k := hown k row (by rw [hrow]; simp)
    by_cases hinsert : a.1 = k ∧ ∃ row' rest, s.todo k = .queryLog row' :: rest
    · obtain ⟨rfl, row', rest, htodo⟩ := hinsert
      rw [htodo, rowsOf_cons] at hrow
      obtain ⟨rfl, hrest⟩ := List.cons.inj hrow
      have hstep : logStep cfg s a = _ := logStep_cons htodo
      have hleft : rowsOf ((logStep cfg s a).todo a.1) = [] := by
        rw [logStep_todo, if_pos rfl, htodo]
        exact hrest
      obtain ⟨hrows, hbacked⟩ := @exec_rowsFor _ _ cfg ids _ schedule hapart _ hown.step hleft
      rw [hrows, hstep, ← hid]
      rw [← hid] at hnone
      refine (rowsFor_insert_own hnone).trans ⟨fun haccepts => ⟨fun _ row' rest' htodo' => ?_,
        hbacked⟩, fun halong => halong.1 rfl _ rest htodo⟩
      cases htodo.symm.trans htodo'
      exact haccepts
    · have hnot : a.1 = k → ∀ row rest, s.todo k ≠ .queryLog row :: rest :=
        fun ha row' rest htodo => hinsert ⟨ha, row', rest, htodo⟩
      have hnext : rowsOf ((logStep cfg s a).todo k) = [row] := by
        rw [logStep_todo]
        split
        · next ha =>
          cases htodo : s.todo k with
          | nil => rwa [htodo] at hrow
          | cons e rest =>
            rw [htodo, rowsOf_cons] at hrow
            cases e with
            | queryLog r => exact absurd htodo (hnot ha r rest)
            | _ => exact hrow
        · exact hrow
      have hrows := @logStep_rowsFor _ _ cfg _ _ _ _ hown hapart hnot
      rw [ih hown.step hnext (hrows.trans hnone) hdone]
      exact ⟨fun h => ⟨fun ha row rest htodo => absurd htodo (hnot ha row rest), h⟩, fun h => h.2⟩

end

/-- In every interleaving of requests that pass the parser under distinct ids, from any tables that
have no row of theirs: a finished request has exactly one row when retrieval did not keep it from
its insert and the tables, before its insert, accepted the row. -/
theorem one_row_iff (cfg : Config) (requests : ι → GenRequest) (parsed : ι → GenerateRequest)
    (hparsed : ∀ k, parseRequest (requests k).payload (requests k).headers = .ok (parsed k))
    (hdistinct : ∀ j k, (parsed j).requestId = (parsed k).requestId → j = k) (t : Tables)
    (hnew : ∀ k, rowsFor t (parsed k).requestId = []) (schedule : List (ι × List StepInput)) (k : ι)
    (hdone : (Run.exec (logStep cfg) (.start requests t) schedule).todo k = []) :
    (rowsFor (Run.exec (logStep cfg) (.start requests t) schedule).tables
        (parsed k).requestId).length = 1 ↔
      (requests k).Logs (parsed k) ∧
        Run.Along (logStep cfg) (Backed k) (.start requests t) schedule := by
  have hown : OwnRows (fun j => (parsed j).requestId) (.start requests t) := by
    intro j row hrow
    rcases request_rows (hparsed j) with ⟨-, hnone⟩ | ⟨-, row', hone, hid, -⟩
    · exact absurd hrow (by simp [LogSystem.start, hnone])
    · have hrow' : row = row' := by simpa [LogSystem.start, hone] using hrow
      exact hrow' ▸ hid
  -- texts the pattern accepts are the same when the database reads the same UUID in them
  have hapart : ∀ j u, Uuid.pgParse (parsed j).requestId = some u →
      Uuid.pgParse (parsed k).requestId = some u → j = k := by
    intro j u hj hk
    refine hdistinct j k ?_
    rw [Generate.eq_toText_of_pgParse (Generate.parseRequest_requestId (hparsed j)) hj,
      Generate.eq_toText_of_pgParse (Generate.parseRequest_requestId (hparsed k)) hk]
  rcases request_rows (hparsed k) with ⟨hlogs, hnone⟩ | ⟨hlogs, row, hone, -⟩
  · have hrows := (@exec_rowsFor _ _ cfg _ k schedule hapart _ hown hnone).1
    rw [hrows]
    simp [hlogs, LogSystem.start, hnew k]
  · rw [exec_rowsFor_iff hapart hown hone (hnew k) hdone]
    exact ⟨fun h => ⟨hlogs, h⟩, fun h => h.2⟩

end

/-! ## A first question -/

def question (llm : Generate.LlmClient) : GenRequest where
  stream := false
  payload := .obj [("query".toList, .str "Qui est Mara ?".toList),
    ("request_id".toList, .str (sampleId 9).toText)]
  headers := ⟨some (sampleId 1).toText, some "member".toList⟩
  freshId := sampleId 5
  services := Generate.sampleServices llm
    (Generate.chunksReply [Generate.chunkJson "a.md" "Mara." 1 "public"])
  window := fun _ _ => ⟨[], none⟩
  classifyMs := 0
  clock := Generate.sampleClock

def questionParsed : GenerateRequest :=
  ⟨"Qui est Mara ?".toList, none, (sampleId 1).toText, .members, (sampleId 9).toText⟩

def knownUser : Tables := ⟨[sampleId 1], World.init, []⟩

def questionTurns : List (Unit × List StepInput) :=
  List.replicate 8 ((), List.replicate 8 ⟨.ok, 0⟩)

def questionRun (llm : Generate.LlmClient) : LogSystem Unit :=
  Run.exec (logStep sampleConfig) (.start (fun _ => question llm) knownUser) questionTurns

/-- The answer is appended before the row is inserted, so its conversation exists. -/
theorem one_row_iff_question :
    let r := question (Generate.answering ["Mara [a.md]."])
    (rowsFor (questionRun (Generate.answering ["Mara [a.md]."])).tables
        questionParsed.requestId).map (fun stored => (stored.requestId, stored.row.conversationId,
          stored.row.statusCode)) = [(sampleId 9, (sampleId 5).toText, 200)] ∧
      r.Logs questionParsed ∧
      Run.Along (logStep sampleConfig) (Backed ()) (.start (fun _ => r) knownUser) questionTurns := by
  intro r
  refine ⟨by decide +kernel, (one_row_iff sampleConfig (fun _ => r) (fun _ => questionParsed)
    (fun _ => by decide +kernel) (fun _ _ _ => rfl) knownUser (fun _ => rfl) questionTurns ()
    (by decide +kernel)).1 (by decide +kernel)⟩

/-- The model times out: the row names a conversation that does not exist, and is dropped. -/
theorem timeout_not_logged :
    parseRequest (question (Generate.failing .timeout)).payload
        (question (Generate.failing .timeout)).headers = .ok questionParsed ∧
      (questionRun (Generate.failing .timeout)).todo () = [] ∧
      rowsFor (questionRun (Generate.failing .timeout)).tables questionParsed.requestId = [] := by
  decide +kernel

end Archiviste.Conversation
