import Archiviste.Base.Run
import Archiviste.Conversation.Post
import Archiviste.Gateway.Chat
import Archiviste.Generate.StreamGrammar

/-!
# Archiviste.Conversation.Ownership

Who writes into whose conversation. A chat request passes the gateway, which forwards the id the
client sent; the worker's pipeline, which appends a user turn and an assistant turn for the caller;
and `post_message`, which inserts the conversation or takes the one that is there, whoever owns it.

The state keeps a log of the writes with the user each was posted for: the blocks of the transcripts
and the stored messages.

* `chatAppends_spec` — from the client's request to the calls of `post_message`.
* `writes_owned` — runs in which no request names a conversation of someone else.
* `writes_not_owned` — a run in which one does.
-/

namespace Archiviste.Conversation

open Generate (AppendArgs appendsOf Ctx Clock Services MemoryWindow IntentResult PreparedMode
  GenerationResult GenerateRequest)
open Gateway (AnonIdentity parseAndValidate workersBody workersHeaders)

/-! ## The turns a generation posts -/

def TurnOf (ctx : Ctx) (args : AppendArgs) : Prop :=
  args.conversationId = ctx.conversationId ∧ args.userId = ctx.parsed.userId

section
variable {svc : Services} {ctx : Ctx} {clock : Clock} {args : AppendArgs}

theorem turnOf_pair {c : Text}
    (h : args ∈ [Generate.userTurn ctx clock, Generate.assistantTurn ctx clock c]) :
    TurnOf ctx args := by
  simp only [List.mem_cons, List.not_mem_nil, or_false] at h
  rcases h with rfl | rfl <;> exact ⟨rfl, rfl⟩

theorem invokeAndFinalize_turns {prepared : PreparedMode}
    (h : args ∈ appendsOf (Generate.invokeAndFinalize svc ctx clock prepared).trace) :
    TurnOf ctx args := by
  cases hr : svc.llm.invoke prepared.messages with
  | error e =>
    rw [Generate.invokeAndFinalize_error hr] at h
    simp at h
  | ok message =>
    rw [Generate.invokeAndFinalize_ok hr] at h
    exact turnOf_pair (c := message.content) (by simpa [Generate.blockingResult] using h)

variable {intentResult : IntentResult}

theorem generate_turns (h : args ∈ appendsOf (Generate.generate svc ctx clock intentResult).trace) :
    TurnOf ctx args := by
  cases hi : intentResult.intent with
  | offTopic =>
    rw [Generate.generate_offTopic hi] at h
    exact invokeAndFinalize_turns h
  | inDomain =>
    cases hs : svc.searchFor ctx Generate.topK with
    | error e =>
      cases e with
      | retrieveError => rw [Generate.generate_retrieveError hi hs] at h; simp at h
      | uncaught => rw [Generate.generate_uncaught hi hs] at h; simp at h
    | ok chunks =>
      rw [Generate.generate_retrieved hi hs] at h
      exact invokeAndFinalize_turns (by simpa using h)

theorem streamGenerate_turns
    (h : args ∈ appendsOf (Generate.streamGenerate svc ctx clock intentResult).trace) :
    TurnOf ctx args := by
  have hp := Generate.streamGenerate_persists svc ctx clock intentResult
  cases hd : Generate.endsInDone
      (Generate.eventsOf (Generate.streamGenerate svc ctx clock intentResult).trace) with
  | true => rw [(hp.done hd).1] at h; exact turnOf_pair h
  | false => rw [(hp.otherwise hd).1] at h; cases h

end

/-! ## Chat requests -/

/-- A chat request, with all that the environment contributes on the gateway's and on the worker's
side. -/
structure ChatRequest where
  identity : AnonIdentity
  body : Option Json
  requestId : Uuid
  idTokenOk : Bool
  /-- `/v1/chat/stream` or `/v1/chat`. -/
  stream : Bool
  freshId : Uuid
  services : Services
  window : Text → Text → MemoryWindow
  classifyMs : Int
  clock : Clock
  inputs : List (List StepInput)

def chatAppends (r : ChatRequest) : List AppendArgs :=
  match parseAndValidate r.body with
  | .error _ => []
  | .ok v =>
    if !r.idTokenOk then []
    else if r.stream then
      appendsOf (Generate.postGenerateStream r.services (workersBody v r.requestId.toText)
        (workersHeaders r.identity) r.freshId.toText r.window r.classifyMs r.clock).trace
    else
      appendsOf (Generate.handleGenerate r.services (workersBody v r.requestId.toText)
        (workersHeaders r.identity) r.freshId.toText r.window r.classifyMs r.clock).trace

def conversationOf (r : ChatRequest) : Option Uuid :=
  match parseAndValidate r.body with
  | .error _ => none
  | .ok v =>
    match v.conversationId with
    | some c => Uuid.parseStr c
    | none => some r.freshId

variable {r : ChatRequest} {args : AppendArgs} {cfg : Config} {m : MessageIn}

theorem conversationIdOf_forwarded {v : Gateway.ValidatedRequest}
    (hv : parseAndValidate r.body = .ok v) {p : GenerateRequest}
    (hp : p.conversationId = v.conversationId) :
    ∃ cid, conversationOf r = some cid ∧
      Generate.conversationIdOf p r.freshId.toText = cid.toText := by
  unfold conversationOf Generate.conversationIdOf Generate.truthy
  simp only [hv, hp]
  cases hc : v.conversationId with
  | none => exact ⟨r.freshId, rfl, by simp⟩
  | some c =>
    obtain ⟨u, rfl⟩ := Gateway.parseAndValidate_conversationId hv hc
    have hne : u.toText ≠ [] := by
      intro h
      have := Uuid.length_toText u
      rw [h] at this
      cases this
    exact ⟨u, Uuid.parseStr_toText u, by simp [hne]⟩

/-- Every append of a request goes to the conversation of the request, for the user the gateway
resolved. -/
theorem chatAppends_spec (h : args ∈ chatAppends r) :
    ∃ cid, conversationOf r = some cid ∧ args.conversationId = cid.toText ∧
      args.userId = r.identity.userId.toText := by
  unfold chatAppends at h
  cases hv : parseAndValidate r.body with
  | error e => simp [hv] at h
  | ok v =>
    have hturn : ∃ p window, Generate.parseRequest (workersBody v r.requestId.toText)
        (workersHeaders r.identity) = .ok p ∧
          TurnOf (Ctx.build p r.freshId.toText window) args := by
      rw [hv] at h
      cases hp : Generate.parseRequest (workersBody v r.requestId.toText)
          (workersHeaders r.identity) with
      | error e =>
        simp [Generate.postGenerateStream, Generate.handleGenerate, hp] at h
      | ok p =>
        simp only [Generate.postGenerateStream, Generate.handleGenerate, hp] at h
        split at h
        · cases h
        · split at h
          · exact ⟨p, _, rfl, streamGenerate_turns (by simpa using h)⟩
          · exact ⟨p, _, rfl, generate_turns (by simpa using h)⟩
    obtain ⟨p, window, hp, hconv, huser⟩ := hturn
    obtain ⟨hpu, hpc⟩ := Gateway.parseRequest_forwarded hp
    obtain ⟨cid, hcid, hid⟩ := conversationIdOf_forwarded hv hpc
    exact ⟨cid, hcid, hconv.trans hid, huser.trans hpu⟩

/-! ## What a call does to the tables -/

def ownerOf (w : World) (cid : Uuid) : Option Uuid := (w.conversations cid).map (·.userId)

section
variable {cfg : Config} {call : Call} {i : StepInput} {w : World}

variable {cid : Uuid}

theorem ownerOf_update (w : World) {row row' : ConversationRow}
    (hrow : w.conversations cid = some row) (hu : row'.userId = row.userId) (c : Uuid) :
    ownerOf { w with conversations := Function.update w.conversations cid (some row') } c =
      ownerOf w c := by
  unfold ownerOf
  by_cases hc : c = cid
  · subst hc; simp [hrow, hu]
  · simp [hc]

theorem runStep_tables (cfg : Config) (id : Text) (i : StepInput) (f : Frame) (w : World) (pc : Pc) :
    (∀ c, ownerOf (runStep cfg id i f w pc).1 c = ownerOf w c) ∧
      ∃ stored, (runStep cfg id i f w pc).1.messages = w.messages ++ stored ∧
        ∀ m ∈ stored, m.conversationId = f.cid := by
  have same {w' : World} (h : w'.conversations = w.conversations ∧ w'.messages = w.messages) :
      (∀ c, ownerOf w' c = ownerOf w c) ∧ ∃ stored, w'.messages = w.messages ++ stored ∧
        ∀ m ∈ stored, m.conversationId = f.cid :=
    ⟨fun c => by rw [ownerOf, h.1, ownerOf], [], by simp [h.2], by simp⟩
  cases pc with
  | header => exact same uploadHeader_tables
  | heal => exact same uploadHeader_tables
  | headerReload => exact same ⟨rfl, rfl⟩
  | blockReload => exact same ⟨rfl, rfl⟩
  | healReload => exact same ⟨rfl, rfl⟩
  | download healed attempt =>
    simp only [runStep]
    repeat' split
    all_goals exact same ⟨rfl, rfl⟩
  | upload healed attempt current generation =>
    simp only [runStep]
    repeat' split
    all_goals exact same ⟨rfl, rfl⟩
  | increment generation =>
    simp only [runStep]
    split
    · exact same ⟨rfl, rfl⟩
    · split
      · exact same ⟨rfl, rfl⟩
      · next row hrow =>
        exact ⟨ownerOf_update w hrow rfl, [], by simp, by simp⟩
  | insert generation count =>
    simp only [runStep]
    split
    · exact same ⟨rfl, rfl⟩
    · exact ⟨fun _ => rfl, [_], rfl, by simp⟩

theorem createIfAbsent_owner {userId : Uuid} {uri : Text} {createdAt : Stamp} (c : Uuid) :
    ownerOf { w with conversations := (createIfAbsent w.conversations cid userId uri createdAt).1 } c =
      if c = cid then some ((ownerOf w cid).getD userId) else ownerOf w c := by
  unfold createIfAbsent ownerOf
  cases hrow : w.conversations cid with
  | some row =>
    by_cases hc : c = cid
    · subst hc; simp [hrow]
    · simp [hc]
  | none =>
    by_cases hc : c = cid
    · subst hc; simp
    · simp [hc]

/-- What the first step does to the tables: it stores no message and keeps every owner; a new owner
is the user of the message; and a call that runs is on the conversation it names, which has a row.
-/
structure Started (cfg : Config) (call : Call) (w w' : World) (p : Phase) : Prop where
  messages : w'.messages = w.messages
  kept : ∀ c u, ownerOf w c = some u → ownerOf w' c = some u
  new : ∀ c u, ownerOf w' c = some u → ownerOf w c = some u ∨
    ∃ m, parseBody cfg call.payload = .ok m ∧ Uuid.pgParse m.userId = some u
  running : ∀ f pc, p = .running f pc →
    Uuid.pgParse call.conversationId = some f.cid ∧ (ownerOf w' f.cid).isSome

theorem Started.refused {r : Reply} : Started cfg call w w (.done r) where
  messages := rfl
  kept := fun _ _ h => h
  new := fun _ _ h => .inl h
  running := fun _ _ h => by cases h

theorem startStep_started (cfg : Config) (call : Call) (i : StepInput) (w : World) :
    Started cfg call w (startStep cfg call i w).1 (startStep cfg call i w).2 := by
  unfold startStep
  split
  · exact .refused
  · split
    · exact .refused
    · next m hm =>
      split
      · exact .refused
      · exact .refused
      · exact .refused
      · next _ cid userId hcid huser _ =>
        split
        · exact .refused
        · dsimp only
          generalize hw : { w with conversations := (createIfAbsent w.conversations cid userId
            (gcsUri cfg call.conversationId) m.timestamp).1 } = w'
          have howner (c : Uuid) : ownerOf w' c =
              if c = cid then some ((ownerOf w cid).getD userId) else ownerOf w c := by
            rw [← hw, createIfAbsent_owner]
          have kept (c u : Uuid) (h : ownerOf w c = some u) : ownerOf w' c = some u := by
            rw [howner]
            by_cases hc : c = cid
            · subst hc; simp [h]
            · rw [if_neg hc, h]
          have new (c u : Uuid) (h : ownerOf w' c = some u) : ownerOf w c = some u ∨
              ∃ m, parseBody cfg call.payload = .ok m ∧ Uuid.pgParse m.userId = some u := by
            rw [howner] at h
            by_cases hc : c = cid
            · subst hc
              cases ho : ownerOf w c with
              | some u' => left; simpa [ho] using h
              | none => right; exact ⟨m, hm, by rw [huser]; simpa [ho] using h⟩
            · left; rwa [if_neg hc] at h
          have hmessages : w'.messages = w.messages := by rw [← hw]
          split
          · exact ⟨hmessages, kept, new, fun _ _ h => by cases h⟩
          · refine ⟨hmessages, kept, new, fun f pc h => ?_⟩
            cases h
            exact ⟨hcid, by rw [howner, if_pos rfl]; rfl⟩

end

/-! ## Writes and their owners -/

/-- A write, with the user it was posted for. -/
inductive Posted where
  | block (conversationId : Text) (poster : Uuid)
  | message (m : StoredMessage) (poster : Uuid)
  deriving DecidableEq

def Posted.OwnedIn (w : World) : Posted → Prop
  | .block conversationId poster =>
    (Uuid.pgParse conversationId).bind (ownerOf w) = some poster
  | .message m poster => ownerOf w m.conversationId = some poster

instance (w : World) (p : Posted) : Decidable (p.OwnedIn w) := by
  cases p <;> exact inferInstanceAs (Decidable (_ = _))

structure ChatState where
  world : World
  log : List Posted

def ChatState.init : ChatState := ⟨World.init, []⟩

def Owned (s : ChatState) : Prop := ∀ p ∈ s.log, p.OwnedIn s.world

instance (s : ChatState) : Decidable (Owned s) := inferInstanceAs (Decidable (∀ p ∈ s.log, _))

structure CallState where
  state : ChatState
  phase : Phase

def callStep (cfg : Config) (call : Call) (poster : Uuid) (s : CallState) (i : StepInput) :
    CallState :=
  let r := postStep cfg call i s.state.world s.phase
  let stored := r.1.messages.drop s.state.world.messages.length
  ⟨⟨r.1, s.state.log ++
      (if r.2.2 = some .block then [.block call.conversationId poster] else []) ++
      stored.map (.message · poster)⟩, r.2.1⟩

def appendCall (cfg : Config) (args : AppendArgs) : Call where
  conversationId := args.conversationId
  payload := .obj [("role".toList, .str (roleText args.role)),
    ("content".toList, .str args.content),
    ("timestamp".toList, .str (cfg.isoformat ⟨args.timestamp, some 0⟩)),
    ("user_id".toList, .str args.userId)]

def runAppend (cfg : Config) (poster : Uuid) (s : ChatState) (a : AppendArgs × List StepInput) :
    ChatState :=
  (Run.exec (callStep cfg (appendCall cfg a.1) poster) ⟨s, .start⟩ a.2).state

def chatStep (cfg : Config) (s : ChatState) (r : ChatRequest) : ChatState :=
  Run.exec (runAppend cfg r.identity.userId) s ((chatAppends r).zip r.inputs)

/-- The conversation of the request is free or its user's own. -/
def MayWrite (s : ChatState) (r : ChatRequest) : Prop :=
  ∀ cid ∈ conversationOf r, ∀ owner ∈ ownerOf s.world cid, owner = r.identity.userId

/-! ## One call -/

theorem Posted.OwnedIn.mono {w w' : World}
    (h : ∀ c u, ownerOf w c = some u → ownerOf w' c = some u) {p : Posted} (hp : p.OwnedIn w) :
    p.OwnedIn w' := by
  cases p with
  | block id poster =>
    obtain ⟨cid, hcid, howner⟩ := Option.bind_eq_some_iff.mp hp
    exact Option.bind_eq_some_iff.mpr ⟨cid, hcid, h cid poster howner⟩
  | message m poster => exact h _ _ hp

/-- The state of a call for `poster` on the conversation `cid`: what was written is owned, the
conversation is free or the poster's, and a call that runs is on it and has found it the poster's.
-/
structure CallInv (call : Call) (cid poster : Uuid) (s : CallState) : Prop where
  owned : Owned s.state
  mine : ∀ u, ownerOf s.state.world cid = some u → u = poster
  running : ∀ f pc, s.phase = .running f pc →
    f.cid = cid ∧ ownerOf s.state.world cid = some poster

section
variable {cfg : Config} {call : Call} {cid poster : Uuid}

theorem postStep_running (cfg : Config) (call : Call) (i : StepInput) (w : World) (f : Frame)
    (pc : Pc) :
    (postStep cfg call i w (.running f pc)).1 = (runStep cfg call.conversationId i f w pc).1 ∧
      ∀ f' pc', (postStep cfg call i w (.running f pc)).2.1 = .running f' pc' → f' = f := by
  simp only [postStep]
  cases (runStep cfg call.conversationId i f w pc).2.1 with
  | ok pc' => exact ⟨rfl, fun f' pc'' h => by cases h; rfl⟩
  | error r => exact ⟨rfl, fun f' pc' h => by cases h⟩

theorem owned_append {w w' : World} {log new : List Posted} (h : Owned ⟨w, log⟩)
    (hkept : ∀ c u, ownerOf w c = some u → ownerOf w' c = some u)
    (hnew : ∀ p ∈ new, p.OwnedIn w') : Owned ⟨w', log ++ new⟩ := by
  intro p hp
  rcases List.mem_append.mp hp with hp | hp
  · exact (h p hp).mono hkept
  · exact hnew p hp

/-- A call on a conversation that is free or the poster's writes for its owner only. -/
theorem callStep_inv (hid : Uuid.pgParse call.conversationId = some cid)
    (huser : ∀ m, parseBody cfg call.payload = .ok m → Uuid.pgParse m.userId = some poster)
    (s : CallState) (i : StepInput) (h : CallInv call cid poster s) :
    CallInv call cid poster (callStep cfg call poster s i) := by
  obtain ⟨⟨w, log⟩, phase⟩ := s
  cases phase with
  | start =>
    have hs := startStep_started cfg call i w
    have hmine (u : Uuid) (hu : ownerOf (startStep cfg call i w).1 cid = some u) : u = poster := by
      rcases hs.new cid u hu with hold | ⟨m, hm, hmu⟩
      · exact h.mine u hold
      · rw [huser m hm] at hmu
        exact (Option.some.inj hmu).symm
    refine ⟨?_, hmine, fun f pc hphase => ?_⟩
    · simp only [callStep, postStep, hs.messages, List.drop_length]
      exact owned_append (by simpa using h.owned) hs.kept (by simp)
    · obtain ⟨hcid, hsome⟩ := hs.running f pc hphase
      rw [hid] at hcid
      cases hcid
      obtain ⟨u, hu⟩ := Option.isSome_iff_exists.mp hsome
      exact ⟨rfl, hmine u hu ▸ hu⟩
  | running f pc =>
    obtain ⟨hcid, howner⟩ := h.running f pc rfl
    obtain ⟨howners, stored, hstored, hconv⟩ := runStep_tables cfg call.conversationId i f w pc
    obtain ⟨hworld, hphase⟩ := postStep_running cfg call i w f pc
    have howner' : ownerOf (runStep cfg call.conversationId i f w pc).1 cid = some poster := by
      rw [howners]; exact howner
    refine ⟨?_, ?_, ?_⟩
    · simp only [callStep, hworld, hstored, List.drop_left, List.append_assoc]
      refine owned_append h.owned (fun c u hu => by rw [howners, hu]) ?_
      intro p hp
      rcases List.mem_append.mp hp with hp | hp
      · split at hp
        · obtain rfl := List.mem_singleton.mp hp
          exact Option.bind_eq_some_iff.mpr ⟨cid, hid, howner'⟩
        · cases hp
      · obtain ⟨m, hm, rfl⟩ := List.mem_map.mp hp
        exact (congrArg _ ((hconv m hm).trans hcid)).trans howner'
    · simp only [callStep, hworld, howners]
      exact h.mine
    · intro f' pc' hrun
      obtain rfl := hphase f' pc' hrun
      simp only [callStep, hworld]
      exact ⟨hcid, howner'⟩
  | done r =>
    refine ⟨?_, h.mine, fun f pc hphase => by cases hphase⟩
    simpa [callStep, postStep] using h.owned

end

/-! ## Whole runs -/

theorem parseBody_userId {raw : Json} (h : parseBody cfg raw = .ok m) :
    raw.get? "user_id".toList = some (.str m.userId) := by
  unfold parseBody at h
  repeat' split at h
  all_goals cases h
  assumption

theorem appendCall_userId (h : parseBody cfg (appendCall cfg args).payload = .ok m) :
    m.userId = args.userId := by
  have hget : some (Json.str args.userId) = some (Json.str m.userId) := parseBody_userId h
  exact (Json.str.inj (Option.some.inj hget)).symm

theorem runAppend_inv {cid poster : Uuid} {s : ChatState} {a : AppendArgs × List StepInput}
    (hid : a.1.conversationId = cid.toText) (huser : a.1.userId = poster.toText)
    (h : Owned s ∧ ∀ u, ownerOf s.world cid = some u → u = poster) :
    Owned (runAppend cfg poster s a) ∧
      ∀ u, ownerOf (runAppend cfg poster s a).world cid = some u → u = poster := by
  have hcid : Uuid.pgParse (appendCall cfg a.1).conversationId = some cid := by
    rw [appendCall, hid, Uuid.pgParse_toText]
  have hposter (m : MessageIn) (hm : parseBody cfg (appendCall cfg a.1).payload = .ok m) :
      Uuid.pgParse m.userId = some poster := by
    rw [appendCall_userId hm, huser, Uuid.pgParse_toText]
  have hstep := callStep_inv hcid hposter
  have hinv := Run.exec_inv hstep a.2 ⟨s, .start⟩ ⟨h.1, h.2, fun f pc hphase => by cases hphase⟩
  exact ⟨hinv.owned, hinv.mine⟩

theorem chatStep_owned (s : ChatState) (r : ChatRequest) (h : Owned s) (hmay : MayWrite s r) :
    Owned (chatStep cfg s r) := by
  cases hc : conversationOf r with
  | none =>
    have hnil : chatAppends r = [] := by
      refine List.eq_nil_iff_forall_not_mem.mpr fun args hargs => ?_
      obtain ⟨cid, hcid, -⟩ := chatAppends_spec hargs
      rw [hc] at hcid
      cases hcid
    simpa [chatStep, hnil] using h
  | some cid =>
    refine (Run.always_of_along
      (P := fun s => Owned s ∧ ∀ u, ownerOf s.world cid = some u → u = r.identity.userId)
      (C := fun _ a => a.1.conversationId = cid.toText ∧ a.1.userId = r.identity.userId.toText)
      (fun s a hs ha => runAppend_inv ha.1 ha.2 hs) _ s ⟨h, hmay cid hc⟩
      (Run.along_of_forall (fun a ha _ => ?_) s)).last.1
    obtain ⟨cid', hcid', hid, huser⟩ := chatAppends_spec (List.of_mem_zip ha).1
    rw [hc] at hcid'
    cases hcid'
    exact ⟨hid, huser⟩

/-- In a run in which no request names a conversation of another user, every block and every stored
message is in a conversation of the user it was posted for, in every state. -/
theorem writes_owned (cfg : Config) (rs : List ChatRequest)
    (h : Run.Along (chatStep cfg) MayWrite ChatState.init rs) :
    Run.Always (chatStep cfg) Owned ChatState.init rs :=
  Run.always_of_along chatStep_owned rs _ (fun p hp => by cases hp) h

/-! ## A run that writes into a foreign conversation -/

def sampleRequest (user : Uuid) (conversation : Option Uuid) : ChatRequest where
  identity := ⟨user, .member, none⟩
  body := some (.obj [("query".toList, .str "Bonjour".toList),
    ("conversation_id".toList, match conversation with | none => .null | some c => .str c.toText)])
  requestId := sampleId 9
  idTokenOk := true
  stream := false
  freshId := sampleId 5
  services := Generate.sampleServices (Generate.answering ["Bonsoir"]) (Generate.chunksReply [])
  window := fun _ _ => ⟨[], none⟩
  classifyMs := 0
  clock := Generate.sampleClock
  inputs := List.replicate 2 (List.replicate 8 ⟨.ok, 0⟩)

/-- The owner's own turns: the second request names the conversation that the first one made, and
each of them stores a question and an answer. -/
theorem writes_owned_sample :
    let rs := [sampleRequest (sampleId 1) none, sampleRequest (sampleId 1) (some (sampleId 5))]
    let s := Run.exec (chatStep sampleConfig) ChatState.init rs
    ownerOf (chatStep sampleConfig ChatState.init (sampleRequest (sampleId 1) none)).world
        (sampleId 5) = some (sampleId 1) ∧
      (s.world.messages.map (·.conversationId)) = List.replicate 4 (sampleId 5) ∧ Owned s := by
  intro rs s
  refine ⟨by decide +kernel, by decide +kernel, (writes_owned sampleConfig rs ⟨?_, ?_, trivial⟩).last⟩
  · rintro _ _ _ ⟨⟩
  · rintro _ ⟨⟩ owner howner
    exact Option.some.inj (howner.symm.trans (by decide +kernel))

/-- The second user names the conversation of the first, and writes into it. -/
theorem writes_not_owned :
    ¬Owned (Run.exec (chatStep sampleConfig) ChatState.init
      [sampleRequest (sampleId 1) none, sampleRequest (sampleId 2) (some (sampleId 5))]) := by
  decide +kernel

end Archiviste.Conversation
