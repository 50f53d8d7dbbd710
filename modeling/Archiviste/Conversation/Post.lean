import Archiviste.Base.Json
import Archiviste.Base.Uuid
import Archiviste.Base.Versioned
import Archiviste.Generate.Memory

/-!
# Archiviste.Conversation.Post

`POST /v1/conversations/{id}/messages` as a machine that takes one storage or database step at a
time. A call validates its input, inserts or finds the conversation row, uploads the header of a new
transcript, appends its block by a read-modify-write loop of four attempts with one self-heal, and
then counts the message and stores it.

Texts stand for their UTF-8 bytes. The input of a step says how its call to the store or to the
database ends; a call that fails has no effect. What the store and the database answer otherwise
follows from the state.

* `runStep`, `postStep` — one step, with the write it made to the transcript, if any.
-/

namespace Archiviste.Conversation

open Generate (Role isValidUuid utf8Len)

/-! ## Messages -/

/-- A `datetime`: the instant in microseconds, and the offset to UTC it is written with. -/
structure Stamp where
  instant : Int
  offset : Option Int
  deriving DecidableEq, Repr

structure MessageIn where
  role : Role
  content : Text
  timestamp : Stamp
  userId : Text
  deriving DecidableEq, Repr

structure MessageOut where
  conversationId : Text
  messageCount : Int
  gcsUri : Text
  generation : Nat
  deriving DecidableEq, Repr

/-- How a call ends: 201, a declared error, or an exception the handler does not catch. -/
inductive Reply where
  | created (out : MessageOut)
  | error (status : Nat) (code : String)
  | uncaught
  deriving DecidableEq, Repr

def Reply.status : Reply → Nat
  | .created _ => 201
  | .error status _ => status
  | .uncaught => 500

/-- What the handler takes from its libraries and its configuration. -/
structure Config where
  bucketName : Text
  /-- Pydantic's reading of a `datetime` field. -/
  parseDatetime : Json → Option Stamp
  isoformat : Stamp → Text
  countTokens : Text → Nat

def isValidConversationId (value : Text) : Bool := isValidUuid value

def maxContentBytes : Nat := 16 * 1024

def parseRole : Option Json → Option Role
  | some (.str s) =>
    if s = "user".toList then some .user
    else if s = "assistant".toList then some .assistant
    else none
  | _ => none

/-- Pydantic reports the fields in the order of the model, and the first error about the role, the
content or the timestamp is the one answered. -/
def parseBody (cfg : Config) (raw : Json) : Except Reply MessageIn :=
  match parseRole (raw.get? "role".toList) with
  | none => .error (.error 422 "invalid_role")
  | some role =>
    match raw.get? "content".toList with
    | some (.str content) =>
      if content = [] then .error (.error 422 "empty_content")
      else if maxContentBytes < utf8Len content then .error (.error 413 "content_too_large")
      else
        match (raw.get? "timestamp".toList).bind cfg.parseDatetime with
        | none => .error (.error 422 "invalid_timestamp")
        | some timestamp =>
          match raw.get? "user_id".toList with
          | some (.str userId) => .ok ⟨role, content, timestamp, userId⟩
          | _ => .error (.error 422 "invalid_payload")
    | _ => .error (.error 422 "empty_content")

def roleText : Role → Text
  | .user => "user".toList
  | .assistant => "assistant".toList

def headerText (cfg : Config) (conversationId : Text) (createdAt : Stamp) (userId : Text) : Text :=
  "# Conversation ".toList ++ conversationId ++ "\n\nCreated: ".toList ++ cfg.isoformat createdAt ++
    "\nUser: ".toList ++ userId ++ "\n\n---\n".toList

def blockText (cfg : Config) (m : MessageIn) : Text :=
  "## [".toList ++ cfg.isoformat m.timestamp ++ "] ".toList ++ roleText m.role ++ "\n".toList ++
    m.content ++ "\n\n".toList

def gcsUri (cfg : Config) (conversationId : Text) : Text :=
  "gs://".toList ++ cfg.bucketName ++ "/".toList ++ conversationId ++ ".md".toList

/-! ## Tables -/

structure ConversationRow where
  userId : Uuid
  gcsUri : Text
  createdAt : Stamp
  messageCount : Nat
  deriving DecidableEq

structure StoredMessage where
  conversationId : Uuid
  role : Role
  ordinal : Nat
  content : Text
  tokenCount : Nat
  deriving DecidableEq

structure World where
  conversations : Uuid → Option ConversationRow
  /-- The transcripts, by conversation id. -/
  bucket : Bucket Text Text
  messages : List StoredMessage

def World.init : World := ⟨fun _ => none, Bucket.empty, []⟩

/-- A `timestamptz` column returns its instant in UTC. -/
def Stamp.utc (t : Stamp) : Stamp := ⟨t.instant, some 0⟩

/-- `_INSERT_OR_GET_SQL`: the table after it, and the `is_new` and `created_at` it returns. The row
found may be anyone's. -/
def createIfAbsent (rows : Uuid → Option ConversationRow) (cid : Uuid) (userId : Uuid)
    (uri : Text) (createdAt : Stamp) : (Uuid → Option ConversationRow) × Bool × Stamp :=
  match rows cid with
  | some row => (rows, false, row.createdAt)
  | none =>
    (Function.update rows cid (some ⟨userId, uri, createdAt.utc, 0⟩), true, createdAt.utc)

/-! ## The machine -/

/-- The position of a call whose message is accepted, named by the step it takes next. -/
inductive Pc where
  | header
  | headerReload
  | download (healed : Bool) (attempt : Nat)
  | upload (healed : Bool) (attempt : Nat) (current : Text) (generation : Nat)
  | blockReload
  | heal
  | healReload
  | increment (generation : Nat)
  | insert (generation messageCount : Nat)
  deriving DecidableEq, Repr

/-- What a call holds once `create_if_absent` has returned. -/
structure Frame where
  message : MessageIn
  cid : Uuid
  createdAt : Stamp
  deriving DecidableEq

inductive Phase where
  | start
  | running (f : Frame) (pc : Pc)
  | done (r : Reply)
  deriving DecidableEq

structure Call where
  conversationId : Text
  payload : Json

/-- How the step's call ends. `notVisible` is an insertion that lost the race for the row, whose
statement does not see the winner's row either. -/
inductive Outcome where
  | ok
  | fails
  | notVisible
  deriving DecidableEq, Repr

structure StepInput where
  outcome : Outcome
  now : Int
  deriving DecidableEq, Repr

/-- A successful upload of the transcript. -/
inductive Write where
  | header
  | block
  deriving DecidableEq, Repr

def futureTolerance : Int := 5 * 60 * 1000000

def checkTimestamp (timestamp createdAt : Stamp) (now : Int) : Except Reply Unit :=
  if now + futureTolerance < timestamp.instant then .error (.error 422 "timestamp_in_future")
  else if timestamp.instant < createdAt.instant then
    .error (.error 422 "timestamp_before_conversation")
  else .ok ()

/-- The attempts of `_read_modify_write` after the first. -/
def retries : Nat := 3

def messageOut (cfg : Config) (conversationId : Text) (messageCount : Int) (generation : Nat) :
    Reply :=
  .created ⟨conversationId, messageCount, gcsUri cfg conversationId, generation⟩

/-- The result of a step: the state, the next position or the reply, and the write. -/
abbrev StepResult := World × Except Reply Pc × Option Write

def storageUnavailable : Reply := .error 503 "storage_unavailable"

/-- `blob.reload()`, which nothing guards: the current generation, or an uncaught exception. -/
def reload (w : World) (id : Text) (outcome : Outcome) (next : Nat → Pc) : Except Reply Pc :=
  match outcome, w.bucket.cell id with
  | .fails, _ => .error .uncaught
  | _, none => .error .uncaught
  | _, some o => .ok (next o.generation)

section
variable (cfg : Config) (id : Text) (i : StepInput) (f : Frame) (w : World)

/-- `_upload_header`. The reply is the one of the caller for an object that is already there:
a new conversation answers 409, the self-heal goes on. -/
def uploadHeader (next : Pc) (exists_ : Except Reply Pc) : StepResult :=
  if i.outcome = .fails then (w, .error storageUnavailable, none)
  else
    match w.bucket.upload id 0 (headerText cfg id f.createdAt f.message.userId) with
    | none => (w, exists_, none)
    | some b => ({ w with bucket := b }, .ok next, some .header)

def runStep : Pc → StepResult
  | .header =>
    uploadHeader cfg id i f w .headerReload (.error (.error 409 "conversation_already_exists"))
  | .headerReload => (w, reload w id i.outcome fun _ => .download false 0, none)
  | .download healed attempt =>
    if i.outcome = .fails then (w, .error storageUnavailable, none)
    else
      match w.bucket.cell id with
      | some o => (w, .ok (.upload healed attempt o.value o.generation), none)
      | none => (w, if healed then .error .uncaught else .ok .heal, none)
  | .upload healed attempt current generation =>
    if i.outcome = .fails then (w, .error storageUnavailable, none)
    else
      match w.bucket.upload id generation (current ++ blockText cfg f.message) with
      | some b => ({ w with bucket := b }, .ok .blockReload, some .block)
      | none =>
        if attempt < retries then (w, .ok (.download healed (attempt + 1)), none)
        else (w, .error (.error 409 "concurrent_write"), none)
  | .blockReload => (w, reload w id i.outcome .increment, none)
  | .heal => uploadHeader cfg id i f w .healReload (.ok (.download true 0))
  | .healReload => (w, reload w id i.outcome fun _ => .download true 0, none)
  | .increment generation =>
    if i.outcome = .fails then (w, .error (messageOut cfg id (-1) generation), none)
    else
      match w.conversations f.cid with
      | none => (w, .error .uncaught, none)
      | some row =>
        let count := row.messageCount + 1
        ({ w with
            conversations :=
              Function.update w.conversations f.cid (some { row with messageCount := count }) },
          .ok (.insert generation count), none)
  | .insert generation count =>
    let ordinal := count - 1
    -- The foreign key, the unique key and any other failure are caught alike.
    let refused := i.outcome = .fails ∨ w.conversations f.cid = none ∨
      ∃ m ∈ w.messages, m.conversationId = f.cid ∧ m.ordinal = ordinal
    let stored := ⟨f.cid, f.message.role, ordinal, f.message.content,
      cfg.countTokens f.message.content⟩
    (if refused then w else { w with messages := w.messages ++ [stored] },
      .error (messageOut cfg id count generation), none)

end

theorem uploadHeader_tables {cfg : Config} {id : Text} {i : StepInput} {f : Frame} {w : World}
    {next : Pc} {exists_ : Except Reply Pc} :
    (uploadHeader cfg id i f w next exists_).1.conversations = w.conversations ∧
      (uploadHeader cfg id i f w next exists_).1.messages = w.messages := by
  unfold uploadHeader
  split
  · exact ⟨rfl, rfl⟩
  · split <;> exact ⟨rfl, rfl⟩

/-- The step of a call that has not started: validation and `create_if_absent`. -/
def startStep (cfg : Config) (call : Call) (i : StepInput) (w : World) : World × Phase :=
  if !isValidConversationId call.conversationId then
    (w, .done (.error 400 "invalid_conversation_id"))
  else
    match parseBody cfg call.payload with
    | .error r => (w, .done r)
    | .ok m =>
      -- The driver refuses an id or a user that is no UUID.
      match Uuid.pgParse call.conversationId, Uuid.pgParse m.userId, i.outcome with
      | none, _, _ | _, none, _ | _, _, .fails => (w, .done .uncaught)
      | some cid, some userId, outcome =>
        if outcome = .notVisible ∧ (w.conversations cid).isSome then
          (w, .done (.error 422 "unknown_user"))
        else
          let r := createIfAbsent w.conversations cid userId (gcsUri cfg call.conversationId)
            m.timestamp
          let w := { w with conversations := r.1 }
          match checkTimestamp m.timestamp r.2.2 i.now with
          | .error r => (w, .done r)
          | .ok () =>
            (w, .running ⟨m, cid, r.2.2⟩ (if r.2.1 then .header else .download false 0))

def postStep (cfg : Config) (call : Call) (i : StepInput) (w : World) :
    Phase → World × Phase × Option Write
  | .start =>
    let r := startStep cfg call i w
    (r.1, r.2, none)
  | .running f pc =>
    let r := runStep cfg call.conversationId i f w pc
    match r.2.1 with
    | .ok pc' => (r.1, .running f pc', r.2.2)
    | .error reply => (r.1, .done reply, r.2.2)
  | .done r => (w, .done r, none)

/-! ## An instance of the configuration -/

def sampleConfig : Config where
  bucketName := "b".toList
  parseDatetime := fun _ => some ⟨0, some 0⟩
  isoformat := fun _ => "t".toList
  countTokens := List.length

def sampleId (n : Fin 16) : Uuid := .ofDigit n

def sampleCall (role content : String) : Call where
  conversationId := (sampleId 5).toText
  payload := .obj [("role".toList, .str role.toList), ("content".toList, .str content.toList),
    ("timestamp".toList, .null), ("user_id".toList, .str (sampleId 1).toText)]

end Archiviste.Conversation
