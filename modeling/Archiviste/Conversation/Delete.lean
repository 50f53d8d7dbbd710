import Archiviste.Conversation.Rejection

/-!
# Archiviste.Conversation.Delete

`DELETE /v1/conversations/{id}`: one transaction around a delete in the store. The row is deleted in
the transaction, then the transcript in the store, then the transaction commits; whatever fails before
the commit drops the transaction.

* `delete_atomic_iff` — it is all or nothing unless the commit fails after the transcript is gone
  (`transcript_lost`).
* `deletion_leaves_no_orphan` — among any `post_message` calls on the conversation, when none of them is
  under way as the row is deleted, no transcript stays without a row and every call gets a declared
  answer; `orphan_after_deletion` when one is.
-/

namespace Archiviste.Conversation

/-! ## The handler -/

structure DeleteConfig where
  dbPool : Bool
  gcsBucket : Text

structure DeleteRequest where
  userId : Uuid
  conversationId : Uuid

/-- 204, 404, 409 and 503. -/
inductive DeleteReply where
  | noContent
  | conversationNotFound
  | conversationReferencedByTicket
  | upstreamUnavailable
  deriving DecidableEq, Repr

/-- The position of the handler, named by the call it makes next. -/
inductive DeletePc where
  | begin
  | select
  | deleteRow (gcsUri : Text)
  | deleteObject (objectPath : Text)
  | commit
  deriving DecidableEq, Repr

inductive DeletePhase where
  | running (pc : DeletePc)
  | done (r : DeleteReply)
  deriving DecidableEq, Repr

/-- `gcs_uri_to_object_path`. -/
def gcsUriToObjectPath (gcsUri bucket : Text) : Option Text :=
  Text.dropPrefix? ("gs://".toList ++ bucket ++ "/".toList) gcsUri

def objectName (id : Text) : Text := id ++ ".md".toList

section
variable (cfg : DeleteConfig) (tickets : List Uuid) (req : DeleteRequest)

/-- The call the handler makes next, which may fail and then has no effect. An object that is not
there counts as deleted. The row and its messages are gone for others at the commit. -/
def deleteCall (fails : Bool) (w : World) : DeletePc → World × Except DeleteReply DeletePc
  | .begin =>
    if !cfg.dbPool || fails then (w, .error .upstreamUnavailable) else (w, .ok .select)
  | .select =>
    if fails then (w, .error .upstreamUnavailable)
    else
      match w.conversations req.conversationId with
      | none => (w, .error .conversationNotFound)
      | some row =>
        if row.userId ≠ req.userId then (w, .error .conversationNotFound)
        else if req.conversationId ∈ tickets then (w, .error .conversationReferencedByTicket)
        else (w, .ok (.deleteRow row.gcsUri))
  | .deleteRow gcsUri =>
    -- a ticket created since then restricts the deletion
    if fails || req.conversationId ∈ tickets then (w, .error .upstreamUnavailable)
    else
      match gcsUriToObjectPath gcsUri cfg.gcsBucket with
      | none => (w, .error .upstreamUnavailable)
      | some objectPath => (w, .ok (.deleteObject objectPath))
  | .deleteObject objectPath =>
    if fails then (w, .error .upstreamUnavailable)
    else ({ w with bucket := w.bucket.remove fun k => objectName k = objectPath }, .ok .commit)
  | .commit =>
    if fails then (w, .error .upstreamUnavailable)
    else
      ({ w with
          conversations := Function.update w.conversations req.conversationId none
          messages := w.messages.filter fun m => m.conversationId ≠ req.conversationId },
        .error .noContent)

def DeletePhase.after : Except DeleteReply DeletePc → DeletePhase
  | .ok pc => .running pc
  | .error r => .done r

def deleteStep (s : World × DeletePhase) (fails : Bool) : World × DeletePhase :=
  match s.2 with
  | .done r => (s.1, .done r)
  | .running pc =>
    let r := deleteCall cfg tickets req fails s.1 pc
    (r.1, .after r.2)

end

/-! ## The handler on its own -/

structure DeleteFailures where
  begin : Bool
  select : Bool
  deleteRow : Bool
  deleteObject : Bool
  commit : Bool

def deleteConversation (cfg : DeleteConfig) (tickets : List Uuid) (req : DeleteRequest)
    (fails : DeleteFailures) (w : World) : World × DeletePhase :=
  Run.exec (deleteStep cfg tickets req) (w, .running .begin)
    [fails.begin, fails.select, fails.deleteRow, fails.deleteObject, fails.commit]

/-- The object of the conversation's transcript, by the row's `gcs_uri`. -/
def TranscriptObject (cfg : DeleteConfig) (w : World) (cid : Uuid) (k : Text) : Prop :=
  ∃ row, w.conversations cid = some row ∧
    gcsUriToObjectPath row.gcsUri cfg.gcsBucket = some (objectName k)

def messagesOf (w : World) (cid : Uuid) : List StoredMessage :=
  w.messages.filter fun m => m.conversationId = cid

/-- On 204 the row, its messages and its transcript are gone, on any other answer they are as they
were. -/
def AllOrNothing (cfg : DeleteConfig) (req : DeleteRequest) (w : World) (s : World × DeletePhase) :
    Prop :=
  match s.2 with
  | .running _ => False
  | .done .noContent => s.1.conversations req.conversationId = none ∧
      messagesOf s.1 req.conversationId = [] ∧
      ∀ k, TranscriptObject cfg w req.conversationId k → s.1.bucket.cell k = none
  | .done _ => s.1.conversations req.conversationId = w.conversations req.conversationId ∧
      messagesOf s.1 req.conversationId = messagesOf w req.conversationId ∧
      ∀ k, TranscriptObject cfg w req.conversationId k → s.1.bucket.cell k = w.bucket.cell k

/-- Only the commit fails, and there is a transcript. -/
structure CommitFailsAfterObject (cfg : DeleteConfig) (tickets : List Uuid) (req : DeleteRequest)
    (fails : DeleteFailures) (w : World) : Prop where
  pool : cfg.dbPool = true
  owned : ∃ row, w.conversations req.conversationId = some row ∧ row.userId = req.userId
  free : req.conversationId ∉ tickets
  earlier : fails.begin = false ∧ fails.select = false ∧ fails.deleteRow = false ∧
    fails.deleteObject = false
  commit : fails.commit = true
  object : ∃ k, TranscriptObject cfg w req.conversationId k ∧ w.bucket.cell k ≠ none

section
variable {cfg : DeleteConfig} {tickets : List Uuid} {req : DeleteRequest} {fails : DeleteFailures}
  {w : World}

def withoutObject (w : World) (objectPath : Text) : World :=
  { w with bucket := w.bucket.remove fun k => objectName k = objectPath }

def withoutRow (w : World) (cid : Uuid) : World :=
  { w with
    conversations := Function.update w.conversations cid none
    messages := w.messages.filter fun m => m.conversationId ≠ cid }

/-- How a call of the handler ends, read in the order of the source. -/
theorem deleteConversation_eq (cfg : DeleteConfig) (tickets : List Uuid) (req : DeleteRequest)
    (fails : DeleteFailures) (w : World) :
    deleteConversation cfg tickets req fails w =
      if !cfg.dbPool || fails.begin || fails.select then (w, .done .upstreamUnavailable)
      else
        match w.conversations req.conversationId with
        | none => (w, .done .conversationNotFound)
        | some row =>
          if row.userId ≠ req.userId then (w, .done .conversationNotFound)
          else if req.conversationId ∈ tickets then (w, .done .conversationReferencedByTicket)
          else if fails.deleteRow then (w, .done .upstreamUnavailable)
          else
            match gcsUriToObjectPath row.gcsUri cfg.gcsBucket with
            | none => (w, .done .upstreamUnavailable)
            | some path =>
              if fails.deleteObject then (w, .done .upstreamUnavailable)
              else if fails.commit then (withoutObject w path, .done .upstreamUnavailable)
              else (withoutRow (withoutObject w path) req.conversationId, .done .noContent) := by
  unfold deleteConversation
  cases hbegin : !cfg.dbPool || fails.begin with
  | true => simp [deleteStep, deleteCall, DeletePhase.after, hbegin]
  | false =>
    cases hselect : fails.select with
    | true => simp [deleteStep, deleteCall, DeletePhase.after, hbegin]
    | false =>
      cases hrow : w.conversations req.conversationId with
      | none => simp [deleteStep, deleteCall, DeletePhase.after, hbegin, hrow]
      | some row =>
        by_cases howner : row.userId = req.userId
        · by_cases hticket : req.conversationId ∈ tickets
          · simp [deleteStep, deleteCall, DeletePhase.after, hbegin, hrow, howner, hticket]
          · cases hdelete : fails.deleteRow with
            | true => simp [deleteStep, deleteCall, DeletePhase.after, hbegin, hrow, howner, hticket]
            | false =>
              cases hpath : gcsUriToObjectPath row.gcsUri cfg.gcsBucket with
              | none =>
                simp [deleteStep, deleteCall, DeletePhase.after, hbegin, hrow, howner, hticket, hpath]
              | some path =>
                cases fails.deleteObject <;> cases fails.commit <;>
                  simp [deleteStep, deleteCall, DeletePhase.after, hbegin, hrow, howner, hticket,
                    hpath, withoutObject, withoutRow]
        · simp [deleteStep, deleteCall, DeletePhase.after, hbegin, hrow, howner]

theorem allOrNothing_unchanged {r : DeleteReply} (hr : r ≠ .noContent) :
    AllOrNothing cfg req w (w, .done r) := by
  cases r with
  | noContent => exact absurd rfl hr
  | conversationNotFound => exact ⟨rfl, rfl, fun _ _ => rfl⟩
  | conversationReferencedByTicket => exact ⟨rfl, rfl, fun _ _ => rfl⟩
  | upstreamUnavailable => exact ⟨rfl, rfl, fun _ _ => rfl⟩

theorem AllOrNothing.of_unavailable {s : World × DeletePhase} (h : AllOrNothing cfg req w s)
    (hr : s.2 = .done .upstreamUnavailable) (k : Text)
    (hk : TranscriptObject cfg w req.conversationId k) : s.1.bucket.cell k = w.bucket.cell k := by
  obtain ⟨w', p⟩ := s
  cases hr
  exact h.2.2 k hk

theorem withoutObject_cell (w : World) (path k : Text) :
    (withoutObject w path).bucket.cell k =
      if objectName k = path then none else w.bucket.cell k := by
  simp [withoutObject, Bucket.remove]

/-- The deletion is all or nothing, whoever asks and whatever fails, unless everything succeeds but
the commit and there is a transcript. -/
theorem delete_atomic_iff (cfg : DeleteConfig) (tickets : List Uuid) (req : DeleteRequest)
    (fails : DeleteFailures) (w : World) :
    AllOrNothing cfg req w (deleteConversation cfg tickets req fails w) ↔
      ¬ CommitFailsAfterObject cfg tickets req fails w := by
  rw [deleteConversation_eq]
  split
  · next hearly =>
    refine iff_of_true (allOrNothing_unchanged (by decide)) fun h => ?_
    simp [h.pool, h.earlier] at hearly
  next hearly =>
  obtain ⟨hpool, hbegin, hselect⟩ :
      cfg.dbPool = true ∧ fails.begin = false ∧ fails.select = false := by
    simpa [and_assoc] using hearly
  split
  · next hrow =>
    refine iff_of_true (allOrNothing_unchanged (by decide)) fun h => ?_
    obtain ⟨row, hrow', _⟩ := h.owned
    rw [hrow] at hrow'
    cases hrow'
  next row hrow =>
  split
  · next howner =>
    refine iff_of_true (allOrNothing_unchanged (by decide)) fun h => ?_
    obtain ⟨row', hrow', howner'⟩ := h.owned
    rw [hrow] at hrow'
    cases hrow'
    exact howner howner'
  next howner =>
  split
  · next hticket =>
    exact iff_of_true (allOrNothing_unchanged (by decide)) fun h => h.free hticket
  next hticket =>
  split
  · next hdelete =>
    refine iff_of_true (allOrNothing_unchanged (by decide)) fun h => ?_
    simp [h.earlier] at hdelete
  next hdelete =>
  have hobject : ∀ k, TranscriptObject cfg w req.conversationId k ↔
      gcsUriToObjectPath row.gcsUri cfg.gcsBucket = some (objectName k) := by
    intro k
    simp [TranscriptObject, hrow]
  split
  · next hpath =>
    refine iff_of_true (allOrNothing_unchanged (by decide)) fun h => ?_
    obtain ⟨k, hk, _⟩ := h.object
    rw [hobject, hpath] at hk
    cases hk
  next path hpath =>
  have hpath' : ∀ k, TranscriptObject cfg w req.conversationId k ↔ objectName k = path := by
    intro k
    rw [hobject, hpath, Option.some.injEq, eq_comm]
  split
  · next hobj =>
    refine iff_of_true (allOrNothing_unchanged (by decide)) fun h => ?_
    simp [h.earlier] at hobj
  next hobj =>
  split
  · next hcommit =>
    -- the transaction is rolled back, the transcript is gone
    have hatomic : AllOrNothing cfg req w (withoutObject w path, .done .upstreamUnavailable) ↔
        ∀ k, objectName k = path → w.bucket.cell k = none := by
      simp only [AllOrNothing, hpath', withoutObject_cell]
      constructor
      · intro h k hk
        simpa [hk, eq_comm] using h.2.2 k hk
      · exact fun h => ⟨rfl, rfl, fun k hk => by rw [if_pos hk, h k hk]⟩
    rw [hatomic]
    constructor
    · rintro h hlost
      obtain ⟨k, hk, hcell⟩ := hlost.object
      exact hcell (h k ((hpath' k).mp hk))
    · intro h k hk
      by_contra hcell
      exact h ⟨hpool, ⟨row, hrow, not_not.mp howner⟩, hticket, ⟨hbegin, hselect,
        Bool.eq_false_of_not_eq_true hdelete, Bool.eq_false_of_not_eq_true hobj⟩, hcommit,
        k, (hpath' k).mpr hk, hcell⟩
  · next hcommit =>
    refine iff_of_true ⟨by simp [withoutRow], by simp [messagesOf, withoutRow], fun k hk => ?_⟩
      fun h => hcommit h.commit
    rw [hpath'] at hk
    exact (withoutObject_cell w path k).trans (if_pos hk)

end

def deleteConfig : DeleteConfig := ⟨true, sampleConfig.bucketName⟩

def deleteRequest : DeleteRequest := ⟨sampleId 1, sampleId 5⟩

def oneMessage : World :=
  (postMessage sampleConfig (sampleCall "user" "un") (fun _ => ⟨.ok, 0⟩) World.init).1

/-- The commit fails: the caller is told that nothing happened and still has the row and the
message, but the transcript is gone. -/
theorem transcript_lost :
    let s := deleteConversation deleteConfig [] deleteRequest ⟨false, false, false, false, true⟩
      oneMessage
    (oneMessage.bucket.cell (sampleId 5).toText).isSome ∧ s.2 = .done .upstreamUnavailable ∧
      (s.1.conversations (sampleId 5)).isSome ∧ (messagesOf s.1 (sampleId 5)).length = 1 ∧
      s.1.bucket.cell (sampleId 5).toText = none ∧
      ¬ AllOrNothing deleteConfig deleteRequest oneMessage s := by
  intro s
  have hreply : s.2 = .done .upstreamUnavailable := by decide +kernel
  have hgone : s.1.bucket.cell (sampleId 5).toText = none := by decide +kernel
  have hthere : (oneMessage.bucket.cell (sampleId 5).toText).isSome := by decide +kernel
  refine ⟨hthere, hreply, by decide +kernel, by decide +kernel, hgone, fun h => ?_⟩
  have hrow : (oneMessage.conversations (sampleId 5)).map (·.gcsUri) =
      some (gcsUri sampleConfig (sampleId 5).toText) := by decide +kernel
  obtain ⟨row, hrow, huri⟩ := Option.map_eq_some_iff.mp hrow
  have hobject : TranscriptObject deleteConfig oneMessage (sampleId 5) (sampleId 5).toText :=
    ⟨row, hrow, by rw [huri]; decide +kernel⟩
  have hsame := h.of_unavailable hreply _ hobject
  rw [hgone] at hsame
  rw [← hsame] at hthere
  cases hthere

/-! ## Among other calls -/

structure Shared (ι : Type) where
  world : World
  phase : ι → Phase
  deletion : DeletePhase

def Shared.init {ι : Type} (w : World) : Shared ι := ⟨w, fun _ => .start, .running .begin⟩

inductive Action (ι : Type) where
  | post (k : ι) (i : StepInput)
  | delete (fails : Bool)

def DeletePhase.locks : DeletePhase → Bool
  | .running (.deleteObject _) => true
  | .running .commit => true
  | _ => false

def Phase.atRow (cfg : Config) (call : Call) : Phase → Bool
  | .start => isValidConversationId call.conversationId && (parseBody cfg call.payload).isOk
  | .running _ (.increment _) => true
  | .running _ (.insert _ _) => true
  | _ => false

/-- A statement on the locked row waits. -/
def sharedStep {ι : Type} [DecidableEq ι] (cfg : Config) (dcfg : DeleteConfig) (tickets : List Uuid)
    (req : DeleteRequest) (calls : ι → Call) (s : Shared ι) : Action ι → Shared ι
  | .post k i =>
    if s.deletion.locks && (s.phase k).atRow cfg (calls k) then s
    else
      let r := postStep cfg (calls k) i s.world (s.phase k)
      { s with world := r.1, phase := Function.update s.phase k r.2.1 }
  | .delete fails =>
    let r := deleteStep dcfg tickets req (s.world, s.deletion) fails
    { s with world := r.1, deletion := r.2 }

/-- 201, 400, 409, 413, 422 or 503. -/
def Reply.Declared (r : Reply) : Prop := r.status ∈ [201, 400, 409, 413, 422, 503]

instance (r : Reply) : Decidable r.Declared := inferInstanceAs (Decidable (_ ∈ _))

def Phase.isRunning : Phase → Bool
  | .running _ _ => true
  | _ => false

/-- After a deletion that answered 204: once no call is under way there is no transcript without a
row, and every call that has answered gave a declared answer. -/
def CleanDeletion {ι : Type} (id : Text) (cid : Uuid) (s : Shared ι) : Prop :=
  s.deletion = .done .noContent →
    ((∀ k, (s.phase k).isRunning = false) → (s.world.bucket.cell id).isSome →
      (s.world.conversations cid).isSome) ∧
    ∀ k r, s.phase k = .done r → r.Declared

/-- The calls nothing guards succeed: the insertion of the row, for a user that is a UUID, and
`blob.reload()`. -/
def Guarded (cfg : Config) (call : Call) (i : StepInput) : Phase → Prop
  | .start => i.outcome ≠ .fails ∧
      ∀ m, parseBody cfg call.payload = .ok m → (Uuid.pgParse m.userId).isSome
  | .running _ .headerReload => i.outcome ≠ .fails
  | .running _ .blockReload => i.outcome ≠ .fails
  | .running _ .healReload => i.outcome ≠ .fails
  | _ => True

def DeletePhase.atRow : DeletePhase → Bool
  | .running (.deleteRow _) => true
  | _ => false

/-- No call is under way when the row is deleted, and no unguarded call fails. -/
def Undisturbed {ι : Type} (cfg : Config) (calls : ι → Call) (s : Shared ι) : Action ι → Prop
  | .post k i => Guarded cfg (calls k) i (s.phase k)
  | .delete _ => s.deletion.atRow → ∀ k, (s.phase k).isRunning = false

/-! ### What a step needs -/

/-- The call goes on the assumption that there is a transcript. -/
def Pc.needsObject : Pc → Bool
  | .headerReload => true
  | .healReload => true
  | .blockReload => true
  | .download healed _ => healed
  | .upload healed _ _ _ => healed
  | _ => false

/-- What a step of a running call does when there is a row, and a transcript where one is needed:
both stay, the row keeps its `gcs_uri`, and an answer is a declared one. -/
structure Progress (id : Text) (cid : Uuid) (w : World) (r : StepResult) : Prop where
  row : (r.1.conversations cid).isSome
  uri : ∀ row', r.1.conversations cid = some row' →
    ∃ row, w.conversations cid = some row ∧ row'.gcsUri = row.gcsUri
  object : (w.bucket.cell id).isSome → (r.1.bucket.cell id).isSome
  next : ∀ pc, r.2.1 = .ok pc → pc.needsObject → (r.1.bucket.cell id).isSome
  declared : ∀ reply, r.2.1 = .error reply → reply.Declared

section
variable {cfg : Config} {id : Text} {i : StepInput} {f : Frame} {w : World}

variable {wr : Option Write} {cid : Uuid} {call : Call} {r : Reply}

theorem Progress.same {next : Except Reply Pc} (hrow : (w.conversations cid).isSome)
    (hnext : ∀ pc, next = .ok pc → pc.needsObject → (w.bucket.cell id).isSome)
    (hdeclared : ∀ reply, next = .error reply → reply.Declared) : Progress id cid w (w, next, wr) :=
  ⟨hrow, fun row' hrow' => ⟨row', hrow', rfl⟩, fun h => h, hnext, hdeclared⟩

theorem uploadHeader_progress {next : Pc} {exists_ : Except Reply Pc}
    (hrow : (w.conversations cid).isSome)
    (hexists : ∀ reply, exists_ = .error reply → reply.Declared) :
    Progress id cid w (uploadHeader cfg id i f w next exists_) := by
  unfold uploadHeader
  split
  · exact .same hrow (by simp) (by simp [storageUnavailable, Reply.Declared, Reply.status])
  · cases hup : w.bucket.upload id 0 (headerText cfg id f.createdAt f.message.userId) with
    | none =>
      refine .same hrow (fun _ _ _ => ?_) hexists
      -- a header is refused only where there is an object
      cases hcell : w.bucket.cell id with
      | some o => rfl
      | none => simp [Bucket.upload, Bucket.generationAt, hcell] at hup
    | some b =>
      obtain ⟨_, rfl⟩ := Bucket.upload_eq_some.mp hup
      exact ⟨hrow, fun row' hrow' => ⟨row', hrow', rfl⟩, by simp, by simp, by simp⟩

theorem reload_progress {next : Nat → Pc} (hrow : (w.conversations cid).isSome)
    (hobject : (w.bucket.cell id).isSome) (hsucceeds : i.outcome ≠ .fails) :
    Progress id cid w (w, reload w id i.outcome next, wr) := by
  refine .same hrow (fun _ _ _ => hobject) fun reply h => ?_
  unfold reload at h
  split at h
  · next hfails => exact absurd hfails hsucceeds
  · next hnone _ => rw [hnone] at hobject; cases hobject
  · cases h

theorem runStep_progress {pc : Pc} (hrow : (w.conversations f.cid).isSome)
    (hobject : pc.needsObject → (w.bucket.cell id).isSome)
    (hguarded : Guarded cfg call i (.running f pc)) :
    Progress id f.cid w (runStep cfg id i f w pc) := by
  cases pc with
  | header => exact uploadHeader_progress hrow (by simp [Reply.Declared, Reply.status])
  | heal => exact uploadHeader_progress hrow (by simp)
  | headerReload => exact reload_progress hrow (hobject rfl) hguarded
  | blockReload => exact reload_progress hrow (hobject rfl) hguarded
  | healReload => exact reload_progress hrow (hobject rfl) hguarded
  | download healed attempt =>
    simp only [runStep]
    split
    · exact .same hrow (by simp) (by simp [storageUnavailable, Reply.Declared, Reply.status])
    · cases hcell : w.bucket.cell id with
      | some o => exact .same hrow (by simp [hcell]) (by simp)
      | none =>
        cases healed with
        | true => rw [hcell] at hobject; exact absurd (hobject rfl) (by simp)
        | false => exact .same hrow (by simp [Pc.needsObject]) (by simp)
  | upload healed attempt current g =>
    simp only [runStep]
    split
    · exact .same hrow (by simp) (by simp [storageUnavailable, Reply.Declared, Reply.status])
    · cases hup : w.bucket.upload id g (current ++ blockText cfg f.message) with
      | some b =>
        obtain ⟨_, rfl⟩ := Bucket.upload_eq_some.mp hup
        exact ⟨hrow, fun row' hrow' => ⟨row', hrow', rfl⟩, by simp, by simp, by simp⟩
      | none =>
        dsimp only
        split
        · refine .same hrow (fun pc hpc hneeds => ?_) (by simp)
          cases hpc
          exact hobject hneeds
        · exact .same hrow (by simp) (by simp [Reply.Declared, Reply.status])
  | increment g =>
    obtain ⟨row, hsome⟩ := Option.isSome_iff_exists.mp hrow
    simp only [runStep, hsome]
    split
    · exact .same hrow (by simp) (by simp [messageOut, Reply.Declared, Reply.status])
    · refine ⟨by simp, fun row' hrow' => ⟨row, hsome, ?_⟩, fun h => h, by simp [Pc.needsObject],
        by simp⟩
      simp only [Function.update_self, Option.some.injEq] at hrow'
      rw [← hrow']
  | insert g n =>
    simp only [runStep]
    refine ⟨?_, ?_, ?_, by simp, by simp [messageOut, Reply.Declared, Reply.status]⟩
    · split <;> exact hrow
    · split <;> exact fun row' hrow' => ⟨row', hrow', rfl⟩
    · split <;> exact fun h => h

theorem parseBody_declared {raw : Json} (h : parseBody cfg raw = .error r) : r.Declared := by
  unfold parseBody at h
  repeat' split at h
  all_goals cases h
  all_goals decide

theorem checkTimestamp_declared {timestamp createdAt : Stamp} {now : Int}
    (h : checkTimestamp timestamp createdAt now = .error r) : r.Declared := by
  unfold checkTimestamp at h
  repeat' split at h
  all_goals cases h
  all_goals decide

/-- What the first step of a call on the conversation does when its insertion succeeds: the
transcripts stay, a row stays or is new with the `gcs_uri` of the call, a call that runs has a row,
and an answer is a declared one. -/
structure Opened (cfg : Config) (id : Text) (cid : Uuid) (w : World) (s : World × Phase) : Prop where
  bucket : s.1.bucket = w.bucket
  kept : ∀ row, w.conversations cid = some row → s.1.conversations cid = some row
  uri : ∀ row, s.1.conversations cid = some row →
    w.conversations cid = some row ∨ row.gcsUri = gcsUri cfg id
  running : ∀ f pc, s.2 = .running f pc →
    f.cid = cid ∧ (s.1.conversations cid).isSome ∧ pc.needsObject = false
  declared : ∀ r, s.2 = .done r → r.Declared

theorem Opened.refused {cid : Uuid} {r : Reply} (hr : r.Declared) :
    Opened cfg id cid w (w, .done r) :=
  ⟨rfl, fun _ h => h, fun _ h => .inl h, by simp, by simpa using hr⟩

theorem startStep_opened (hid : Uuid.pgParse call.conversationId = some cid)
    (hguarded : Guarded cfg call i .start) :
    Opened cfg call.conversationId cid w (startStep cfg call i w) := by
  obtain ⟨hsucceeds, huser⟩ := hguarded
  unfold startStep
  split
  · exact .refused (by decide)
  split
  · next h => exact .refused (parseBody_declared h)
  next m hm =>
  split
  · next h => rw [hid] at h; cases h
  · next h _ =>
    have hsome := huser m hm
    rw [h] at hsome
    cases hsome
  · next h _ _ => exact absurd h hsucceeds
  next _ cid' userId hcid _ _ =>
  obtain rfl := Option.some.inj (hid.symm.trans hcid)
  split
  · exact .refused (by decide)
  have hkept : ∀ row, w.conversations cid = some row → (createIfAbsent w.conversations cid userId
      (gcsUri cfg call.conversationId) m.timestamp).1 cid = some row := by
    intro row hrow
    simp [createIfAbsent, hrow]
  have huri : ∀ row, (createIfAbsent w.conversations cid userId
      (gcsUri cfg call.conversationId) m.timestamp).1 cid = some row →
      w.conversations cid = some row ∨ row.gcsUri = gcsUri cfg call.conversationId := by
    intro row hrow
    cases hold : w.conversations cid with
    | some row' => left; simpa [createIfAbsent, hold] using hrow
    | none =>
      right
      simp only [createIfAbsent, hold, Function.update_self, Option.some.injEq] at hrow
      rw [← hrow]
  have hsome : ((createIfAbsent w.conversations cid userId (gcsUri cfg call.conversationId)
      m.timestamp).1 cid).isSome := by
    cases hold : w.conversations cid with
    | some row => simp [createIfAbsent, hold]
    | none => simp [createIfAbsent, hold]
  dsimp only
  split
  · next h =>
    exact ⟨rfl, hkept, huri, by simp, fun r hr => by cases hr; exact checkTimestamp_declared h⟩
  · refine ⟨rfl, hkept, huri, fun f pc hp => ?_, by simp⟩
    cases hp
    refine ⟨rfl, hsome, ?_⟩
    split <;> rfl

structure Touched (cfg : Config) (id : Text) (cid : Uuid) (w : World) (s : World × Phase) : Prop where
  row : (w.conversations cid).isSome → (s.1.conversations cid).isSome
  uri : ∀ row', s.1.conversations cid = some row' →
    (∃ row, w.conversations cid = some row ∧ row'.gcsUri = row.gcsUri) ∨ row'.gcsUri = gcsUri cfg id
  object : (w.bucket.cell id).isSome → (s.1.bucket.cell id).isSome
  quiet : s.1.conversations cid = none → s.1.bucket.cell id = w.bucket.cell id
  running : ∀ f pc, s.2 = .running f pc → f.cid = cid ∧ (s.1.conversations cid).isSome ∧
    (pc.needsObject → (s.1.bucket.cell id).isSome)
  declared : ∀ r, s.2 = .done r → r.Declared

theorem postStep_touched {p : Phase} (hid : Uuid.pgParse call.conversationId = some cid)
    (hguarded : Guarded cfg call i p)
    (hrunning : ∀ f pc, p = .running f pc → f.cid = cid ∧ (w.conversations cid).isSome ∧
      (pc.needsObject → (w.bucket.cell call.conversationId).isSome))
    (hdone : ∀ r, p = .done r → r.Declared) :
    Touched cfg call.conversationId cid w
      ((postStep cfg call i w p).1, (postStep cfg call i w p).2.1) := by
  cases p with
  | start =>
    have h := startStep_opened (w := w) hid hguarded
    refine ⟨fun hrow => ?_, fun row' hrow' => ?_, fun hobject => ?_, fun _ => ?_, fun f pc hp => ?_,
      h.declared⟩
    · obtain ⟨row, hrow⟩ := Option.isSome_iff_exists.mp hrow
      exact Option.isSome_iff_exists.mpr ⟨row, h.kept row hrow⟩
    · exact (h.uri row' hrow').imp_left fun hrow => ⟨row', hrow, rfl⟩
    · simpa only [postStep, h.bucket] using hobject
    · simp only [postStep, h.bucket]
    · obtain ⟨hcid, hsome, hneeds⟩ := h.running f pc hp
      exact ⟨hcid, hsome, fun hn => by rw [hneeds] at hn; cases hn⟩
  | done r =>
    refine ⟨fun h => h, fun row' h => .inl ⟨row', h, rfl⟩, fun h => h, fun _ => rfl, ?_, hdone⟩
    intro f pc h
    cases h
  | running f pc =>
    obtain ⟨rfl, hrow, hobject⟩ := hrunning f pc rfl
    have h := runStep_progress hrow hobject hguarded
    rw [postStep_resume]
    refine ⟨fun _ => h.row, fun row' hrow' => .inl (h.uri row' hrow'), h.object, fun hnone => ?_,
      fun f' pc' hp => ?_, fun r hr => ?_⟩
    · have hsome := h.row
      dsimp only at hnone
      rw [hnone] at hsome
      cases hsome
    · dsimp only at hp
      cases hnext : (runStep cfg call.conversationId i f w pc).2.1 with
      | ok pc'' =>
        rw [hnext] at hp
        cases hp
        exact ⟨rfl, h.row, h.next _ hnext⟩
      | error r => rw [hnext] at hp; cases hp
    · dsimp only at hr
      cases hnext : (runStep cfg call.conversationId i f w pc).2.1 with
      | ok pc'' => rw [hnext] at hr; cases hr
      | error r' =>
        rw [hnext] at hr
        cases hr
        exact h.declared _ hnext

theorem startStep_refused (h : Phase.start.atRow cfg call = false) :
    ∃ r, startStep cfg call i w = (w, .done r) := by
  unfold startStep
  split
  · exact ⟨_, rfl⟩
  next hvalid =>
  cases hparse : parseBody cfg call.payload with
  | error r => exact ⟨_, rfl⟩
  | ok m =>
    have hvalid' : isValidConversationId call.conversationId = true := by simpa using hvalid
    simp [Phase.atRow, hvalid', hparse, Except.isOk, Except.toBool] at h

end

/-! ### The invariant -/

section
variable {ι : Type} {cfg : Config} {id : Text} {cid : Uuid}

/-- Where the deletion stands: what it has read is the conversation's `gcs_uri`; from the deletion
of the row on no call is under way; and after the 204 a transcript has a row. -/
def DeletionAt (cfg : Config) (id : Text) (cid : Uuid) (s : Shared ι) : DeletePhase → Prop
  | .running (.deleteRow uri) =>
    uri = gcsUri cfg id ∧ (s.world.conversations cid).isSome
  | .running (.deleteObject path) => path = objectName id ∧ (s.world.conversations cid).isSome ∧
      ∀ k, (s.phase k).isRunning = false
  | .running .commit => s.world.bucket.cell id = none ∧ (s.world.conversations cid).isSome ∧
      ∀ k, (s.phase k).isRunning = false
  | .done .noContent => s.world.conversations cid = none → s.world.bucket.cell id = none
  | _ => True

structure SharedInv (cfg : Config) (id : Text) (cid : Uuid) (s : Shared ι) : Prop where
  uri : ∀ row, s.world.conversations cid = some row → row.gcsUri = gcsUri cfg id
  running : ∀ k f pc, s.phase k = .running f pc → f.cid = cid ∧
    (s.world.conversations cid).isSome ∧ (pc.needsObject → (s.world.bucket.cell id).isSome)
  declared : ∀ k r, s.phase k = .done r → r.Declared
  deletion : DeletionAt cfg id cid s s.deletion

variable {s : Shared ι}

theorem SharedInv.clean (h : SharedInv cfg id cid s) : CleanDeletion id cid s := by
  intro hdone
  have hat := h.deletion
  rw [hdone] at hat
  refine ⟨fun _ hobject => ?_, h.declared⟩
  by_contra hrow
  rw [Option.not_isSome_iff_eq_none] at hrow
  rw [hat hrow] at hobject
  cases hobject

variable [DecidableEq ι] {calls : ι → Call} {dcfg : DeleteConfig} {tickets : List Uuid}
  {req : DeleteRequest}

theorem SharedInv.touched (h : SharedInv cfg id cid s) {k : ι} {w : World} {p : Phase}
    (ht : Touched cfg id cid s.world (w, p))
    (hlocked : s.deletion.locks = true → w = s.world ∧ p.isRunning = false) :
    SharedInv cfg id cid { s with world := w, phase := Function.update s.phase k p } where
  uri := by
    intro row' hrow'
    rcases ht.uri row' hrow' with ⟨row, hrow, huri⟩ | huri
    · rw [huri, h.uri row hrow]
    · exact huri
  running := by
    refine (Function.forall_update_iff s.phase fun _ q => ∀ f pc, q = .running f pc →
      f.cid = cid ∧ (w.conversations cid).isSome ∧
        (pc.needsObject → (w.bucket.cell id).isSome)).mpr ⟨ht.running, fun j _ f pc hp => ?_⟩
    obtain ⟨hcid, hrow, hobject⟩ := h.running j f pc hp
    exact ⟨hcid, ht.row hrow, fun hneeds => ht.object (hobject hneeds)⟩
  declared :=
    (Function.forall_update_iff s.phase fun _ q => ∀ r, q = .done r → r.Declared).mpr
      ⟨ht.declared, fun j _ => h.declared j⟩
  deletion := by
    have hat := h.deletion
    have hstill : (∀ j, (s.phase j).isRunning = false) → p.isRunning = false →
        ∀ j, (Function.update s.phase k p j).isRunning = false := fun hall hp =>
      (Function.forall_update_iff s.phase fun _ q => q.isRunning = false).mpr
        ⟨hp, fun j _ => hall j⟩
    dsimp only
    cases hd : s.deletion with
    | done r =>
      rw [hd] at hat
      cases r with
      | noContent =>
        intro hnone
        rw [ht.quiet hnone]
        refine hat (Option.not_isSome_iff_eq_none.mp fun hrow => ?_)
        have hsome := ht.row hrow
        dsimp only at hnone
        rw [hnone] at hsome
        cases hsome
      | _ => trivial
    | running pc =>
      rw [hd] at hat hlocked
      cases pc with
      | begin => trivial
      | select => trivial
      | deleteRow uri => exact ⟨hat.1, ht.row hat.2⟩
      | deleteObject path =>
        obtain ⟨rfl, hp⟩ := hlocked rfl
        exact ⟨hat.1, hat.2.1, hstill hat.2.2 hp⟩
      | commit =>
        obtain ⟨rfl, hp⟩ := hlocked rfl
        exact ⟨hat.1, hat.2.1, hstill hat.2.2 hp⟩

theorem SharedInv.post (h : SharedInv cfg id cid s) (k : ι) (i : StepInput)
    (hcall : (calls k).conversationId = id) (hid : Uuid.pgParse id = some cid)
    (hguarded : Guarded cfg (calls k) i (s.phase k)) :
    SharedInv cfg id cid (sharedStep cfg dcfg tickets req calls s (.post k i)) := by
  simp only [sharedStep]
  split
  · exact h
  next hfree =>
  subst hcall
  refine h.touched (postStep_touched hid hguarded (h.running k) (h.declared k)) fun hlocks => ?_
  -- while the row is locked nobody runs, and a call that does not wait is refused
  have hidle : (s.phase k).isRunning = false := by
    have hat := h.deletion
    cases hd : s.deletion with
    | done r => rw [hd] at hlocks; cases hlocks
    | running pc =>
      rw [hd] at hat hlocks
      cases pc with
      | deleteObject path => exact hat.2.2 k
      | commit => exact hat.2.2 k
      | _ => cases hlocks
  cases hp : s.phase k with
  | start =>
    have hrow : Phase.start.atRow cfg (calls k) = false := by
      rw [hp, hlocks] at hfree
      simpa using hfree
    obtain ⟨r, hr⟩ := startStep_refused (i := i) (w := s.world) hrow
    simp [postStep, hr, Phase.isRunning]
  | running f pc => rw [hp] at hidle; cases hidle
  | done r => exact ⟨rfl, rfl⟩

theorem gcsUriToObjectPath_gcsUri (cfg : Config) (id : Text) :
    gcsUriToObjectPath (gcsUri cfg id) cfg.bucketName = some (objectName id) := by
  unfold gcsUriToObjectPath gcsUri objectName
  exact Text.dropPrefix?_eq_some.mpr (List.append_assoc _ _ _)

theorem SharedInv.delete (h : SharedInv cfg id req.conversationId s) {pool : Bool} (fails : Bool)
    (hcalm : s.deletion.atRow → ∀ k, (s.phase k).isRunning = false) :
    SharedInv cfg id req.conversationId
      (sharedStep cfg ⟨pool, cfg.bucketName⟩ tickets req calls s (.delete fails)) := by
  obtain ⟨w, phase, deletion⟩ := s
  have hat := h.deletion
  -- a call that fails leaves the world alone and ends the deletion without a 204
  have hstop : ∀ r, r ≠ .noContent →
      SharedInv cfg id req.conversationId ⟨w, phase, .done r⟩ := by
    intro r hr
    refine ⟨h.uri, h.running, h.declared, ?_⟩
    cases r with
    | noContent => exact absurd rfl hr
    | _ => trivial
  -- with nobody under way the obligations of the calls are empty
  have hnobody : (∀ k, (phase k).isRunning = false) → ∀ k f pc, phase k ≠ .running f pc := by
    intro hidle k f pc hp
    have := hidle k
    rw [hp] at this
    cases this
  cases deletion with
  | done r => exact h
  | running pc =>
    simp only [sharedStep, deleteStep]
    cases pc with
    | begin =>
      simp only [deleteCall]
      split
      · exact hstop _ (by decide)
      · exact ⟨h.uri, h.running, h.declared, trivial⟩
    | select =>
      simp only [deleteCall]
      split
      · exact hstop _ (by decide)
      · cases hrow : w.conversations req.conversationId with
        | none => exact hstop _ (by decide)
        | some row =>
          dsimp only
          split
          · exact hstop _ (by decide)
          · split
            · exact hstop _ (by decide)
            · exact ⟨h.uri, h.running, h.declared, h.uri row hrow, by simp [hrow]⟩
    | deleteRow uri =>
      simp only [deleteCall]
      split
      · exact hstop _ (by decide)
      · rw [hat.1, gcsUriToObjectPath_gcsUri]
        exact ⟨h.uri, h.running, h.declared, rfl, hat.2, hcalm rfl⟩
    | deleteObject path =>
      simp only [deleteCall]
      split
      · exact hstop _ (by decide)
      · obtain ⟨hpath, hrow, hidle⟩ := hat
        refine ⟨h.uri, fun k f pc hp => absurd hp (hnobody hidle k f pc), h.declared, ?_, hrow,
          hidle⟩
        simp [Bucket.remove, hpath]
    | commit =>
      simp only [deleteCall]
      split
      · exact hstop _ (by decide)
      · obtain ⟨hcell, _, hidle⟩ := hat
        refine ⟨fun row hrow => ?_, fun k f pc hp => absurd hp (hnobody hidle k f pc), h.declared,
          fun _ => hcell⟩
        simp at hrow

/-- One deletion and any number of calls on the same conversation, whose row has the `gcs_uri` of
its id, in any order and with any failures of the guarded calls: when no call is under way as the
row is deleted, every state is clean. -/
theorem deletion_leaves_no_orphan (cfg : Config) (pool : Bool) (tickets : List Uuid)
    (req : DeleteRequest) (id : Text) (hid : Uuid.pgParse id = some req.conversationId)
    (payloads : ι → Json) (w : World)
    (huri : ∀ row, w.conversations req.conversationId = some row → row.gcsUri = gcsUri cfg id)
    (schedule : List (Action ι))
    (hcalm : Run.Along (sharedStep cfg ⟨pool, cfg.bucketName⟩ tickets req fun k => ⟨id, payloads k⟩)
      (Undisturbed cfg fun k => ⟨id, payloads k⟩) (Shared.init w) schedule) :
    Run.Always (sharedStep cfg ⟨pool, cfg.bucketName⟩ tickets req fun k => ⟨id, payloads k⟩)
      (CleanDeletion id req.conversationId) (Shared.init w) schedule := by
  have hinit : SharedInv cfg id req.conversationId (Shared.init w : Shared ι) :=
    ⟨huri, fun _ _ _ h => (by cases h), fun _ _ h => (by cases h), trivial⟩
  have hinv : Run.Always (sharedStep cfg ⟨pool, cfg.bucketName⟩ tickets req fun k => ⟨id, payloads k⟩)
      (SharedInv cfg id req.conversationId) (Shared.init w) schedule := by
    refine Run.always_of_along (fun s a h ha => ?_) schedule _ hinit hcalm
    cases a with
    | post k i => exact h.post k i rfl hid ha
    | delete fails => exact h.delete fails ha
  exact Run.always_mono (fun _ h => h.clean) schedule _ hinv

end

instance (cfg : Config) (payload : Json) : Decidable
    (∀ m, parseBody cfg payload = .ok m → (Uuid.pgParse m.userId).isSome) :=
  match h : parseBody cfg payload with
  | .ok m => decidable_of_iff (Uuid.pgParse m.userId).isSome (by simp)
  | .error _ => isTrue (by simp)

instance (cfg : Config) (call : Call) (i : StepInput) : (p : Phase) → Decidable (Guarded cfg call i p)
  | .start => inferInstanceAs (Decidable (_ ∧ _))
  | .done _ => inferInstanceAs (Decidable True)
  | .running _ .headerReload | .running _ .blockReload | .running _ .healReload =>
    inferInstanceAs (Decidable (¬ _))
  | .running _ .header | .running _ .heal | .running _ (.download ..) | .running _ (.upload ..)
  | .running _ (.increment _) | .running _ (.insert ..) => inferInstanceAs (Decidable True)

instance (cfg : Config) (calls : Bool → Call) (s : Shared Bool) :
    (a : Action Bool) → Decidable (Undisturbed cfg calls s a)
  | .post _ _ => inferInstanceAs (Decidable (Guarded ..))
  | .delete _ => inferInstanceAs (Decidable (_ → ∀ _k : Bool, _))

def deleteSteps (n : Nat) : List (Action Bool) := List.replicate n (.delete false)

def postSteps (k : Bool) (n : Nat) : List (Action Bool) := List.replicate n (.post k ⟨.ok, 0⟩)

def deletedBetween : List (Action Bool) := postSteps false 8 ++ deleteSteps 5 ++ postSteps true 8

def sampleShared (schedule : List (Action Bool)) : Shared Bool :=
  Run.exec (sharedStep sampleConfig deleteConfig [] deleteRequest
    fun k => ⟨(sampleId 5).toText, (twoCalls k).payload⟩) (Shared.init World.init) schedule

theorem deletion_leaves_no_orphan_deletedBetween :
    Run.Always (sharedStep sampleConfig deleteConfig [] deleteRequest
        fun k => ⟨(sampleId 5).toText, (twoCalls k).payload⟩)
      (CleanDeletion (sampleId 5).toText (sampleId 5)) (Shared.init World.init) deletedBetween ∧
    (sampleShared deletedBetween).deletion = .done .noContent :=
  ⟨deletion_leaves_no_orphan sampleConfig true [] deleteRequest (sampleId 5).toText
    (by decide +kernel) (fun k => (twoCalls k).payload) World.init (fun _ h => by cases h)
    deletedBetween (by decide +kernel), by decide +kernel⟩

/-- The second message finds no transcript, because the deletion has just removed it, and writes a
new one; then the row is gone. -/
def deletedWithin : List (Action Bool) :=
  postSteps false 8 ++ postSteps true 1 ++ deleteSteps 4 ++ postSteps true 5 ++ deleteSteps 1 ++
    postSteps true 2

theorem orphan_after_deletion :
    (sampleShared deletedWithin).deletion = .done .noContent ∧
      ((sampleShared deletedWithin).world.bucket.cell (sampleId 5).toText).isSome ∧
      (sampleShared deletedWithin).world.conversations (sampleId 5) = none ∧
      (sampleShared deletedWithin).phase true = .done .uncaught ∧
      ¬ CleanDeletion (sampleId 5).toText (sampleId 5) (sampleShared deletedWithin) := by
  have hdone : (sampleShared deletedWithin).deletion = .done .noContent := by decide +kernel
  have huncaught : (sampleShared deletedWithin).phase true = .done .uncaught := by decide +kernel
  refine ⟨hdone, by decide +kernel, by decide +kernel, huncaught, fun h => ?_⟩
  exact absurd ((h hdone).2 true _ huncaught) (by decide)

end Archiviste.Conversation
