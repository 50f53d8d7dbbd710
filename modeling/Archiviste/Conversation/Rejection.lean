import Archiviste.Conversation.Ordinals

/-!
# Archiviste.Conversation.Rejection

One `post_message` call on its own, from any state, and what it leaves behind when it is rejected.

A call alone takes at most `callSteps` steps (`postMessage_finishes`). It inserts the row of a new
conversation before it checks the timestamp and before it knows whether the header can be uploaded,
and both can still reject it; the row then stays, with the rejected message's time as the
conversation's. `rejection_harmless_iff` says that these are the only traces, and `clock_poisoned`
what a trace does to later messages.
-/

namespace Archiviste.Conversation

/-! ## A call on its own -/

def soloStep (cfg : Config) (call : Call) (s : World × Phase) (i : StepInput) : World × Phase :=
  let r := postStep cfg call i s.1 s.2
  (r.1, r.2.1)

/-- Enough steps for a call that nobody interferes with. -/
def callSteps : Nat := 11

/-- `post_message` from the state `w`, where `inputs n` is how its `n`th step ends. -/
def postMessage (cfg : Config) (call : Call) (inputs : Nat → StepInput) (w : World) :
    World × Phase :=
  Run.exec (soloStep cfg call) (w, .start) ((List.range callSteps).map inputs)

def Pc.rank : Pc → Nat
  | .header => 10
  | .headerReload => 9
  | .download false _ => 8
  | .heal => 7
  | .healReload => 6
  | .download true _ => 5
  | .upload _ _ _ _ => 4
  | .blockReload => 3
  | .increment _ => 2
  | .insert _ _ => 1

def Phase.rank : Phase → Nat
  | .start => callSteps
  | .running _ pc => pc.rank
  | .done _ => 0

/-- A call that is about to upload its block holds the current generation. -/
def Steady (id : Text) (s : World × Phase) : Prop :=
  ∀ f healed attempt current g, s.2 = .running f (.upload healed attempt current g) →
    s.1.bucket.generationAt id = g

section
variable {cfg : Config} {call : Call} {i : StepInput} {w : World} {f : Frame}

theorem soloStep_steady (s : World × Phase) (i : StepInput) :
    Steady call.conversationId (soloStep cfg call s i) := by
  have hwrote := postStep_wrote cfg call i s.1 s.2
  unfold soloStep
  generalize postStep cfg call i s.1 s.2 = r at hwrote
  obtain ⟨w', p, wr⟩ := r
  generalize s.2 = p₀ at hwrote
  intro f healed attempt current g hp
  dsimp only at hwrote hp ⊢
  generalize w'.bucket = b at hwrote ⊢
  cases hwrote with
  | quiet _ _ hholds =>
    have hcell := hholds f healed attempt current g hp
    simp [Bucket.generationAt, hcell]
  | header _ hnext => cases hp; exact absurd rfl (hnext _ _ _ _)
  | block => cases hp

@[simp] theorem rank_resume_ok (f : Frame) (pc : Pc) : (f.resume (.ok pc)).rank = pc.rank := rfl

@[simp] theorem rank_resume_error (f : Frame) (r : Reply) : (f.resume (.error r)).rank = 0 := rfl

variable {n : Nat} {pc : Pc}

theorem reload_rank {id : Text} {next : Nat → Pc} (hn : ∀ g, (next g).rank ≤ n) :
    (f.resume (reload w id i.outcome next)).rank ≤ n := by
  unfold reload
  split <;> simp [hn]

theorem uploadHeader_rank {id : Text} {next : Pc} {exists_ : Except Reply Pc}
    (hnext : next.rank ≤ n) (hexists : (f.resume exists_).rank ≤ n) :
    (f.resume (uploadHeader cfg id i f w next exists_).2.1).rank ≤ n := by
  unfold uploadHeader
  split
  · simp
  · split
    · exact hexists
    · exact hnext

theorem runStep_rank (hsteady : Steady call.conversationId (w, .running f pc)) :
    (f.resume (runStep cfg call.conversationId i f w pc).2.1).rank ≤ pc.rank - 1 := by
  cases pc with
  | header => exact uploadHeader_rank (by simp [Pc.rank]) (by simp)
  | headerReload =>
    simp only [runStep]
    exact reload_rank fun _ => by simp [Pc.rank]
  | download healed attempt =>
    simp only [runStep]
    split
    · simp
    · split
      · cases healed <;> simp [Pc.rank]
      · cases healed <;> simp [Pc.rank]
  | upload healed attempt current g =>
    have hgen : w.bucket.generationAt call.conversationId = g :=
      hsteady f healed attempt current g rfl
    simp only [runStep, Bucket.upload, hgen, if_true]
    split <;> simp [Pc.rank]
  | blockReload =>
    simp only [runStep]
    exact reload_rank fun _ => by simp [Pc.rank]
  | heal => exact uploadHeader_rank (by simp [Pc.rank]) (by simp [Pc.rank])
  | healReload =>
    simp only [runStep]
    exact reload_rank fun _ => by simp [Pc.rank]
  | increment g =>
    simp only [runStep]
    split
    · simp
    · split <;> simp [Pc.rank]
  | insert g n => simp [runStep]

theorem startStep_rank (cfg : Config) (call : Call) (i : StepInput) (w : World) :
    (startStep cfg call i w).2.rank ≤ callSteps - 1 := by
  obtain ⟨_, ⟨r, hr, _⟩ | ⟨f, pc, hr, hpc, _⟩⟩ := startStep_cases cfg call i w
  · rw [hr]; exact Nat.zero_le _
  · rw [hr]
    rcases hpc with rfl | rfl <;> simp [Phase.rank, Pc.rank, callSteps]

theorem soloStep_rank (s : World × Phase) (i : StepInput) (h : Steady call.conversationId s) :
    (soloStep cfg call s i).2.rank ≤ s.2.rank - 1 := by
  obtain ⟨w, p⟩ := s
  cases p with
  | start => exact startStep_rank cfg call i w
  | running f pc =>
    simp only [soloStep, postStep_resume]
    exact runStep_rank h
  | done r => exact Nat.le_refl 0

/-- A call that nobody interferes with answers, whatever its steps meet. -/
theorem postMessage_finishes (cfg : Config) (call : Call) (inputs : Nat → StepInput) (w : World) :
    ∃ r, (postMessage cfg call inputs w).2 = .done r := by
  have hstart : Steady call.conversationId (w, .start) := by intro f _ _ _ _ h; cases h
  have hrank : (postMessage cfg call inputs w).2.rank ≤ callSteps - _ :=
    Run.rank_exec (fun s => s.2.rank) (fun s i _ => @soloStep_steady cfg call s i) soloStep_rank
      ((List.range callSteps).map inputs) _ hstart
  rw [List.length_map, List.length_range, Nat.sub_self] at hrank
  generalize (postMessage cfg call inputs w).2 = p at hrank
  cases p with
  | start => exact absurd hrank (by decide)
  | running f pc =>
    rw [Phase.rank] at hrank
    rcases pc with _ | _ | ⟨_ | _, _⟩ | _ | _ | _ | _ | _ | _ <;>
      exact absurd hrank (by simp [Pc.rank])
  | done r => exact ⟨r, rfl⟩

/-! ## Rejections -/

def Reply.Rejects (r : Reply) : Prop := 400 ≤ r.status ∧ r.status < 500

instance (r : Reply) : Decidable r.Rejects := inferInstanceAs (Decidable (_ ∧ _))

/-- A rejected call leaves tables and transcripts as they were. -/
def LeavesNoTrace (w : World) (s : World × Phase) : Prop :=
  ∀ r, s.2 = .done r → r.Rejects → s.1 = w

/-- The first step of the call inserts the row of a new conversation. -/
structure Inserts (cfg : Config) (call : Call) (i : StepInput) (w : World) (m : MessageIn)
    (cid userId : Uuid) : Prop where
  valid : isValidConversationId call.conversationId
  parsed : parseBody cfg call.payload = .ok m
  named : Uuid.pgParse call.conversationId = some cid
  user : Uuid.pgParse m.userId = some userId
  succeeds : i.outcome ≠ .fails
  absent : w.conversations cid = none

/-- The call inserts a row and is rejected after that: its message is too far ahead of the clock, or
the transcript is already there when the header is uploaded. -/
def RejectedAfterInsert (cfg : Config) (call : Call) (inputs : Nat → StepInput) (w : World) : Prop :=
  ∃ m cid userId, Inserts cfg call (inputs 0) w m cid userId ∧
    ((inputs 0).now + futureTolerance < m.timestamp.instant ∨
      w.bucket.generationAt call.conversationId ≠ 0 ∧ (inputs 1).outcome ≠ .fails)

def PastRejection (id : Text) (s : World × Phase) : Prop :=
  Steady id s ∧ s.2 ≠ .start ∧ (∀ f, s.2 ≠ .running f .header) ∧ ∀ r, s.2 = .done r → ¬ r.Rejects

theorem not_rejects_created (out : MessageOut) : ¬ (Reply.created out).Rejects := by
  simp [Reply.Rejects, Reply.status]

theorem not_rejects_uncaught : ¬ Reply.uncaught.Rejects := by decide

theorem not_rejects_storageUnavailable : ¬ storageUnavailable.Rejects := by decide

/-- The only rejections of a running call are the header that is already there and the race for the
transcript, which a call alone does not lose. -/
theorem runStep_not_rejects (hsteady : Steady call.conversationId (w, .running f pc))
    (hpc : pc ≠ .header) {r : Reply}
    (h : (runStep cfg call.conversationId i f w pc).2.1 = .error r) : ¬ r.Rejects := by
  have hreload : ∀ next : Nat → Pc, reload w call.conversationId i.outcome next = .error r →
      ¬ r.Rejects := by
    intro next h
    unfold reload at h
    split at h <;> cases h <;> exact not_rejects_uncaught
  cases pc with
  | header => exact absurd rfl hpc
  | headerReload =>
    simp only [runStep] at h
    exact hreload _ h
  | blockReload =>
    simp only [runStep] at h
    exact hreload _ h
  | healReload =>
    simp only [runStep] at h
    exact hreload _ h
  | download healed attempt =>
    simp only [runStep] at h
    repeat' split at h
    all_goals cases h
    · exact not_rejects_storageUnavailable
    · exact not_rejects_uncaught
  | upload healed attempt current g =>
    have hgen : w.bucket.generationAt call.conversationId = g :=
      hsteady f healed attempt current g rfl
    simp only [runStep, Bucket.upload, hgen, if_true] at h
    split at h <;> cases h
    exact not_rejects_storageUnavailable
  | heal =>
    simp only [runStep, uploadHeader] at h
    repeat' split at h
    all_goals cases h
    exact not_rejects_storageUnavailable
  | increment g =>
    simp only [runStep] at h
    repeat' split at h
    all_goals cases h
    · exact not_rejects_created _
    · exact not_rejects_uncaught
  | insert g n =>
    cases h
    exact not_rejects_created _

theorem runStep_ne_header : (runStep cfg call.conversationId i f w pc).2.1 ≠ .ok .header := by
  intro h
  cases pc <;> simp only [runStep, uploadHeader, reload] at h
  all_goals (repeat' split at h) <;> cases h

theorem soloStep_pastRejection (s : World × Phase) (i : StepInput)
    (h : PastRejection call.conversationId s) :
    PastRejection call.conversationId (soloStep cfg call s i) := by
  obtain ⟨w, p⟩ := s
  obtain ⟨hsteady, hstart, hheader, hdone⟩ := h
  refine ⟨soloStep_steady _ i, ?_⟩
  cases p with
  | start => exact absurd rfl hstart
  | done r => exact ⟨hstart, hheader, hdone⟩
  | running f pc =>
    have hpc : pc ≠ .header := fun hpc => hheader f (by rw [hpc])
    simp only [soloStep, postStep_resume]
    cases hnext : (runStep cfg call.conversationId i f w pc).2.1 with
    | ok pc' =>
      refine ⟨by simp [Frame.resume], fun f' hf => ?_, by simp [Frame.resume]⟩
      cases hf
      exact runStep_ne_header hnext
    | error r =>
      refine ⟨by simp [Frame.resume], by simp [Frame.resume], fun r' hr' => ?_⟩
      cases hr'
      exact runStep_not_rejects hsteady hpc hnext

/-- What the first step does: it changes nothing, or it inserts the row and then answers 422 or goes
on to the header. -/
inductive Began (cfg : Config) (call : Call) (i : StepInput) (w : World) : World × Phase → Prop where
  | unchanged {p : Phase} (hp : (∃ r, p = .done r) ∨ ∃ f, p = .running f (.download false 0))
      (hno : ∀ m cid userId, ¬ Inserts cfg call i w m cid userId) : Began cfg call i w (w, p)
  | refused {m : MessageIn} {cid userId : Uuid} {w' : World}
      (h : Inserts cfg call i w m cid userId) (hrow : (w'.conversations cid).isSome)
      (hfuture : i.now + futureTolerance < m.timestamp.instant) :
      Began cfg call i w (w', .done (.error 422 "timestamp_in_future"))
  | inserted {m : MessageIn} {cid userId : Uuid} {w' : World} {f : Frame}
      (h : Inserts cfg call i w m cid userId) (hrow : (w'.conversations cid).isSome)
      (hbucket : w'.bucket = w.bucket)
      (hfuture : ¬ i.now + futureTolerance < m.timestamp.instant) :
      Began cfg call i w (w', .running f .header)

theorem checkTimestamp_utc (t : Stamp) (now : Int) :
    checkTimestamp t t.utc now =
      if now + futureTolerance < t.instant then .error (.error 422 "timestamp_in_future")
      else .ok () := by
  simp [checkTimestamp, Stamp.utc]

theorem startStep_began (cfg : Config) (call : Call) (i : StepInput) (w : World) :
    Began cfg call i w (startStep cfg call i w) := by
  unfold startStep
  split
  · next hvalid => exact .unchanged (.inl ⟨_, rfl⟩) fun _ _ _ h => by simp [h.valid] at hvalid
  split
  · next hparse =>
    exact .unchanged (.inl ⟨_, rfl⟩) fun _ _ _ h => by rw [h.parsed] at hparse; cases hparse
  next hvalid _ m hm =>
  have hsame : ∀ {m' cid userId}, Inserts cfg call i w m' cid userId → m' = m := fun h =>
    Except.ok.inj (h.parsed.symm.trans hm)
  split
  · next hcid => exact .unchanged (.inl ⟨_, rfl⟩) fun _ _ _ h => by rw [h.named] at hcid; cases hcid
  · next huser _ =>
    exact .unchanged (.inl ⟨_, rfl⟩) fun _ _ _ h => by
      rw [← hsame h, h.user] at huser; cases huser
  · next hfails _ _ => exact .unchanged (.inl ⟨_, rfl⟩) fun _ _ _ h => h.succeeds hfails
  next _ cid userId hcid huser hsucceeds =>
  have hrow : ∀ {row}, w.conversations cid = some row →
      ∀ m' cid' userId', ¬ Inserts cfg call i w m' cid' userId' := by
    intro row hrow m' cid' userId' h
    obtain rfl := Option.some.inj (hcid.symm.trans h.named)
    rw [h.absent] at hrow
    cases hrow
  split
  · next hseen =>
    obtain ⟨row, hsome⟩ := Option.isSome_iff_exists.mp hseen.2
    exact .unchanged (.inl ⟨_, rfl⟩) (hrow hsome)
  cases habsent : w.conversations cid with
  | some row =>
    simp only [createIfAbsent, habsent]
    split
    · exact .unchanged (.inl ⟨_, rfl⟩) (hrow habsent)
    · exact .unchanged (.inr ⟨_, rfl⟩) (hrow habsent)
  | none =>
    have hinserts : Inserts cfg call i w m cid userId :=
      ⟨by simpa using hvalid, hm, hcid, huser, hsucceeds, habsent⟩
    simp only [createIfAbsent, habsent, checkTimestamp_utc]
    by_cases hfuture : i.now + futureTolerance < m.timestamp.instant
    · simp only [hfuture, if_true]
      exact .refused hinserts (by simp) hfuture
    · simp only [hfuture, if_false]
      exact .inserted hinserts (by simp) rfl hfuture

theorem exec_done (cfg : Config) (call : Call) (w : World) (r : Reply) (inputs : List StepInput) :
    Run.exec (soloStep cfg call) (w, .done r) inputs = (w, .done r) := by
  induction inputs with
  | nil => rfl
  | cons i inputs ih => exact ih

theorem leavesNoTrace_of_pastRejection {s : World × Phase} (w : World)
    (h : PastRejection call.conversationId s) (inputs : List StepInput) :
    LeavesNoTrace w (Run.exec (soloStep cfg call) s inputs) := by
  have hend : PastRejection call.conversationId (Run.exec (soloStep cfg call) s inputs) :=
    Run.exec_inv soloStep_pastRejection inputs s h
  intro r hr hrejects
  exact absurd hrejects (hend.2.2.2 r hr)

theorem header_leavesNoTrace_iff {w' : World} {cid : Uuid} (i : StepInput) (inputs : List StepInput)
    (habsent : w.conversations cid = none) (hrow : (w'.conversations cid).isSome)
    (hbucket : w'.bucket = w.bucket) :
    LeavesNoTrace w (Run.exec (soloStep cfg call) (w', .running f .header) (i :: inputs)) ↔
      ¬ (w.bucket.generationAt call.conversationId ≠ 0 ∧ i.outcome ≠ .fails) := by
  rw [Run.exec_cons]
  simp only [soloStep, postStep_resume, runStep, uploadHeader, Bucket.upload, hbucket]
  by_cases hfails : i.outcome = .fails
  · rw [if_pos hfails]
    dsimp only [Frame.resume]
    rw [exec_done]
    refine ⟨fun _ h => h.2 hfails, fun _ r hr hrejects => ?_⟩
    cases hr
    exact absurd hrejects not_rejects_storageUnavailable
  · rw [if_neg hfails]
    by_cases hgen : w.bucket.generationAt call.conversationId = 0
    · rw [if_pos hgen]
      dsimp only [Frame.resume]
      refine ⟨fun _ h => h.1 hgen, fun _ => leavesNoTrace_of_pastRejection w ?_ inputs⟩
      refine ⟨?_, by simp, by simp, by simp⟩
      intro f _ _ _ _ h
      cases h
    · rw [if_neg hgen]
      dsimp only [Frame.resume]
      rw [exec_done]
      refine ⟨fun h => ?_, fun h => absurd ⟨hgen, hfails⟩ h⟩
      have hsame := h _ rfl (by decide)
      rw [← hsame] at habsent
      dsimp only at habsent
      rw [habsent] at hrow
      cases hrow

/-- A rejected call leaves everything as it was, from any state, unless it inserts a row and is
rejected after that. -/
theorem rejection_harmless_iff (cfg : Config) (call : Call) (inputs : Nat → StepInput) (w : World) :
    LeavesNoTrace w (postMessage cfg call inputs w) ↔ ¬ RejectedAfterInsert cfg call inputs w := by
  have hinputs : (List.range callSteps).map inputs =
      inputs 0 :: inputs 1 :: (List.range 9).map fun n => inputs (n + 2) := rfl
  have hbegan := startStep_began cfg call (inputs 0) w
  have hfirst : soloStep cfg call (w, .start) (inputs 0) = startStep cfg call (inputs 0) w := rfl
  rw [postMessage, hinputs, Run.exec_cons, hfirst]
  generalize startStep cfg call (inputs 0) w = s at hbegan
  cases hbegan with
  | unchanged hp hno =>
    refine ⟨fun _ ⟨m, cid, userId, h, _⟩ => hno m cid userId h, fun _ => ?_⟩
    rcases hp with ⟨r, rfl⟩ | ⟨f, rfl⟩
    · rw [exec_done]
      exact fun _ _ _ => rfl
    · refine leavesNoTrace_of_pastRejection w ⟨?_, by simp, by simp, by simp⟩ _
      intro f _ _ _ _ h
      cases h
  | @refused m cid userId w' h hrow hfuture =>
    rw [exec_done]
    refine ⟨fun htrace => ?_, fun hno => absurd ⟨m, cid, userId, h, .inl hfuture⟩ hno⟩
    have hsame : w' = w := htrace _ rfl (by decide)
    rw [hsame, h.absent] at hrow
    cases hrow
  | @inserted m cid userId w' f h hrow hbucket hfuture =>
    rw [header_leavesNoTrace_iff (inputs 1) _ h.absent hrow hbucket, not_iff_not]
    refine ⟨fun hheader => ⟨m, cid, userId, h, .inr hheader⟩, ?_⟩
    rintro ⟨m', cid', userId', h', hcase⟩
    obtain rfl := Except.ok.inj (h.parsed.symm.trans h'.parsed)
    exact hcase.resolve_left hfuture

end

def clockConfig : Config :=
  { sampleConfig with
    parseDatetime := fun
      | .str t => some ⟨if t = "ahead".toList then 7200000000 else 0, some 0⟩
      | _ => none }

def timedCall (timestamp : String) : Call where
  conversationId := (sampleId 5).toText
  payload := .obj [("role".toList, .str "user".toList), ("content".toList, .str "Bonjour".toList),
    ("timestamp".toList, .str timestamp.toList), ("user_id".toList, .str (sampleId 1).toText)]

/-- A message two hours ahead is rejected, and its row stays: the next message, accepted without it,
is rejected as older than the conversation. -/
theorem clock_poisoned :
    let inputs : Nat → StepInput := fun _ => ⟨.ok, 0⟩
    let s := postMessage clockConfig (timedCall "ahead") inputs World.init
    s.2 = .done (.error 422 "timestamp_in_future") ∧
      (s.1.conversations (sampleId 5)).isSome ∧ ¬ LeavesNoTrace World.init s ∧
      (postMessage clockConfig (timedCall "now") inputs s.1).2 =
        .done (.error 422 "timestamp_before_conversation") ∧
      (postMessage clockConfig (timedCall "now") inputs World.init).2 =
        .done (.created ⟨(sampleId 5).toText, 1, gcsUri clockConfig (sampleId 5).toText, 2⟩) := by
  refine ⟨by decide +kernel, by decide +kernel, fun h => ?_, by decide +kernel, by decide +kernel⟩
  have hsame := h (.error 422 "timestamp_in_future") (by decide +kernel) (by decide)
  have hrow : ((postMessage clockConfig (timedCall "ahead") (fun _ => ⟨.ok, 0⟩)
      World.init).1.conversations (sampleId 5)).isSome := by decide +kernel
  rw [hsame] at hrow
  cases hrow

end Archiviste.Conversation
