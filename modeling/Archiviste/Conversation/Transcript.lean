import Archiviste.Base.Run
import Archiviste.Conversation.Post

/-!
# Archiviste.Conversation.Transcript

Any number of concurrent `post_message` calls, one step of one call at a time in any order. The
system records which calls uploaded a header and which committed their block, in the order of the
writes.

* `Phase.blocks`, `postStep_wrote` — how many blocks a call has committed, read off its position.
* `SystemInv` — the transcript is one header and the committed blocks; whoever is about to upload
  has seen the value it will replace.
* `transcript_integrity` — the guarantees in every state of every interleaving.
-/

namespace Archiviste.Conversation

section
variable {cfg : Config} {id : Text} {i : StepInput} {f : Frame} {w : World}

/-! ## The blocks of a call -/

def Pc.blocks : Pc → Nat
  | .blockReload | .increment _ | .insert _ _ => 1
  | _ => 0

/-- An uncaught exception may come before the commit or after it. -/
def Reply.blocks : Reply → Option Nat
  | .created _ => some 1
  | .error _ _ => some 0
  | .uncaught => none

def Phase.blocks : Phase → Option Nat
  | .start => some 0
  | .running _ pc => some pc.blocks
  | .done r => r.blocks

def nextBlocks : Except Reply Pc → Option Nat
  | .ok pc => some pc.blocks
  | .error r => r.blocks

/-! ## What a step does to the transcripts -/

/-- A step from `pc` writes nothing, a header where there is no transcript, or the transcript the
call holds with its block behind it. A call that goes on to upload holds the current transcript, and
only the block changes the number of blocks. -/
inductive Wrote (cfg : Config) (id : Text) (f : Frame) (b : Bucket Text Text) :
    Pc → Except Reply Pc → Option Write → Bucket Text Text → Prop where
  | quiet {pc : Pc} {next : Except Reply Pc}
      (hblocks : ∀ n, nextBlocks next = some n → n = pc.blocks)
      (hholds : ∀ healed attempt current generation,
        next = .ok (.upload healed attempt current generation) →
          b.cell id = some ⟨current, generation⟩) :
      Wrote cfg id f b pc next none b
  | header {pc next : Pc} {b' : Bucket Text Text}
      (hblocks : next.blocks = pc.blocks)
      (hnext : ∀ healed attempt current generation,
        next ≠ .upload healed attempt current generation)
      (hup : b.upload id 0 (headerText cfg id f.createdAt f.message.userId) = some b') :
      Wrote cfg id f b pc (.ok next) (some .header) b'
  | block {healed : Bool} {attempt : Nat} {current : Text} {generation : Nat}
      {b' : Bucket Text Text}
      (hup : b.upload id generation (current ++ blockText cfg f.message) = some b') :
      Wrote cfg id f b (.upload healed attempt current generation) (.ok .blockReload)
        (some .block) b'

variable {pc : Pc} {r : Reply}

theorem Wrote.still {b : Bucket Text Text} {next : Except Reply Pc}
    (hblocks : ∀ n, nextBlocks next = some n → n = pc.blocks)
    (hnext : ∀ healed attempt current generation,
      next ≠ .ok (.upload healed attempt current generation)) : Wrote cfg id f b pc next none b :=
  .quiet hblocks fun _ _ _ _ h => absurd h (hnext _ _ _ _)

theorem uploadHeader_wrote {next : Pc} {exists_ : Except Reply Pc} (hpc : pc.blocks = 0)
    (hnext : next = .headerReload ∨ next = .healReload)
    (hexists : ∀ n, nextBlocks exists_ = some n → n = 0)
    (hexists' : ∀ healed attempt current generation,
      exists_ ≠ .ok (.upload healed attempt current generation)) :
    let r := uploadHeader cfg id i f w next exists_
    Wrote cfg id f w.bucket pc r.2.1 r.2.2 r.1.bucket := by
  unfold uploadHeader
  by_cases hf : i.outcome = .fails
  · rw [if_pos hf]
    exact .still (by simp [nextBlocks, storageUnavailable, Reply.blocks, hpc]) (by simp)
  · rw [if_neg hf]
    cases hup : w.bucket.upload id 0 (headerText cfg id f.createdAt f.message.userId) with
    | none => exact .still (by rw [hpc]; exact hexists) hexists'
    | some b =>
      refine .header ?_ ?_ hup
      · rw [hpc]; rcases hnext with rfl | rfl <;> rfl
      · rcases hnext with rfl | rfl <;> simp

theorem reload_wrote {next : Nat → Pc} (hblocks : ∀ g, (next g).blocks = pc.blocks)
    (hnext : ∀ g healed attempt current generation,
      next g ≠ .upload healed attempt current generation) :
    Wrote cfg id f w.bucket pc (reload w id i.outcome next) none w.bucket := by
  unfold reload
  split
  · exact .still (by simp [nextBlocks, Reply.blocks]) (by simp)
  · exact .still (by simp [nextBlocks, Reply.blocks]) (by simp)
  · exact .still (by simp [nextBlocks, hblocks, eq_comm]) (by simpa using hnext _)

theorem runStep_wrote (pc : Pc) :
    let r := runStep cfg id i f w pc
    Wrote cfg id f w.bucket pc r.2.1 r.2.2 r.1.bucket := by
  cases pc with
  | header =>
    exact uploadHeader_wrote rfl (.inl rfl) (by simp [nextBlocks, Reply.blocks, eq_comm]) (by simp)
  | heal => exact uploadHeader_wrote rfl (.inr rfl) (by simp [nextBlocks, Pc.blocks]) (by simp)
  | headerReload =>
    simp only [runStep]
    refine reload_wrote (fun _ => rfl) ?_
    simp
  | blockReload =>
    simp only [runStep]
    refine reload_wrote (fun _ => rfl) ?_
    simp
  | healReload =>
    simp only [runStep]
    refine reload_wrote (fun _ => rfl) ?_
    simp
  | download healed attempt =>
    simp only [runStep]
    split
    · exact .still (by simp [nextBlocks, storageUnavailable, Reply.blocks, Pc.blocks]) (by simp)
    · cases hc : w.bucket.cell id with
      | some o =>
        refine .quiet (by simp [nextBlocks, Pc.blocks]) ?_
        intro _ _ _ _ h
        cases h
        exact hc
      | none =>
        cases healed
        · exact .still (by simp [nextBlocks, Pc.blocks]) (by simp)
        · exact .still (by simp [nextBlocks, Reply.blocks]) (by simp)
  | upload healed attempt current generation =>
    simp only [runStep]
    split
    · exact .still (by simp [nextBlocks, storageUnavailable, Reply.blocks, Pc.blocks]) (by simp)
    · cases hup : w.bucket.upload id generation (current ++ blockText cfg f.message) with
      | some b => exact .block hup
      | none =>
        dsimp only
        split
        · exact .still (by simp [nextBlocks, Pc.blocks]) (by simp)
        · exact .still (by simp [nextBlocks, Reply.blocks, Pc.blocks]) (by simp)
  | increment generation =>
    simp only [runStep]
    split
    · exact .still (by simp [nextBlocks, messageOut, Reply.blocks, Pc.blocks]) (by simp)
    · split
      · exact .still (by simp [nextBlocks, Reply.blocks]) (by simp)
      · exact .still (by simp [nextBlocks, Pc.blocks]) (by simp)
  | insert generation count =>
    simp only [runStep]
    split <;> exact .still (by simp [nextBlocks, messageOut, Reply.blocks, Pc.blocks]) (by simp)

/-! ## What a step of a call does -/

def Phase.Parsed (cfg : Config) (call : Call) (p : Phase) : Prop :=
  ∀ f pc, p = .running f pc → parseBody cfg call.payload = .ok f.message

/-- `Wrote` for a whole call. -/
inductive PostWrote (cfg : Config) (call : Call) (b : Bucket Text Text) :
    Phase → Phase → Option Write → Bucket Text Text → Prop where
  | quiet {p p' : Phase}
      (hblocks : ∀ n, p'.blocks = some n → p.blocks = some n)
      (hparsed : p.Parsed cfg call → p'.Parsed cfg call)
      (hholds : ∀ f healed attempt current generation,
        p' = .running f (.upload healed attempt current generation) →
          b.cell call.conversationId = some ⟨current, generation⟩) :
      PostWrote cfg call b p p' none b
  | header {f : Frame} {pc pc' : Pc} {b' : Bucket Text Text}
      (hblocks : pc'.blocks = pc.blocks)
      (hnext : ∀ healed attempt current generation,
        pc' ≠ .upload healed attempt current generation)
      (hup : b.upload call.conversationId 0
        (headerText cfg call.conversationId f.createdAt f.message.userId) = some b') :
      PostWrote cfg call b (.running f pc) (.running f pc') (some .header) b'
  | block {f : Frame} {healed : Bool} {attempt : Nat} {current : Text} {generation : Nat}
      {b' : Bucket Text Text}
      (hup : b.upload call.conversationId generation (current ++ blockText cfg f.message) =
        some b') :
      PostWrote cfg call b (.running f (.upload healed attempt current generation))
        (.running f .blockReload) (some .block) b'

theorem parseBody_error {raw : Json} (h : parseBody cfg raw = .error r) :
    ∃ status code, r = .error status code := by
  unfold parseBody at h
  repeat' split at h
  all_goals cases h
  all_goals exact ⟨_, _, rfl⟩

theorem checkTimestamp_error {timestamp createdAt : Stamp} {now : Int}
    (h : checkTimestamp timestamp createdAt now = .error r) :
    ∃ status code, r = .error status code := by
  unfold checkTimestamp at h
  repeat' split at h
  all_goals cases h
  all_goals exact ⟨_, _, rfl⟩

theorem startStep_cases (cfg : Config) (call : Call) (i : StepInput) (w : World) :
    (startStep cfg call i w).1.bucket = w.bucket ∧
      ((∃ r, (startStep cfg call i w).2 = .done r ∧ ∀ out, r ≠ .created out) ∨
        ∃ f pc, (startStep cfg call i w).2 = .running f pc ∧
          (pc = .header ∨ pc = .download false 0) ∧
          parseBody cfg call.payload = .ok f.message) := by
  unfold startStep
  split
  · exact ⟨rfl, .inl ⟨_, rfl, by simp⟩⟩
  · split
    · next hr =>
      obtain ⟨_, _, rfl⟩ := parseBody_error hr
      exact ⟨rfl, .inl ⟨_, rfl, by simp⟩⟩
    · next m hm =>
      split
      · exact ⟨rfl, .inl ⟨_, rfl, by simp⟩⟩
      · exact ⟨rfl, .inl ⟨_, rfl, by simp⟩⟩
      · exact ⟨rfl, .inl ⟨_, rfl, by simp⟩⟩
      · split
        · exact ⟨rfl, .inl ⟨_, rfl, by simp⟩⟩
        · dsimp only
          split
          · next hr =>
            obtain ⟨_, _, rfl⟩ := checkTimestamp_error hr
            exact ⟨rfl, .inl ⟨_, rfl, by simp⟩⟩
          · exact ⟨rfl, .inr ⟨_, _, rfl, by split <;> simp, hm⟩⟩

theorem Reply.blocks_of_ne_created (h : ∀ out, r ≠ .created out) {n : Nat}
    (hn : r.blocks = some n) : n = 0 := by
  cases r with
  | created out => exact absurd rfl (h out)
  | error _ _ => cases hn; rfl
  | uncaught => cases hn

theorem postStep_wrote (cfg : Config) (call : Call) (i : StepInput) (w : World) (p : Phase) :
    let r := postStep cfg call i w p
    PostWrote cfg call w.bucket p r.2.1 r.2.2 r.1.bucket := by
  cases p with
  | start =>
    simp only [postStep]
    obtain ⟨hb, ⟨r, hr, hne⟩ | ⟨f, pc, hr, hpc, hm⟩⟩ := startStep_cases cfg call i w
    · rw [hb, hr]
      refine .quiet ?_ (by simp [Phase.Parsed]) (by simp)
      intro n hn
      rw [Reply.blocks_of_ne_created hne hn, Phase.blocks]
    · rw [hb, hr]
      refine .quiet ?_ ?_ ?_
      · rcases hpc with rfl | rfl <;> simp [Phase.blocks, Pc.blocks]
      · intro _ f' pc' h
        cases h
        exact hm
      · rcases hpc with rfl | rfl <;> simp
  | done r => exact .quiet (fun _ h => h) id (by simp [postStep])
  | running f pc =>
    have h := @runStep_wrote cfg call.conversationId i f w pc
    simp only [postStep]
    generalize runStep cfg call.conversationId i f w pc = r at h
    obtain ⟨w', next, wr⟩ := r
    cases next with
    | ok pc' =>
      dsimp only at h ⊢
      generalize w'.bucket = b' at h ⊢
      cases h with
      | quiet hblocks hholds =>
        refine .quiet ?_ ?_ ?_
        · intro n hn
          rw [hblocks n hn, Phase.blocks]
        · intro hp f' pc'' h
          cases h
          exact hp f pc rfl
        · intro f' _ _ _ _ h
          cases h
          exact hholds _ _ _ _ rfl
      | header hblocks hnext hup => exact .header hblocks hnext hup
      | block hup => exact .block hup
    | error r =>
      dsimp only at h ⊢
      generalize w'.bucket = b' at h ⊢
      cases h with
      | quiet hblocks hholds =>
        refine .quiet ?_ (by simp [Phase.Parsed]) (by simp)
        intro n hn
        rw [hblocks n hn, Phase.blocks]

end

/-! ## Interleavings -/

structure System (ι : Type) where
  world : World
  phase : ι → Phase
  /-- The calls whose header upload succeeded, in order. -/
  creators : List ι
  /-- The calls whose block upload succeeded, in order. -/
  commits : List ι

def System.init {ι : Type} : System ι := ⟨World.init, fun _ => .start, [], []⟩

section
variable {ι : Type}

def logged (w : Write) (k : ι) (wr : Option Write) : List ι := if wr = some w then [k] else []

def systemStep [DecidableEq ι] (cfg : Config) (calls : ι → Call) (s : System ι)
    (a : ι × StepInput) : System ι :=
  let r := postStep cfg (calls a.1) a.2 s.world (s.phase a.1)
  { world := r.1
    phase := Function.update s.phase a.1 r.2.1
    creators := s.creators ++ logged .header a.1 r.2.2
    commits := s.commits ++ logged .block a.1 r.2.2 }

def headerOf (cfg : Config) (call : Call) (createdAt : Stamp) : Text :=
  match parseBody cfg call.payload with
  | .ok m => headerText cfg call.conversationId createdAt m.userId
  | .error _ => []

def blockOf (cfg : Config) (call : Call) : Text :=
  match parseBody cfg call.payload with
  | .ok m => blockText cfg m
  | .error _ => []

def onConversation (calls : ι → Call) (id : Text) (ks : List ι) : List ι :=
  ks.filter fun k => (calls k).conversationId = id

/-- There is no transcript and nothing was committed to it, or it is the header of the one call that
created it and the blocks of the calls that committed, in the order of the commits. -/
def TranscriptOf (cfg : Config) (calls : ι → Call) (s : System ι) (id : Text) : Prop :=
  match s.world.bucket.cell id with
  | none => onConversation calls id s.creators = [] ∧ onConversation calls id s.commits = []
  | some o => ∃ k createdAt, onConversation calls id s.creators = [k] ∧
      o.value = headerOf cfg (calls k) createdAt ++
        (onConversation calls id s.commits).flatMap fun j => blockOf cfg (calls j)

structure SystemInv [DecidableEq ι] (cfg : Config) (calls : ι → Call) (s : System ι) : Prop where
  wellFormed : s.world.bucket.WellFormed
  parsed : ∀ k, (s.phase k).Parsed cfg (calls k)
  seen : ∀ k f healed attempt current generation,
    s.phase k = .running f (.upload healed attempt current generation) →
      s.world.bucket.Seen (calls k).conversationId current generation
  transcript : ∀ id, TranscriptOf cfg calls s id
  blocks : ∀ k n, (s.phase k).blocks = some n → s.commits.count k = n

variable {cfg : Config} {calls : ι → Call}

variable {ks : List ι} {k : ι} {call : Call} {m : MessageIn} {s : System ι} {w : World}
  {phase : ι → Phase} {f : Frame}

theorem onConversation_logged_self {id : Text} (w : Write) (hk : (calls k).conversationId = id) :
    onConversation calls id (ks ++ logged w k (some w)) = onConversation calls id ks ++ [k] := by
  simp [onConversation, logged, hk]

theorem onConversation_logged_ne {id : Text} (w : Write) (wr : Option Write)
    (hk : (calls k).conversationId ≠ id) :
    onConversation calls id (ks ++ logged w k wr) = onConversation calls id ks := by
  unfold logged
  split
  · simp [onConversation, hk]
  · simp

theorem headerOf_eq (h : parseBody cfg call.payload = .ok m) (createdAt : Stamp) :
    headerOf cfg call createdAt = headerText cfg call.conversationId createdAt m.userId := by
  simp only [headerOf, h]

theorem blockOf_eq (h : parseBody cfg call.payload = .ok m) :
    blockOf cfg call = blockText cfg m := by
  simp only [blockOf, h]

theorem TranscriptOf.put_ne {id : Text} (h : TranscriptOf cfg calls s id)
    (hk : (calls k).conversationId ≠ id) {wr : Option Write} {v : Text}
    (hw : w.bucket = s.world.bucket.put (calls k).conversationId v) :
    TranscriptOf cfg calls
      ⟨w, phase, s.creators ++ logged .header k wr, s.commits ++ logged .block k wr⟩ id := by
  unfold TranscriptOf at h ⊢
  rw [onConversation_logged_ne _ _ hk, onConversation_logged_ne _ _ hk, hw,
    Bucket.put_cell_ne _ _ (Ne.symm hk)]
  exact h

theorem TranscriptOf.header (h : ∀ id, TranscriptOf cfg calls s id)
    (hm : parseBody cfg (calls k).payload = .ok f.message)
    (habsent : s.world.bucket.cell (calls k).conversationId = none)
    (hw : w.bucket = s.world.bucket.put (calls k).conversationId
      (headerText cfg (calls k).conversationId f.createdAt f.message.userId)) (id : Text) :
    TranscriptOf cfg calls ⟨w, phase, s.creators ++ logged .header k (some .header),
      s.commits ++ logged .block k (some .header)⟩ id := by
  by_cases hk : (calls k).conversationId = id
  · subst hk
    have h := h (calls k).conversationId
    unfold TranscriptOf at h ⊢
    rw [habsent] at h
    rw [hw, Bucket.put_cell_self]
    refine ⟨k, f.createdAt, ?_, ?_⟩
    · rw [onConversation_logged_self _ rfl, h.1, List.nil_append]
    · simp [logged, h.2, headerOf_eq hm]
  · exact (h id).put_ne hk hw

theorem TranscriptOf.block (h : ∀ id, TranscriptOf cfg calls s id)
    (hm : parseBody cfg (calls k).payload = .ok f.message) {current : Text} {generation : Nat}
    (hcurrent : s.world.bucket.cell (calls k).conversationId = some ⟨current, generation⟩)
    (hw : w.bucket = s.world.bucket.put (calls k).conversationId
      (current ++ blockText cfg f.message)) (id : Text) :
    TranscriptOf cfg calls ⟨w, phase, s.creators ++ logged .header k (some .block),
      s.commits ++ logged .block k (some .block)⟩ id := by
  by_cases hk : (calls k).conversationId = id
  · subst hk
    have h := h (calls k).conversationId
    unfold TranscriptOf at h ⊢
    rw [hcurrent] at h
    obtain ⟨j, createdAt, hcreators, hvalue⟩ := h
    rw [hw, Bucket.put_cell_self]
    refine ⟨j, createdAt, by simpa [logged] using hcreators, ?_⟩
    rw [onConversation_logged_self _ rfl]
    simp only at hvalue
    simp [hvalue, blockOf_eq hm]
  · exact (h id).put_ne hk hw

variable [DecidableEq ι]

theorem systemInv_init : SystemInv cfg calls (System.init : System ι) where
  wellFormed := Bucket.wellFormed_empty
  parsed := by intro k f pc h; cases h
  seen := by intro k f _ _ _ _ h; cases h
  transcript := fun _ => ⟨rfl, rfl⟩
  blocks := by intro k n h; cases h; rfl

/-- What is left of the invariant when the transcripts are accounted for: the other calls stand
where they stood, and a write of the call at `k` keeps what they have seen. -/
theorem SystemInv.of_step (h : SystemInv cfg calls s) {p : Phase} {creators commits : List ι}
    (hwf : w.bucket.WellFormed)
    (hbucket : w.bucket = s.world.bucket ∨ ∃ id v, w.bucket = s.world.bucket.put id v)
    (hparsed : p.Parsed cfg (calls k)) (hseen : ∀ f healed attempt current generation,
      p = .running f (.upload healed attempt current generation) →
        w.bucket.Seen (calls k).conversationId current generation)
    (hcommits : ∀ j, j ≠ k → commits.count j = s.commits.count j)
    (hblocks : ∀ n, p.blocks = some n → commits.count k = n)
    (htranscript : ∀ id, TranscriptOf cfg calls
      ⟨w, Function.update s.phase k p, creators, commits⟩ id) :
    SystemInv cfg calls ⟨w, Function.update s.phase k p, creators, commits⟩ where
  wellFormed := hwf
  parsed := by
    intro j
    by_cases hj : j = k
    · subst hj; simpa using hparsed
    · simpa [hj] using h.parsed j
  seen := by
    intro j f healed attempt current generation hphase
    by_cases hj : j = k
    · subst hj
      exact hseen f healed attempt current generation (by simpa using hphase)
    · have hs := h.seen j f healed attempt current generation (by simpa [hj] using hphase)
      rcases hbucket with hb | ⟨id, v, hb⟩
      · rw [hb]; exact hs
      · rw [hb]; exact hs.put id v
  transcript := htranscript
  blocks := by
    intro j n hn
    by_cases hj : j = k
    · subst hj
      exact hblocks n (by simpa using hn)
    · rw [hcommits j hj]
      exact h.blocks j n (by simpa [hj] using hn)

theorem systemStep_inv (s : System ι) (a : ι × StepInput) (h : SystemInv cfg calls s) :
    SystemInv cfg calls (systemStep cfg calls s a) := by
  obtain ⟨k, i⟩ := a
  have hwrote := postStep_wrote cfg (calls k) i s.world (s.phase k)
  unfold systemStep
  dsimp only at hwrote ⊢
  generalize postStep cfg (calls k) i s.world (s.phase k) = r at hwrote
  obtain ⟨w, p, wr⟩ := r
  dsimp only at hwrote ⊢
  generalize hb : w.bucket = b at hwrote
  generalize hp : s.phase k = p₀ at hwrote
  cases hwrote with
  | quiet hblocks hparsed hholds =>
    simp only [logged, reduceCtorEq, if_false, List.append_nil]
    refine h.of_step (hb ▸ h.wellFormed) (.inl hb) (hparsed (hp ▸ h.parsed k)) ?_ (fun _ _ => rfl)
      (fun n hn => h.blocks k n (hp ▸ hblocks n hn)) ?_
    · intro f healed attempt current generation hphase
      rw [hb]
      exact .of_download h.wellFormed (hholds f healed attempt current generation hphase)
    · intro id
      have ht := h.transcript id
      unfold TranscriptOf at ht ⊢
      rw [hb]
      exact ht
  | header hblocks hnext hup =>
    next f pc pc' =>
    obtain ⟨hgen, rfl⟩ := Bucket.upload_eq_some.mp hup
    have hm := h.parsed k f pc hp
    refine h.of_step (hb ▸ h.wellFormed.put _ _) (.inr ⟨_, _, hb⟩) ?_ ?_ ?_ ?_ ?_
    · intro f' pc'' hphase; cases hphase; exact hm
    · intro f' _ _ _ _ hphase; cases hphase; exact absurd rfl (hnext _ _ _ _)
    · intro j _; simp [logged]
    · intro n hn
      have := h.blocks k n (by rw [hp, Phase.blocks, ← hblocks]; exact hn)
      simpa [logged] using this
    · exact TranscriptOf.header h.transcript hm (h.wellFormed.cell_none hgen) hb
  | block hup =>
    next f healed attempt current generation =>
    obtain ⟨hgen, rfl⟩ := Bucket.upload_eq_some.mp hup
    have hm := h.parsed k f _ hp
    have hcurrent := (h.seen k f _ _ _ _ hp).current hgen
    refine h.of_step (hb ▸ h.wellFormed.put _ _) (.inr ⟨_, _, hb⟩) ?_ (by simp) ?_ ?_ ?_
    · intro f' pc'' hphase; cases hphase; exact hm
    · intro j hj; simp [logged, Ne.symm hj]
    · intro n hn
      cases hn
      have := h.blocks k 0 (by rw [hp]; rfl)
      simp [logged, this, Pc.blocks]
    · exact TranscriptOf.block h.transcript hm hcurrent hb

/-- In every state that any interleaving of any calls reaches, each transcript is one header and the
blocks of exactly the calls that committed, in the order of the commits; a call that answered 201
has committed one block, and a call that answered a declared error none. -/
theorem transcript_integrity (cfg : Config) (calls : ι → Call) (schedule : List (ι × StepInput)) :
    let s := Run.exec (systemStep cfg calls) System.init schedule
    (∀ id, TranscriptOf cfg calls s id) ∧
      ∀ k, (∀ out, s.phase k = .done (.created out) → s.commits.count k = 1) ∧
        ∀ status code, s.phase k = .done (.error status code) → s.commits.count k = 0 := by
  intro s
  have h : SystemInv cfg calls s := Run.exec_inv systemStep_inv schedule _ systemInv_init
  refine ⟨h.transcript, fun k => ⟨?_, ?_⟩⟩
  · intro out hout
    exact h.blocks k 1 (by rw [hout]; rfl)
  · intro status code herror
    exact h.blocks k 0 (by rw [herror]; rfl)

end

end Archiviste.Conversation
