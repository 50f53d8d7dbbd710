import Archiviste.Base.Log
import Archiviste.Conversation.Transcript
import Mathlib.Data.List.Perm.Subperm

/-!
# Archiviste.Conversation.Ordinals

The rows of `conversation_messages` against the blocks of the transcript, under every interleaving of
`post_message` calls and every failure of their statements. A call first commits its block, then
counts it in `message_count`, then stores its row with the count less one as ordinal; the last two
steps may fail and are then skipped.

The system of `Transcript` is extended by two logs: the calls that counted, in order, and the rows
with the calls that stored them. `LedgerInv` ties them to the tables: the counter of a conversation
is the number of calls counted on it, and the ordinal of a row is the position of its call among
them.

* `rows_match_blocks` — ordinals are distinct and below the counter, rows are of distinct blocks, and
  the counter is at most the number of blocks.
* `ordinals_in_order` — the order of the ordinals is that of the blocks when no call counts before
  the calls of earlier blocks have passed their counter update; `ordinals_out_of_order` when one does.
-/

namespace Archiviste.Conversation

open Log

/-! ## What a step does to the tables -/

def messageCount (w : World) (cid : Uuid) : Nat :=
  match w.conversations cid with
  | none => 0
  | some row => row.messageCount

def Phase.uncounted : Phase → Bool
  | .start => true
  | .running _ (.insert _ _) => false
  | .running _ _ => true
  | .done _ => false

def Phase.On (call : Call) (p : Phase) : Prop :=
  ∀ f pc, p = .running f pc → Uuid.pgParse call.conversationId = some f.cid

def storedRow (cfg : Config) (f : Frame) (ordinal : Nat) : StoredMessage :=
  ⟨f.cid, f.message.role, ordinal, f.message.content, cfg.countTokens f.message.content⟩

/-- A step leaves counters and rows alone, counts the call, or stores its row. -/
inductive Tabled (cfg : Config) (call : Call) (w : World) : Phase → World → Phase → Prop where
  | quiet {p p' : Phase} {w' : World}
      (hcounts : ∀ c, messageCount w' c = messageCount w c)
      (hmessages : w'.messages = w.messages)
      (huncounted : p'.uncounted → p.uncounted)
      (hnext : ∀ f g n, p' ≠ .running f (.insert g n))
      (hon : p.On call → p'.On call) :
      Tabled cfg call w p w' p'
  | counted {f : Frame} {g : Nat} {w' : World}
      (hcount : messageCount w' f.cid = messageCount w f.cid + 1)
      (hcounts : ∀ c, c ≠ f.cid → messageCount w' c = messageCount w c)
      (hmessages : w'.messages = w.messages) :
      Tabled cfg call w (.running f (.increment g)) w'
        (.running f (.insert g (messageCount w f.cid + 1)))
  | stored {f : Frame} {g n : Nat} {w' : World} {out : MessageOut}
      (hrows : w'.conversations = w.conversations)
      (hmessages : w'.messages = w.messages ++ [storedRow cfg f (n - 1)]) :
      Tabled cfg call w (.running f (.insert g n)) w' (.done (.created out))

section
variable {cfg : Config} {call : Call} {i : StepInput} {f : Frame} {w : World}

variable {w' : World}

theorem messageCount_congr {w : World} (h : w'.conversations = w.conversations) (c : Uuid) :
    messageCount w' c = messageCount w c := by
  simp only [messageCount, h]

theorem createIfAbsent_messageCount (cid userId : Uuid) (uri : Text) (createdAt : Stamp) (c : Uuid) :
    messageCount { w with conversations :=
      (createIfAbsent w.conversations cid userId uri createdAt).1 } c = messageCount w c := by
  unfold createIfAbsent
  cases hrow : w.conversations cid with
  | some row => rfl
  | none =>
    by_cases hc : c = cid
    · subst hc; simp [messageCount, hrow]
    · simp [messageCount, hc]

def Frame.resume (f : Frame) : Except Reply Pc → Phase
  | .ok pc => .running f pc
  | .error r => .done r

theorem postStep_resume (cfg : Config) (call : Call) (i : StepInput) (w : World) (f : Frame)
    (pc : Pc) :
    postStep cfg call i w (.running f pc) =
      ((runStep cfg call.conversationId i f w pc).1,
        f.resume (runStep cfg call.conversationId i f w pc).2.1,
        (runStep cfg call.conversationId i f w pc).2.2) := by
  simp only [postStep]
  cases (runStep cfg call.conversationId i f w pc).2.1 <;> rfl

theorem Tabled.of_same {pc : Pc} {next : Except Reply Pc}
    (h : w'.conversations = w.conversations ∧ w'.messages = w.messages)
    (hpc : ∀ g n, pc = .insert g n → ∃ r, next = .error r)
    (hnext : ∀ g n, next ≠ .ok (.insert g n)) :
    Tabled cfg call w (.running f pc) w' (f.resume next) := by
  cases next with
  | error r =>
    exact .quiet (messageCount_congr h.1) h.2 (fun hun => by cases hun)
      (fun _ _ _ => by simp [Frame.resume]) fun _ _ _ hp => by cases hp
  | ok pc' =>
    refine .quiet (messageCount_congr h.1) h.2 (fun _ => ?_) (fun f' g n hp => ?_) ?_
    · cases pc
      case insert g n => obtain ⟨r, hr⟩ := hpc g n rfl; cases hr
      all_goals rfl
    · cases hp; exact hnext g n rfl
    · intro hon f' pc'' hp
      cases hp
      exact hon f pc rfl

theorem reload_ne_insert {id : Text} {next : Nat → Pc} (h : ∀ g n m, next g ≠ .insert n m)
    (n m : Nat) : reload w id i.outcome next ≠ .ok (.insert n m) := by
  unfold reload
  split <;> simp [h]

theorem runStep_tabled (pc : Pc) :
    let r := runStep cfg call.conversationId i f w pc
    Tabled cfg call w (.running f pc) r.1 (f.resume r.2.1) := by
  cases pc with
  | header =>
    refine .of_same uploadHeader_tables (by simp) fun g n => ?_
    simp only [runStep, uploadHeader]
    repeat' split
    all_goals simp
  | heal =>
    refine .of_same uploadHeader_tables (by simp) fun g n => ?_
    simp only [runStep, uploadHeader]
    repeat' split
    all_goals simp
  | headerReload =>
    simp only [runStep]
    refine .of_same ⟨rfl, rfl⟩ (by simp) (reload_ne_insert ?_)
    simp
  | blockReload =>
    simp only [runStep]
    refine .of_same ⟨rfl, rfl⟩ (by simp) (reload_ne_insert ?_)
    simp
  | healReload =>
    simp only [runStep]
    refine .of_same ⟨rfl, rfl⟩ (by simp) (reload_ne_insert ?_)
    simp
  | download healed attempt =>
    simp only [runStep]
    repeat' split
    all_goals exact .of_same ⟨rfl, rfl⟩ (by simp) (by simp)
  | upload healed attempt current generation =>
    simp only [runStep]
    repeat' split
    all_goals exact .of_same ⟨rfl, rfl⟩ (by simp) (by simp)
  | increment generation =>
    simp only [runStep]
    split
    · exact .of_same ⟨rfl, rfl⟩ (by simp) (by simp [messageOut])
    · cases hrow : w.conversations f.cid with
      | none => exact .of_same ⟨rfl, rfl⟩ (by simp) (by simp)
      | some row =>
        have hcount : messageCount w f.cid = row.messageCount := by simp [messageCount, hrow]
        dsimp only [Frame.resume]
        rw [← hcount]
        refine .counted ?_ (fun c hc => ?_) rfl
        · simp [messageCount]
        · simp [messageCount, hc]
  | insert generation count =>
    simp only [runStep]
    split
    · exact .of_same ⟨rfl, rfl⟩ (fun _ _ _ => ⟨_, rfl⟩) (by simp)
    · exact .stored rfl rfl

theorem startStep_tabled (cfg : Config) (call : Call) (i : StepInput) (w : World) :
    Tabled cfg call w .start (startStep cfg call i w).1 (startStep cfg call i w).2 := by
  have refused {w' : World} {r : Reply} (hc : ∀ c, messageCount w' c = messageCount w c)
      (hm : w'.messages = w.messages) : Tabled cfg call w .start w' (.done r) :=
    .quiet hc hm (fun _ => rfl) (by simp) fun _ _ _ h => by cases h
  unfold startStep
  split
  · exact refused (fun _ => rfl) rfl
  · split
    · exact refused (fun _ => rfl) rfl
    · split
      · exact refused (fun _ => rfl) rfl
      · exact refused (fun _ => rfl) rfl
      · exact refused (fun _ => rfl) rfl
      · next _ cid userId hcid _ _ =>
        split
        · exact refused (fun _ => rfl) rfl
        · dsimp only
          split
          · exact refused (createIfAbsent_messageCount cid userId _ _) rfl
          · refine .quiet (createIfAbsent_messageCount cid userId _ _) rfl (fun _ => rfl) ?_ ?_
            · intro f g n h
              split at h <;> cases h
            · intro _ f pc h
              cases h
              exact hcid

theorem postStep_tabled (cfg : Config) (call : Call) (i : StepInput) (w : World) (p : Phase) :
    Tabled cfg call w p (postStep cfg call i w p).1 (postStep cfg call i w p).2.1 := by
  cases p with
  | start => exact startStep_tabled cfg call i w
  | running f pc =>
    rw [postStep_resume]
    exact runStep_tabled pc
  | done r => exact .quiet (fun _ => rfl) rfl id (by simp [postStep]) id

end

/-! ## The ledger -/

structure Ledger (ι : Type) where
  system : System ι
  counted : List ι
  rows : List (ι × StoredMessage)

def Ledger.init {ι : Type} : Ledger ι := ⟨System.init, [], []⟩

def justCounted : Phase → Phase → Bool
  | .running _ (.increment _), .running _ (.insert _ _) => true
  | _, _ => false

theorem justCounted_eq_false {p p' : Phase} (h : ∀ f g n, p' ≠ .running f (.insert g n)) :
    justCounted p p' = false := by
  unfold justCounted
  split
  · exact absurd rfl (h _ _ _)
  · rfl

section
variable {ι : Type}

def ledgerStep [DecidableEq ι] (cfg : Config) (calls : ι → Call) (l : Ledger ι)
    (a : ι × StepInput) : Ledger ι :=
  let s := systemStep cfg calls l.system a
  { system := s
    counted := if justCounted (l.system.phase a.1) (s.phase a.1) then l.counted ++ [a.1]
      else l.counted
    rows := l.rows ++ (s.world.messages.drop l.system.world.messages.length).map (a.1, ·) }

def onRow (calls : ι → Call) (cid : Uuid) (ks : List ι) : List ι :=
  ks.filter fun k => Uuid.pgParse (calls k).conversationId = some cid

/-- A stored row has the role and the content of the message of its call, on its conversation. -/
def RowOf (cfg : Config) (call : Call) (m : StoredMessage) : Prop :=
  ∃ message, parseBody cfg call.payload = .ok message ∧ m.role = message.role ∧
    m.content = message.content ∧ Uuid.pgParse call.conversationId = some m.conversationId

/-- The counter of a conversation is the number of calls counted on it, a call that is about to
store holds its position among them, and so does a stored row. -/
structure LedgerInv [DecidableEq ι] (cfg : Config) (calls : ι → Call) (l : Ledger ι) : Prop where
  system : SystemInv cfg calls l.system
  on : ∀ k, (l.system.phase k).On (calls k)
  messages : l.rows.map (·.2) = l.system.world.messages
  nodup : l.counted.Nodup
  committed : ∀ k ∈ l.counted, k ∈ l.system.commits
  uncounted : ∀ k, (l.system.phase k).uncounted → k ∉ l.counted
  count : ∀ cid, messageCount l.system.world cid = (onRow calls cid l.counted).length
  position : ∀ k f g n, l.system.phase k = .running f (.insert g n) →
    0 < n ∧ (onRow calls f.cid l.counted)[n - 1]? = some k
  once : (l.rows.map (·.1)).Nodup
  finished : ∀ a ∈ l.rows, ∃ out, l.system.phase a.1 = .done (.created out)
  row : ∀ a ∈ l.rows, RowOf cfg (calls a.1) a.2 ∧
    (onRow calls a.2.conversationId l.counted)[a.2.ordinal]? = some a.1

variable {cfg : Config} {calls : ι → Call}

variable {cid : Uuid} {ks : List ι} {j : ι} {n g : Nat} {f : Frame} {call : Call}
  {b b' : Bucket Text Text}

theorem onRow_concat_self {k : ι} (hk : Uuid.pgParse (calls k).conversationId = some cid) :
    onRow calls cid (ks ++ [k]) = onRow calls cid ks ++ [k] := by
  simp [onRow, hk]

theorem onRow_concat_ne {k : ι} (hk : Uuid.pgParse (calls k).conversationId ≠ some cid) :
    onRow calls cid (ks ++ [k]) = onRow calls cid ks := by
  simp [onRow, hk]

theorem onRow_concat_getElem? (k : ι) (h : (onRow calls cid ks)[n]? = some j) :
    (onRow calls cid (ks ++ [k]))[n]? = some j := by
  have hn : n < (onRow calls cid ks).length := by
    by_contra hn
    rw [List.getElem?_eq_none (Nat.le_of_not_lt hn)] at h
    cases h
  rw [onRow, List.filter_append]
  exact (List.getElem?_append_left hn).trans h

theorem mem_of_onRow_getElem? (h : (onRow calls cid ks)[n]? = some j) :
    j ∈ ks ∧ Uuid.pgParse (calls j).conversationId = some cid ∧
      n < (onRow calls cid ks).length := by
  obtain ⟨hn, _⟩ := List.getElem?_eq_some_iff.mp h
  have hmem : j ∈ onRow calls cid ks := List.mem_of_getElem? h
  rw [onRow, List.mem_filter] at hmem
  exact ⟨hmem.1, by simpa using hmem.2, hn⟩

variable [DecidableEq ι]

theorem ledgerInv_init : LedgerInv cfg calls (Ledger.init : Ledger ι) where
  system := systemInv_init
  on := by intro k f pc h; cases h
  messages := rfl
  nodup := List.nodup_nil
  committed := by intro k h; cases h
  uncounted := by intro k _ h; cases h
  count := fun _ => rfl
  position := by intro k f g n h; cases h
  once := List.nodup_nil
  finished := by intro a h; cases h
  row := by intro a h; cases h

/-- What a step of the call at `k` leaves to be shown, whatever it does to the tables: the other
calls stand where they stood, no commit is lost, and a call that has answered does not move. -/
structure Moved (cfg : Config) (calls : ι → Call) (l : Ledger ι) (k : ι) (p : Phase) (s : System ι) :
    Prop where
  system : SystemInv cfg calls s
  phase : s.phase = Function.update l.system.phase k p
  commits : ∀ j ∈ l.system.commits, j ∈ s.commits
  done : ∀ r, l.system.phase k = .done r → p = .done r

variable {l : Ledger ι} {k : ι} {p : Phase} {s : System ι}

theorem Moved.phases (hmoved : Moved cfg calls l k p s) {P : ι → Phase → Prop} (hk : P k p)
    (hne : ∀ j, j ≠ k → P j (l.system.phase j)) (j : ι) : P j (s.phase j) := by
  rw [hmoved.phase]
  exact (Function.forall_update_iff l.system.phase P).mpr ⟨hk, hne⟩ j

theorem Moved.finished (hmoved : Moved cfg calls l k p s) (h : LedgerInv cfg calls l) :
    ∀ a ∈ l.rows, ∃ out, s.phase a.1 = .done (.created out) := by
  intro a ha
  obtain ⟨out, hout⟩ := h.finished a ha
  rw [hmoved.phase]
  by_cases hk : a.1 = k
  · rw [hk, Function.update_self]
    exact ⟨out, hmoved.done _ (hk ▸ hout)⟩
  · rw [Function.update_of_ne hk]
    exact ⟨out, hout⟩

theorem LedgerInv.quiet (h : LedgerInv cfg calls l) (hmoved : Moved cfg calls l k p s)
    (hcounts : ∀ c, messageCount s.world c = messageCount l.system.world c)
    (hmessages : s.world.messages = l.system.world.messages)
    (huncounted : p.uncounted → (l.system.phase k).uncounted)
    (hnext : ∀ f g n, p ≠ .running f (.insert g n))
    (hon : (l.system.phase k).On (calls k) → p.On (calls k)) :
    LedgerInv cfg calls ⟨s, l.counted, l.rows⟩ where
  system := hmoved.system
  on := hmoved.phases (P := fun j p => p.On (calls j)) (hon (h.on k)) fun j _ => h.on j
  messages := by rw [hmessages]; exact h.messages
  nodup := h.nodup
  committed := fun j hj => hmoved.commits j (h.committed j hj)
  uncounted := hmoved.phases (P := fun j p => p.uncounted → j ∉ l.counted)
    (fun hun => h.uncounted k (huncounted hun)) fun j _ => h.uncounted j
  count := by intro cid; rw [hcounts]; exact h.count cid
  position := hmoved.phases (P := fun j p => ∀ f g n, p = .running f (.insert g n) →
      0 < n ∧ (onRow calls f.cid l.counted)[n - 1]? = some j)
    (fun f g n hp => absurd hp (hnext f g n)) fun j _ => h.position j
  once := h.once
  finished := hmoved.finished h
  row := h.row

theorem LedgerInv.count_step (h : LedgerInv cfg calls l)
    (hp : l.system.phase k = .running f (.increment g)) (hmoved : Moved cfg calls l k
      (.running f (.insert g (messageCount l.system.world f.cid + 1))) s)
    (hcount : messageCount s.world f.cid = messageCount l.system.world f.cid + 1)
    (hcounts : ∀ c, c ≠ f.cid → messageCount s.world c = messageCount l.system.world c)
    (hmessages : s.world.messages = l.system.world.messages) :
    LedgerInv cfg calls ⟨s, l.counted ++ [k], l.rows⟩ := by
  have hon : Uuid.pgParse (calls k).conversationId = some f.cid := h.on k f _ hp
  have hk : k ∉ l.counted := h.uncounted k (by rw [hp]; rfl)
  have hcommitted : k ∈ l.system.commits := by
    have hone : l.system.commits.count k = 1 := h.system.blocks k 1 (by rw [hp]; rfl)
    exact List.count_pos_iff.mp (by omega)
  refine ⟨hmoved.system, ?_, hmessages ▸ h.messages, ?_, fun j hj => ?_, ?_, fun cid => ?_, ?_,
    h.once, hmoved.finished h, fun a ha => ⟨(h.row a ha).1, onRow_concat_getElem? k (h.row a ha).2⟩⟩
  · refine hmoved.phases (P := fun j p => p.On (calls j)) ?_ fun j _ => h.on j
    intro f' pc hphase
    cases hphase
    exact hon
  · simpa using List.Nodup.concat hk h.nodup
  · rcases List.mem_append.mp hj with hj | hj
    · exact hmoved.commits j (h.committed j hj)
    · rw [List.mem_singleton.mp hj]
      exact hmoved.commits k hcommitted
  · refine hmoved.phases (P := fun j p => p.uncounted → j ∉ l.counted ++ [k])
      (fun hun => by cases hun) fun j hj hun hmem => ?_
    rcases List.mem_append.mp hmem with hmem | hmem
    · exact h.uncounted j hun hmem
    · exact hj (List.mem_singleton.mp hmem)
  · by_cases hcid : cid = f.cid
    · subst hcid
      simp only [hcount, onRow_concat_self hon, List.length_append, h.count, List.length_singleton]
    · have hne : Uuid.pgParse (calls k).conversationId ≠ some cid :=
        fun he => hcid (Option.some.inj (he.symm.trans hon))
      simp only [hcounts cid hcid, onRow_concat_ne hne, h.count]
  · refine hmoved.phases (P := fun j p => ∀ f g n, p = .running f (.insert g n) →
        0 < n ∧ (onRow calls f.cid (l.counted ++ [k]))[n - 1]? = some j)
      (fun f' g' n hphase => ?_) fun j _ f' g' n hphase => ?_
    · cases hphase
      refine ⟨Nat.succ_pos _, ?_⟩
      rw [onRow_concat_self hon, Nat.add_sub_cancel, h.count]
      simp
    · obtain ⟨hpos, hat⟩ := h.position j f' g' n hphase
      exact ⟨hpos, onRow_concat_getElem? k hat⟩

theorem LedgerInv.store_step (h : LedgerInv cfg calls l) {out : MessageOut}
    (hp : l.system.phase k = .running f (.insert g n))
    (hmoved : Moved cfg calls l k (.done (.created out)) s)
    (hrows : s.world.conversations = l.system.world.conversations)
    (hmessages : s.world.messages = l.system.world.messages ++ [storedRow cfg f (n - 1)]) :
    LedgerInv cfg calls ⟨s, l.counted, l.rows ++ [(k, storedRow cfg f (n - 1))]⟩ := by
  obtain ⟨_, hat⟩ := h.position k f g n hp
  have hparsed := h.system.parsed k f _ hp
  have hon := h.on k f _ hp
  have hnew : k ∉ l.rows.map (·.1) := by
    intro hk
    obtain ⟨a, ha, rfl⟩ := List.mem_map.mp hk
    obtain ⟨r, hr⟩ := h.finished a ha
    rw [hp] at hr
    cases hr
  refine ⟨hmoved.system, ?_, ?_, h.nodup, fun j hj => hmoved.commits j (h.committed j hj), ?_,
    fun cid => ?_, ?_, ?_, fun a ha => ?_, fun a ha => ?_⟩
  · refine hmoved.phases (P := fun j p => p.On (calls j)) ?_ fun j _ => h.on j
    intro f' pc hphase
    cases hphase
  · rw [hmessages, List.map_append, h.messages]
    rfl
  · exact hmoved.phases (P := fun j p => p.uncounted → j ∉ l.counted)
      (fun hun => by cases hun) fun j _ => h.uncounted j
  · rw [messageCount_congr hrows]
    exact h.count cid
  · refine hmoved.phases (P := fun j p => ∀ f g n, p = .running f (.insert g n) →
      0 < n ∧ (onRow calls f.cid l.counted)[n - 1]? = some j) ?_ fun j _ => h.position j
    intro f' g' n' hphase
    cases hphase
  · simpa using List.Nodup.concat hnew h.once
  · rcases List.mem_append.mp ha with ha | ha
    · exact hmoved.finished h a ha
    · rw [List.mem_singleton.mp ha, hmoved.phase, Function.update_self]
      exact ⟨out, rfl⟩
  · rcases List.mem_append.mp ha with ha | ha
    · exact h.row a ha
    · rw [List.mem_singleton.mp ha]
      exact ⟨⟨f.message, hparsed, rfl, rfl, hon⟩, hat⟩

theorem systemStep_moved (h : SystemInv cfg calls l.system) (k : ι) (i : StepInput) :
    Moved cfg calls l k (postStep cfg (calls k) i l.system.world (l.system.phase k)).2.1
      (systemStep cfg calls l.system (k, i)) where
  system := systemStep_inv l.system (k, i) h
  phase := rfl
  commits := fun j hj => List.mem_append_left _ hj
  done := by intro r hr; rw [hr]; rfl

theorem ledgerStep_inv (l : Ledger ι) (a : ι × StepInput) (h : LedgerInv cfg calls l) :
    LedgerInv cfg calls (ledgerStep cfg calls l a) := by
  obtain ⟨k, i⟩ := a
  have hmoved := systemStep_moved h.system k i
  have htabled := postStep_tabled cfg (calls k) i l.system.world (l.system.phase k)
  have hworld : (systemStep cfg calls l.system (k, i)).world =
      (postStep cfg (calls k) i l.system.world (l.system.phase k)).1 := rfl
  have hphase : (systemStep cfg calls l.system (k, i)).phase k =
      (postStep cfg (calls k) i l.system.world (l.system.phase k)).2.1 := Function.update_self _ _ _
  simp only [ledgerStep, hphase]
  rw [← hworld] at htabled
  generalize systemStep cfg calls l.system (k, i) = s at hmoved htabled
  generalize (postStep cfg (calls k) i l.system.world (l.system.phase k)).2.1 = p
    at hmoved htabled
  generalize hp : l.system.phase k = p₀ at htabled
  cases htabled with
  | quiet hcounts hmessages huncounted hnext hon =>
    simp only [justCounted_eq_false hnext, hmessages, List.drop_length, List.map_nil,
      List.append_nil, Bool.false_eq_true, if_false]
    exact h.quiet hmoved hcounts hmessages (hp ▸ huncounted) hnext (hp ▸ hon)
  | counted hcount hcounts hmessages =>
    simp only [justCounted, if_true, hmessages, List.drop_length, List.map_nil, List.append_nil]
    exact h.count_step hp hmoved hcount hcounts hmessages
  | stored hrows hmessages =>
    simp only [justCounted, hmessages, List.drop_left, List.map_cons, List.map_nil,
      Bool.false_eq_true, if_false]
    exact h.store_step hp hmoved hrows hmessages

/-! ## Rows and blocks -/

/-- The rows against the blocks: `rows` tells which call stored which row, and `blocks` that the
transcripts hold the blocks of the calls in `commits`. -/
structure RowsMatchBlocks (cfg : Config) (calls : ι → Call) (l : Ledger ι) : Prop where
  rows : l.rows.map (·.2) = l.system.world.messages
  blocks : ∀ id, TranscriptOf cfg calls l.system id
  distinct : l.system.world.messages.Pairwise fun m m' =>
    m.conversationId = m'.conversationId → m.ordinal ≠ m'.ordinal
  below : ∀ m ∈ l.system.world.messages, ∃ row,
    l.system.world.conversations m.conversationId = some row ∧ m.ordinal < row.messageCount
  ofBlock : ∀ a ∈ l.rows, RowOf cfg (calls a.1) a.2 ∧ l.system.commits.count a.1 = 1
  oneRow : (l.rows.map (·.1)).Nodup
  count_le : ∀ cid row, l.system.world.conversations cid = some row →
    row.messageCount ≤ (onRow calls cid l.system.commits).length

theorem LedgerInv.distinct (h : LedgerInv cfg calls l) :
    l.system.world.messages.Pairwise fun m m' =>
      m.conversationId = m'.conversationId → m.ordinal ≠ m'.ordinal := by
  rw [← h.messages, List.pairwise_map]
  have honce : l.rows.Pairwise fun a b => a.1 ≠ b.1 := List.pairwise_map.mp h.once
  refine honce.imp_of_mem ?_
  intro a b ha hb hne hcid hord
  -- the position determines the call
  have hat := (h.row a ha).2
  rw [hcid, hord, (h.row b hb).2] at hat
  exact hne (Option.some.inj hat).symm

theorem LedgerInv.below (h : LedgerInv cfg calls l) :
    ∀ m ∈ l.system.world.messages, ∃ row,
      l.system.world.conversations m.conversationId = some row ∧ m.ordinal < row.messageCount := by
  intro m hm
  rw [← h.messages] at hm
  obtain ⟨a, ha, rfl⟩ := List.mem_map.mp hm
  obtain ⟨_, _, hlt⟩ := mem_of_onRow_getElem? (h.row a ha).2
  rw [← h.count, messageCount] at hlt
  cases hrow : l.system.world.conversations a.2.conversationId with
  | none => rw [hrow] at hlt; exact absurd hlt (Nat.not_lt_zero _)
  | some row => rw [hrow] at hlt; exact ⟨row, rfl, hlt⟩

theorem LedgerInv.count_le (h : LedgerInv cfg calls l) (cid : Uuid) :
    messageCount l.system.world cid ≤ (onRow calls cid l.system.commits).length := by
  rw [h.count]
  have hsub : onRow calls cid l.counted ⊆ onRow calls cid l.system.commits := by
    intro k hk
    rw [onRow, List.mem_filter] at hk ⊢
    exact ⟨h.committed k hk.1, hk.2⟩
  exact (List.Nodup.subperm (h.nodup.filter _) hsub).length_le

/-- In every state of every interleaving, with any failing statements: the ordinals of a
conversation are distinct and below its counter, every row has the role and the content of one
committed block and no block has two rows, and the counter is at most the number of blocks. -/
theorem rows_match_blocks (cfg : Config) (calls : ι → Call) (schedule : List (ι × StepInput)) :
    Run.Always (ledgerStep cfg calls) (RowsMatchBlocks cfg calls) Ledger.init schedule := by
  have hinv : Run.Always (ledgerStep cfg calls) (LedgerInv cfg calls) Ledger.init schedule :=
    Run.always_of_inv ledgerStep_inv schedule _ ledgerInv_init
  refine Run.always_mono (fun l h => ?_) schedule _ hinv
  refine ⟨h.messages, h.system.transcript, h.distinct, h.below, fun a ha => ⟨(h.row a ha).1, ?_⟩,
    h.once, fun cid row hrow => ?_⟩
  · obtain ⟨out, hout⟩ := h.finished a ha
    exact h.system.blocks a.1 1 (by rw [hout]; rfl)
  · have := h.count_le cid
    simpa [messageCount, hrow] using this

/-! ## The order of the ordinals -/

def Phase.Pending (p : Phase) : Prop := p.uncounted ∧ p.blocks = some 1

instance (p : Phase) : Decidable p.Pending := inferInstanceAs (Decidable (_ ∧ _))

def Phase.counting : Phase → Bool
  | .running _ (.increment _) => true
  | _ => false

/-- The ordinals of a conversation are in the order of its blocks. -/
def OrdinalsInOrder (calls : ι → Call) (l : Ledger ι) : Prop :=
  ∀ a ∈ l.rows, ∀ b ∈ l.rows, (calls a.1).conversationId = (calls b.1).conversationId →
    Before l.system.commits a.1 b.1 → a.2.ordinal < b.2.ordinal

/-- A call that is about to count finds no call pending whose block precedes its own. -/
def CountsInTurn (calls : ι → Call) (l : Ledger ι) (a : ι × StepInput) : Prop :=
  (l.system.phase a.1).counting → ∀ j, (calls j).conversationId = (calls a.1).conversationId →
    Before l.system.commits j a.1 → ¬ (l.system.phase j).Pending

/-- Calls are counted in the order of their blocks, and once a call is counted the calls of earlier
blocks are settled. -/
structure OrderInv (cfg : Config) (calls : ι → Call) (l : Ledger ι) : Prop where
  ledger : LedgerInv cfg calls l
  settled : ∀ a b, (calls a).conversationId = (calls b).conversationId →
    Before l.system.commits a b → b ∈ l.counted → ¬ (l.system.phase a).Pending
  ordered : ∀ a b, (calls a).conversationId = (calls b).conversationId →
    Before l.system.commits a b → a ∈ l.counted → b ∈ l.counted → Before l.counted a b

theorem OrderInv.inOrder (h : OrderInv cfg calls l) : OrdinalsInOrder calls l := by
  intro a ha b hb hid hbefore
  obtain ⟨hrowA, hatA⟩ := h.ledger.row a ha
  obtain ⟨hrowB, hatB⟩ := h.ledger.row b hb
  obtain ⟨hca, honA, _⟩ := mem_of_onRow_getElem? hatA
  obtain ⟨hcb, honB, _⟩ := mem_of_onRow_getElem? hatB
  have hcid : a.2.conversationId = b.2.conversationId :=
    Option.some.inj (honA.symm.trans ((congrArg Uuid.pgParse hid).trans honB))
  rw [hcid] at hatA honA
  have hcounted : Before (onRow calls b.2.conversationId l.counted) a.1 b.1 :=
    (h.ordered a.1 b.1 hid hbefore hca hcb).filter (by simpa using honA) (by simpa using honB)
  exact hcounted.lt (h.ledger.nodup.filter _) hatA hatB

theorem orderInv_init : OrderInv cfg calls (Ledger.init : Ledger ι) where
  ledger := ledgerInv_init
  settled := by intro a b _ _ hb; cases hb
  ordered := by intro a b _ _ _ hb; cases hb

/-- What a step of the call at `k` does to the logs, with the positions it does it from. -/
inductive Logged (l : Ledger ι) (k : ι) : Ledger ι → Prop where
  | quiet {l' : Ledger ι} (hcommits : l'.system.commits = l.system.commits)
      (hcounted : l'.counted = l.counted)
      (hpending : (l'.system.phase k).Pending → (l.system.phase k).Pending) : Logged l k l'
  | committed {l' : Ledger ι} (hcommits : l'.system.commits = l.system.commits ++ [k])
      (hcounted : l'.counted = l.counted) (hnew : k ∉ l.system.commits)
      (huncounted : k ∉ l.counted) : Logged l k l'
  | counted {l' : Ledger ι} {f : Frame} {g : Nat}
      (hcommits : l'.system.commits = l.system.commits)
      (hcounted : l'.counted = l.counted ++ [k])
      (hphase : l.system.phase k = .running f (.increment g))
      (hpending : ¬ (l'.system.phase k).Pending) : Logged l k l'

theorem OrderInv.logged (h : OrderInv cfg calls l) {l' : Ledger ι} {a : ι × StepInput}
    (hledger : LedgerInv cfg calls l')
    (hother : ∀ j, j ≠ a.1 → l'.system.phase j = l.system.phase j)
    (hturn : CountsInTurn calls l a) (hlogged : Logged l a.1 l') : OrderInv cfg calls l' := by
  cases hlogged with
  | quiet hcommits hcounted hpending =>
    refine ⟨hledger, fun x y hid hxy hy => ?_, fun x y hid hxy hx hy => ?_⟩
    · rw [hcommits] at hxy
      rw [hcounted] at hy
      have hx := h.settled x y hid hxy hy
      by_cases hk : x = a.1
      · subst hk; exact fun hp => hx (hpending hp)
      · rwa [hother x hk]
    · rw [hcommits] at hxy
      rw [hcounted] at hx hy ⊢
      exact h.ordered x y hid hxy hx hy
  | committed hcommits hcounted hnew huncounted =>
    refine ⟨hledger, fun x y hid hxy hy => ?_, fun x y hid hxy hx hy => ?_⟩
    · rw [hcommits, before_concat] at hxy
      rw [hcounted] at hy
      rcases hxy with hxy | ⟨_, rfl⟩
      · rw [hother x fun hk => hnew (hk ▸ hxy.mem_left)]
        exact h.settled x y hid hxy hy
      · exact absurd hy huncounted
    · rw [hcommits, before_concat] at hxy
      rw [hcounted] at hx hy ⊢
      rcases hxy with hxy | ⟨_, rfl⟩
      · exact h.ordered x y hid hxy hx hy
      · exact absurd hy huncounted
  | @counted f g hcommits hcounted hphase hpending =>
    have hkpending : (l.system.phase a.1).Pending := by rw [hphase]; exact ⟨rfl, rfl⟩
    have hcounting : (l.system.phase a.1).counting := by rw [hphase]; rfl
    refine ⟨hledger, fun x y hid hxy hy => ?_, fun x y hid hxy hx hy => ?_⟩
    · rw [hcommits] at hxy
      rw [hcounted] at hy
      by_cases hk : x = a.1
      · subst hk; exact hpending
      · rw [hother x hk]
        rcases List.mem_append.mp hy with hy | hy
        · exact h.settled x y hid hxy hy
        · obtain rfl := List.mem_singleton.mp hy
          exact hturn hcounting x hid hxy
    · rw [hcommits] at hxy
      rw [hcounted] at hx hy ⊢
      rw [before_concat]
      -- the call that counts now comes after every call counted so far
      have hxk : x ≠ a.1 := by
        rintro rfl
        rcases List.mem_append.mp hy with hy | hy
        · exact h.settled a.1 y hid hxy hy hkpending
        · obtain rfl := List.mem_singleton.mp hy
          exact hturn hcounting a.1 rfl hxy hkpending
      have hx : x ∈ l.counted := (List.mem_append.mp hx).resolve_right
        fun hx => hxk (List.mem_singleton.mp hx)
      rcases List.mem_append.mp hy with hy | hy
      · exact .inl (h.ordered x y hid hxy hx hy)
      · exact .inr ⟨hx, List.mem_singleton.mp hy⟩

theorem PostWrote.of_block {p p' : Phase} (h : PostWrote cfg call b p p' (some .block) b') :
    ∃ f healed attempt current generation,
      p = .running f (.upload healed attempt current generation) := by
  cases h
  exact ⟨_, _, _, _, _, rfl⟩

theorem PostWrote.blocks_eq {p p' : Phase} {wr : Option Write}
    (h : PostWrote cfg call b p p' wr b') (hwr : wr ≠ some .block) (hn : p'.blocks = some n) :
    p.blocks = some n := by
  cases h with
  | quiet hblocks => exact hblocks n hn
  | header hblocks => rw [Phase.blocks, ← hblocks]; exact hn
  | block => exact absurd rfl hwr

theorem ledgerStep_logged (h : LedgerInv cfg calls l) (a : ι × StepInput) :
    Logged l a.1 (ledgerStep cfg calls l a) := by
  obtain ⟨k, i⟩ := a
  have hwrote := postStep_wrote cfg (calls k) i l.system.world (l.system.phase k)
  have htabled := postStep_tabled cfg (calls k) i l.system.world (l.system.phase k)
  have hphase : (ledgerStep cfg calls l (k, i)).system.phase k =
      (postStep cfg (calls k) i l.system.world (l.system.phase k)).2.1 := Function.update_self _ _ _
  have hcommits : (ledgerStep cfg calls l (k, i)).system.commits = l.system.commits ++
      logged .block k (postStep cfg (calls k) i l.system.world (l.system.phase k)).2.2 := rfl
  have hcounted : (ledgerStep cfg calls l (k, i)).counted =
      if justCounted (l.system.phase k) ((ledgerStep cfg calls l (k, i)).system.phase k)
      then l.counted ++ [k] else l.counted := rfl
  generalize ledgerStep cfg calls l (k, i) = l' at hphase hcommits hcounted ⊢
  rw [hphase] at hcounted
  generalize postStep cfg (calls k) i l.system.world (l.system.phase k) = r
    at hwrote htabled hphase hcommits hcounted
  obtain ⟨w, p, wr⟩ := r
  dsimp only at hwrote htabled hphase hcommits hcounted
  by_cases hwr : wr = some .block
  · subst hwr
    obtain ⟨f, healed, attempt, current, generation, hp⟩ := hwrote.of_block
    have hzero : l.system.commits.count k = 0 := h.system.blocks k 0 (by rw [hp]; rfl)
    rw [hp] at hcounted
    refine .committed (by simpa [logged] using hcommits) (by simpa [justCounted] using hcounted)
      (List.count_eq_zero.mp hzero) (h.uncounted k ?_)
    rw [hp]
    rfl
  · have hsame : l'.system.commits = l.system.commits := by simpa [logged, hwr] using hcommits
    have hblocks := fun n hn => hwrote.blocks_eq hwr (n := n) hn
    generalize hp : l.system.phase k = p₀ at htabled hcounted hblocks
    cases htabled with
    | quiet _ _ huncounted hnext _ =>
      refine .quiet hsame (by simpa [justCounted_eq_false hnext] using hcounted) ?_
      rw [hphase, hp]
      exact fun hpending => ⟨huncounted hpending.1, hblocks 1 hpending.2⟩
    | counted =>
      refine .counted hsame (by simpa [justCounted] using hcounted) hp ?_
      rw [hphase]
      exact fun hpending => by cases hpending.1
    | stored =>
      refine .quiet hsame (by simpa [justCounted] using hcounted) ?_
      rw [hphase]
      exact fun hpending => by cases hpending.1

theorem ledgerStep_orderInv (l : Ledger ι) (a : ι × StepInput) (h : OrderInv cfg calls l)
    (hturn : CountsInTurn calls l a) : OrderInv cfg calls (ledgerStep cfg calls l a) :=
  h.logged (ledgerStep_inv l a h.ledger) (fun _ hj => Function.update_of_ne hj _ _) hturn
    (ledgerStep_logged h.ledger a)

/-- In every interleaving in which no call counts before the calls of earlier blocks have passed
their counter update, the ordinals are in the order of the blocks in every state. -/
theorem ordinals_in_order (cfg : Config) (calls : ι → Call) (schedule : List (ι × StepInput))
    (hturn : Run.Along (ledgerStep cfg calls) (CountsInTurn calls) Ledger.init schedule) :
    Run.Always (ledgerStep cfg calls) (OrdinalsInOrder calls) Ledger.init schedule := by
  have hinv : Run.Always (ledgerStep cfg calls) (OrderInv cfg calls) Ledger.init schedule :=
    Run.always_of_along ledgerStep_orderInv schedule _ orderInv_init hturn
  exact Run.always_mono (fun _ h => h.inOrder) schedule _ hinv

end

def twoCalls (answer : Bool) : Call :=
  if answer then sampleCall "assistant" "deux" else sampleCall "user" "un"

def stepsOf (k : Bool) (n : Nat) : List (Bool × StepInput) := List.replicate n (k, ⟨.ok, 0⟩)

instance (l : Ledger Bool) (a : Bool × StepInput) : Decidable (CountsInTurn twoCalls l a) :=
  inferInstanceAs (Decidable (_ → ∀ _j : Bool, _))

instance (l : Ledger Bool) : Decidable (OrdinalsInOrder twoCalls l) :=
  inferInstanceAs (Decidable (∀ a ∈ l.rows, ∀ b ∈ l.rows, _))

def inTurn : List (Bool × StepInput) :=
  stepsOf false 6 ++ stepsOf true 4 ++ stepsOf false 2 ++ stepsOf true 2

theorem ordinals_in_order_inTurn :
    Run.Always (ledgerStep sampleConfig twoCalls) (OrdinalsInOrder twoCalls) Ledger.init inTurn ∧
      (Run.exec (ledgerStep sampleConfig twoCalls) Ledger.init inTurn).rows.map
        (fun a => (a.1, a.2.ordinal)) = [(false, 0), (true, 1)] :=
  ⟨ordinals_in_order sampleConfig twoCalls inTurn (by decide +kernel), by decide +kernel⟩

/-- The question is committed first, and the answer counted first. -/
def outOfTurn : List (Bool × StepInput) := stepsOf false 5 ++ stepsOf true 6 ++ stepsOf false 3

theorem ordinals_out_of_order :
    let l := Run.exec (ledgerStep sampleConfig twoCalls) Ledger.init outOfTurn
    l.system.commits = [false, true] ∧
      l.rows.map (fun a => (a.1, a.2.ordinal)) = [(true, 0), (false, 1)] ∧
      ¬ OrdinalsInOrder twoCalls l := by
  decide +kernel

end Archiviste.Conversation
