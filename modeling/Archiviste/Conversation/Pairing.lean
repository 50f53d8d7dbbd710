import Archiviste.Conversation.Ordinals
import Archiviste.Conversation.QueryLog
import Archiviste.Generate.MemoryWindow
import Mathlib.Data.List.Chain
import Mathlib.Data.List.Sort

/-!
# Archiviste.Conversation.Pairing

The turns of a conversation by ordinal, under any number of generate requests. A request posts its
question and its answer by two calls of their own, each of which may be refused, fail or lose its
row, and the calls of other requests may come between them.

* `PairedTurns`         — the stored turns are questions, each followed by its answer, and the window
  read from them alternates.
* `countsOn`, `storesOn` — the steps that count a turn in `message_count`, and that store its row.
* `Uninterrupted`       — of a request both turns are stored or none, and no counter update of another
  stored turn comes between its own.
* `paired_turns_iff`    — the turns are paired exactly when the steps of the run are so.
-/

namespace Archiviste.Conversation

open Generate (AppendArgs Role MessageRow appendsOf loadMemoryWindow memoryMaxTurns)
open Log

/-! ## The turns of a request -/

/-- The call that posts a turn of the request. A request without turns sends none; the call that
stands for it here is refused before it does anything. -/
def turnCall (cfg : Config) (r : GenRequest) (role : Role) : Call :=
  match (appendsOf r.trace).find? fun args => args.role = role with
  | some args => appendCall cfg args
  | none => ⟨[], .null⟩

def requestCalls {κ : Type} (cfg : Config) (requests : κ → GenRequest) (i : κ × Role) : Call :=
  turnCall cfg (requests i.1) i.2

section
variable {κ : Type}

def turnsOf (l : Ledger (κ × Role)) (cid : Uuid) : List ((κ × Role) × StoredMessage) :=
  (l.rows.filter fun a => a.2.conversationId = cid).insertionSort
    fun a b => a.2.ordinal ≤ b.2.ordinal

def messageRow (m : StoredMessage) : MessageRow := ⟨m.role, m.ordinal, m.content, m.tokenCount⟩

/-- `fetch_tail_owned` for the owner: the rows by descending ordinal, up to the limit. -/
def fetchTail (w : World) (cid : Uuid) : List MessageRow :=
  (((w.messages.filter fun m => m.conversationId = cid).insertionSort
    fun m m' => m.ordinal ≤ m'.ordinal).reverse.take memoryMaxTurns).map messageRow

def alternate : Generate.Message → Generate.Message → Bool
  | .human _, .ai _ | .ai _, .human _ => true
  | _, _ => false

def Alternates (messages : List Generate.Message) : Prop :=
  messages.IsChain fun a b => alternate a b = true

instance (messages : List Generate.Message) : Decidable (Alternates messages) :=
  inferInstanceAs (Decidable (List.IsChain _ _))

def pairOf (k : κ) : List (κ × Role) := [(k, .user), (k, .assistant)]

structure PairedTurns (requests : κ → GenRequest) (l : Ledger (κ × Role)) (cid : Uuid) : Prop where
  pairs : ∃ ks : List κ, (turnsOf l cid).map (·.1) = ks.flatMap pairOf
  /-- A row has the role and the content of the turn it was stored for. -/
  turns : ∀ a ∈ turnsOf l cid, ∃ args ∈ appendsOf (requests a.1.1).trace,
    args.role = a.1.2 ∧ a.2.role = args.role ∧ a.2.content = args.content
  window : ∀ budget,
    Alternates (loadMemoryWindow (some (fetchTail l.system.world cid)) budget).messages

def countsOn {ι : Type} (cid : Uuid) (l : Ledger ι) (a : ι × StepInput) : Option ι :=
  match l.system.phase a.1 with
  | .running f (.increment _) =>
    if f.cid = cid ∧ a.2.outcome ≠ .fails ∧ (l.system.world.conversations cid).isSome then some a.1
    else none
  | _ => none

def storesOn {ι : Type} (cid : Uuid) (l : Ledger ι) (a : ι × StepInput) : Option ι :=
  match l.system.phase a.1 with
  | .running f (.insert _ _) => if f.cid = cid ∧ a.2.outcome ≠ .fails then some a.1 else none
  | _ => none

/-- Of every request both appends store their turn or neither does. The counter update of its
question comes before that of its answer, and none of another stored turn comes between. -/
structure Uninterrupted (counting storing : List (κ × Role)) : Prop where
  both : ∀ k, (k, Role.user) ∈ storing ↔ (k, Role.assistant) ∈ storing
  adjacent : ∀ k, (k, Role.user) ∈ storing → Before counting (k, .user) (k, .assistant) ∧
    ∀ i ∈ storing, Before counting (k, .user) i → ¬ Before counting i (k, .assistant)

/-! ## Lists of pairs -/

variable {ks : List κ} {role : Role} {i : κ × Role} {m : MessageIn}

theorem mem_flatMap_pairOf {k : κ} : (k, role) ∈ ks.flatMap pairOf ↔ k ∈ ks := by
  cases role <;> simp [pairOf, Prod.ext_iff]

theorem pairs_iff {s : List (κ × Role)} (hs : s.Nodup) :
    (∃ ks : List κ, s = ks.flatMap pairOf) ↔ Uninterrupted s s := by
  constructor
  · rintro ⟨ks, rfl⟩
    refine ⟨fun k => by rw [mem_flatMap_pairOf, mem_flatMap_pairOf], fun k hk => ?_⟩
    obtain ⟨ks₁, ks₂, rfl⟩ := List.append_of_mem (mem_flatMap_pairOf.1 hk)
    have hsplit : (ks₁ ++ k :: ks₂).flatMap pairOf =
        ks₁.flatMap pairOf ++ (k, .user) :: (k, .assistant) :: ks₂.flatMap pairOf := by
      simp [pairOf]
    rw [hsplit] at hs ⊢
    have huser : (ks₁.flatMap pairOf ++ (k, Role.user) :: (k, .assistant) ::
        ks₂.flatMap pairOf)[(ks₁.flatMap pairOf).length]? = some (k, .user) := by simp
    have hassistant : (ks₁.flatMap pairOf ++ (k, Role.user) :: (k, .assistant) ::
        ks₂.flatMap pairOf)[(ks₁.flatMap pairOf).length + 1]? = some (k, .assistant) := by simp
    refine ⟨before_of_lt (Nat.lt_succ_self _) huser hassistant, fun i hi hafter hbefore => ?_⟩
    obtain ⟨n, hn⟩ := List.getElem?_of_mem hi
    have hlow := hafter.lt hs huser hn
    have hhigh := hbefore.lt hs hn hassistant
    omega
  · rintro ⟨hboth, hadjacent⟩
    induction hlen : s.length using Nat.strong_induction_on generalizing s with
    | _ len ih =>
      rcases s with _ | ⟨⟨k, role⟩, rest⟩
      · exact ⟨[], rfl⟩
      have hnotin := (List.nodup_cons.1 hs).1
      -- the first entry is the first of its pair
      have hrole : role = .user := by
        cases role with
        | user => rfl
        | assistant =>
          have huser := (hboth k).2 List.mem_cons_self
          rcases before_cons.1 (hadjacent k huser).1 with ⟨heq, -⟩ | hbefore
          · cases heq
          · exact absurd hbefore.mem_right hnotin
      subst hrole
      rcases rest with _ | ⟨y, rest⟩
      · have hassistant := (hboth k).1 List.mem_cons_self
        simp at hassistant
      -- and the second entry its second
      have hy : y = (k, .assistant) := by
        by_contra hne
        have hassistant := (hboth k).1 List.mem_cons_self
        have hmem : (k, Role.assistant) ∈ rest := by
          simpa [Ne.symm hne] using hassistant
        refine (hadjacent k List.mem_cons_self).2 y (by simp) ?_ ?_
        · exact before_cons.2 (.inl ⟨rfl, List.mem_cons_self⟩)
        · exact before_cons.2 (.inr (before_cons.2 (.inl ⟨rfl, hmem⟩)))
      subst hy
      have hnodup := (List.nodup_cons.1 (List.nodup_cons.1 hs).2).2
      have huser : (k, Role.user) ∉ rest := fun h => hnotin (List.mem_cons_of_mem _ h)
      have hassistant := (List.nodup_cons.1 (List.nodup_cons.1 hs).2).1
      have hne : ∀ {k' : κ} {role : Role}, (k', role) ∈ rest → k' ≠ k := by
        rintro k' role hmem rfl
        cases role with
        | user => exact huser hmem
        | assistant => exact hassistant hmem
      have hback : ∀ {i j : κ × Role}, i ∈ rest →
          Before ((k, Role.user) :: (k, Role.assistant) :: rest) i j → Before rest i j := by
        intro i j hi h
        rcases before_cons.1 h with ⟨rfl, -⟩ | h
        · exact absurd hi huser
        · rcases before_cons.1 h with ⟨rfl, -⟩ | h
          · exact absurd hi hassistant
          · exact h
      have hforth : ∀ {i j : κ × Role}, Before rest i j →
          Before ((k, Role.user) :: (k, Role.assistant) :: rest) i j :=
        fun h => before_cons.2 (.inr (before_cons.2 (.inr h)))
      have hboth' : ∀ k', (k', Role.user) ∈ rest ↔ (k', Role.assistant) ∈ rest := by
        intro k'
        constructor
        · intro hmem
          have h := (hboth k').1 (List.mem_cons_of_mem _ (List.mem_cons_of_mem _ hmem))
          simpa [hne hmem] using h
        · intro hmem
          have h := (hboth k').2 (List.mem_cons_of_mem _ (List.mem_cons_of_mem _ hmem))
          simpa [hne hmem] using h
      have hadjacent' : ∀ k', (k', Role.user) ∈ rest →
          Before rest (k', .user) (k', .assistant) ∧
            ∀ i, i ∈ rest → Before rest (k', .user) i → ¬ Before rest i (k', .assistant) := by
        intro k' hk'
        obtain ⟨hbefore, hnone⟩ :=
          hadjacent k' (List.mem_cons_of_mem _ (List.mem_cons_of_mem _ hk'))
        refine ⟨hback hk' hbefore, fun i hi hafter hbetween => ?_⟩
        exact hnone i (by simp [hi]) (hforth hafter) (hforth hbetween)
      have hlt : rest.length < len := by
        rw [← hlen]
        simp only [List.length_cons]
        omega
      obtain ⟨ks, rfl⟩ := ih rest.length hlt hnodup hboth' hadjacent' rfl
      exact ⟨k :: ks, rfl⟩

/-! ## The rows by ordinal -/

variable {cfg : Config} {requests : κ → GenRequest} {l : Ledger (κ × Role)} {cid : Uuid}

theorem mem_turnsOf {a : (κ × Role) × StoredMessage} :
    a ∈ turnsOf l cid ↔ a ∈ l.rows ∧ a.2.conversationId = cid := by
  simp [turnsOf]

variable [DecidableEq κ]

theorem turnsOf_nodup (h : LedgerInv cfg (requestCalls cfg requests) l) :
    ((turnsOf l cid).map (·.1)).Nodup := by
  refine ((List.perm_insertionSort _ _).map _).nodup_iff.2 ?_
  exact h.once.sublist (List.filter_sublist.map _)

def storedTurns {ι : Type} (l : Ledger ι) (cid : Uuid) : List ι :=
  (l.rows.filter fun a => a.2.conversationId = cid).map (·.1)

omit [DecidableEq κ] in
theorem mem_storedTurns : i ∈ storedTurns l cid ↔ i ∈ (turnsOf l cid).map (·.1) :=
  ((List.perm_insertionSort _ _).map _).symm.mem_iff

/-- Rows by ordinal are in the order in which their calls were counted. -/
theorem turnsOf_counted (h : LedgerInv cfg (requestCalls cfg requests) l) :
    ((turnsOf l cid).map (·.1)).Pairwise
      (Before (onRow (requestCalls cfg requests) cid l.counted)) := by
  rw [List.pairwise_map]
  have hsorted : (turnsOf l cid).Pairwise fun a b => a.2.ordinal ≤ b.2.ordinal :=
    List.pairwise_insertionSort _ _
  have hnodup : (turnsOf l cid).Pairwise fun a b => a.1 ≠ b.1 :=
    List.pairwise_map.1 (turnsOf_nodup h)
  refine (hsorted.and hnodup).imp_of_mem fun {a b} ha hb hab => ?_
  obtain ⟨ha, hacid⟩ := mem_turnsOf.1 ha
  obtain ⟨hb, hbcid⟩ := mem_turnsOf.1 hb
  have hposA := (h.row a ha).2
  have hposB := (h.row b hb).2
  rw [hacid] at hposA
  rw [hbcid] at hposB
  have hlt : a.2.ordinal < b.2.ordinal := by
    refine lt_of_le_of_ne hab.1 fun heq => hab.2 ?_
    rw [heq, hposB] at hposA
    exact (Option.some.inj hposA).symm
  exact before_of_lt hlt hposA hposB

theorem before_turnsOf (h : LedgerInv cfg (requestCalls cfg requests) l) {j : κ × Role}
    (hi : i ∈ (turnsOf l cid).map (·.1)) (hj : j ∈ (turnsOf l cid).map (·.1)) :
    Before ((turnsOf l cid).map (·.1)) i j ↔
      Before (onRow (requestCalls cfg requests) cid l.counted) i j := by
  have hcounted : ∀ {i j}, Before ((turnsOf l cid).map (·.1)) i j →
      Before (onRow (requestCalls cfg requests) cid l.counted) i j :=
    fun hbefore => List.pairwise_iff_forall_sublist.1 (turnsOf_counted h) hbefore
  have hnodup : (onRow (requestCalls cfg requests) cid l.counted).Nodup := h.nodup.filter _
  refine ⟨hcounted, fun hbefore => ?_⟩
  have hne : i ≠ j := by
    rintro rfl
    exact hbefore.asymm hnodup hbefore
  rcases before_or_before hi hj hne with hij | hji
  · exact hij
  · exact absurd hbefore ((hcounted hji).asymm hnodup)

theorem paired_iff_uninterrupted (h : LedgerInv cfg (requestCalls cfg requests) l) :
    (∃ ks : List κ, (turnsOf l cid).map (·.1) = ks.flatMap pairOf) ↔
      Uninterrupted (onRow (requestCalls cfg requests) cid l.counted) (storedTurns l cid) := by
  rw [pairs_iff (turnsOf_nodup h)]
  constructor
  · rintro ⟨hboth, hadjacent⟩
    refine ⟨fun k => by rw [mem_storedTurns, mem_storedTurns, hboth], fun k hk => ?_⟩
    rw [mem_storedTurns] at hk
    obtain ⟨hbefore, hnone⟩ := hadjacent k hk
    refine ⟨(before_turnsOf h hk ((hboth k).1 hk)).1 hbefore, fun i hi hafter hbetween => ?_⟩
    rw [mem_storedTurns] at hi
    exact hnone i hi ((before_turnsOf h hk hi).2 hafter)
      ((before_turnsOf h hi ((hboth k).1 hk)).2 hbetween)
  · rintro ⟨hboth, hadjacent⟩
    simp only [mem_storedTurns] at hboth hadjacent
    refine ⟨hboth, fun k hk => ?_⟩
    obtain ⟨hbefore, hnone⟩ := hadjacent k hk
    refine ⟨(before_turnsOf h hk ((hboth k).1 hk)).2 hbefore, fun i hi hafter hbetween => ?_⟩
    exact hnone i hi ((before_turnsOf h hk hi).1 hafter)
      ((before_turnsOf h hi ((hboth k).1 hk)).1 hbetween)

/-! ## The steps that count and store -/

section
variable {ι : Type} [DecidableEq ι] {calls : ι → Call} {l : Ledger ι}

variable {w' : World} {p' : Phase} {wr : Option Write} {k : ι} {f : Frame} {g : Nat}

theorem ledgerStep_eq (l : Ledger ι) (k : ι) (i : StepInput)
    (h : postStep cfg (calls k) i l.system.world (l.system.phase k) = (w', p', wr)) :
    (ledgerStep cfg calls l (k, i)).counted =
        (if justCounted (l.system.phase k) p' then l.counted ++ [k] else l.counted) ∧
      (ledgerStep cfg calls l (k, i)).rows =
        l.rows ++ (w'.messages.drop l.system.world.messages.length).map (k, ·) := by
  have hphase : (systemStep cfg calls l.system (k, i)).phase k = p' := by
    rw [systemStep, h]
    exact Function.update_self _ _ _
  have hworld : (systemStep cfg calls l.system (k, i)).world = w' := by rw [systemStep, h]
  simp only [ledgerStep, hphase, hworld, and_self]

theorem LedgerInv.insert_accepted (h : LedgerInv cfg calls l) {n : Nat}
    (hp : l.system.phase k = .running f (.insert g n)) :
    l.system.world.conversations f.cid ≠ none ∧
      ¬ ∃ m ∈ l.system.world.messages, m.conversationId = f.cid ∧ m.ordinal = n - 1 := by
  obtain ⟨_, hat⟩ := h.position k f g n hp
  refine ⟨fun hnone => ?_, ?_⟩
  · obtain ⟨_, _, hlt⟩ := mem_of_onRow_getElem? hat
    rw [← h.count, messageCount, hnone] at hlt
    exact absurd hlt (Nat.not_lt_zero _)
  · rintro ⟨m, hm, hcid, hordinal⟩
    rw [← h.messages] at hm
    obtain ⟨a, ha, rfl⟩ := List.mem_map.1 hm
    have hrow := (h.row a ha).2
    rw [hcid, hordinal, hat] at hrow
    obtain ⟨out, hout⟩ := h.finished a ha
    rw [← Option.some.inj hrow, hp] at hout
    cases hout

def Logs (cfg : Config) (calls : ι → Call) (cid : Uuid) (l : Ledger ι) (a : ι × StepInput) : Prop :=
  onRow calls cid (ledgerStep cfg calls l a).counted =
      onRow calls cid l.counted ++ (countsOn cid l a).toList ∧
    storedTurns (ledgerStep cfg calls l a) cid = storedTurns l cid ++ (storesOn cid l a).toList

theorem Logs.of_quiet {i : StepInput}
    (h : postStep cfg (calls k) i l.system.world (l.system.phase k) = (w', p', wr))
    (hmessages : w'.messages = l.system.world.messages)
    (hnext : ∀ f g n, p' ≠ .running f (.insert g n)) (hcounts : countsOn cid l (k, i) = none)
    (hstores : storesOn cid l (k, i) = none) : Logs cfg calls cid l (k, i) := by
  obtain ⟨hcounted, hrows⟩ := ledgerStep_eq l k i h
  rw [justCounted_eq_false hnext] at hcounted
  rw [hmessages, List.drop_length, List.map_nil, List.append_nil] at hrows
  simp only [Logs, hcounted, storedTurns, hrows, hcounts, hstores, Bool.false_eq_true, if_false,
    Option.toList_none, List.append_nil, and_self]

theorem increment_logs (h : LedgerInv cfg calls l) (i : StepInput)
    (hp : l.system.phase k = .running f (.increment g)) : Logs cfg calls cid l (k, i) := by
  have hpost := postStep_resume cfg (calls k) i l.system.world f (.increment g)
  rw [← hp] at hpost
  have hstores : storesOn cid l (k, i) = none := by simp [storesOn, hp]
  simp only [runStep] at hpost
  by_cases hfails : i.outcome = .fails
  · rw [if_pos hfails] at hpost
    exact .of_quiet hpost rfl (by simp [Frame.resume]) (by simp [countsOn, hp, hfails]) hstores
  rw [if_neg hfails] at hpost
  cases hrow : l.system.world.conversations f.cid with
  | none =>
    rw [hrow] at hpost
    refine .of_quiet hpost rfl (by simp [Frame.resume]) ?_ hstores
    simp only [countsOn, hp]
    rw [if_neg]
    rintro ⟨rfl, -, hsome⟩
    simp [hrow] at hsome
  | some row =>
    rw [hrow] at hpost
    obtain ⟨hcounted, hrows⟩ := ledgerStep_eq l k i hpost
    have hmessages : (ledgerStep cfg calls l (k, i)).rows = l.rows := by simp [hrows]
    rw [hp, Frame.resume, justCounted, if_pos rfl] at hcounted
    refine ⟨?_, by rw [hstores, storedTurns, hmessages]; simp [storedTurns]⟩
    have hon := h.on k f _ hp
    by_cases hcid : f.cid = cid
    · subst hcid
      simp [hcounted, onRow_concat_self hon, countsOn, hp, hfails, hrow]
    · have hne : Uuid.pgParse (calls k).conversationId ≠ some cid := fun he =>
        hcid (Option.some.inj (hon.symm.trans he))
      simp [hcounted, onRow_concat_ne hne, countsOn, hp, hcid]

theorem insert_logs (h : LedgerInv cfg calls l) (i : StepInput) {n : Nat}
    (hp : l.system.phase k = .running f (.insert g n)) : Logs cfg calls cid l (k, i) := by
  have hpost := postStep_resume cfg (calls k) i l.system.world f (.insert g n)
  rw [← hp] at hpost
  have hcounts : countsOn cid l (k, i) = none := by simp [countsOn, hp]
  obtain ⟨hrow, hfresh⟩ := h.insert_accepted hp
  simp only [runStep, hrow, hfresh, or_false] at hpost
  by_cases hfails : i.outcome = .fails
  · rw [if_pos hfails] at hpost
    exact .of_quiet hpost rfl (by simp [Frame.resume]) hcounts (by simp [storesOn, hp, hfails])
  rw [if_neg hfails] at hpost
  obtain ⟨hcounted, hrows⟩ := ledgerStep_eq l k i hpost
  have hsame : (ledgerStep cfg calls l (k, i)).counted = l.counted := by
    rw [hcounted, justCounted_eq_false (by simp [Frame.resume])]
    rfl
  refine ⟨by simp [hsame, hcounts], ?_⟩
  by_cases hcid : f.cid = cid
  · simp [storedTurns, hrows, storesOn, hp, hfails, hcid]
  · simp [storedTurns, hrows, storesOn, hp, hcid]

theorem ledgerStep_logs (h : LedgerInv cfg calls l) (a : ι × StepInput) :
    Logs cfg calls cid l a := by
  obtain ⟨k, i⟩ := a
  have htabled := postStep_tabled cfg (calls k) i l.system.world (l.system.phase k)
  cases hpost : postStep cfg (calls k) i l.system.world (l.system.phase k) with
  | mk w' rest =>
  obtain ⟨p', wr⟩ := rest
  rw [hpost] at htabled
  generalize hp : l.system.phase k = p at htabled
  cases htabled with
  | counted => exact increment_logs h i hp
  | stored => exact insert_logs h i hp
  | quiet _ hmessages _ hnext _ =>
    cases p with
    | start => exact .of_quiet hpost hmessages hnext (by simp [countsOn, hp]) (by simp [storesOn, hp])
    | done r => exact .of_quiet hpost hmessages hnext (by simp [countsOn, hp]) (by simp [storesOn, hp])
    | running f pc =>
      cases pc with
      | increment g => exact increment_logs h i hp
      | insert g n => exact insert_logs h i hp
      | _ => exact .of_quiet hpost hmessages hnext (by simp [countsOn, hp]) (by simp [storesOn, hp])

end

/-! ## What the rows hold -/

theorem parseBody_role {raw : Json} (h : parseBody cfg raw = .ok m) :
    parseRole (raw.get? "role".toList) = some m.role ∧
      raw.get? "content".toList = some (.str m.content) := by
  unfold parseBody at h
  split at h
  · cases h
  next role hrole =>
  split at h
  case h_2 => cases h
  next content hcontent =>
  -- the text and the other two fields are checked before the message is built
  repeat' split at h
  all_goals cases h
  exact ⟨hrole, hcontent⟩

theorem parseRole_roleText (role : Role) : parseRole (some (.str (roleText role))) = some role := by
  cases role <;> rfl

theorem appendCall_turn {args : AppendArgs}
    (h : parseBody cfg (appendCall cfg args).payload = .ok m) :
    m.role = args.role ∧ m.content = args.content := by
  obtain ⟨hrole, hcontent⟩ := parseBody_role h
  have hrole' : parseRole (some (.str (roleText args.role))) = some m.role := hrole
  have hcontent' : some (Json.str args.content) = some (.str m.content) := hcontent
  rw [parseRole_roleText] at hrole'
  exact ⟨(Option.some.inj hrole').symm, (Json.str.inj (Option.some.inj hcontent')).symm⟩

theorem rowOf_turn {r : GenRequest} {m : StoredMessage} (h : RowOf cfg (turnCall cfg r role) m) :
    ∃ args ∈ appendsOf r.trace,
      args.role = role ∧ m.role = args.role ∧ m.content = args.content := by
  obtain ⟨message, hparse, hrole, hcontent, -⟩ := h
  unfold turnCall at hparse
  split at hparse
  case h_1 args hfind =>
    obtain ⟨hmrole, hmcontent⟩ := appendCall_turn hparse
    refine ⟨args, List.mem_of_find?_eq_some hfind, ?_, hrole.trans hmrole, hcontent.trans hmcontent⟩
    simpa using List.find?_some hfind
  case h_2 => cases hparse

theorem turnsOf_turn (h : LedgerInv cfg (requestCalls cfg requests) l) :
    ∀ a ∈ turnsOf l cid, ∃ args ∈ appendsOf (requests a.1.1).trace,
      args.role = a.1.2 ∧ a.2.role = args.role ∧ a.2.content = args.content :=
  fun a ha => rowOf_turn (h.row a (mem_turnsOf.1 ha).1).1

/-! ## The window -/

theorem fetchTail_eq (h : LedgerInv cfg (requestCalls cfg requests) l) :
    fetchTail l.system.world cid =
      (((turnsOf l cid).map (·.2)).reverse.take memoryMaxTurns).map messageRow := by
  have hsorted : (turnsOf l cid).map (·.2) =
      (l.system.world.messages.filter fun m => m.conversationId = cid).insertionSort
        fun m m' => m.ordinal ≤ m'.ordinal := by
    rw [turnsOf, List.map_insertionSort (s := fun m m' : StoredMessage => m.ordinal ≤ m'.ordinal)
      _ _ _ fun a _ b _ => Iff.rfl, ← h.messages, List.filter_map]
    rfl
  rw [fetchTail, hsorted]

omit [DecidableEq κ] in
theorem isChain_pairs (ks : List κ) : ∀ i : κ × Role, i.2 = .assistant →
    (i :: ks.flatMap pairOf).IsChain fun i j => i.2 ≠ j.2 := by
  induction ks with
  | nil => exact fun i _ => .singleton i
  | cons k ks ih =>
    intro i hi
    refine .cons_cons ?_ (.cons_cons ?_ (ih (k, .assistant) rfl))
    · simp [hi]
    · simp

theorem alternate_toMessage (a b : MessageRow) :
    alternate (Generate.toMessage a) (Generate.toMessage b) = true ↔ a.role ≠ b.role := by
  cases ha : a.role <;> cases hb : b.role <;> simp [Generate.toMessage, ha, hb, alternate]

/-- A window of turns that alternate in role alternates. -/
theorem window_alternates {rows : List MessageRow} (hnonneg : ∀ row ∈ rows, 0 ≤ row.tokenCount)
    (h : rows.reverse.IsChain fun a b => a.role ≠ b.role) (budget : Int) :
    Alternates (loadMemoryWindow (some rows) budget).messages := by
  rw [loadMemoryWindow]
  split
  case isTrue => exact .nil
  case isFalse hsome =>
    rw [not_or, not_le] at hsome
    have hselect := (Generate.selectWithinBudget_longest hnonneg hsome.1.le).run
    have hkept : ((Generate.selectWithinBudget rows budget).reverse.dropWhile
        fun row => row.role = .assistant) <:+ rows.reverse :=
      (List.dropWhile_suffix _).trans (List.reverse_suffix.2 hselect)
    have hchain := h.suffix hkept
    rw [Alternates, Generate.render, List.isChain_map]
    exact hchain.imp fun a b hab => (alternate_toMessage a b).2 hab

theorem PairedTurns.of_pairs (h : LedgerInv cfg (requestCalls cfg requests) l)
    (hks : (turnsOf l cid).map (·.1) = ks.flatMap pairOf) : PairedTurns requests l cid := by
  refine ⟨⟨ks, hks⟩, turnsOf_turn h, window_alternates ?_ ?_⟩
  · intro row hrow
    obtain ⟨m, -, rfl⟩ := List.mem_map.1 hrow
    exact Int.natCast_nonneg _
  · have hroles : (turnsOf l cid).map (·.2.role) = (ks.flatMap pairOf).map (·.2) := by
      rw [← hks, List.map_map]
      refine List.map_congr_left fun a ha => ?_
      obtain ⟨args, -, hrole, hrow, -⟩ := turnsOf_turn h a ha
      exact hrow.trans hrole
    have hchain : ((turnsOf l cid).map (·.2.role)).IsChain (· ≠ ·) := by
      rw [hroles, List.isChain_map]
      rcases ks with _ | ⟨k, ks⟩
      · exact .nil
      · exact .cons_cons (by simp) (isChain_pairs ks (k, .assistant) rfl)
    have hrows : (((turnsOf l cid).map (·.2)).map messageRow).IsChain
        fun a b => a.role ≠ b.role := by
      rw [List.map_map, List.isChain_map]
      exact (List.isChain_map _).1 hchain
    have htail : (fetchTail l.system.world cid).reverse <:+
        ((turnsOf l cid).map (·.2)).map messageRow := by
      rw [fetchTail_eq h, ← List.map_reverse]
      refine List.IsSuffix.map _ ?_
      have hreverse := List.reverse_suffix.2
        (List.take_prefix memoryMaxTurns ((turnsOf l cid).map (·.2)).reverse)
      rwa [List.reverse_reverse] at hreverse
    exact hrows.suffix htail

/-- In every interleaving of the turns of any generate requests, with any answers and any failing
calls, the stored turns of a conversation are complete pairs exactly when the steps that count and
store them do not interrupt a request. -/
theorem paired_turns_iff (cfg : Config) (requests : κ → GenRequest)
    (schedule : List ((κ × Role) × StepInput)) (cid : Uuid) :
    let step := ledgerStep cfg (requestCalls cfg requests)
    PairedTurns requests (Run.exec step Ledger.init schedule) cid ↔
      Uninterrupted (Run.collect step (countsOn cid) Ledger.init schedule)
        (Run.collect step (storesOn cid) Ledger.init schedule) := by
  intro step
  have hinit : LedgerInv cfg (requestCalls cfg requests) Ledger.init := ledgerInv_init
  have hinv : LedgerInv cfg (requestCalls cfg requests) (Run.exec step Ledger.init schedule) :=
    Run.exec_inv ledgerStep_inv schedule _ hinit
  have hcounting : onRow (requestCalls cfg requests) cid (Run.exec step Ledger.init schedule).counted =
      Run.collect step (countsOn cid) Ledger.init schedule :=
    Run.exec_collect (g := fun l => onRow (requestCalls cfg requests) cid l.counted) ledgerStep_inv
      (fun _ a h => (ledgerStep_logs h a).1) schedule _ hinit
  have hstoring : storedTurns (Run.exec step Ledger.init schedule) cid =
      Run.collect step (storesOn cid) Ledger.init schedule :=
    Run.exec_collect (g := fun l => storedTurns l cid) ledgerStep_inv
      (fun _ a h => (ledgerStep_logs h a).2) schedule _ hinit
  rw [← hcounting, ← hstoring, ← paired_iff_uninterrupted hinv]
  constructor
  · exact fun h => h.pairs
  · rintro ⟨ks, hks⟩
    exact .of_pairs hinv hks

end

/-! ## A question without an answer -/

def twoQuestions (answer : List String) (second : Bool) : GenRequest :=
  if second then
    { question (Generate.answering ["Mara [a.md]."]) with
      payload := .obj [("query".toList, .str "Et Blowen ?".toList),
        ("conversation_id".toList, .str (sampleId 5).toText),
        ("request_id".toList, .str (sampleId 10).toText)] }
  else question (Generate.answering answer)

def turnSteps (second : Bool) (role : Role) : List ((Bool × Role) × StepInput) :=
  List.replicate 8 ((second, role), ⟨.ok, 0⟩)

def oneByOne : List ((Bool × Role) × StepInput) :=
  turnSteps false .user ++ turnSteps false .assistant ++ turnSteps true .user ++
    turnSteps true .assistant

def interleaved : List ((Bool × Role) × StepInput) :=
  turnSteps false .user ++ turnSteps true .user ++ turnSteps false .assistant ++
    turnSteps true .assistant

def questionLedger (answer : List String) (schedule : List ((Bool × Role) × StepInput)) :
    Ledger (Bool × Role) :=
  Run.exec (ledgerStep sampleConfig (requestCalls sampleConfig (twoQuestions answer))) Ledger.init
    schedule

/-- An empty answer is refused and the question stays alone; or two questions are stored before
their answers. In both cases two human messages follow each other in the window. -/
theorem turns_not_paired :
    ((turnsOf (questionLedger [] oneByOne) (sampleId 5)).map (·.1) =
        [(false, .user), (true, .user), (true, .assistant)] ∧
      ¬ PairedTurns (twoQuestions []) (questionLedger [] oneByOne) (sampleId 5)) ∧
    ((turnsOf (questionLedger ["Oui."] interleaved) (sampleId 5)).map (·.1) =
        [(false, .user), (true, .user), (false, .assistant), (true, .assistant)] ∧
      ¬ PairedTurns (twoQuestions ["Oui."]) (questionLedger ["Oui."] interleaved)
        (sampleId 5)) := by
  refine ⟨⟨by decide +kernel, fun h => absurd (h.window 1000) ?_⟩,
    ⟨by decide +kernel, fun h => absurd (h.window 1000) ?_⟩⟩
  · decide +kernel
  · decide +kernel

end Archiviste.Conversation
