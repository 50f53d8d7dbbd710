import Mathlib.Data.List.MinMax
import Mathlib.Data.List.Pairwise
import Mathlib.Logic.Function.Basic
import Archiviste.Base.Run
import Archiviste.Base.Text

/-!
# Archiviste.Tickets.Service

The ticket service: `create_or_increment` looks for an open ticket with a similar question and raises
its priority, or inserts a new one, in one transaction.

* `Db`          — the committed tickets, the row locks, and where every call is.
* `txStep`      — the next statement of one call, under READ COMMITTED.
* `Moved`       — what a statement can do to the table and to the inserts under way.
* `Undivided`   — a search is made when no insert of a similar question is under way.

The embedder, the similarity and the distance are parameters. The search is exact: the nearest of the
similar open tickets, as the query asks for it.
-/

namespace Archiviste.Tickets

inductive Status where
  | opened
  | resolved
  | dismissed
  deriving DecidableEq, Repr

/-- A row of `tickets`. -/
structure Ticket (ε : Type) where
  id : Nat
  conversationId : Text
  question : Text
  questionEmbedding : Option ε
  category : String
  priorityScore : Nat
  status : Status
  judgesNotPassed : Bool
  /-- Not a column: the call that inserted the row was forced. -/
  forced : Bool
  deriving DecidableEq, Repr

/-- The arguments of `create_or_increment`. -/
structure Call where
  conversationId : Text
  question : Text
  judgesNotPassed : Bool
  force : Bool

inductive TicketAction where
  | created
  | incremented
  | skippedError
  deriving DecidableEq, Repr

structure TicketResult where
  action : TicketAction
  ticketId : Option Nat
  priorityScore : Option Nat
  deriving DecidableEq, Repr

def TicketResult.skipped : TicketResult := ⟨.skippedError, none, none⟩

/-- What a transaction has written and not committed. -/
inductive Write (ε : Type) where
  | insert (t : Ticket ε)
  | increment (id : Nat)

/-- The position in `_run_transaction`, named by what comes next. The search waits for the lock of
the row it has found. -/
inductive Pc (ε : Type) where
  | begin
  | select
  | lock (id : Nat)
  | update (id : Nat)
  | insert
  | commit (w : Write ε) (r : TicketResult)

inductive Phase (ε : Type) where
  | start
  | running (vector : ε) (pc : Pc ε)
  | done (r : TicketResult)

structure Db (ι ε : Type) where
  tickets : List (Ticket ε)
  locks : Nat → Option ι
  /-- `gen_random_uuid()`: an id that no row has had. -/
  nextId : Nat
  phase : ι → Phase ε

def Db.init {ι ε : Type} (tickets : List (Ticket ε)) : Db ι ε where
  tickets := tickets
  locks := fun _ => none
  nextId := (tickets.map (·.id)).foldr max 0 + 1
  phase := fun _ => .start

section
variable {ι ε δ : Type} [DecidableEq ι] [LinearOrder δ]

/-- The row of the search: its id and its distance, if it is open and similar. -/
def candidate (similar : ε → ε → Prop) [DecidableRel similar] (distance : ε → ε → δ) (vector : ε)
    (t : Ticket ε) : Option (Nat × δ) :=
  t.questionEmbedding.bind fun e =>
    if t.status = .opened ∧ similar e vector then some (t.id, distance e vector) else none

/-- `SELECT … ORDER BY question_embedding <=> $1 ASC LIMIT 1`. -/
def existing (similar : ε → ε → Prop) [DecidableRel similar] (distance : ε → ε → δ)
    (tickets : List (Ticket ε)) (vector : ε) : Option Nat :=
  ((tickets.filterMap (candidate similar distance vector)).argmin (·.2)).map (·.1)

/-- `UPDATE tickets SET priority_score = priority_score + 1`. -/
def Ticket.increment (id : Nat) (t : Ticket ε) : Ticket ε :=
  if t.id = id then { t with priorityScore := t.priorityScore + 1 } else t

def Write.apply (tickets : List (Ticket ε)) : Write ε → List (Ticket ε)
  | .insert t => tickets ++ [t]
  | .increment id => tickets.map (Ticket.increment id)

def Db.goto (db : Db ι ε) (k : ι) (p : Phase ε) : Db ι ε :=
  { db with phase := Function.update db.phase k p }

/-- The end of a transaction: its row locks are released. -/
def Db.finish (db : Db ι ε) (k : ι) (r : TicketResult) : Db ι ε :=
  { db.goto k (.done r) with locks := fun id => if db.locks id = some k then none else db.locks id }

def newTicket (call : Call) (id : Nat) (vector : ε) : Ticket ε where
  id := id
  conversationId := call.conversationId
  question := call.question
  questionEmbedding := some vector
  category := "uncategorized"
  priorityScore := 1
  status := .opened
  judgesNotPassed := call.judgesNotPassed
  forced := call.force

/-- The next statement of the call at `k`. One that fails has no effect and rolls the transaction
back; a `COMMIT` that was applied and whose reply was lost is not among the steps. A wait for a lock
changes nothing. -/
def txStep (encode : Text → ε) (similar : ε → ε → Prop) [DecidableRel similar]
    (distance : ε → ε → δ) (calls : ι → Call) (db : Db ι ε) (a : ι × Bool) : Db ι ε :=
  let k := a.1
  match db.phase k with
  | .done _ => db
  | .start =>
    if a.2 then db.finish k .skipped
    else db.goto k (.running (encode (calls k).question) .begin)
  | .running vector pc =>
    if a.2 then db.finish k .skipped
    else
      match pc with
      | .begin => db.goto k (.running vector (if (calls k).force then .insert else .select))
      | .select =>
        match existing similar distance db.tickets vector with
        | some id => db.goto k (.running vector (.lock id))
        | none => db.goto k (.running vector .insert)
      | .lock id =>
        match db.locks id with
        | some _ => db
        | none => { db.goto k (.running vector (.update id)) with
            locks := Function.update db.locks id (some k) }
      | .update id =>
        let score := (db.tickets.find? fun t => t.id = id).map fun t => t.priorityScore + 1
        db.goto k (.running vector (.commit (.increment id) ⟨.incremented, some id, score⟩))
      | .insert =>
        { db.goto k (.running vector (.commit (.insert (newTicket (calls k) db.nextId vector))
            ⟨.created, some db.nextId, some 1⟩)) with nextId := db.nextId + 1 }
      | .commit w r => { db.finish k r with tickets := w.apply db.tickets }

/-! ## No duplicates -/

/-- An open ticket that an unforced call inserted. -/
def Ticket.deduped (t : Ticket ε) : Bool := t.status = .opened && !t.forced

variable {t : Ticket ε} {tickets tickets' : List (Ticket ε)} {vector : ε} {p : Phase ε}

theorem deduped_iff : t.deduped ↔ t.status = .opened ∧ t.forced = false := by
  simp [Ticket.deduped]

def Ticket.similarTo (similar : ε → ε → Prop) (t : Ticket ε) (vector : ε) : Prop :=
  ∃ e, t.questionEmbedding = some e ∧ similar e vector

/-- No two committed open tickets of unforced calls have similar questions. -/
def Deduplicated (similar : ε → ε → Prop) (tickets : List (Ticket ε)) : Prop :=
  tickets.Pairwise fun t u => t.deduped → u.deduped →
    ∀ e ∈ u.questionEmbedding, ¬ t.similarTo similar e

instance (similar : ε → ε → Prop) [DecidableRel similar] (t : Ticket ε) (v : ε) :
    Decidable (t.similarTo similar v) :=
  match h : t.questionEmbedding with
  | none => isFalse (by simp [Ticket.similarTo, h])
  | some e => decidable_of_iff (similar e v) (by simp [Ticket.similarTo, h])

instance (similar : ε → ε → Prop) [DecidableRel similar] (tickets : List (Ticket ε)) :
    Decidable (Deduplicated similar tickets) :=
  inferInstanceAs (Decidable (tickets.Pairwise fun t u => t.deduped → u.deduped →
    ∀ e ∈ u.questionEmbedding, ¬ t.similarTo similar e))

def Phase.inserting : Phase ε → Option ε
  | .running vector .insert => some vector
  | .running vector (.commit (.insert _) _) => some vector
  | _ => none

def Phase.searching : Phase ε → Option ε
  | .running vector .select => some vector
  | _ => none

/-- The search of a transaction is made when no unforced call with a similar question is between its
own search and its commit. -/
def Undivided (similar : ε → ε → Prop) (calls : ι → Call) (db : Db ι ε) (a : ι × Bool) : Prop :=
  ∀ vector ∈ (db.phase a.1).searching, ∀ j, ∀ w ∈ (db.phase j).inserting, (calls j).force = false →
    ¬ similar w vector

variable {encode : Text → ε} {similar : ε → ε → Prop} {distance : ε → ε → δ} {calls : ι → Call}
  {db db' : Db ι ε} {k : ι}

theorem existing_eq_none [DecidableRel similar]
    (h : existing similar distance tickets vector = none) (ht : t ∈ tickets)
    (hopen : t.status = .opened) : ¬ t.similarTo similar vector := by
  rintro ⟨e, he, hsimilar⟩
  rw [existing, Option.map_eq_none_iff, List.argmin_eq_none, List.filterMap_eq_nil_iff] at h
  have hnone := h t ht
  simp [candidate, he, hopen, hsimilar] at hnone

def Rescored (tickets tickets' : List (Ticket ε)) : Prop :=
  ∃ f : Ticket ε → Ticket ε, tickets' = tickets.map f ∧ ∀ t, (f t).deduped = t.deduped ∧
    (f t).questionEmbedding = t.questionEmbedding

theorem Rescored.refl (tickets : List (Ticket ε)) : Rescored tickets tickets :=
  ⟨id, (List.map_id tickets).symm, fun _ => ⟨rfl, rfl⟩⟩

theorem rescored_increment (tickets : List (Ticket ε)) (id : Nat) :
    Rescored tickets (tickets.map (Ticket.increment id)) := by
  refine ⟨Ticket.increment id, rfl, fun t => ?_⟩
  unfold Ticket.increment
  split <;> exact ⟨rfl, rfl⟩

/-- What a statement of the call at `k` does: it touches no insert, or it is one of the steps of an
insert. -/
inductive Moved (similar : ε → ε → Prop) (calls : ι → Call) (k : ι) (db db' : Db ι ε) : Prop
  | quiet (p : Phase ε) (hphase : db'.phase = Function.update db.phase k p)
      (hp : p.inserting = none) (htickets : Rescored db.tickets db'.tickets)
  | decided (vector : ε) (hphase : db'.phase = Function.update db.phase k (.running vector .insert))
      (htickets : db'.tickets = db.tickets)
      (hfree : (calls k).force = false → (db.phase k).searching = some vector ∧
        ∀ t ∈ db.tickets, t.status = .opened → ¬ t.similarTo similar vector)
  | inserted (vector : ε) (t : Ticket ε) (r : TicketResult)
      (hat : db.phase k = .running vector .insert)
      (hphase : db'.phase = Function.update db.phase k (.running vector (.commit (.insert t) r)))
      (htickets : db'.tickets = db.tickets)
      (ht : t.questionEmbedding = some vector ∧ t.forced = (calls k).force)
  | committed (vector : ε) (t : Ticket ε) (r : TicketResult)
      (hat : db.phase k = .running vector (.commit (.insert t) r))
      (hphase : db'.phase = Function.update db.phase k (.done r))
      (htickets : db'.tickets = db.tickets ++ [t])

theorem txStep_moved [DecidableRel similar] (fails : Bool) :
    Moved similar calls k db (txStep encode similar distance calls db (k, fails)) := by
  have hsame : ∀ {p}, db.phase k = p → db.phase = Function.update db.phase k p := by
    rintro p rfl
    exact (Function.update_eq_self k db.phase).symm
  unfold txStep
  dsimp only
  split
  · next r hp => exact .quiet (.done r) (hsame hp) rfl (.refl _)
  · split
    · exact .quiet _ rfl rfl (.refl _)
    · exact .quiet _ rfl rfl (.refl _)
  next vector pc hp =>
  split
  · exact .quiet _ rfl rfl (.refl _)
  cases pc with
  | begin =>
    cases hforce : (calls k).force with
    | true => exact .decided vector rfl rfl (by simp [hforce])
    | false => exact .quiet _ rfl rfl (.refl _)
  | select =>
    dsimp only
    split
    · exact .quiet _ rfl rfl (.refl _)
    · next hnone =>
      exact .decided vector rfl rfl fun _ => ⟨by rw [hp]; rfl, fun _ => existing_eq_none hnone⟩
  | lock id =>
    dsimp only
    split
    · exact .quiet (.running vector (.lock id)) (hsame hp) rfl (.refl _)
    · exact .quiet _ rfl rfl (.refl _)
  | update id => exact .quiet _ rfl rfl (.refl _)
  | insert => exact .inserted vector _ _ hp rfl rfl ⟨rfl, rfl⟩
  | commit w r =>
    cases w with
    | insert t => exact .committed vector t r hp rfl rfl
    | increment id => exact .quiet _ rfl rfl (rescored_increment db.tickets id)

def Pending (calls : ι → Call) (db : Db ι ε) (k : ι) (vector : ε) : Prop :=
  (db.phase k).inserting = some vector ∧ (calls k).force = false

structure DedupInv (similar : ε → ε → Prop) (calls : ι → Call) (db : Db ι ε) : Prop where
  rows : Deduplicated similar db.tickets
  absent : ∀ k vector, Pending calls db k vector → ∀ t ∈ db.tickets, t.deduped →
    ¬ t.similarTo similar vector
  apart : ∀ j k v w, Pending calls db j v → Pending calls db k w → j ≠ k → ¬ similar v w
  built : ∀ k vector t r, db.phase k = .running vector (.commit (.insert t) r) →
    t.questionEmbedding = some vector ∧ t.forced = (calls k).force

theorem Rescored.deduplicated (h : Rescored tickets tickets') (hd : Deduplicated similar tickets) :
    Deduplicated similar tickets' := by
  obtain ⟨f, rfl, hf⟩ := h
  refine List.pairwise_map.mpr (hd.imp fun {t u} htu ht hu e he => ?_)
  rw [(hf t).1] at ht
  rw [(hf u).1] at hu
  rw [(hf u).2] at he
  intro hsimilar
  rw [Ticket.similarTo, (hf t).2] at hsimilar
  exact htu ht hu e he hsimilar

theorem Rescored.absent (h : Rescored tickets tickets')
    (habsent : ∀ t ∈ tickets, t.deduped → ¬ t.similarTo similar vector) :
    ∀ t ∈ tickets', t.deduped → ¬ t.similarTo similar vector := by
  obtain ⟨f, rfl, hf⟩ := h
  intro t' ht' hdeduped hsimilar
  obtain ⟨t, ht, rfl⟩ := List.mem_map.mp ht'
  rw [(hf t).1] at hdeduped
  rw [Ticket.similarTo, (hf t).2] at hsimilar
  exact habsent t ht hdeduped hsimilar

/-- An insert under way after a step of the call at `k` was under way before it, or is that call's.
-/
theorem Pending.before (hphase : db'.phase = Function.update db.phase k p) {j : ι}
    (h : Pending calls db' j vector) :
    (j = k ∧ p.inserting = some vector ∧ (calls k).force = false) ∨
      (j ≠ k ∧ Pending calls db j vector) := by
  obtain ⟨hinserting, hforce⟩ := h
  rw [hphase] at hinserting
  by_cases hj : j = k
  · subst hj
    rw [Function.update_self] at hinserting
    exact .inl ⟨rfl, hinserting, hforce⟩
  · rw [Function.update_of_ne hj] at hinserting
    exact .inr ⟨hj, hinserting, hforce⟩

theorem DedupInv.built_update (h : DedupInv similar calls db)
    (hphase : db'.phase = Function.update db.phase k p)
    (hp : ∀ vector t r, p = .running vector (.commit (.insert t) r) →
      t.questionEmbedding = some vector ∧ t.forced = (calls k).force) :
    ∀ j vector t r, db'.phase j = .running vector (.commit (.insert t) r) →
      t.questionEmbedding = some vector ∧ t.forced = (calls j).force := by
  rw [hphase]
  exact (Function.forall_update_iff db.phase fun j q => ∀ vector t r,
    q = .running vector (.commit (.insert t) r) →
      t.questionEmbedding = some vector ∧ t.forced = (calls j).force).mpr
    ⟨hp, fun j _ => h.built j⟩

theorem DedupInv.moved (hsymm : ∀ v w, similar v w → similar w v)
    (h : DedupInv similar calls db) {fails : Bool}
    (hundivided : Undivided similar calls db (k, fails)) (hmoved : Moved similar calls k db db') :
    DedupInv similar calls db' := by
  cases hmoved with
  | quiet p hphase hp htickets =>
    have hsub : ∀ j v, Pending calls db' j v → Pending calls db j v := by
      intro j v hj
      rcases hj.before hphase with ⟨_, hv, _⟩ | ⟨_, hj⟩
      · rw [hp] at hv; cases hv
      · exact hj
    refine ⟨htickets.deduplicated h.rows, fun j v hj => htickets.absent (h.absent j v (hsub j v hj)),
      fun i j v w hi hj => h.apart i j v w (hsub i v hi) (hsub j w hj),
      h.built_update hphase fun vector t r hrunning => ?_⟩
    rw [hrunning] at hp
    cases hp
  | decided vector hphase htickets hfree =>
    refine ⟨htickets ▸ h.rows, fun j v hj => ?_, fun i j v w hi hj hne => ?_,
      h.built_update hphase (by simp)⟩
    · rw [htickets]
      rcases hj.before hphase with ⟨_, hv, hforce⟩ | ⟨_, hj⟩
      · cases hv
        intro t ht hdeduped
        exact (hfree hforce).2 t ht (deduped_iff.mp hdeduped).1
      · exact h.absent j v hj
    · -- the search saw no insert of a similar question under way
      rcases hi.before hphase with ⟨rfl, hv, hforce⟩ | ⟨_, hi⟩
      · cases hv
        rcases hj.before hphase with ⟨rfl, _, _⟩ | ⟨_, hj⟩
        · exact absurd rfl hne
        · intro hsimilar
          exact hundivided vector (hfree hforce).1 j w hj.1 hj.2 (hsymm _ _ hsimilar)
      · rcases hj.before hphase with ⟨rfl, hw, hforce⟩ | ⟨_, hj⟩
        · cases hw
          exact hundivided vector (hfree hforce).1 i v hi.1 hi.2
        · exact h.apart i j v w hi hj hne
  | inserted vector t r hat hphase htickets ht =>
    have hsub : ∀ j v, Pending calls db' j v → Pending calls db j v := by
      intro j v hj
      rcases hj.before hphase with ⟨rfl, hv, hforce⟩ | ⟨_, hj⟩
      · cases hv
        exact ⟨by rw [hat]; rfl, hforce⟩
      · exact hj
    refine ⟨htickets ▸ h.rows, fun j v hj => htickets ▸ h.absent j v (hsub j v hj),
      fun i j v w hi hj => h.apart i j v w (hsub i v hi) (hsub j w hj),
      h.built_update hphase fun vector' t' r' hrunning => ?_⟩
    cases hrunning
    exact ht
  | committed vector t r hat hphase htickets =>
    have hsub : ∀ j v, Pending calls db' j v → j ≠ k ∧ Pending calls db j v := by
      intro j v hj
      rcases hj.before hphase with ⟨_, hv, _⟩ | hj
      · cases hv
      · exact hj
    obtain ⟨hembedding, hforced⟩ := h.built k vector t r hat
    have hpending : t.deduped → Pending calls db k vector := by
      intro hdeduped
      refine ⟨by rw [hat]; rfl, ?_⟩
      rw [← hforced]
      exact (deduped_iff.mp hdeduped).2
    refine ⟨?_, fun j v hj u hu hdeduped => ?_, fun i j v w hi hj => ?_,
      h.built_update hphase (by simp)⟩
    · rw [htickets]
      refine List.pairwise_append.mpr ⟨h.rows, List.pairwise_singleton _ t, fun u hu t' ht' => ?_⟩
      obtain rfl := List.mem_singleton.mp ht'
      intro hdeduped hdeduped' e he
      rw [hembedding] at he
      cases he
      exact h.absent k vector (hpending hdeduped') u hu hdeduped
    · obtain ⟨hne, hj⟩ := hsub j v hj
      rw [htickets, List.mem_append, List.mem_singleton] at hu
      rcases hu with hu | rfl
      · exact h.absent j v hj u hu hdeduped
      · rintro ⟨e, he, hsimilar⟩
        rw [hembedding] at he
        cases he
        exact h.apart k j vector v (hpending hdeduped) hj (Ne.symm hne) hsimilar
    · exact h.apart i j v w (hsub i v hi).2 (hsub j w hj).2

/-- Any number of calls, from any table without duplicates, in any order and with any failures: when
every search is undivided, the table never has duplicates. -/
theorem tickets_deduplicated [DecidableRel similar] (hsymm : ∀ v w, similar v w → similar w v)
    (encode : Text → ε) (distance : ε → ε → δ) (calls : ι → Call) (tickets : List (Ticket ε))
    (hinit : Deduplicated similar tickets) (schedule : List (ι × Bool))
    (hundivided : Run.Along (txStep encode similar distance calls) (Undivided similar calls)
      (Db.init tickets) schedule) :
    Run.Always (txStep encode similar distance calls) (fun db => Deduplicated similar db.tickets)
      (Db.init tickets) schedule := by
  have hinv : DedupInv similar calls (Db.init tickets) :=
    ⟨hinit, fun _ _ h => (by cases h.1), fun _ _ _ _ h => (by cases h.1),
      fun _ _ _ _ h => (by cases h)⟩
  have hrun : Run.Always (txStep encode similar distance calls) (DedupInv similar calls)
      (Db.init tickets) schedule :=
    Run.always_of_along (fun _ a h ha => h.moved hsymm ha (txStep_moved a.2)) schedule _ hinv
      hundivided
  exact Run.always_mono (fun _ h => h.rows) schedule _ hrun

end

def sampleStep (calls : Bool → Call) : Db Bool Nat → Bool × Bool → Db Bool Nat :=
  txStep List.length (· = ·) (fun v w => v - w + (w - v)) calls

def askedTwice (k : Bool) : Call :=
  ⟨if k then "c2".toList else "c1".toList, "qui est Nocilia".toList, false, false⟩

def statementsOf (k : Bool) (n : Nat) : List (Bool × Bool) := List.replicate n (k, false)

instance (db : Db Bool Nat) (a : Bool × Bool) : Decidable (Undivided (· = ·) askedTwice db a) :=
  inferInstanceAs (Decidable (∀ v ∈ _, ∀ _j : Bool, ∀ w ∈ _, _ → ¬ _))

def oneByOne : List (Bool × Bool) := statementsOf false 5 ++ statementsOf true 6

theorem tickets_deduplicated_oneByOne :
    Run.Always (sampleStep askedTwice) (fun db => Deduplicated (· = ·) db.tickets) (Db.init [])
        oneByOne ∧
      (Run.exec (sampleStep askedTwice) (Db.init []) oneByOne).tickets.map (·.priorityScore) = [2] :=
  ⟨tickets_deduplicated (fun _ _ => Eq.symm) List.length _ askedTwice [] .nil oneByOne
    (by decide +kernel), by decide +kernel⟩

/-- Both calls search before one of them commits: each inserts a ticket. -/
theorem ticket_duplicated :
    let db := Run.exec (sampleStep askedTwice) (Db.init [])
      (statementsOf false 3 ++ statementsOf true 3 ++ statementsOf false 2 ++ statementsOf true 2)
    db.tickets.map (fun t => (t.question, t.status, t.forced)) =
        [("qui est Nocilia".toList, .opened, false), ("qui est Nocilia".toList, .opened, false)] ∧
      ¬ Deduplicated (· = ·) db.tickets := by
  decide +kernel

end Archiviste.Tickets
