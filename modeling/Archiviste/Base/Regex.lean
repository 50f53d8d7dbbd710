import Archiviste.Base.Text

/-!
# Archiviste.Base.Regex

Backtracking regular expressions whose repetitions range over one character class, the only
repetitions the modelled patterns use.

A match is computed as the list of all ways to match, in the order a backtracking engine tries
them (`ways`): greedy repetitions list the longest run first, alternatives list the left branch
first. The engine's match is the head of that list. A position keeps the characters already
passed (reversed), so that anchors can look at them.

* `Reaches` — some way leads from one position to another, with a rule for each constructor.
* `search_start_eq` — patterns that match at the same positions of a text find the same start.
* `remove_eq_replaceFirst` — when deleting all matches deletes the first one only.
-/

namespace Archiviste.Regex

structure Pos where
  before : Text
  after : Text
  deriving DecidableEq, Repr

namespace Pos

def start (s : Text) : Pos := ⟨[], s⟩

/-- `\A`, and `^` without `re.MULTILINE`. -/
def atStart (p : Pos) : Bool := p.before.isEmpty

/-- `\Z`. -/
def atEnd (p : Pos) : Bool := p.after.isEmpty

/-- `$` without `re.MULTILINE`: at the end, or before a newline that ends the text. -/
def atDollar (p : Pos) : Bool := p.after == [] || p.after == ['\n']

/-- `^` under `re.MULTILINE`. -/
def atLineStart (p : Pos) : Bool :=
  match p.before with
  | [] => true
  | c :: _ => c == '\n'

/-- `$` under `re.MULTILINE`. -/
def atLineEnd (p : Pos) : Bool :=
  match p.after with
  | [] => true
  | c :: _ => c == '\n'

end Pos

inductive Re where
  | cls (p : Char → Bool)
  | star (p : Char → Bool)
  | lazyStar (p : Char → Bool)
  | repeated (n : Nat) (p : Char → Bool)
  | check (t : Pos → Bool)
  | eps
  | seq (r s : Re)
  | alt (r s : Re)
  | group (r : Re)

namespace Re

def char (c : Char) : Re := .cls (· == c)

def word (s : String) : Re := s.toList.foldr (fun c r => .seq (.char c) r) .eps

/-- A literal word under `re.IGNORECASE`. -/
def wordCi (s : String) : Re := s.toList.foldr (fun c r => .seq (.cls (Text.ciEq c)) r) .eps

def opt (r : Re) : Re := .alt r .eps

/-- `p{n,}`, greedy. -/
def atLeast (n : Nat) (p : Char → Bool) : Re := .seq (.repeated n p) (.star p)

def seqs (rs : List Re) : Re := rs.foldr .seq .eps

end Re

def starWays (p : Char → Bool) : Text → Text → List Pos
  | b, [] => [⟨b, []⟩]
  | b, c :: cs => if p c then starWays p (c :: b) cs ++ [⟨b, c :: cs⟩] else [⟨b, c :: cs⟩]

def lazyWays (p : Char → Bool) : Text → Text → List Pos
  | b, [] => [⟨b, []⟩]
  | b, c :: cs => ⟨b, c :: cs⟩ :: if p c then lazyWays p (c :: b) cs else []

def repeatWays (p : Char → Bool) : Nat → Text → Text → List Pos
  | 0, b, s => [⟨b, s⟩]
  | _ + 1, _, [] => []
  | n + 1, b, c :: cs => if p c then repeatWays p n (c :: b) cs else []

def between (p q : Pos) : Text := (q.before.take (q.before.length - p.before.length)).reverse

/-- All ways to match from a position, in the engine's order: the end and the groups. -/
def ways : Re → Pos → List (Pos × List Text)
  | .cls p, ⟨b, c :: cs⟩ => if p c then [(⟨c :: b, cs⟩, [])] else []
  | .cls _, ⟨_, []⟩ => []
  | .star p, ⟨b, s⟩ => (starWays p b s).map (·, [])
  | .lazyStar p, ⟨b, s⟩ => (lazyWays p b s).map (·, [])
  | .repeated n p, ⟨b, s⟩ => (repeatWays p n b s).map (·, [])
  | .check t, q => if t q then [(q, [])] else []
  | .eps, q => [(q, [])]
  | .seq r s, q => (ways r q).flatMap fun w => (ways s w.1).map fun w' => (w'.1, w.2 ++ w'.2)
  | .alt r s, q => ways r q ++ ways s q
  | .group r, q => (ways r q).map fun w => (w.1, between q w.1 :: w.2)

section Ways

variable {p : Char → Bool} {n : Nat} {t : Pos → Bool} {r s : Re} {q : Pos} {b cs : Text} {c : Char}

@[simp] theorem ways_cls_cons :
    ways (.cls p) ⟨b, c :: cs⟩ = if p c then [(⟨c :: b, cs⟩, [])] else [] := rfl

@[simp] theorem ways_cls_nil : ways (.cls p) ⟨b, []⟩ = [] := rfl

@[simp] theorem ways_star : ways (.star p) q = (starWays p q.before q.after).map (·, []) := rfl

@[simp] theorem ways_lazyStar :
    ways (.lazyStar p) q = (lazyWays p q.before q.after).map (·, []) := rfl

@[simp] theorem ways_repeated :
    ways (.repeated n p) q = (repeatWays p n q.before q.after).map (·, []) := rfl

@[simp] theorem ways_check : ways (.check t) q = if t q then [(q, [])] else [] := rfl

@[simp] theorem ways_eps : ways .eps q = [(q, [])] := rfl

@[simp] theorem ways_seq : ways (.seq r s) q =
    (ways r q).flatMap fun w => (ways s w.1).map fun w' => (w'.1, w.2 ++ w'.2) := rfl

@[simp] theorem ways_alt : ways (.alt r s) q = ways r q ++ ways s q := rfl

@[simp] theorem ways_group :
    ways (.group r) q = (ways r q).map fun w => (w.1, between q w.1 :: w.2) := rfl

end Ways

structure Match where
  start : Pos
  stop : Pos
  groups : List Text
  deriving DecidableEq, Repr

namespace Match

def text (m : Match) : Text := between m.start m.stop

/-- The text before the match, `s[: m.start()]`. -/
def prior (m : Match) : Text := m.start.before.reverse

/-- The text after the match, `s[m.end() :]`. -/
def rest (m : Match) : Text := m.stop.after

end Match

/-- `re.match` from a position. -/
def matchAt (r : Re) (q : Pos) : Option Match :=
  ((ways r q).head?).map fun w => ⟨q, w.1, w.2⟩

/-- `re.search`: the leftmost position that matches. -/
def searchFrom (r : Re) : Text → Text → Option Match
  | b, [] => matchAt r ⟨b, []⟩
  | b, c :: cs =>
    match matchAt r ⟨b, c :: cs⟩ with
    | some m => some m
    | none => searchFrom r (c :: b) cs

def search (r : Re) (s : Text) : Option Match := searchFrom r [] s

/-- Successive matches, left to right and disjoint. After an empty match the search resumes one
character later. The fuel bounds the number of matches. -/
def iterFrom (r : Re) : Nat → Pos → List Match
  | 0, _ => []
  | n + 1, q =>
    match searchFrom r q.before q.after with
    | none => []
    | some m =>
      if m.start.after.length = m.stop.after.length then
        match m.stop.after with
        | [] => [m]
        | c :: cs => m :: iterFrom r n ⟨c :: m.stop.before, cs⟩
      else m :: iterFrom r n m.stop

/-- `re.finditer`. -/
def finditer (r : Re) (s : Text) : List Match := iterFrom r (s.length + 1) (Pos.start s)

def cutFrom : List Match → Pos → Text
  | [], q => q.after
  | m :: ms, q => between q m.start ++ cutFrom ms m.stop

/-- `re.sub(r, "", s)`. -/
def remove (r : Re) (s : Text) : Text := cutFrom (finditer r s) (Pos.start s)

/-! ## Where a match can end -/

def Reaches (r : Re) (q q' : Pos) : Prop := ∃ groups, (q', groups) ∈ ways r q

variable {r : Re} {q q' : Pos} {p : Char → Bool} {m : Match} {s : Text}

theorem reaches_of_matchAt (h : (matchAt r q).isSome) : ∃ q', Reaches r q q' := by
  unfold matchAt at h
  cases hw : ways r q with
  | nil => simp [hw] at h
  | cons w ws => exact ⟨w.1, w.2, by simp [hw]⟩

theorem reaches_seq {s : Re} : Reaches (.seq r s) q q' ↔ ∃ m, Reaches r q m ∧ Reaches s m q' := by
  simp only [Reaches, ways_seq, List.mem_flatMap, List.mem_map]
  constructor
  · rintro ⟨_, w, hw, w', hw', heq⟩
    exact ⟨w.1, ⟨w.2, hw⟩, w'.2, (Prod.mk.inj heq).1 ▸ hw'⟩
  · rintro ⟨m, ⟨g, hg⟩, g', hg'⟩
    exact ⟨g ++ g', (m, g), hg, (q', g'), hg', rfl⟩

theorem reaches_eps : Reaches .eps q q' ↔ q' = q := by
  simp [Reaches]

theorem reaches_check {t : Pos → Bool} : Reaches (.check t) q q' ↔ t q = true ∧ q' = q := by
  simp only [Reaches, ways_check]
  split <;> simp_all

theorem reaches_cls (h : Reaches (.cls p) q q') : ∃ c, p c = true ∧ q.after = c :: q'.after := by
  obtain ⟨groups, h⟩ := h
  obtain ⟨b, _ | ⟨c, cs⟩⟩ := q
  · simp at h
  · simp only [ways_cls_cons] at h
    split at h
    · next hc =>
      cases List.mem_singleton.1 h
      exact ⟨c, hc, rfl⟩
    · cases h

theorem reaches_cls_iff :
    Reaches (.cls p) q q' ↔ ∃ c, p c = true ∧ q.after = c :: q'.after ∧ q'.before = c :: q.before := by
  obtain ⟨b, _ | ⟨c, cs⟩⟩ := q
  · simp [Reaches]
  · obtain ⟨b', cs'⟩ := q'
    simp only [Reaches, ways_cls_cons]
    split
    · next hc =>
      simp only [List.mem_singleton, Prod.mk.injEq, Pos.mk.injEq]
      constructor
      · rintro ⟨_, ⟨rfl, rfl⟩, _⟩
        exact ⟨c, hc, rfl, rfl⟩
      · rintro ⟨d, _, hafter, rfl⟩
        obtain ⟨rfl, rfl⟩ := List.cons.inj hafter
        exact ⟨[], ⟨rfl, rfl⟩, rfl⟩
    · next hc =>
      simp only [List.not_mem_nil, exists_false, false_iff]
      rintro ⟨d, hd, hafter, _⟩
      exact hc ((List.cons.inj hafter).1 ▸ hd)

theorem reaches_alt {s : Re} : Reaches (.alt r s) q q' ↔ Reaches r q q' ∨ Reaches s q q' := by
  simp only [Reaches, ways_alt, List.mem_append, exists_or]

theorem reaches_group : Reaches (.group r) q q' ↔ Reaches r q q' := by
  simp only [Reaches, ways_group, List.mem_map]
  constructor
  · rintro ⟨_, w, hw, heq⟩
    exact ⟨w.2, (Prod.mk.inj heq).1 ▸ hw⟩
  · rintro ⟨groups, h⟩
    exact ⟨_, (q', groups), h, rfl⟩

theorem reaches_wordCi {w : String} :
    Reaches (.wordCi w) q q' ↔
      ∃ t, List.Forall₂ (fun p c => Text.ciEq p c = true) w.toList t ∧ q.after = t ++ q'.after ∧
        q'.before = t.reverse ++ q.before := by
  unfold Re.wordCi
  induction w.toList generalizing q with
  | nil =>
    rw [List.foldr_nil, reaches_eps]
    constructor
    · rintro rfl
      exact ⟨[], .nil, rfl, rfl⟩
    · rintro ⟨t, ht, hafter, hbefore⟩
      cases ht
      cases q; cases q'
      simp_all
  | cons p w ih =>
    rw [List.foldr_cons, reaches_seq]
    constructor
    · rintro ⟨m, hm, hrest⟩
      obtain ⟨c, hc, hafter, hbefore⟩ := reaches_cls_iff.1 hm
      obtain ⟨t, ht, hafter', hbefore'⟩ := ih.1 hrest
      exact ⟨c :: t, .cons hc ht, by simp [hafter, hafter'], by simp [hbefore, hbefore']⟩
    · rintro ⟨t, ht, hafter, hbefore⟩
      cases ht with
      | @cons _ c _ t hc ht =>
        exact ⟨⟨c :: q.before, t ++ q'.after⟩, reaches_cls_iff.2 ⟨c, hc, hafter, rfl⟩,
          ih.2 ⟨t, ht, rfl, by simpa using hbefore⟩⟩

theorem starWays_eq_cons (p : Char → Bool) (b s : Text) :
    ∃ b' ws, starWays p b s = ⟨b', s.dropWhile p⟩ :: ws := by
  induction s generalizing b with
  | nil => exact ⟨b, [], rfl⟩
  | cons c s ih =>
    by_cases hc : p c = true
    · obtain ⟨b', ws, hws⟩ := ih (c :: b)
      exact ⟨b', ws ++ [⟨b, c :: s⟩], by simp [starWays, hc, hws]⟩
    · exact ⟨b, [], by simp [starWays, hc]⟩

theorem mem_repeatWays : ∀ {n : Nat} {b s : Text},
    q ∈ repeatWays p n b s → ∃ t, t.length = n ∧ (∀ c ∈ t, p c = true) ∧ s = t ++ q.after := by
  intro n
  induction n with
  | zero =>
    intro b s h
    cases List.mem_singleton.1 h
    exact ⟨[], rfl, by simp, rfl⟩
  | succ n ih =>
    intro b s h
    cases s with
    | nil => cases h
    | cons c cs =>
      simp only [repeatWays] at h
      split at h
      · next hc =>
        obtain ⟨t, hlen, hall, rfl⟩ := ih h
        exact ⟨c :: t, by simp [hlen], by simpa [hc] using hall, rfl⟩
      · cases h

theorem reaches_repeated {n : Nat} (h : Reaches (.repeated n p) q q') :
    ∃ t, t.length = n ∧ (∀ c ∈ t, p c = true) ∧ q.after = t ++ q'.after := by
  obtain ⟨groups, h⟩ := h
  simp only [ways_repeated, List.mem_map] at h
  obtain ⟨w, hw, heq⟩ := h
  cases heq
  exact mem_repeatWays hw

theorem matchAt_isSome : (matchAt r q).isSome ↔ ∃ q', Reaches r q q' := by
  refine ⟨reaches_of_matchAt, fun ⟨q', groups, h⟩ => ?_⟩
  unfold matchAt
  cases hw : ways r q with
  | nil => rw [hw] at h; cases h
  | cons w ws => rfl

theorem reaches_of_matchAt_eq (h : matchAt r q = some m) : m.start = q ∧ Reaches r q m.stop := by
  unfold matchAt at h
  cases hw : ways r q with
  | nil => simp [hw] at h
  | cons w ws =>
    simp only [hw, List.head?_cons, Option.map_some, Option.some.injEq] at h
    subst h
    exact ⟨rfl, w.2, by simp [hw]⟩

theorem Reaches.cls {b cs : Text} {c : Char} (h : p c = true) :
    Reaches (.cls p) ⟨b, c :: cs⟩ ⟨c :: b, cs⟩ :=
  ⟨[], by simp [h]⟩

theorem Reaches.repeated (t : Text) (h : ∀ c ∈ t, p c = true) :
    ∀ b s : Text, Reaches (.repeated t.length p) ⟨b, t ++ s⟩ ⟨t.reverse ++ b, s⟩ := by
  intro b s
  refine ⟨[], List.mem_map.2 ⟨⟨t.reverse ++ b, s⟩, ?_, rfl⟩⟩
  induction t generalizing b with
  | nil => simp [repeatWays]
  | cons c t ih =>
    have hc := h c List.mem_cons_self
    simpa [repeatWays, hc] using ih (fun d hd => h d (List.mem_cons_of_mem c hd)) (c :: b)

/-! ## Positions of one text -/

def Pos.Of (s : Text) (q : Pos) : Prop := q.before.reverse ++ q.after = s

theorem Pos.of_start (s : Text) : (Pos.start s).Of s := rfl

theorem Pos.Of.cons {s b cs : Text} {c : Char} (h : Pos.Of s ⟨b, c :: cs⟩) :
    Pos.Of s ⟨c :: b, cs⟩ := by
  simpa [Pos.Of] using h

/-- `q'` is `q` or a later position of the same text. -/
def Pos.Advances (q q' : Pos) : Prop :=
  ∃ t, q.after = t ++ q'.after ∧ q'.before = t.reverse ++ q.before

theorem Pos.Advances.refl (q : Pos) : q.Advances q := ⟨[], rfl, rfl⟩

theorem Pos.Advances.cons {b cs : Text} {c : Char} {q : Pos} (h : Pos.Advances ⟨c :: b, cs⟩ q) :
    Pos.Advances ⟨b, c :: cs⟩ q := by
  obtain ⟨t, hafter, hbefore⟩ := h
  exact ⟨c :: t, by simpa using hafter, by simpa using hbefore⟩

theorem Pos.Advances.trans {q'' : Pos} (h : q.Advances q') (h' : q'.Advances q'') :
    q.Advances q'' := by
  obtain ⟨t, hafter, hbefore⟩ := h
  obtain ⟨t', hafter', hbefore'⟩ := h'
  exact ⟨t ++ t', by rw [hafter, hafter', List.append_assoc],
    by rw [hbefore', hbefore, List.reverse_append, List.append_assoc]⟩

theorem Pos.Advances.of (h : q.Advances q') (hq : q.Of s) : q'.Of s := by
  obtain ⟨t, hafter, hbefore⟩ := h
  rw [Pos.Of, hafter] at hq
  rw [Pos.Of, hbefore, List.reverse_append, List.reverse_reverse, List.append_assoc]
  exact hq

theorem Pos.Advances.length_le (h : q.Advances q') : q'.after.length ≤ q.after.length := by
  obtain ⟨t, hafter, -⟩ := h
  rw [hafter, List.length_append]
  omega

theorem advances_starWays : ∀ {b cs : Text},
    q ∈ starWays p b cs → Pos.Advances ⟨b, cs⟩ q := by
  intro b cs
  induction cs generalizing b with
  | nil =>
    intro hq
    cases List.mem_singleton.1 hq
    exact .refl _
  | cons c cs ih =>
    intro hq
    unfold starWays at hq
    split at hq
    · rcases List.mem_append.1 hq with hq | hq
      · exact (ih hq).cons
      · cases List.mem_singleton.1 hq
        exact .refl _
    · cases List.mem_singleton.1 hq
      exact .refl _

theorem advances_lazyWays : ∀ {b cs : Text},
    q ∈ lazyWays p b cs → Pos.Advances ⟨b, cs⟩ q := by
  intro b cs
  induction cs generalizing b with
  | nil =>
    intro hq
    cases List.mem_singleton.1 hq
    exact .refl _
  | cons c cs ih =>
    intro hq
    unfold lazyWays at hq
    rcases List.mem_cons.1 hq with rfl | hq
    · exact .refl _
    · split at hq
      · exact (ih hq).cons
      · cases hq

theorem advances_repeatWays : ∀ {n : Nat} {b cs : Text},
    q ∈ repeatWays p n b cs → Pos.Advances ⟨b, cs⟩ q := by
  intro n
  induction n with
  | zero =>
    intro b cs hq
    cases List.mem_singleton.1 hq
    exact .refl _
  | succ n ih =>
    intro b cs hq
    cases cs with
    | nil => cases hq
    | cons c cs =>
      unfold repeatWays at hq
      split at hq
      · exact (ih hq).cons
      · cases hq

theorem Reaches.advances : ∀ {q q' : Pos}, Reaches r q q' → q.Advances q' := by
  induction r with
  | cls p =>
    rintro ⟨b, _ | ⟨c, cs⟩⟩ q' ⟨groups, h⟩
    · simp at h
    · simp only [ways_cls_cons] at h
      split at h
      · cases List.mem_singleton.1 h
        exact (Pos.Advances.refl _).cons
      · cases h
  | star p =>
    rintro ⟨b, cs⟩ q' ⟨groups, h⟩
    obtain ⟨w, hw, heq⟩ := List.mem_map.1 h
    cases heq
    exact advances_starWays hw
  | lazyStar p =>
    rintro ⟨b, cs⟩ q' ⟨groups, h⟩
    obtain ⟨w, hw, heq⟩ := List.mem_map.1 h
    cases heq
    exact advances_lazyWays hw
  | repeated n p =>
    rintro ⟨b, cs⟩ q' ⟨groups, h⟩
    obtain ⟨w, hw, heq⟩ := List.mem_map.1 h
    cases heq
    exact advances_repeatWays hw
  | check t =>
    intro q q' h
    obtain ⟨-, rfl⟩ := reaches_check.1 h
    exact .refl _
  | eps =>
    intro q q' h
    cases reaches_eps.1 h
    exact .refl _
  | seq r r' ih ih' =>
    intro q q' h
    obtain ⟨m, hm, hm'⟩ := reaches_seq.1 h
    exact (ih hm).trans (ih' hm')
  | alt r r' ih ih' =>
    rintro q q' ⟨groups, h⟩
    rcases List.mem_append.1 h with h | h
    · exact ih ⟨groups, h⟩
    · exact ih' ⟨groups, h⟩
  | group r ih =>
    rintro q q' ⟨groups, h⟩
    obtain ⟨w, hw, heq⟩ := List.mem_map.1 h
    cases heq
    exact ih ⟨w.2, hw⟩

/-! ## What a search finds -/

theorem searchFrom_eq_some : ∀ {b cs : Text},
    searchFrom r b cs = some m → Pos.Of s ⟨b, cs⟩ → m.start.Of s ∧ Reaches r m.start m.stop := by
  intro b cs
  induction cs generalizing b with
  | nil =>
    intro h hq
    obtain ⟨hstart, hreach⟩ := reaches_of_matchAt_eq h
    exact ⟨hstart ▸ hq, hstart ▸ hreach⟩
  | cons c cs ih =>
    intro h hq
    unfold searchFrom at h
    split at h
    · next hm =>
      cases h
      obtain ⟨hstart, hreach⟩ := reaches_of_matchAt_eq hm
      exact ⟨hstart ▸ hq, hstart ▸ hreach⟩
    · exact ih h hq.cons

theorem search_eq_some (h : search r s = some m) :
    m.start.Of s ∧ m.stop.Of s ∧ Reaches r m.start m.stop := by
  obtain ⟨hstart, hreach⟩ := searchFrom_eq_some h (Pos.of_start s)
  exact ⟨hstart, hreach.advances.of hstart, hreach⟩

theorem searchFrom_eq_none {P : Pos → Prop} (hnext : ∀ b c cs, P ⟨b, c :: cs⟩ → P ⟨c :: b, cs⟩)
    (hnone : ∀ q, P q → matchAt r q = none) :
    ∀ {b cs : Text}, P ⟨b, cs⟩ → searchFrom r b cs = none := by
  intro b cs
  induction cs generalizing b with
  | nil => exact fun h => hnone _ h
  | cons c cs ih =>
    intro h
    rw [searchFrom, hnone _ h]
    exact ih (hnext b c cs h)

theorem matchAt_eq_none : matchAt r q = none ↔ ∀ q', ¬ Reaches r q q' := by
  rw [← not_exists, ← matchAt_isSome]
  cases matchAt r q <;> simp

theorem Pos.Of.eq (h : q.Of s) (h' : q'.Of s) (hlen : q.before.length = q'.before.length) :
    q = q' := by
  obtain ⟨hb, ha⟩ := List.append_inj (h.trans h'.symm) (by simpa using hlen)
  cases q; cases q'
  simp_all

theorem searchFrom_leftmost : ∀ {b cs : Text},
    searchFrom r b cs = some m → Pos.Of s ⟨b, cs⟩ →
    matchAt r m.start = some m ∧ ∀ q : Pos, q.Of s → b.length ≤ q.before.length →
      q.before.length < m.start.before.length → matchAt r q = none := by
  intro b cs
  induction cs generalizing b with
  | nil =>
    intro h hq
    have hstart := (reaches_of_matchAt_eq h).1
    rw [searchFrom, ← hstart] at h
    refine ⟨h, fun q _ hle hlt => ?_⟩
    rw [hstart] at hlt
    exact absurd hlt (Nat.not_lt.2 hle)
  | cons c cs ih =>
    intro h hq
    unfold searchFrom at h
    split at h
    · next hm =>
      cases h
      have hstart := (reaches_of_matchAt_eq hm).1
      rw [← hstart] at hm
      refine ⟨hm, fun q _ hle hlt => ?_⟩
      rw [hstart] at hlt
      exact absurd hlt (Nat.not_lt.2 hle)
    · next hm =>
      obtain ⟨hmatch, hfirst⟩ := ih h hq.cons
      refine ⟨hmatch, fun q hof hle hlt => ?_⟩
      rcases Nat.eq_or_lt_of_le hle with heq | hlt'
      · rw [hof.eq hq heq.symm]
        exact hm
      · exact hfirst q hof hlt' hlt

theorem search_leftmost (h : search r s = some m) (hq : q.Of s) (hreach : Reaches r q q') :
    m.start.before.length ≤ q.before.length := by
  by_contra hlt
  have hnone := (searchFrom_leftmost h (Pos.of_start s)).2 q hq (Nat.zero_le _) (Nat.lt_of_not_le hlt)
  exact matchAt_eq_none.1 hnone q' hreach

theorem search_isSome (hq : q.Of s) (h : Reaches r q q') : ∃ m, search r s = some m := by
  have hfrom : ∀ {b cs : Text}, Pos.Of s ⟨b, cs⟩ → b.length ≤ q.before.length →
      ∃ m, searchFrom r b cs = some m := by
    intro b cs
    induction cs generalizing b with
    | nil =>
      intro hof hle
      have hlen := congrArg List.length (hof.trans hq.symm)
      simp only [List.append_nil, List.length_reverse, List.length_append] at hlen
      rw [hq.eq hof (by simp only; omega)] at h
      exact Option.isSome_iff_exists.1 (matchAt_isSome.2 ⟨q', h⟩)
    | cons c cs ih =>
      intro hof hle
      unfold searchFrom
      split
      · exact ⟨_, rfl⟩
      · next hm =>
        refine ih hof.cons (Nat.lt_of_le_of_ne hle fun heq => ?_)
        rw [hq.eq hof heq.symm] at h
        exact matchAt_eq_none.1 hm q' h
  exact hfrom (Pos.of_start s) (Nat.zero_le _)

theorem search_start_eq {r' : Re}
    (h : ∀ q : Pos, q.Of s → ((∃ q', Reaches r q q') ↔ ∃ q', Reaches r' q q')) :
    (search r s).map Match.start = (search r' s).map Match.start := by
  have hnone {r r' : Re} (h : ∀ q : Pos, q.Of s → (∃ q', Reaches r' q q') → ∃ q', Reaches r q q')
      (hr : search r s = none) : search r' s = none := by
    cases hr' : search r' s with
    | none => rfl
    | some m =>
      obtain ⟨hstart, -, hreach⟩ := search_eq_some hr'
      obtain ⟨q', hreach⟩ := h _ hstart ⟨_, hreach⟩
      obtain ⟨m', hm'⟩ := search_isSome hstart hreach
      rw [hr] at hm'
      cases hm'
  cases hr : search r s with
  | none => rw [hnone (fun q hq => (h q hq).2) hr]
  | some m =>
    cases hr' : search r' s with
    | none =>
      rw [hnone (fun q hq => (h q hq).1) hr'] at hr
      cases hr
    | some m' =>
      obtain ⟨hstart, -, hreach⟩ := search_eq_some hr
      obtain ⟨hstart', -, hreach'⟩ := search_eq_some hr'
      obtain ⟨_, hthere⟩ := (h _ hstart).1 ⟨_, hreach⟩
      obtain ⟨_, hhere⟩ := (h _ hstart').2 ⟨_, hreach'⟩
      exact congrArg some (hstart.eq hstart'
        (Nat.le_antisymm (search_leftmost hr hstart' hhere) (search_leftmost hr' hstart hthere)))

theorem between_eq {t : Text} (h : q'.before = t.reverse ++ q.before) : between q q' = t := by
  rw [between, h]
  simp

theorem prior_append_text (hstart : m.start.Of s) (hstop : m.stop.Of s) (hend : m.stop.after = []) :
    m.prior ++ m.text = s := by
  have hbefore : m.stop.before = m.start.after.reverse ++ m.start.before := by
    rw [Pos.Of, hend, List.append_nil, ← hstart] at hstop
    rw [← List.reverse_reverse m.stop.before, hstop]
    simp
  rw [Match.prior, Match.text, between, hbefore]
  simpa [List.take_append, Pos.Of] using hstart

def replaceFirst (r : Re) (s : Text) : Text :=
  match search r s with
  | none => s
  | some m => m.prior ++ m.rest

/-- Where nothing matches after the first match, that one is all `re.sub` deletes. -/
theorem remove_eq_replaceFirst
    (h : ∀ m, search r s = some m → m.start.after.length ≠ m.stop.after.length ∧
      searchFrom r m.stop.before m.stop.after = none) : remove r s = replaceFirst r s := by
  unfold remove replaceFirst finditer
  rw [iterFrom]
  change cutFrom (match search r s with | none => _ | some m => _) _ = _
  cases hs : search r s with
  | none => rfl
  | some m =>
    obtain ⟨hne, hnone⟩ := h m hs
    obtain ⟨hstart, -, -⟩ := search_eq_some hs
    have hrest : ∀ n, iterFrom r n m.stop = [] := by
      intro n
      cases n with
      | zero => rfl
      | succ n => rw [iterFrom, hnone]
    dsimp only
    rw [if_neg hne, hrest]
    simp [cutFrom, between, Pos.start, Match.prior, Match.rest]

theorem matchAt_end (h : q.after = []) : matchAt (.seq (.cls p) r) q = none := by
  obtain ⟨b, cs⟩ := q
  cases h
  rfl

end Archiviste.Regex
