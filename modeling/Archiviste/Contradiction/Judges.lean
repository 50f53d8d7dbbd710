import Archiviste.Base.Regex
import Archiviste.Contradiction.Sources
import Archiviste.Tickets.Service
import Mathlib.Data.List.Infix

/-!
# Archiviste.Contradiction.Judges

`verify_contradiction` after its sources are known: the replies of three judges are parsed, the
verdict with two votes wins, its reason is redacted, and a ticket may be raised. The class `\w` and
lower-casing are parameters; the case-insensitive letters of a keyword are those of Python.

* `parseVerdict`, `aggregateVerdicts`, `redactReason`, `verifyContradiction` — the service; `none`
  is a `KeyError`.
* `FirstKeyword`          — the first whole word of a reply that is a keyword in some case.
* `parseVerdict_keyword`  — the verdict is that of the first keyword, unless it is written with the
  dotted `İ`, which the pattern matches and upper-casing keeps.
* `Noticed`               — what the redaction finds: a quotation that is long enough for the offset
  it starts at.
-/

namespace Archiviste.Contradiction

open Regex Generate

inductive Verdict where
  | present
  | absent
  | contradiction
  | unclear
  deriving DecidableEq, Repr

/-! ## Parsing a reply -/

def Verdict.token : Verdict → String
  | .present => "PRESENT"
  | .absent => "ABSENT"
  | .contradiction => "CONTRADICTION"
  | .unclear => "UNCLEAR"

def tokenToVerdict : List (Text × Verdict) :=
  [Verdict.present, .absent, .contradiction, .unclear].map fun v => (v.token.toList, v)

/-- `\b`: one side is a word character and the other is not. -/
def atWordBoundary (isWord : Char → Bool) (q : Pos) : Bool :=
  q.before.head?.any isWord != q.after.head?.any isWord

def verdictKeywordRe (isWord : Char → Bool) : Re :=
  .seqs [.check (atWordBoundary isWord),
    .group (.alt (.wordCi Verdict.present.token) (.alt (.wordCi Verdict.absent.token)
      (.alt (.wordCi Verdict.contradiction.token) (.wordCi Verdict.unclear.token)))),
    .check (atWordBoundary isWord)]

/-- `s.strip(" .:-\n")`. -/
def stripReason (s : Text) : Text :=
  (s.dropWhile (· ∈ " .:-\n".toList)).rdropWhile (· ∈ " .:-\n".toList)

def parseVerdict (isWord : Char → Bool) (reply : Text) : Option (Verdict × Text) :=
  let stripped := Text.strip reply
  if stripped = [] then some (.unclear, [])
  else
    match search (verdictKeywordRe isWord) stripped with
    | none => some (.unclear, stripped)
    | some m =>
      (tokenToVerdict.lookup (m.text.map Text.upperChar)).map fun verdict =>
        (verdict, stripReason m.rest)

/-! ## The panel -/

def majorityThreshold : Nat := 2

def reasonUnclear : Text := "Les juges n'ont pas pu trancher l'affirmation.".toList

def reasonNoSources : Text := "Aucune source disponible pour évaluer l'affirmation.".toList

def safeReason : Verdict → Text
  | .present => "L'affirmation est soutenue par les sources.".toList
  | .absent => "L'information est absente des sources.".toList
  | .contradiction => "Les sources se contredisent.".toList
  | .unclear => reasonUnclear

/-- One judge: `invoke` answers `none` on a timeout or an upstream error. -/
def runJudge (isWord : Char → Bool) (invoke : List Message → Option Text) (claim : Text)
    (sources : List Source) (lens : String) : Option (Verdict × Text) :=
  match invoke (buildJudgeMessages claim sources lens) with
  | none => some (.unclear, [])
  | some content => parseVerdict isWord content

def reasonsFor (outcomes : List (Verdict × Text)) (v : Verdict) : List Text :=
  (outcomes.filter (·.1 = v)).map (·.2)

/-- The verdict, its reason, and whether it has a majority. -/
def aggregateVerdicts (outcomes : List (Verdict × Text)) : Verdict × Text × Bool :=
  let priority := [Verdict.contradiction, .absent, .present, .unclear]
  match priority.find? fun v => majorityThreshold ≤ (reasonsFor outcomes v).length with
  | some v => (v, ((reasonsFor outcomes v).find? (· ≠ [])).getD reasonUnclear, true)
  | none => (.unclear, reasonUnclear, false)

/-! ## Redaction -/

def minLeakSubstrChars : Nat := 24

/-- The slices of `step` characters at `range(0, len(t) - step + 1, step)`. -/
def windows (step : Nat) (t : Text) : List Text :=
  (List.range (t.length / step)).map fun k => (t.drop (step * k)).take step

def redactReason (lower : Text → Text) (reason : Text) (verdict : Verdict)
    (sources : List Source) : Text :=
  let reasonLower := lower reason
  if sources.any fun s => minLeakSubstrChars ≤ s.text.length &&
      (windows minLeakSubstrChars (lower s.text)).any (· <:+: reasonLower) then safeReason verdict
  else reason

/-! ## The service -/

inductive TicketAction where
  | raised (action : Tickets.TicketAction)
  | notRaised
  deriving DecidableEq, Repr

inductive Outcome where
  | confirmed
  | refused
  | indecisive
  deriving DecidableEq, Repr

structure VerificationResult where
  verdict : Verdict
  reason : Text
  ticketAction : TicketAction
  ticketId : Option Nat
  outcome : Outcome
  deriving DecidableEq, Repr

def ticketTriggering : Verdict → Bool
  | .absent | .contradiction => true
  | _ => false

def deriveOutcome (verdict : Verdict) (shouldRaise : Bool) : Outcome :=
  if shouldRaise then .confirmed
  else if verdict = .present then .refused
  else .indecisive

def noSources : VerificationResult := ⟨.unclear, reasonNoSources, .notRaised, none, .indecisive⟩

/-- What becomes of the verdict of a panel. The ticket service does not raise. -/
def concludePanel (lower : Text → Text) (createOrIncrement : Tickets.Call → Tickets.TicketResult)
    (claim conversationId : Text) (force : Bool) (sources : List Source)
    (outcomes : List (Verdict × Text)) : VerificationResult :=
  let (winning, synthesized, hasMajority) := aggregateVerdicts outcomes
  let reason := redactReason lower synthesized winning sources
  if hasMajority && ticketTriggering winning then
    let ticket := createOrIncrement ⟨conversationId, claim, false, false⟩
    ⟨winning, reason, .raised ticket.action, ticket.ticketId, deriveOutcome winning true⟩
  else if force then
    let ticket := createOrIncrement ⟨conversationId, claim, true, true⟩
    ⟨winning, reason, .raised ticket.action, ticket.ticketId, deriveOutcome winning false⟩
  else ⟨winning, reason, .notRaised, none, deriveOutcome winning false⟩

section
variable {E : Type} (be : Backend E) (isWord : Char → Bool) (lower : Text → Text)
  (invoke : List Message → Option Text)
  (createOrIncrement : Tickets.Call → Tickets.TicketResult)

def verifyContradiction (claim conversationId : Text) (citations : List Citation)
    (userTier : String) (force : Bool) : Option VerificationResult :=
  match resolveSources be citations userTier claim with
  | none => some noSources
  | some sources =>
    if sources = [] then some noSources
    else
      (judgeLenses.mapM (runJudge isWord invoke claim sources)).map
        (concludePanel lower createOrIncrement claim conversationId force sources)

end

/-! ## Keywords -/

section
variable (isWord : Char → Bool)

/-- The keyword of a verdict, in some case, is a whole word of a text. -/
structure Occurs (s : Text) (v : Verdict) (pre kw post : Text) : Prop where
  split : s = pre ++ kw ++ post
  letters : List.Forall₂ (fun p c => Text.ciEq p c = true) v.token.toList kw
  left : atWordBoundary isWord ⟨pre.reverse, kw ++ post⟩ = true
  right : atWordBoundary isWord ⟨(pre ++ kw).reverse, post⟩ = true

structure FirstKeyword (s : Text) (v : Verdict) (pre kw post : Text) : Prop
    extends Occurs isWord s v pre kw post where
  first : ∀ v' pre' kw' post', Occurs isWord s v' pre' kw' post' → pre.length ≤ pre'.length

variable {isWord}

theorem reaches_verdictKeywordRe {q q' : Pos} :
    Reaches (verdictKeywordRe isWord) q q' ↔
      atWordBoundary isWord q = true ∧
      (∃ v : Verdict, ∃ kw, List.Forall₂ (fun p c => Text.ciEq p c = true) v.token.toList kw ∧
        q.after = kw ++ q'.after ∧ q'.before = kw.reverse ++ q.before) ∧
      atWordBoundary isWord q' = true := by
  simp only [verdictKeywordRe, Re.seqs, List.foldr_cons, List.foldr_nil, reaches_seq, reaches_check,
    reaches_group, reaches_alt, reaches_wordCi, reaches_eps]
  constructor
  · rintro ⟨_, ⟨hleft, rfl⟩, m, hword, _, ⟨hright, rfl⟩, rfl⟩
    refine ⟨hleft, ?_, hright⟩
    rcases hword with h | h | h | h
    · exact ⟨.present, h⟩
    · exact ⟨.absent, h⟩
    · exact ⟨.contradiction, h⟩
    · exact ⟨.unclear, h⟩
  · rintro ⟨hleft, ⟨v, hword⟩, hright⟩
    refine ⟨q, ⟨hleft, rfl⟩, q', ?_, q', ⟨hright, rfl⟩, rfl⟩
    cases v with
    | present => exact .inl hword
    | absent => exact .inr (.inl hword)
    | contradiction => exact .inr (.inr (.inl hword))
    | unclear => exact .inr (.inr (.inr hword))

variable {s pre kw post reply : Text} {v : Verdict}

theorem Occurs.reaches (h : Occurs isWord s v pre kw post) :
    Reaches (verdictKeywordRe isWord) ⟨pre.reverse, kw ++ post⟩ ⟨(pre ++ kw).reverse, post⟩ :=
  reaches_verdictKeywordRe.2 ⟨h.left, ⟨v, kw, h.letters, rfl, by simp⟩, h.right⟩

theorem Occurs.of (h : Occurs isWord s v pre kw post) : Pos.Of s ⟨pre.reverse, kw ++ post⟩ := by
  simp [Pos.Of, h.split]

theorem occurs_of_reaches {q q' : Pos} (hq : q.Of s) (h : Reaches (verdictKeywordRe isWord) q q') :
    ∃ v kw, Occurs isWord s v q.before.reverse kw q'.after ∧ q'.before = kw.reverse ++ q.before := by
  obtain ⟨hleft, ⟨v, kw, hletters, hafter, hbefore⟩, hright⟩ := reaches_verdictKeywordRe.1 h
  obtain ⟨b, a⟩ := q
  obtain ⟨b', a'⟩ := q'
  obtain rfl : a = kw ++ a' := hafter
  obtain rfl : b' = kw.reverse ++ b := hbefore
  refine ⟨v, kw, ⟨?_, hletters, ?_, ?_⟩, rfl⟩
  · rw [List.append_assoc]
    exact hq.symm
  · rwa [List.reverse_reverse]
  · rwa [List.reverse_append, List.reverse_reverse]

theorem mem_token {p : Char} (h : p ∈ v.token.toList) :
    (65 ≤ p.toNat ∧ p.toNat ≤ 90) ∧ p.toLower ≠ 'k' := by
  have hall : ∀ v : Verdict, ∀ p ∈ v.token.toList,
      (65 ≤ p.toNat ∧ p.toNat ≤ 90) ∧ p.toLower ≠ 'k' := by
    intro v
    cases v <;> decide
  exact hall v p h

/-- The keywords begin with different letters, which only match themselves. -/
theorem token_unique {v' : Verdict} {kw' post' : Text}
    (h : List.Forall₂ (fun p c => Text.ciEq p c = true) v.token.toList kw)
    (h' : List.Forall₂ (fun p c => Text.ciEq p c = true) v'.token.toList kw')
    (heq : kw ++ post = kw' ++ post') : v = v' ∧ kw = kw' := by
  have hinitial : ∀ {v : Verdict} {kw : Text},
      List.Forall₂ (fun p c => Text.ciEq p c = true) v.token.toList kw →
      (kw.head?.map Text.upperChar) = v.token.toList.head? := by
    intro v kw h
    have htoken : ∃ p w, v.token.toList = p :: w ∧ p.toLower ≠ 'i' := by
      cases v
      all_goals exact ⟨_, _, rfl, by decide⟩
    obtain ⟨p, w, hpw, hi⟩ := htoken
    obtain ⟨hp, hk⟩ := mem_token (hpw ▸ List.mem_cons_self)
    rw [hpw] at h ⊢
    cases h with
    | @cons _ c _ t hc ht =>
      have hdot : c ≠ 'İ' := by
        rintro rfl
        have hlower : 'İ'.toLower = p.toLower := by simpa [Text.ciEq, hi, hk] using hc
        have hnat := congrArg Char.toNat hlower
        rw [Text.toNat_toLower p, if_pos hp] at hnat
        have hdotted : 'İ'.toLower.toNat = 304 := by decide
        omega
      simp [Text.upperChar_of_ciEq hp hk hc hdot]
  have hheads : (kw ++ post).head?.map Text.upperChar = v.token.toList.head? ∧
      (kw' ++ post').head?.map Text.upperChar = v'.token.toList.head? := by
    have hhead : ∀ {v : Verdict} {kw : Text} (post : Text),
        List.Forall₂ (fun p c => Text.ciEq p c = true) v.token.toList kw →
        (kw ++ post).head? = kw.head? := by
      intro v kw post h
      cases v <;> cases h <;> rfl
    exact ⟨hhead post h ▸ hinitial h, hhead post' h' ▸ hinitial h'⟩
  have hv : v = v' := by
    have hsame := hheads.1.symm.trans ((congrArg _ (congrArg _ heq)).trans hheads.2)
    cases v <;> cases v' <;> first | rfl | exact absurd hsame (by decide)
  subst hv
  exact ⟨rfl, (List.append_inj heq (h.length_eq.symm.trans h'.length_eq)).1⟩

theorem lookup_upper (h : List.Forall₂ (fun p c => Text.ciEq p c = true) v.token.toList kw) :
    tokenToVerdict.lookup (kw.map Text.upperChar) = if 'İ' ∈ kw then none else some v := by
  split
  · next hdot =>
    have hmem : 'İ' ∈ kw.map Text.upperChar := List.mem_map.2 ⟨'İ', hdot, by decide⟩
    rw [List.lookup_eq_none_iff]
    intro e he
    have hnot : ∀ e ∈ tokenToVerdict, 'İ' ∉ e.1 := by decide
    exact bne_iff_ne.2 fun heq => hnot e he (heq ▸ hmem)
  · next hdot =>
    have hupper : kw.map Text.upperChar = v.token.toList := by
      have hmap : ∀ {w kw : Text}, (∀ p ∈ w, (65 ≤ p.toNat ∧ p.toNat ≤ 90) ∧ p.toLower ≠ 'k') →
          'İ' ∉ kw → List.Forall₂ (fun p c => Text.ciEq p c = true) w kw →
          kw.map Text.upperChar = w := by
        intro w kw hw hdot h
        induction h with
        | nil => rfl
        | @cons p c w kw hc _ ih =>
          obtain ⟨hp, hk⟩ := hw p List.mem_cons_self
          rw [List.map_cons, Text.upperChar_of_ciEq hp hk hc fun he => hdot (by simp [he]),
            ih (fun p hp => hw p (List.mem_cons_of_mem _ hp))
              fun hmem => hdot (List.mem_cons_of_mem _ hmem)]
      exact hmap (fun p hp => mem_token hp) hdot h
    rw [hupper]
    cases v <;> decide

theorem parseVerdict_keyword (h : FirstKeyword isWord (Text.strip reply) v pre kw post) :
    parseVerdict isWord reply = if 'İ' ∈ kw then none else some (v, stripReason post) := by
  have hkw : kw ≠ [] := by
    rintro rfl
    have := h.letters
    cases v <;> cases this
  have hne : Text.strip reply ≠ [] := by
    rw [h.split]
    simp [hkw]
  obtain ⟨m, hm⟩ := search_isSome h.of h.reaches
  obtain ⟨hstart, -, hreach⟩ := search_eq_some hm
  obtain ⟨v', kw', hocc, hbefore⟩ := occurs_of_reaches hstart hreach
  have hpos : m.start = ⟨pre.reverse, kw ++ post⟩ := by
    refine hstart.eq h.of (Nat.le_antisymm ?_ ?_)
    · exact search_leftmost hm h.of h.reaches
    · simpa using h.first _ _ _ _ hocc
  have hrest : kw ++ post = kw' ++ m.stop.after := by
    have hsplit := hocc.split
    rw [hpos, h.split, List.reverse_reverse, List.append_assoc, List.append_assoc] at hsplit
    exact List.append_cancel_left hsplit
  obtain ⟨rfl, rfl⟩ := token_unique h.letters hocc.letters hrest
  have hpost : m.stop.after = post := (List.append_cancel_left hrest).symm
  unfold parseVerdict
  dsimp only
  rw [if_neg hne, hm]
  dsimp only
  rw [Match.text, between_eq hbefore, lookup_upper h.letters, Match.rest, hpost]
  split <;> rfl

theorem parseVerdict_none (h : ∀ v pre kw post, ¬ Occurs isWord (Text.strip reply) v pre kw post) :
    parseVerdict isWord reply = some (.unclear, Text.strip reply) := by
  unfold parseVerdict
  dsimp only
  split
  · next hnil => rw [hnil]
  · cases hm : search (verdictKeywordRe isWord) (Text.strip reply) with
    | none => rfl
    | some m =>
      obtain ⟨hstart, -, hreach⟩ := search_eq_some hm
      obtain ⟨v, kw, hocc, -⟩ := occurs_of_reaches hstart hreach
      exact absurd hocc (h _ _ _ _)

theorem exists_firstKeyword (h : Occurs isWord s v pre kw post) :
    ∃ v pre kw post, FirstKeyword isWord s v pre kw post := by
  obtain ⟨m, hm⟩ := search_isSome h.of h.reaches
  obtain ⟨hstart, -, hreach⟩ := search_eq_some hm
  obtain ⟨v', kw', hocc, -⟩ := occurs_of_reaches hstart hreach
  refine ⟨v', _, kw', _, hocc, fun v'' pre' kw'' post' hocc' => ?_⟩
  simpa using search_leftmost hm hocc'.of hocc'.reaches

/-- The first keyword of a reply is written with a dotted `İ`. -/
def DottedKeyword (isWord : Char → Bool) (reply : Text) : Prop :=
  ∃ v pre kw post, FirstKeyword isWord (Text.strip reply) v pre kw post ∧ 'İ' ∈ kw

theorem parseVerdict_eq_none : parseVerdict isWord reply = none ↔ DottedKeyword isWord reply := by
  constructor
  · intro hnone
    by_cases hocc : ∃ v pre kw post, Occurs isWord (Text.strip reply) v pre kw post
    · obtain ⟨_, _, _, _, hocc⟩ := hocc
      obtain ⟨v, pre, kw, post, hfirst⟩ := exists_firstKeyword hocc
      refine ⟨v, pre, kw, post, hfirst, ?_⟩
      by_contra hdot
      rw [parseVerdict_keyword hfirst, if_neg hdot] at hnone
      cases hnone
    · push Not at hocc
      rw [parseVerdict_none hocc] at hnone
      cases hnone
  · rintro ⟨v, pre, kw, post, hfirst, hdot⟩
    rw [parseVerdict_keyword hfirst, if_pos hdot]

theorem mapM_eq_none {α β : Type} {f : α → Option β} {as : List α} :
    as.mapM f = none ↔ ∃ a ∈ as, f a = none := by
  induction as with
  | nil => simp
  | cons a as ih =>
    rw [List.mapM_cons]
    cases ha : f a with
    | none => simp [ha]
    | some b => cases hrest : as.mapM f <;> simp_all

end

section
variable {E : Type} (be : Backend E) (isWord : Char → Bool) (lower : Text → Text)
  (invoke : List Message → Option Text)
  (createOrIncrement : Tickets.Call → Tickets.TicketResult)

/-- The verdict of a reply is that of its first keyword, and the service raises exactly when a judge
answers with a keyword that has a dotted `İ`. -/
theorem verdict_of_first_keyword (claim conversationId : Text) (citations : List Citation)
    (userTier : String) (force : Bool) :
    (∀ reply,
      (∀ v pre kw post, FirstKeyword isWord (Text.strip reply) v pre kw post →
        parseVerdict isWord reply = if 'İ' ∈ kw then none else some (v, stripReason post)) ∧
      ((∀ v pre kw post, ¬ Occurs isWord (Text.strip reply) v pre kw post) →
        parseVerdict isWord reply = some (.unclear, Text.strip reply))) ∧
    (verifyContradiction be isWord lower invoke createOrIncrement claim conversationId citations
        userTier force = none ↔
      ∃ sources, resolveSources be citations userTier claim = some sources ∧ sources ≠ [] ∧
        ∃ lens ∈ judgeLenses, ∃ content,
          invoke (buildJudgeMessages claim sources lens) = some content ∧
            DottedKeyword isWord content) := by
  refine ⟨fun reply => ⟨fun _ _ _ _ => parseVerdict_keyword, parseVerdict_none⟩, ?_⟩
  have hjudge : ∀ sources lens, runJudge isWord invoke claim sources lens = none ↔
      ∃ content, invoke (buildJudgeMessages claim sources lens) = some content ∧
        DottedKeyword isWord content := by
    intro sources lens
    unfold runJudge
    cases invoke (buildJudgeMessages claim sources lens) with
    | none => simp
    | some content => simp [parseVerdict_eq_none]
  unfold verifyContradiction
  cases resolveSources be citations userTier claim with
  | none => simp
  | some sources =>
    by_cases hnil : sources = []
    · simp [hnil]
    · simp only [if_neg hnil, Option.map_eq_none_iff, mapM_eq_none, hjudge, Option.some.injEq,
        exists_eq_left']
      exact ⟨fun h => ⟨hnil, h⟩, fun h => h.2⟩

end

def isAsciiWord (c : Char) : Bool := c.isAlphanum || c = '_' || c = 'İ'

def citedBackend (text : Text) : Backend Unit where
  storedChunks := some [⟨"a.md".toList, 0, text, .zero, "public"⟩]
  encode _ := some ()
  search _ _ := some []

theorem dotted_keyword_raises :
    parseVerdict isAsciiWord "CONTRADİCTION : les dates".toList = none ∧
    verifyContradiction (citedBackend "corps".toList) isAsciiWord id
      (fun _ => some "CONTRADİCTION".toList) (fun _ => .skipped) "une date".toList []
      [⟨"a.md".toList, [0]⟩] "anonymous" false = none := by
  decide +kernel

/-! ## What the redaction lets through -/

section
variable (lower : Text → Text) (reason : Text) (sources : List Source)

/-- The reason and a source have 24 consecutive characters in common, in lower case. -/
def Quotes : Prop :=
  ∃ s ∈ sources, ∃ w : Text, minLeakSubstrChars ≤ w.length ∧ w <:+: lower s.text ∧
    w <:+: lower reason

/-- A quotation from offset `i` of a source that is not too short goes on for 24 characters after
the first multiple of 24 from `i` on. One of 47 characters always does. -/
def Noticed : Prop :=
  ∃ s ∈ sources, minLeakSubstrChars ≤ s.text.length ∧
    ∃ i w, w <+: (lower s.text).drop i ∧ w <:+: lower reason ∧
      minLeakSubstrChars + (minLeakSubstrChars - i % minLeakSubstrChars) % minLeakSubstrChars ≤
        w.length

variable {lower reason sources}

theorem mem_windows {t v : Text} : v ∈ windows minLeakSubstrChars t ↔
    ∃ k, 24 * k + 24 ≤ t.length ∧ v = (t.drop (24 * k)).take 24 := by
  simp only [windows, minLeakSubstrChars, List.mem_map, List.mem_range, Nat.lt_iff_add_one_le,
    Nat.le_div_iff_mul_le (show 0 < 24 by decide)]
  refine exists_congr fun k => and_congr (by omega) eq_comm

theorem exists_window_iff {t r : Text} :
    (∃ v ∈ windows minLeakSubstrChars t, v <:+: r) ↔
      ∃ i w, w <+: t.drop i ∧ w <:+: r ∧ 24 + (24 - i % 24) % 24 ≤ w.length := by
  constructor
  · rintro ⟨v, hv, hr⟩
    obtain ⟨k, hk, rfl⟩ := mem_windows.1 hv
    refine ⟨24 * k, _, List.take_prefix _ _, hr, ?_⟩
    rw [List.length_take, List.length_drop]
    omega
  · rintro ⟨i, w, ⟨rest, hw⟩, hr, hlong⟩
    have hlength := congrArg List.length hw
    rw [List.length_append, List.length_drop] at hlength
    -- the first multiple of 24 from the start of `w` on
    let k := (i + 23) / 24
    have hwindow : (t.drop (24 * k)).take 24 = (w.drop (24 * k - i)).take 24 := by
      have hk : 24 * k = i + (24 * k - i) := by omega
      rw [hk, ← List.drop_drop, ← hw, Nat.add_sub_cancel_left,
        List.drop_append_of_le_length (by omega), List.take_append_of_le_length]
      rw [List.length_drop]
      omega
    refine ⟨_, mem_windows.2 ⟨k, by omega, rfl⟩, ?_⟩
    rw [hwindow]
    exact ((List.take_prefix _ _).isInfix.trans (List.drop_suffix _ _).isInfix).trans hr

theorem any_windows_iff :
    (sources.any fun s => minLeakSubstrChars ≤ s.text.length &&
      (windows minLeakSubstrChars (lower s.text)).any (· <:+: lower reason)) ↔
      Noticed lower reason sources := by
  simp only [List.any_eq_true, Bool.and_eq_true, decide_eq_true_eq]
  exact exists_congr fun s => and_congr_right' (and_congr_right' exists_window_iff)

theorem Noticed.quotes (h : Noticed lower reason sources) : Quotes lower reason sources := by
  obtain ⟨s, hs, -, i, w, hw, hr, hlong⟩ := h
  exact ⟨s, hs, w, by omega, hw.isInfix.trans (List.drop_suffix _ _).isInfix, hr⟩

theorem redactReason_noticed (verdict : Verdict) (h : Noticed lower reason sources) :
    redactReason lower reason verdict sources = safeReason verdict :=
  if_pos (any_windows_iff.2 h)

theorem redactReason_unnoticed (verdict : Verdict) (h : ¬ Noticed lower reason sources) :
    redactReason lower reason verdict sources = reason :=
  if_neg fun hany => h (any_windows_iff.1 hany)

/-- What is emitted quotes no source exactly when the reason does not, or when it is noticed and
the sentence it is replaced with does not. -/
theorem not_quotes_redactReason (verdict : Verdict) :
    ¬ Quotes lower (redactReason lower reason verdict sources) sources ↔
      ¬ Quotes lower reason sources ∨
        Noticed lower reason sources ∧ ¬ Quotes lower (safeReason verdict) sources := by
  by_cases h : Noticed lower reason sources
  · simp [redactReason_noticed verdict h, h, h.quotes]
  · simp [redactReason_unnoticed verdict h, h]

end

theorem concludePanel_reason (lower : Text → Text)
    (createOrIncrement : Tickets.Call → Tickets.TicketResult) (claim conversationId : Text)
    (force : Bool) (sources : List Source) (outcomes : List (Verdict × Text)) :
    (concludePanel lower createOrIncrement claim conversationId force sources outcomes).reason =
      redactReason lower (aggregateVerdicts outcomes).2.1 (aggregateVerdicts outcomes).1
        sources := by
  unfold concludePanel
  dsimp only
  split
  · rfl
  · split <;> rfl

end Archiviste.Contradiction
