import Archiviste.Base.FirstSeen
import Archiviste.Generate.Models

/-!
# Archiviste.Generate.Parser

What the service reads out of texts: the injection patterns of a query, the citations of an
answer, and the follow-up block at its end.

The patterns are written as in the source. `citedPieces` names the intermediate result of
`extract_citations` (the stripped comma-separated pieces of all bracket groups), so that what an
answer cites can be stated without the chunks it is matched against.

* `extractCitations_eq_nil` — nothing is cited exactly when no piece is the path of a chunk.
* `extractCitations_eq`    — the citations are the distinct occurrences, in the order of their first
  appearance, with the ords of their chunks.
-/

namespace Archiviste.Generate

open Regex

/-! ## Injection filter -/

/-- `(ignore (all )?(prior|previous) instructions|new instructions|system\s*:|disregard (the
)?above)`, ignoring case. -/
def injectionRe : Re :=
  .alt (.seqs [.wordCi "ignore ", .opt (.wordCi "all "), .alt (.wordCi "prior") (.wordCi "previous"),
      .wordCi " instructions"])
    (.alt (.wordCi "new instructions")
      (.alt (.seqs [.wordCi "system", .star Text.isSpace, .char ':'])
        (.seqs [.wordCi "disregard ", .opt (.wordCi "the "), .wordCi "above"])))

def detectInjection (query : Text) : Option Text := (search injectionRe query).map Match.text

/-! ## Citations -/

/-- `\[([^\]\s][^\]]*)\]`. -/
def citationRe : Re :=
  .seqs [.char '[',
    .group (.seq (.cls fun c => c != ']' && !Text.isSpace c) (.star fun c => c != ']')),
    .char ']']

/-- The candidates `extract_citations` looks up, in order of appearance. -/
def citedPieces (answer : Text) : List Text :=
  ((finditer citationRe answer).flatMap fun m =>
    (Text.splitOn ',' (m.groups.headD [])).map Text.strip).filter fun piece => piece ≠ []

/-- `known.setdefault(path, []).append(ord)` over the chunks. -/
def knownPaths (chunks : List Chunk) : Dict Text (List Int) :=
  chunks.foldl (fun known c => known.set c.sourcePath ((known.get? c.sourcePath).getD [] ++ [c.ord]))
    []

/-- One candidate: kept once, the first time it is seen, when a chunk has that path. -/
def citeStep (known : Dict Text (List Int)) (seen : Dict Text (List Int)) (candidate : Text) :
    Dict Text (List Int) :=
  match known.get? candidate with
  | none => seen
  | some ords => if (seen.get? candidate).isSome then seen else seen.set candidate ords

def extractCitations (answer : Text) (chunks : List Chunk) : List Citation :=
  ((citedPieces answer).foldl (citeStep (knownPaths chunks)) []).map fun p => ⟨p.1, p.2⟩

/-! ## Follow-ups -/

def isBlank (c : Char) : Bool := c == ' ' || c == '\t'

def isRuleChar (c : Char) : Bool := c == '-' || c == '*' || c == '_'

/-- `^[ \t]*[-*_]*[ \t]*SUIVI[ \t]*[-*_]*[ \t]*$`, multiline, ignoring case. -/
def followupMarkerRe : Re :=
  .seqs [.check Pos.atLineStart, .star isBlank, .star isRuleChar, .star isBlank, .wordCi "SUIVI",
    .star isBlank, .star isRuleChar, .star isBlank, .check Pos.atLineEnd]

/-- `\n[ \t]*[-*_]{3,}[ \t]*$`. -/
def trailingRuleRe : Re :=
  .seqs [.char '\n', .star isBlank, .atLeast 3 isRuleChar, .star isBlank, .check Pos.atDollar]

/-- `^[-*•]+[ \t]*`. -/
def followupBulletRe : Re :=
  .seqs [.check Pos.atStart, .atLeast 1 fun c => c == '-' || c == '*' || c == '•', .star isBlank]

def followupLines (block : Text) : List Text :=
  ((Text.splitlines block).map fun raw =>
    Text.strip (remove followupBulletRe (Text.strip raw))).filter fun line => line ≠ []

def extractFollowups (answer : Text) : Text × List Text :=
  match search followupMarkerRe answer with
  | none => (answer, [])
  | some m =>
    (Text.rstrip (remove trailingRuleRe (Text.rstrip m.prior)), followupLines m.rest)

example : extractFollowups "Oui [a.md].\n---\n--- suivi ---\n- Quand ?\n\n* Où ?".toList =
    ("Oui [a.md].".toList, ["Quand ?".toList, "Où ?".toList]) := by decide +kernel

/-! ## What is cited -/

def HasPath (chunks : List Chunk) (p : Text) : Prop := ∃ c ∈ chunks, c.sourcePath = p

instance (chunks : List Chunk) (p : Text) : Decidable (HasPath chunks p) :=
  inferInstanceAs (Decidable (∃ c ∈ chunks, c.sourcePath = p))

def ordsOf (chunks : List Chunk) (p : Text) : List Int :=
  (chunks.filter (·.sourcePath = p)).map (·.ord)

theorem ordsOf_eq_nil {chunks : List Chunk} {p : Text} (h : ¬ HasPath chunks p) :
    ordsOf chunks p = [] := by
  rw [ordsOf, List.map_eq_nil_iff, List.filter_eq_nil_iff]
  exact fun c hc hpath => h ⟨c, hc, of_decide_eq_true hpath⟩

theorem get?_foldl_known (chunks : List Chunk) (p : Text) : ∀ known : Dict Text (List Int),
    (chunks.foldl (fun known c =>
        known.set c.sourcePath ((known.get? c.sourcePath).getD [] ++ [c.ord])) known).get? p =
      if HasPath chunks p then some ((known.get? p).getD [] ++ ordsOf chunks p)
      else known.get? p := by
  induction chunks with
  | nil => intro known; simp [HasPath]
  | cons c cs ih =>
    intro known
    rw [List.foldl_cons, ih]
    by_cases h : c.sourcePath = p
    · subst h
      have hhas : HasPath (c :: cs) c.sourcePath := ⟨c, List.mem_cons_self, rfl⟩
      have hords : ordsOf (c :: cs) c.sourcePath = c.ord :: ordsOf cs c.sourcePath := by
        simp [ordsOf]
      rw [if_pos hhas, hords, Dict.get?_set_self]
      split
      · simp
      · next hcs => rw [ordsOf_eq_nil hcs]
    · have hhas : HasPath (c :: cs) p ↔ HasPath cs p := by simp [HasPath, h]
      have hords : ordsOf (c :: cs) p = ordsOf cs p := by simp [ordsOf, h]
      rw [Dict.get?_set_ne _ _ (Ne.symm h), hords]
      simp only [hhas]

theorem get?_knownPaths (chunks : List Chunk) (p : Text) :
    (knownPaths chunks).get? p = if HasPath chunks p then some (ordsOf chunks p) else none := by
  rw [knownPaths, get?_foldl_known]
  rfl

theorem knownPaths_isSome (chunks : List Chunk) (p : Text) :
    ((knownPaths chunks).get? p).isSome ↔ HasPath chunks p := by
  rw [get?_knownPaths]
  split <;> simp_all

theorem citeStep_eq_nil (known seen : Dict Text (List Int)) (candidate : Text) :
    citeStep known seen candidate = [] ↔ seen = [] ∧ known.get? candidate = none := by
  unfold citeStep
  cases hk : known.get? candidate with
  | none => simp
  | some ords =>
    cases seen with
    | nil => simp [Dict.set]
    | cons q rest =>
      simp only [reduceCtorEq, and_false, iff_false]
      split
      · simp
      · obtain ⟨k, v⟩ := q
        by_cases h : k = candidate <;> simp [Dict.set, h]

theorem citeStep_foldl_eq_nil (known : Dict Text (List Int)) (pieces : List Text) :
    ∀ seen, pieces.foldl (citeStep known) seen = [] ↔
      seen = [] ∧ ∀ p ∈ pieces, known.get? p = none := by
  induction pieces with
  | nil => intro seen; simp
  | cons p ps ih =>
    intro seen
    rw [List.foldl_cons, ih, citeStep_eq_nil]
    simp [and_assoc]

theorem extractCitations_eq_nil (answer : Text) (chunks : List Chunk) :
    extractCitations answer chunks = [] ↔ ∀ p ∈ citedPieces answer, ¬ HasPath chunks p := by
  rw [extractCitations, List.map_eq_nil_iff, citeStep_foldl_eq_nil]
  simp only [true_and, ← knownPaths_isSome, Option.not_isSome_iff_eq_none]

theorem extractCitations_nil (answer : Text) : extractCitations answer [] = [] :=
  (extractCitations_eq_nil answer []).mpr (by simp [HasPath])

/-- The pieces of the answer that are paths of chunks, in order of appearance. -/
def occurrences (answer : Text) (chunks : List Chunk) : List Text :=
  (citedPieces answer).filter (HasPath chunks ·)

theorem citeStep_map (chunks : List Chunk) (l : List Text) (p : Text) :
    citeStep (knownPaths chunks) (l.map fun q => (q, ordsOf chunks q)) p =
      (if HasPath chunks p then FirstSeen.keep l p else l).map fun q => (q, ordsOf chunks q) := by
  have hkeys : Dict.keys (l.map fun q => (q, ordsOf chunks q)) = l := by
    simp [Dict.keys, Function.comp_def]
  rw [citeStep, get?_knownPaths]
  by_cases hpath : HasPath chunks p
  · simp only [if_pos hpath]
    rw [FirstSeen.keep]
    by_cases hseen : p ∈ l
    · obtain ⟨v, hv⟩ := Dict.get?_of_mem_keys (hkeys.symm ▸ hseen)
      rw [if_pos hseen, hv]
      rfl
    · have hnew : p ∉ Dict.keys (l.map fun q => (q, ordsOf chunks q)) := by rwa [hkeys]
      rw [if_neg hseen, Dict.get?_eq_none hnew, Dict.set_of_not_mem _ hnew, List.map_append]
      rfl
  · simp only [if_neg hpath]

/-- The citations are the distinct occurrences in the order of their first appearance, each with the
ords of all chunks with its path. -/
theorem extractCitations_eq (answer : Text) (chunks : List Chunk) :
    extractCitations answer chunks =
      (occurrences answer chunks).eraseDups.map fun p => ⟨p, ordsOf chunks p⟩ := by
  have hloop : ∀ pieces l : List Text,
      pieces.foldl (citeStep (knownPaths chunks)) (l.map fun q => (q, ordsOf chunks q)) =
        ((pieces.filter (HasPath chunks ·)).foldl FirstSeen.keep l).map
          fun q => (q, ordsOf chunks q) := by
    intro pieces
    induction pieces with
    | nil => intro l; rfl
    | cons p pieces ih =>
      intro l
      rw [List.foldl_cons, citeStep_map, ih]
      by_cases hpath : HasPath chunks p
      · rw [if_pos hpath, List.filter_cons_of_pos (by simpa using hpath), List.foldl_cons]
      · rw [if_neg hpath, List.filter_cons_of_neg (by simpa using hpath)]
  have hcited := hloop (citedPieces answer) []
  rw [FirstSeen.foldl_firstSeen, List.map_nil] at hcited
  rw [extractCitations, hcited, List.map_map]
  rfl

end Archiviste.Generate
