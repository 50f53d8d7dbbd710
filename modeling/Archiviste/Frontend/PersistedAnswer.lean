import Archiviste.Base.Js
import Archiviste.Generate.Parser

/-!
# Archiviste.Frontend.PersistedAnswer

An assistant turn as the frontend shows it: `stripFollowupBlock` at the end of a live stream, and
`parsePersistedAnswer` after a reload, which parses the stored text as the worker's
`extract_followups` did when it was written.

The patterns are written as in the two source files and matched with the rules of JavaScript.

* `live_eq_reloaded_iff` — when the two views of a turn show the same text.
-/

namespace Archiviste.Frontend

open Regex
open Generate (isBlank isRuleChar)

/-! ## Patterns -/

/-- `/^[ \t]*[-*_]*[ \t]*SUIVI[ \t]*[-*_]*[ \t]*$/im`, in both source files. -/
def followupMarkerLine : Re :=
  .seqs [.check Js.atLineStart, .star isBlank, .star isRuleChar, .star isBlank, Js.wordCi "SUIVI",
    .star isBlank, .star isRuleChar, .star isBlank, .check Js.atLineEnd]

/-- `/\n[ \t]*[-*_]{3,}[ \t]*$/`, in both source files. -/
def trailingRule : Re :=
  .seqs [.char '\n', .star isBlank, .atLeast 3 isRuleChar, .star isBlank, .check Pos.atEnd]

/-- `/^[-*•]+[ \t]*/`. -/
def followupBullet : Re :=
  .seqs [.check Pos.atStart, .atLeast 1 fun c => c == '-' || c == '*' || c == '•', .star isBlank]

/-- `/\[([^\]\s][^\]]*)\]/g`. -/
def citationMarker : Re :=
  .seqs [.char '[',
    .group (.seq (.cls fun c => c != ']' && !Js.isSpace c) (.star fun c => c != ']')),
    .char ']']

def isAlphanumeric (c : Char) : Bool :=
  ('A' ≤ c && c ≤ 'Z') || ('a' ≤ c && c ≤ 'z') || ('0' ≤ c && c ≤ '9')

/-- `/^[A-Za-z0-9._-]+\.[A-Za-z0-9]+$/`, with the slash in the first class too. -/
def documentPathShape : Re :=
  .seqs [.check Pos.atStart,
    .atLeast 1 fun c => isAlphanumeric c || c == '.' || c == '_' || c == '/' || c == '-',
    .char '.', .atLeast 1 isAlphanumeric, .check Pos.atEnd]

/-- `/\n[ \t]*[-*_]*[ \t]*(?:S(?:U(?:I(?:V(?:I)?)?)?)?)?[ \t]*[-*_]*[ \t]*$/i`. -/
def partialMarkerTail : Re :=
  let letter (c : Char) (rest : Re) : Re := .opt (.seq (.cls (Js.ciEq c)) rest)
  .seqs [.char '\n', .star isBlank, .star isRuleChar, .star isBlank,
    letter 'S' (letter 'U' (letter 'I' (letter 'V' (letter 'I' .eps)))),
    .star isBlank, .star isRuleChar, .star isBlank, .check Pos.atEnd]

/-! ## The reload -/

def followupLines (block : Text) : List Text :=
  ((Js.splitLines block).map fun rawLine =>
    Js.trim (replaceFirst followupBullet (Js.trim rawLine))).filter fun line => line ≠ []

def splitFollowupBlock (content : Text) : Text × List Text :=
  match search followupMarkerLine content with
  | none => (Js.trimEnd content, [])
  | some m =>
    (Js.trimEnd (replaceFirst trailingRule (Js.trimEnd m.prior)), followupLines m.rest)

/-- The distinct pieces of the brackets of a body that look like a document path. -/
def extractCitations (body : Text) : List Text :=
  ((finditer citationMarker body).flatMap fun m =>
    (Text.splitOn ',' (m.groups.headD [])).map Js.trim).foldl
      (fun citations sourcePath =>
        if (search documentPathShape sourcePath).isSome ∧ sourcePath ∉ citations
        then citations ++ [sourcePath] else citations) []

structure PersistedAnswer where
  text : Text
  followups : List Text
  citations : List Text
  deriving DecidableEq

def parsePersistedAnswer (content : Text) : PersistedAnswer :=
  let split := splitFollowupBlock content
  ⟨split.1, split.2, extractCitations split.1⟩

example : parsePersistedAnswer
    "Oui [a.md, [b/c.md] et [note].\n***\nSuivi\n- Quand ?\r\n\n• Où ?".toList =
    ⟨"Oui [a.md, [b/c.md] et [note].".toList, ["Quand ?".toList, "Où ?".toList],
      ["a.md".toList]⟩ := by decide +kernel

/-! ## The live view -/

/-- The text shown for an answer: without its follow-up block or, when there is no marker line,
without a last line that could be the beginning of one. -/
def stripFollowupBlock (text : Text) : Text :=
  match search followupMarkerLine text with
  | some m => Js.trimEnd (replaceFirst trailingRule (Js.trimEnd m.prior))
  | none => Js.trimEnd (replaceFirst partialMarkerTail text)

theorem partialMarkerTail_end {s : Text} {m : Match} (h : search partialMarkerTail s = some m) :
    m.prior ++ m.text = s ∧ m.rest = [] := by
  obtain ⟨hstart, hstop, hreach⟩ := search_eq_some h
  simp only [partialMarkerTail, Re.seqs, List.foldr_cons, List.foldr_nil, reaches_seq,
    reaches_check, reaches_eps] at hreach
  obtain ⟨_, -, _, -, _, -, _, -, _, -, _, -, _, -, _, -, _, ⟨hend, rfl⟩, hstop'⟩ := hreach
  have hend : m.stop.after = [] := by simpa [Pos.atEnd, hstop'] using hend
  exact ⟨prior_append_text hstart hstop hend, hend⟩

/-- A turn is shown alike live and after a reload exactly when its answer has a marker line, or
no last line that could begin one, or a blank such line. -/
theorem live_eq_reloaded_iff (answer : Text) :
    stripFollowupBlock answer = (parsePersistedAnswer answer).text ↔
      (search followupMarkerLine answer).isSome ∨
      ∀ m, search partialMarkerTail answer = some m → ∀ c ∈ m.text, Js.isSpace c = true := by
  unfold stripFollowupBlock parsePersistedAnswer splitFollowupBlock
  cases hmarker : search followupMarkerLine answer with
  | some m => simp
  | none =>
    simp only [Option.isSome_none, Bool.false_eq_true, false_or]
    cases htail : search partialMarkerTail answer with
    | none => simp [replaceFirst, htail]
    | some m =>
      obtain ⟨hanswer, hrest⟩ := partialMarkerTail_end htail
      have hcut : replaceFirst partialMarkerTail answer = m.prior := by
        simp [replaceFirst, htail, hrest]
      rw [hcut, ← hanswer]
      refine ⟨fun heq m' hm' => ?_, fun hspace => (Js.trimEnd_append_space (hspace m rfl)).symm⟩
      cases hm'
      by_contra hspace
      -- what is cut contains a visible character, and the reload keeps it
      have hshorter := Js.length_trimEnd_le m.prior
      rw [heq, Js.trimEnd_append hspace, List.length_append] at hshorter
      have hnil : Js.trimEnd m.text = [] := List.length_eq_zero_iff.1 (by omega)
      exact hspace (List.rdropWhile_eq_nil_iff.1 hnil)

/-- An answer that ends with a horizontal rule loses it in the live view only. -/
theorem trailing_rule_lost_live :
    stripFollowupBlock "Voici.\n---".toList = "Voici.".toList ∧
      (parsePersistedAnswer "Voici.\n---".toList).text = "Voici.\n---".toList := by
  decide +kernel

end Archiviste.Frontend
