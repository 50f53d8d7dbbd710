import Archiviste.Base.Spells
import Archiviste.Frontend.ChatForm

/-!
# Archiviste.Frontend.StreamingAnswer

The answer as it is shown while it streams. `stripFollowupBlock` cuts it at a marker line and, until
the marker is complete, at a last line that could become one (`partialMarkerTail`). That line has to
follow a `\n`: a marker on the first line, or after one of the other line ends that `^` accepts
(`\r`, U+2028, U+2029), is shown until it is complete.

* `tail_covers_marker` — every beginning of a marker line is a tail that is cut.
* `never_flashes_iff`  — the block is never shown exactly when a `\n` precedes the marker line.
-/

namespace Archiviste.Frontend

open Regex
open Generate (isBlank isRuleChar)

/-! ## The two patterns -/

def markerBody : List Re :=
  [.star isBlank, .star isRuleChar, .star isBlank, Js.wordCi "SUIVI", .star isBlank,
    .star isRuleChar, .star isBlank]

def tailBody : List Re :=
  let letter (c : Char) (rest : Re) : Re := .opt (.seq (.cls (Js.ciEq c)) rest)
  [.star isBlank, .star isRuleChar, .star isBlank,
    letter 'S' (letter 'U' (letter 'I' (letter 'V' (letter 'I' .eps)))),
    .star isBlank, .star isRuleChar, .star isBlank]

def IsMarker (t : Text) : Prop := (Re.seqs markerBody).Spells t

def IsTail (t : Text) : Prop := (Re.seqs tailBody).Spells t

variable {q : Pos} {c : Char} {t p rawQuery : Text} {f : ChatForm} {request : ChatRequest}

theorem reaches_marker {q' : Pos} :
    Reaches followupMarkerLine q q' ↔
      Js.atLineStart q = true ∧ ∃ t, IsMarker t ∧ q.Passes t q' ∧ Js.atLineEnd q' = true := by
  have hsplit : followupMarkerLine =
      .seq (.check Js.atLineStart) (.seqs (markerBody ++ [.check Js.atLineEnd])) := rfl
  have hfree : (Re.seqs markerBody).Free := by simp [Re.seqs, markerBody, Js.wordCi]
  rw [hsplit, reaches_seq]
  simp only [reaches_check, reaches_then_check hfree]
  constructor
  · rintro ⟨_, ⟨hstart, rfl⟩, hrest⟩
    exact ⟨hstart, hrest⟩
  · rintro ⟨hstart, hrest⟩
    exact ⟨q, ⟨hstart, rfl⟩, hrest⟩

theorem reaches_tail {q' : Pos} :
    Reaches partialMarkerTail q q' ↔
      ∃ t, IsTail t ∧ q.Passes ('\n' :: t) q' ∧ q'.after = [] := by
  have hsplit : partialMarkerTail =
      .seqs ((.char '\n' :: tailBody) ++ [.check Pos.atEnd]) := rfl
  have hfree : (Re.seqs (.char '\n' :: tailBody)).Free := by
    simp [Re.seqs, Re.char, Re.opt, tailBody]
  have hspells : ∀ t, (Re.seqs (.char '\n' :: tailBody)).Spells t ↔
      ∃ u, IsTail u ∧ t = '\n' :: u := by
    intro t
    constructor
    · rintro ⟨_, u, ⟨c, hc, rfl⟩, hu, rfl⟩
      obtain rfl : c = '\n' := by simpa using hc
      exact ⟨u, hu, rfl⟩
    · rintro ⟨u, hu, rfl⟩
      exact ⟨['\n'], u, ⟨'\n', by simp, rfl⟩, hu, rfl⟩
  rw [hsplit, reaches_then_check hfree]
  simp only [hspells, Pos.atEnd, List.isEmpty_iff]
  constructor
  · rintro ⟨_, ⟨u, hu, rfl⟩, hrest⟩
    exact ⟨u, hu, hrest⟩
  · rintro ⟨u, hu, hrest⟩
    exact ⟨_, ⟨u, hu, rfl⟩, hrest⟩

/-- Every beginning of a marker line is a tail that is cut. -/
theorem tail_covers_marker : Covers (.seqs tailBody) (.seqs markerBody) := by
  have hletters : Covers (tailBody.getD 3 .eps) (Js.wordCi "SUIVI") :=
    .letter _ (.letter _ (.letter _ (.letter _ (.letter _ .eps))))
  have hend : Covers (.seqs [.star isBlank, .star isRuleChar, .star isBlank])
      (.seqs [.star isBlank, .star isRuleChar, .star isBlank]) :=
    (Covers.star _).seq ((Covers.star _).seq ((Covers.star _).seq .eps))
  exact (Covers.star _).seq ((Covers.star _).seq ((Covers.star _).seq (hletters.seq hend)))

/-! ## Their characters -/

theorem toLower_of_isSpace (h : Js.isSpace c = true) : c.toLower = c := by
  simp only [Js.isSpace, Bool.or_eq_true, Bool.and_eq_true, decide_eq_true_eq, beq_iff_eq] at h
  unfold Char.toLower
  split
  · next hupper =>
    have hlow : 'A'.toNat ≤ c.toNat := UInt32.le_iff_toNat_le.mp hupper.1
    have hhigh : c.toNat ≤ 'Z'.toNat := UInt32.le_iff_toNat_le.mp hupper.2
    rw [show 'A'.toNat = 65 from rfl] at hlow
    rw [show 'Z'.toNat = 90 from rfl] at hhigh
    omega
  · rfl

theorem not_isSpace_of_ciEq {pat : Char} (hpat : pat ∈ "SUIVI".toList) (h : Js.ciEq pat c = true) :
    Js.isSpace c = false := by
  by_contra hspace
  rw [Bool.not_eq_false] at hspace
  rw [Js.ciEq, toLower_of_isSpace hspace, beq_iff_eq] at h
  have hletters : ∀ p ∈ "SUIVI".toList, Js.isSpace p.toLower = false := by decide
  rw [h, hletters pat hpat] at hspace
  cases hspace

def InLine (c : Char) : Prop := isBlank c = true ∨ Js.isSpace c = false

theorem InLine.not_terminator (h : InLine c) : Js.isLineTerminator c = false := by
  rcases h with h | h
  · simp only [isBlank, Bool.or_eq_true, beq_iff_eq] at h
    rcases h with rfl | rfl <;> decide
  · by_contra hend
    simp only [Js.isLineTerminator, Bool.not_eq_false, Bool.or_eq_true, beq_iff_eq] at hend
    simp only [Js.isSpace, Bool.or_eq_false_iff, Bool.and_eq_false_iff, decide_eq_false_iff_not,
      beq_eq_false_iff_ne] at h
    omega

theorem inLine_of_ruleChar (h : isRuleChar c = true) : InLine c := by
  simp only [isRuleChar, Bool.or_eq_true, beq_iff_eq] at h
  rcases h with (rfl | rfl) | rfl <;> exact .inr (by decide)

theorem IsTail.inLine (h : IsTail t) : ∀ c ∈ t, InLine c := by
  have hover : (Re.seqs tailBody).Over InLine := by
    simp only [Re.Over, Re.seqs, Re.opt, tailBody, List.foldr_cons, List.foldr_nil, and_true]
    have hletter : ∀ pat ∈ "SUIVI".toList, ∀ c, Js.ciEq pat c = true → InLine c :=
      fun pat hpat c hc => .inr (not_isSpace_of_ciEq hpat hc)
    have hblank : ∀ c, isBlank c = true → InLine c := fun c hc => .inl hc
    have hrule : ∀ c, isRuleChar c = true → InLine c := fun c hc => inLine_of_ruleChar hc
    exact ⟨hblank, hrule, hblank, ⟨hletter _ (by decide), hletter _ (by decide),
      hletter _ (by decide), hletter _ (by decide), hletter _ (by decide)⟩, hblank, hrule, hblank⟩
  exact hover.mem h

theorem IsMarker.isTail {u : Text} (h : IsMarker t) (hu : u <+: t) : IsTail u :=
  tail_covers_marker t h u hu

theorem IsMarker.inLine (h : IsMarker t) : ∀ c ∈ t, InLine c :=
  (h.isTail (List.prefix_refl t)).inLine

theorem IsMarker.two_visible (h : IsMarker t) : 2 ≤ t.countP fun c => !isBlank c := by
  have hvisible : ∀ pat ∈ "SUIVI".toList, ∀ c, Js.ciEq pat c = true → isBlank c = false := by
    intro pat hpat c hc
    have hspace := not_isSpace_of_ciEq hpat hc
    by_contra hblank
    simp only [isBlank, Bool.not_eq_false, Bool.or_eq_true, beq_iff_eq] at hblank
    rcases hblank with rfl | rfl <;> exact absurd hspace (by decide)
  obtain ⟨b₁, _, -, ⟨r₁, _, -, ⟨b₂, _, -, ⟨w, v, hw, -, rfl⟩, rfl⟩, rfl⟩, rfl⟩ := h
  obtain ⟨_, _, ⟨c, hc, rfl⟩, ⟨_, w', ⟨d, hd, rfl⟩, -, rfl⟩, rfl⟩ := hw
  have hc := hvisible 'S' (by decide) c hc
  have hd := hvisible 'U' (by decide) d hd
  simp only [List.countP_append, List.countP_cons, List.countP_nil, hc, hd, Bool.not_false, if_true]
  omega

theorem not_atLineStart {a u : Text} (hbefore : q.before.reverse = a ++ u) (hne : u ≠ [])
    (hin : ∀ c ∈ u, InLine c) : Js.atLineStart q = false := by
  obtain ⟨u', c, rfl⟩ := List.eq_nil_or_concat u |>.resolve_left hne
  have hq : q.before = c :: (a ++ u').reverse := by
    rw [← List.reverse_reverse q.before, hbefore]
    simp
  rw [Js.atLineStart, hq]
  exact (hin c (by simp)).not_terminator

/-! ## What is shown -/

theorem trimEnd_begins (s : Text) : Js.trimEnd s <+: s := List.rdropWhile_prefix _ _

theorem strip_of_marker {m : Match} (h : search followupMarkerLine p = some m) :
    stripFollowupBlock p <+: m.prior := by
  simp only [stripFollowupBlock, h]
  have hrule : replaceFirst trailingRule (Js.trimEnd m.prior) <+: Js.trimEnd m.prior :=
    replaceFirst_begins [.char '\n', .star isBlank, .atLeast 3 isRuleChar, .star isBlank] _
  exact ((trimEnd_begins _).trans hrule).trans (trimEnd_begins _)

theorem strip_of_no_marker (h : search followupMarkerLine p = none) :
    stripFollowupBlock p = Js.trimEnd (replaceFirst partialMarkerTail p) := by
  simp only [stripFollowupBlock, h]

theorem strip_begins (p : Text) : stripFollowupBlock p <+: p := by
  cases h : search followupMarkerLine p with
  | some m => exact (strip_of_marker h).trans (Match.prior_begins h)
  | none =>
    rw [strip_of_no_marker h]
    exact (trimEnd_begins _).trans (replaceFirst_begins (.char '\n' :: tailBody) p)

section Answer

variable {answer : Text} {m : Match} (h : search followupMarkerLine answer = some m)
include h

theorem marker_split : ∃ t rest, IsMarker t ∧ answer = m.prior ++ (t ++ rest) ∧
    Js.atLineStart ⟨m.prior.reverse, t ++ rest⟩ = true ∧
    Js.atLineEnd ⟨t.reverse ++ m.prior.reverse, rest⟩ = true := by
  obtain ⟨hstart, -, hreach⟩ := search_eq_some h
  obtain ⟨hline, t, ht, ⟨hafter, hbefore⟩, hend⟩ := reaches_marker.1 hreach
  refine ⟨t, m.stop.after, ht, ?_, ?_, ?_⟩
  · rw [← hafter]
    exact hstart.symm
  · rw [Match.prior, List.reverse_reverse, ← hafter]
    exact hline
  · rw [Match.prior, List.reverse_reverse, ← hbefore]
    exact hend

/-- After a `\n`, no beginning of the answer shows anything of the marker line or of what follows. -/
theorem hidden_of_newline (hnewline : m.prior.getLast? = some '\n') {p : Text}
    (hp : p <+: answer) : stripFollowupBlock p <+: m.prior := by
  obtain ⟨t, rest, ht, rfl, hline, hend⟩ := marker_split h
  rcases begins_append hp with hp | ⟨u, hu, rfl⟩
  · exact (strip_begins p).trans hp
  rcases begins_append hu with hu | ⟨v, ⟨v', rfl⟩, rfl⟩
  · -- the text ends inside the marker line
    cases hm : search followupMarkerLine (m.prior ++ u) with
    | some m' =>
      refine (strip_of_marker hm).trans ?_
      rcases begins_append (Match.prior_begins hm) with hprior | ⟨u', hu', hprior⟩
      · exact hprior
      · obtain ⟨-, -, hreach⟩ := search_eq_some hm
        have hstart := (reaches_marker.1 hreach).1
        by_cases hne : u' = []
        · rw [hprior, hne, List.append_nil]
        · have hinside := not_atLineStart hprior hne fun c hc =>
            ht.inLine c (hu.subset (hu'.subset hc))
          rw [hinside] at hstart
          cases hstart
    | none =>
      obtain ⟨a, hprior⟩ := List.getLast?_eq_some_iff.mp hnewline
      have hreach : Reaches partialMarkerTail ⟨a.reverse, '\n' :: u⟩
          ⟨('\n' :: u).reverse ++ a.reverse, []⟩ :=
        reaches_tail.2 ⟨u, ht.isTail hu, ⟨by simp, rfl⟩, rfl⟩
      obtain ⟨m', hm', hcut⟩ := prior_begins_of_reaches hreach
      have htext : m.prior ++ u = a ++ '\n' :: u := by
        rw [hprior, List.append_assoc, List.singleton_append]
      rw [strip_of_no_marker hm, htext, replaceFirst, hm']
      dsimp only
      rw [(partialMarkerTail_end hm').2, List.append_nil, hprior]
      exact ((trimEnd_begins _).trans hcut).trans (List.prefix_append a _)
  · -- the marker line is complete
    have hreach : Reaches followupMarkerLine ⟨m.prior.reverse, t ++ v⟩
        ⟨t.reverse ++ m.prior.reverse, v⟩ := by
      refine reaches_marker.2 ⟨hline, t, ht, ⟨rfl, rfl⟩, ?_⟩
      cases v with
      | nil => rfl
      | cons c v => exact hend
    obtain ⟨m', hm', hprior⟩ := prior_begins_of_reaches hreach
    exact (strip_of_marker hm').trans hprior

theorem visible_start : ∃ u x, (∀ c ∈ u, isBlank c = true) ∧ Js.isSpace x = false ∧
    m.prior ++ (u ++ [x]) <+: answer ∧ ∀ c ∈ u ++ [x], InLine c := by
  obtain ⟨t, rest, ht, hanswer, -, -⟩ := marker_split h
  have hvisible := ht.two_visible
  cases hdrop : t.dropWhile isBlank with
  | nil =>
    -- a text of blanks only is no marker
    have hblank : ∀ c ∈ t, isBlank c = true := List.dropWhile_eq_nil_iff.mp hdrop
    have hnone : (t.countP fun c => !isBlank c) = 0 := by
      rw [List.countP_eq_zero]
      intro c hc
      simp [hblank c hc]
    omega
  | cons x t' =>
    have hblanks : ∀ c ∈ t.takeWhile isBlank, isBlank c = true := fun c hc =>
      List.mem_takeWhile_imp hc
    have hsplit : t.takeWhile isBlank ++ x :: t' = t := by
      rw [← hdrop, List.takeWhile_append_dropWhile]
    have hx : isBlank x = false := by
      have hhead := List.head?_dropWhile_not isBlank t
      rw [hdrop] at hhead
      simpa using hhead
    generalize t.takeWhile isBlank = u at hblanks hsplit
    have hin : ∀ c ∈ u ++ [x], InLine c := by
      intro c hc
      refine ht.inLine c ?_
      rw [← hsplit, List.append_cons]
      exact List.mem_append_left t' hc
    refine ⟨u, x, hblanks, ?_, ?_, hin⟩
    · rcases hin x (by simp) with hblank | hspace
      · rw [hx] at hblank
        cases hblank
      · exact hspace
    · rw [hanswer, ← hsplit]
      simp

theorem terminator_before {a : Text} {d : Char} (hprior : m.prior = a ++ [d]) :
    Js.isLineTerminator d = true := by
  obtain ⟨t, rest, -, -, hline, -⟩ := marker_split h
  rw [hprior, List.reverse_append] at hline
  exact hline

theorem no_earlier_marker {q q' : Pos} {w : Text} {e : Char}
    (hbefore : q.before.reverse ++ w = m.prior) (hne : w ≠ [])
    (hstart : Js.atLineStart q = true) {v w' : Text} (hv : IsMarker v) (hw : w = v ++ e :: w')
    (hq' : q'.before = v.reverse ++ q.before) (hend : Js.isLineTerminator e = true) : False := by
  obtain ⟨t, rest, -, hanswer, -, -⟩ := marker_split h
  have hof : Pos.Of answer ⟨q.before, w ++ (t ++ rest)⟩ := by
    rw [Pos.Of, hanswer, ← hbefore, List.append_assoc]
  have hreach : Reaches followupMarkerLine ⟨q.before, w ++ (t ++ rest)⟩
      ⟨q'.before, e :: w' ++ (t ++ rest)⟩ :=
    reaches_marker.2 ⟨hstart, v, hv, ⟨by rw [hw, List.append_assoc], hq'⟩, hend⟩
  have hleft := search_leftmost h hof hreach
  dsimp only at hleft
  have hlength := congrArg List.length hbefore
  rw [List.length_append, List.length_reverse, Match.prior, List.length_reverse] at hlength
  have hpos := List.length_pos_iff.mpr hne
  omega

variable {u : Text} {x : Char}

theorem no_marker_yet (hblank : ∀ c ∈ u, isBlank c = true) (hin : ∀ c ∈ u ++ [x], InLine c) :
    search followupMarkerLine (m.prior ++ (u ++ [x])) = none := by
  refine search_eq_none fun q q' hq hreach => ?_
  obtain ⟨hstart, v, hv, ⟨hafter, hbefore⟩, hend⟩ := reaches_marker.1 hreach
  -- a marker that starts with the line would have two visible characters
  have hhere : q.before.reverse ≠ m.prior := by
    intro hprior
    rw [Pos.Of, hprior, List.append_cancel_left_eq, hafter] at hq
    have hcount : (v.countP fun c => !isBlank c) ≤ (u ++ [x]).countP fun c => !isBlank c := by
      rw [← hq, List.countP_append]
      omega
    have hnone : (u.countP fun c => !isBlank c) = 0 := by
      rw [List.countP_eq_zero]
      intro c hc
      simp [hblank c hc]
    have hone : (([x] : Text).countP fun c => !isBlank c) ≤ 1 := List.countP_le_length
    have htwo := hv.two_visible
    rw [List.countP_append] at hcount
    omega
  rcases begins_append ⟨q.after, hq⟩ with ⟨w, hw⟩ | ⟨u', hu', hprior⟩
  · have hne : w ≠ [] := by
      rintro rfl
      exact hhere (by rw [← hw, List.append_nil])
    obtain ⟨w₀, d, hlast⟩ := List.eq_nil_or_concat w |>.resolve_left hne
    have hd : Js.isLineTerminator d = true :=
      terminator_before h (a := q.before.reverse ++ w₀) (by rw [← hw, hlast]; simp)
    have hdv : d ∉ v := fun hmem => by
      have hinside := (hv.inLine d hmem).not_terminator
      rw [hd] at hinside
      cases hinside
    rw [Pos.Of, ← hw, List.append_assoc, List.append_cancel_left_eq, hafter] at hq
    rcases List.append_eq_append_iff.mp hq with ⟨w', hw', hrest⟩ | ⟨v', rfl, -⟩
    · cases w' with
      | nil => exact hdv (by rw [List.append_nil] at hw'; rw [← hw', hlast]; simp)
      | cons e w' =>
        rw [Js.atLineEnd, hrest] at hend
        exact no_earlier_marker h hw hne hstart hv hw' hbefore hend
    · exact hdv (by rw [hlast]; simp)
  · have hne : u' ≠ [] := by
      rintro rfl
      exact hhere (by rw [hprior, List.append_nil])
    have hinside := not_atLineStart hprior hne fun c hc => hin c (hu'.subset hc)
    rw [hinside] at hstart
    cases hstart

/-- Nothing that follows a `\n` is a tail when the marker line follows another line end. -/
theorem no_tail (hnewline : m.prior.getLast? ≠ some '\n') (hin : ∀ c ∈ u, InLine c) :
    search partialMarkerTail (m.prior ++ u) = none := by
  refine search_eq_none fun q q' hq hreach => ?_
  obtain ⟨v, hv, ⟨hafter, -⟩, hend⟩ := reaches_tail.1 hreach
  rw [hend, List.append_nil] at hafter
  have hnot : '\n' ∉ u := fun hmem => by
    have hinside := (hin _ hmem).not_terminator
    cases hinside
  rw [Pos.Of, hafter] at hq
  rcases List.append_eq_append_iff.mp hq with ⟨w, hw, hrest⟩ | ⟨u', -, hu⟩
  · cases w with
    | nil =>
      rw [List.nil_append] at hrest
      exact hnot (by rw [← hrest]; simp)
    | cons c w =>
      obtain ⟨rfl, rfl⟩ := List.cons.inj hrest
      rcases List.eq_nil_or_concat w with rfl | ⟨w, d, rfl⟩
      · exact hnewline (by rw [hw]; simp)
      · have hd := terminator_before h (a := q.before.reverse ++ '\n' :: w) (d := d)
          (by rw [hw]; simp)
        have hinside := (hv.inLine d (by simp)).not_terminator
        rw [hd] at hinside
        cases hinside
  · exact hnot (by rw [hu]; simp)

theorem shown_of_no_newline (hnewline : m.prior.getLast? ≠ some '\n')
    (hblank : ∀ c ∈ u, isBlank c = true) (hx : Js.isSpace x = false)
    (hin : ∀ c ∈ u ++ [x], InLine c) :
    stripFollowupBlock (m.prior ++ (u ++ [x])) = m.prior ++ (u ++ [x]) := by
  rw [strip_of_no_marker (no_marker_yet h hblank hin), replaceFirst, no_tail h hnewline hin]
  dsimp only
  rw [← List.append_assoc, Js.trimEnd, List.rdropWhile_concat_neg _ _ _ (by simp [hx])]

end Answer

/-! ## The form while it streams -/

/-- The text of the streaming answer; `none` is the indicator that stands there before the first
token. -/
def ChatForm.streamingAnswer (f : ChatForm) : Option Text :=
  if f.isStreaming = true ∧ f.streamingText ≠ some [] then
    some (stripFollowupBlock (f.streamingText.getD []))
  else none

def readTokens (s : ChatForm × TurnState) (tokens : List Text) : ChatForm × TurnState :=
  (tokens.map SseChunk.tokenChunk).foldl readChunk s

theorem readTokens_reading (tokens : List Text) (f : ChatForm) (t : Turn)
    (htext : f.streamingText = some t.accumulated) :
    (readTokens (f, .reading t) tokens).1.isStreaming = f.isStreaming ∧
      (readTokens (f, .reading t) tokens).1.streamingText =
        some (t.accumulated ++ tokens.flatten) := by
  induction tokens generalizing f t with
  | nil => exact ⟨rfl, by rw [List.flatten_nil, List.append_nil]; exact htext⟩
  | cons token tokens ih =>
    have hrest := ih { f with streamingText := some (t.accumulated ++ token) }
      { t with accumulated := t.accumulated ++ token } rfl
    rw [List.flatten_cons, ← List.append_assoc]
    exact hrest

theorem sendQuery_streaming {sent : ChatForm} (h : f.sendQuery rawQuery = some (sent, request)) :
    sent.isStreaming = true ∧ sent.streamingText = some [] := by
  simp only [ChatForm.sendQuery] at h
  split at h
  · cases h
  · obtain ⟨rfl, -⟩ := Prod.mk.inj (Option.some.inj h)
    exact ⟨rfl, rfl⟩

theorem mem_streamingAnswer {sent : ChatForm}
    (hsend : f.sendQuery rawQuery = some (sent, request)) {tokens : List Text} {shown : Text} :
    shown ∈ (readTokens (sent, .reading {}) tokens).1.streamingAnswer ↔
      tokens.flatten ≠ [] ∧ shown = stripFollowupBlock tokens.flatten := by
  obtain ⟨hsent, hempty⟩ := sendQuery_streaming hsend
  obtain ⟨hstreaming, htext⟩ := readTokens_reading tokens sent {} hempty
  rw [ChatForm.streamingAnswer, hstreaming, hsent, htext, List.nil_append]
  by_cases hnil : tokens.flatten = []
  · simp [hnil]
  · simp [hnil, eq_comm]

/-- Let the complete answer have a marker line. While its tokens arrive, in whatever pieces, nothing
of the first marker line and of what follows it is shown exactly when a `\n` stands before that
line. -/
theorem never_flashes_iff {f sent : ChatForm} {rawQuery : Text} {request : ChatRequest}
    (hsend : f.sendQuery rawQuery = some (sent, request)) {answer : Text} {m : Match}
    (hmarker : search followupMarkerLine answer = some m) :
    (∀ tokens later : List Text, (tokens ++ later).flatten = answer →
        ∀ shown ∈ (readTokens (sent, .reading {}) tokens).1.streamingAnswer,
          shown <+: m.prior) ↔
      m.prior.getLast? = some '\n' := by
  constructor
  · intro hhidden
    by_contra hnewline
    obtain ⟨u, x, hblank, hx, ⟨rest, hanswer⟩, hin⟩ := visible_start hmarker
    have hshown := hhidden [m.prior ++ (u ++ [x])] [rest] (by simpa using hanswer) _
      ((mem_streamingAnswer hsend).mpr ⟨by simp, rfl⟩)
    simp only [List.flatten_cons, List.flatten_nil, List.append_nil] at hshown
    rw [shown_of_no_newline hmarker hnewline hblank hx hin] at hshown
    have hlength := hshown.length_le
    simp only [List.length_append, List.length_singleton] at hlength
    omega
  · intro hnewline tokens later hanswer shown hshown
    obtain ⟨-, rfl⟩ := (mem_streamingAnswer hsend).mp hshown
    rw [List.flatten_append] at hanswer
    exact hidden_of_newline hmarker hnewline ⟨later.flatten, hanswer⟩

/-- An answer with a marker on its second line. -/
theorem never_flashes_iff_second_line : ∃ sent request,
    (ChatForm.mount [] none).sendQuery "Qui ?".toList = some (sent, request) ∧
      ∀ tokens later : List Text, (tokens ++ later).flatten = "Oui.\n**Suivi**\n- Qui ?".toList →
        ∀ shown ∈ (readTokens (sent, .reading {}) tokens).1.streamingAnswer,
          shown <+: "Oui.\n".toList := by
  have hsearch : (search followupMarkerLine "Oui.\n**Suivi**\n- Qui ?".toList).map Match.prior =
      some "Oui.\n".toList := by decide +kernel
  obtain ⟨m, hm, hprior⟩ := Option.map_eq_some_iff.mp hsearch
  have hsend : (ChatForm.mount [] none).sendQuery "Qui ?".toList = some (_, _) := rfl
  refine ⟨_, _, hsend, ?_⟩
  have hhidden := (never_flashes_iff hsend hm).mpr (by rw [hprior]; decide)
  rw [hprior] at hhidden
  exact hhidden

/-- On the first line, or after `\r`, the beginning of a marker is shown. -/
theorem marker_flashes :
    ((search followupMarkerLine "--- SUIVI ---\n- Qui ?".toList).map Match.prior = some [] ∧
      stripFollowupBlock "---".toList = "---".toList) ∧
    ((search followupMarkerLine "Oui.\r--- SUIVI ---\r- Qui ?".toList).map Match.prior =
        some "Oui.\r".toList ∧
      stripFollowupBlock "Oui.\r--- S".toList = "Oui.\r--- S".toList) := by
  decide +kernel

end Archiviste.Frontend
