import Mathlib.Algebra.Order.BigOperators.Group.List
import Mathlib.Algebra.Order.Ring.Nat
import Mathlib.Data.Nat.Find
import Archiviste.Base.Lines
import Archiviste.Frontend.StreamingAnswer

/-!
# Archiviste.Frontend.ReloadedAnswer

`parsePersistedAnswer` after a reload against the worker's `extract_followups`, each with the rules
of its own language. The two read an answer alike exactly when the characters on which the languages
differ stand in none of three places:

* `PlainMarker` — in or beside the first marker line: `\r`, U+2028 and U+2029 end a line for the
  reload only, and `ı`, `İ` and `ſ` are letters of the marker for the worker only (`marker_eq_iff`);
* `SameEnd` — where the body is trimmed (`body_eq_iff`);
* `PlainLine` — where a line of the block is cut or trimmed (`questions_eq_iff`).

`reload_matches_worker_iff` puts them together.
-/

namespace Archiviste.Frontend

open Regex Lines
open Generate (isBlank isRuleChar)

/-! ## The questions -/

def isBullet (c : Char) : Bool := c == '-' || c == '*' || c == '•'

def unbullet : Text → Text
  | [] => []
  | c :: cs => if isBullet c then (cs.dropWhile isBullet).dropWhile isBlank else c :: cs

/-- A line as a reader with this whitespace turns it into a question. -/
def question (space : Char → Bool) (line : Text) : Text :=
  Text.trimBy space (unbullet (Text.trimBy space line))

variable {q q' : Pos} {space : Char → Bool} {c : Char} {line t s u answer : Text} {m : Match}
  {r : Re} {M : Pos → Text → Pos → Prop}

theorem matchAt_followupBullet_later (hq : q.before ≠ []) : matchAt followupBullet q = none := by
  rw [matchAt_eq_none]
  intro _ hreach
  obtain ⟨_, hstart, -⟩ := reaches_seq.1 hreach
  exact hq (by simpa [Pos.atStart] using (reaches_check.1 hstart).1)

theorem replaceFirst_followupBullet (s : Text) : replaceFirst followupBullet s = unbullet s := by
  have hlater (b cs : Text) (hb : b ≠ []) : searchFrom followupBullet b cs = none :=
    searchFrom_eq_none (P := fun q => q.before ≠ []) (fun b c cs _ => by simp)
      (fun q => matchAt_followupBullet_later) hb
  cases s with
  | nil => rfl
  | cons c cs =>
    by_cases hc : isBullet c = true
    · obtain ⟨b, ws, hws⟩ := starWays_eq_cons isBullet [c] cs
      obtain ⟨b', ws', hws'⟩ := starWays_eq_cons isBlank b (cs.dropWhile isBullet)
      have hmatch : ∃ m, matchAt followupBullet ⟨[], c :: cs⟩ = some m ∧ m.prior = [] ∧
          m.rest = (cs.dropWhile isBullet).dropWhile isBlank := by
        refine ⟨⟨⟨[], c :: cs⟩, ⟨b', (cs.dropWhile isBullet).dropWhile isBlank⟩, []⟩, ?_, rfl, rfl⟩
        change Option.map _ (List.head? (ways (.seqs [.check Pos.atStart, .atLeast 1 isBullet,
          .star isBlank]) _)) = _
        simp [Re.seqs, Re.atLeast, Pos.atStart, repeatWays, hc, hws, hws']
      obtain ⟨m, hm, hprior, hrest⟩ := hmatch
      rw [replaceFirst, search, searchFrom, hm]
      simp [hprior, hrest, unbullet, hc]
    · have hnone : matchAt followupBullet ⟨[], c :: cs⟩ = none := by
        change Option.map _ (List.head? (ways (.seqs [.check Pos.atStart, .atLeast 1 isBullet,
          .star isBlank]) _)) = _
        simp [Re.seqs, Re.atLeast, Pos.atStart, repeatWays, hc]
      rw [replaceFirst, search, searchFrom, hnone]
      dsimp only
      rw [hlater [c] cs (by simp)]
      simp [unbullet, hc]

theorem remove_followupBullet (s : Text) :
    remove Generate.followupBulletRe s = unbullet s := by
  rw [← replaceFirst_followupBullet]
  refine remove_eq_replaceFirst (r := followupBullet) fun m hm => ?_
  obtain ⟨-, -, hreach⟩ := search_eq_some hm
  obtain ⟨_, hstart, hreach⟩ := reaches_seq.1 hreach
  obtain ⟨-, rfl⟩ := reaches_check.1 hstart
  obtain ⟨q₂, hbullet, hblanks⟩ := reaches_seq.1 hreach
  obtain ⟨q₁, hfirst, hmore⟩ := reaches_seq.1 hbullet
  obtain ⟨t, hlen, -, hstart⟩ := reaches_repeated hfirst
  have hshorter : m.stop.after.length < m.start.after.length := by
    have hle := (hmore.advances.trans hblanks.advances).length_le
    rw [hstart, List.length_append, hlen]
    omega
  refine ⟨by omega, ?_⟩
  refine searchFrom_eq_none (P := fun q => q.before ≠ []) (fun b c cs _ => by simp)
    (fun q => matchAt_followupBullet_later) ?_
  intro hnil
  obtain ⟨u, hu, hbefore⟩ := (hfirst.advances.trans hmore.advances).trans hblanks.advances
  have hempty : u = [] := by
    rw [hbefore, List.append_eq_nil_iff, List.reverse_eq_nil_iff] at hnil
    exact hnil.1
  rw [hu, hempty] at hshorter
  exact Nat.lt_irrefl _ hshorter

theorem question_nil (space : Char → Bool) : question space [] = [] := rfl

theorem question_cons_space (c : Char) (line : Text) (hc : space c = true) :
    question space (c :: line) = question space line := by
  have htrim : Text.trimBy space (c :: line) = Text.trimBy space line := by
    rw [Text.trimBy, List.dropWhile_cons_of_pos hc, Text.trimBy]
  rw [question, htrim, question]

theorem question_concat_space (c : Char) (line : Text) (hc : space c = true) :
    question space (line ++ [c]) = question space line := by
  rw [question, question, Text.trimBy_concat hc]

theorem followupLines_eq (block : Text) :
    followupLines block = readLines (· == '\n') (question Js.isSpace) block := by
  rw [← readLines_splitLines fun t => question_concat_space _ t (by decide)]
  simp only [followupLines, replaceFirst_followupBullet]
  rfl

theorem worker_followupLines_eq (block : Text) :
    Generate.followupLines block = readLines Text.isLineBreak (question Text.isSpace) block := by
  rw [← readLines_splitlines (question_nil _)]
  simp only [Generate.followupLines, remove_followupBullet]
  rfl

/-! ## One line -/

theorem unbullet_split (s : Text) :
    (unbullet s = s ∧ ∀ c ∈ s.head?, isBullet c = false) ∨
      ∃ bullets blanks, s = bullets ++ blanks ++ unbullet s ∧ bullets ≠ [] ∧
        (∀ c ∈ bullets, isBullet c = true) ∧ ∀ c ∈ blanks, isBlank c = true := by
  cases s with
  | nil => exact .inl ⟨rfl, by simp⟩
  | cons c cs =>
    by_cases hc : isBullet c = true
    · refine .inr ⟨c :: cs.takeWhile isBullet, (cs.dropWhile isBullet).takeWhile isBlank, ?_, by simp,
        ?_, fun d hd => List.all_eq_true.1 List.all_takeWhile d hd⟩
      · rw [unbullet, if_pos hc, List.append_assoc, List.takeWhile_append_dropWhile, List.cons_append,
          List.takeWhile_append_dropWhile]
      · intro d hd
        rcases List.mem_cons.1 hd with rfl | hd
        · exact hc
        · exact List.all_eq_true.1 List.all_takeWhile d hd
    · exact .inl ⟨by rw [unbullet, if_neg hc], by simpa using hc⟩

/-- U+FEFF, white space for JavaScript only. -/
def byteOrderMark : Char := Char.ofNat 0xfeff

theorem isSpace_of_js (h : Js.isSpace c = true) (hc : c ≠ byteOrderMark) :
    Text.isSpace c = true := by
  have hcode : c.toNat ≠ 0xfeff := fun hcode => hc (by rw [byteOrderMark, ← hcode, Char.ofNat_toNat])
  simp only [Js.isSpace, Bool.or_eq_true, Bool.and_eq_true, decide_eq_true_eq, beq_iff_eq] at h
  simp only [Text.isSpace, Bool.or_eq_true, Bool.and_eq_true, decide_eq_true_eq, beq_iff_eq]
  omega

theorem of_isBullet (h : isBullet c = true) :
    Text.isSpace c = false ∧ Text.isLineBreak c = false ∧ c ≠ byteOrderMark := by
  simp only [isBullet, Bool.or_eq_true, beq_iff_eq] at h
  rcases h with (rfl | rfl) | rfl <;> decide

theorem of_isBlank (h : isBlank c = true) :
    Text.isSpace c = true ∧ Text.isLineBreak c = false ∧ c ≠ byteOrderMark := by
  simp only [isBlank, Bool.or_eq_true, beq_iff_eq] at h
  rcases h with rfl | rfl <;> decide

theorem unbullet_sublist (s : Text) : (unbullet s).Sublist s := by
  rcases unbullet_split s with ⟨h, -⟩ | ⟨bullets, blanks, h, -⟩
  · rw [h]
  · conv_rhs => rw [h]
    exact List.sublist_append_right _ _

theorem question_sublist (space : Char → Bool) (line : Text) : (question space line).Sublist line :=
  (Text.trimBy_sublist _).trans ((unbullet_sublist _).trans (Text.trimBy_sublist _))

theorem count_unbullet (s : Text) : (unbullet s).count byteOrderMark = s.count byteOrderMark := by
  rcases unbullet_split s with ⟨h, -⟩ | ⟨bullets, blanks, h, -, hbullets, hblanks⟩
  · rw [h]
  · have hzero : bullets.count byteOrderMark = 0 ∧ blanks.count byteOrderMark = 0 :=
      ⟨List.count_eq_zero.2 fun hmem => (of_isBullet (hbullets _ hmem)).2.2 rfl,
        List.count_eq_zero.2 fun hmem => (of_isBlank (hblanks _ hmem)).2.2 rfl⟩
    conv_rhs => rw [h]
    rw [List.count_append, List.count_append]
    omega

theorem count_question (line : Text) :
    (question Text.isSpace line).count byteOrderMark = line.count byteOrderMark := by
  rw [question, Text.count_trimBy (by decide), count_unbullet, Text.count_trimBy (by decide)]

def workerQuestions (line : Text) : List Text :=
  readLines Text.isLineBreak (question Text.isSpace) line

theorem workerQuestions_space {a b : Text} (ha : ∀ c ∈ a, Text.isSpace c = true)
    (hb : ∀ c ∈ b, Text.isSpace c = true) (line : Text) :
    workerQuestions (a ++ line ++ b) = workerQuestions line := by
  unfold workerQuestions
  rw [readLines_append_space question_concat_space (question_nil _) hb,
    readLines_space_append question_cons_space (question_nil _) ha]

def gap (line : Text) : Text := (unbullet (Text.trimBy Js.isSpace line)).takeWhile Js.isSpace

/-- Where both readers see the same question in a line of the reload. -/
structure PlainLine (line : Text) : Prop where
  /-- The question does not begin or end with whitespace of Python. -/
  trimmed : Text.trimBy Text.isSpace (question Js.isSpace line) = question Js.isSpace line
  /-- It has no line end of Python. -/
  unbroken : ∀ c ∈ question Js.isSpace line, Text.isLineBreak c = false
  /-- There is no byte order mark beside it. -/
  marks : line.count byteOrderMark = (question Js.isSpace line).count byteOrderMark
  /-- Of two bullets the second stands on the same line of Python. -/
  bullets : (∃ c ∈ gap line, Text.isLineBreak c = true) →
    ∀ c ∈ (question Js.isSpace line).head?, isBullet c = false

theorem unbullet_trim (line : Text) :
    unbullet (Text.trimBy Js.isSpace line) = gap line ++ question Js.isSpace line := by
  set t := Text.trimBy Js.isSpace line with ht
  have hgap : unbullet t = gap line ++ (unbullet t).dropWhile Js.isSpace :=
    List.takeWhile_append_dropWhile.symm
  obtain ⟨front, hfront⟩ : ∃ front, t = front ++ unbullet t := by
    rcases unbullet_split t with ⟨h, -⟩ | ⟨bullets, blanks, h, -⟩
    · exact ⟨[], h.symm⟩
    · exact ⟨bullets ++ blanks, h⟩
  -- the line is trimmed, so nothing is cut off behind the question
  have hend : t.rdropWhile Js.isSpace = t := List.rdropWhile_idempotent _ _
  have hback := List.rdropWhile_append_rtakeWhile (p := Js.isSpace)
    (l := (unbullet t).dropWhile Js.isSpace)
  have hnil : ((unbullet t).dropWhile Js.isSpace).rtakeWhile Js.isSpace = [] := by
    rw [hfront, hgap, ← hback, ← List.append_assoc, ← List.append_assoc,
      Text.rdropWhile_append_of_all fun c hc => List.mem_rtakeWhile_imp hc] at hend
    have hshort := (List.rdropWhile_prefix Js.isSpace
      (front ++ gap line ++ ((unbullet t).dropWhile Js.isSpace).rdropWhile Js.isSpace)).length_le
    rw [hend, List.length_append] at hshort
    exact List.length_eq_zero_iff.1 (by omega)
  rw [hnil, List.append_nil] at hback
  rw [question, ← ht, Text.trimBy, hback]
  exact hgap

section
variable {line : Text}
  (hmarks : line.count byteOrderMark = (question Js.isSpace line).count byteOrderMark)
include hmarks

theorem workerQuestions_trim :
    workerQuestions line = workerQuestions (Text.trimBy Js.isSpace line) ∧
      ∀ c ∈ gap line, Text.isSpace c = true := by
  obtain ⟨a, b, hs, hall⟩ := Text.trimBy_split Js.isSpace line
  have hline := congrArg (List.count byteOrderMark) hs
  have hcut := congrArg (List.count byteOrderMark) (unbullet_trim line)
  rw [List.count_append, List.count_append] at hline
  rw [count_unbullet, List.count_append] at hcut
  have hspace {t : Text} (ht : ∀ c ∈ t, Js.isSpace c = true) (hzero : t.count byteOrderMark = 0) :
      ∀ c ∈ t, Text.isSpace c = true := fun c hc =>
    isSpace_of_js (ht c hc) fun hmark => List.count_eq_zero.1 hzero (hmark ▸ hc)
  constructor
  · conv_lhs => rw [hs]
    exact workerQuestions_space
      (hspace (fun c hc => hall c (List.mem_append_left _ hc)) (by omega))
      (hspace (fun c hc => hall c (List.mem_append_right _ hc)) (by omega)) _
  · exact hspace (fun c hc => List.all_eq_true.1 List.all_takeWhile c hc) (by omega)

end

theorem question_bullets {bullets : Text} (h : ∀ c ∈ bullets, isBullet c = true) :
    question Text.isSpace bullets = [] := by
  have hnone : unbullet bullets = [] := by
    cases bullets with
    | nil => rfl
    | cons c cs =>
      rw [unbullet, if_pos (h c List.mem_cons_self),
        List.dropWhile_eq_nil_iff.2 fun d hd => h d (List.mem_cons_of_mem c hd), List.dropWhile_nil]
  have htrim := Text.trimBy_of_none fun c hc => (of_isBullet (h c hc)).1
  rw [question, htrim, hnone]
  rfl

section
variable {line : Text}
  (htrimmed : Text.trimBy Text.isSpace (question Js.isSpace line) = question Js.isSpace line)
  (hunbroken : ∀ c ∈ question Js.isSpace line, Text.isLineBreak c = false)
  (hmarks : line.count byteOrderMark = (question Js.isSpace line).count byteOrderMark)
include hunbroken hmarks

include htrimmed in
/-- On one line of Python the worker reads the question of the reload. -/
theorem workerQuestions_of_gap (hgap : ∀ c ∈ gap line, Text.isLineBreak c = false) :
    workerQuestions line = [question Js.isSpace line].filter (· ≠ []) := by
  obtain ⟨hline, hspace⟩ := workerQuestions_trim hmarks
  have hcut := unbullet_trim line
  rw [hline]
  rcases unbullet_split (Text.trimBy Js.isSpace line) with
    ⟨hsame, hhead⟩ | ⟨bullets, blanks, ht, hne, hbullets, hblanks⟩
  · have hq : question Js.isSpace line = Text.trimBy Js.isSpace line := by
      rw [question, hsame, Text.trimBy_trimBy]
    rw [← hq]
    rw [← hq] at hsame
    rw [workerQuestions, readLines_of_line hunbroken]
    rw [question.eq_1 Text.isSpace, htrimmed, hsame, htrimmed]
  · rw [hcut] at ht
    by_cases hq : question Js.isSpace line = []
    · have hwhite : ∀ c ∈ blanks ++ gap line, Text.isSpace c = true := by
        intro c hc
        rcases List.mem_append.1 hc with hc | hc
        · exact (of_isBlank (hblanks c hc)).1
        · exact hspace c hc
      rw [hq, List.append_nil, List.append_assoc] at ht
      have hbare := workerQuestions_space (a := []) (by simp) hwhite bullets
      rw [List.nil_append, ← ht] at hbare
      rw [hbare, hq, workerQuestions, readLines_of_line fun c hc => (of_isBullet (hbullets c hc)).2.1,
        question_bullets hbullets]
    · have hhead : (bullets ++ blanks ++ gap line).dropWhile Text.isSpace =
          bullets ++ blanks ++ gap line := by
        obtain ⟨c, cs, rfl⟩ := List.exists_cons_of_ne_nil hne
        exact List.dropWhile_cons_of_neg (by simp [(of_isBullet (hbullets c List.mem_cons_self)).1])
      have htrim := Text.trimBy_append hq htrimmed (bullets ++ blanks ++ gap line) []
      rw [hhead, List.append_nil, List.rdropWhile_nil, List.append_nil, List.append_assoc, ← ht] at htrim
      have hasked : Text.trimBy Text.isSpace (gap line ++ question Js.isSpace line) =
          question Js.isSpace line := by
        simpa using (Text.trimBy_append_eq hq htrimmed (a := gap line) (b := [])).2 (by simpa using hspace)
      rw [workerQuestions, readLines_of_line, question.eq_1 Text.isSpace, htrim, hcut, hasked]
      rw [ht]
      intro c hc
      simp only [List.mem_append] at hc
      rcases hc with (hc | hc) | hc | hc
      · exact (of_isBullet (hbullets c hc)).2.1
      · exact (of_isBlank (hblanks c hc)).2.1
      · exact hgap c hc
      · exact hunbroken c hc

/-- After a line end of Python behind the bullet the worker reads the question as a line. -/
theorem workerQuestions_of_break (hgap : ∃ c ∈ gap line, Text.isLineBreak c = true) :
    workerQuestions line =
      [question Text.isSpace (question Js.isSpace line)].filter (· ≠ []) := by
  obtain ⟨hline, hspace⟩ := workerQuestions_trim hmarks
  have hcut := unbullet_trim line
  obtain ⟨c, hmem, hc⟩ := hgap
  obtain ⟨g, g', hg⟩ := List.append_of_mem hmem
  rw [hline]
  rcases unbullet_split (Text.trimBy Js.isSpace line) with
    ⟨hsame, -⟩ | ⟨bullets, blanks, ht, -, hbullets, hblanks⟩
  · -- without a bullet there is no gap
    have hq : question Js.isSpace line = Text.trimBy Js.isSpace line := by
      rw [question, hsame, Text.trimBy_trimBy]
    rw [hsame, hq, List.self_eq_append_left] at hcut
    rw [hcut] at hmem
    cases hmem
  · rw [hcut, hg] at ht
    rw [hg] at hspace
    have hleft := workerQuestions_space (a := []) (b := blanks ++ g) (by simp) (by
      intro d hd
      rcases List.mem_append.1 hd with hd | hd
      · exact (of_isBlank (hblanks d hd)).1
      · exact hspace d (by simp [hd])) bullets
    have hright := workerQuestions_space (a := g') (b := [])
      (fun d hd => hspace d (by simp [hd])) (by simp) (question Js.isSpace line)
    rw [List.append_nil] at hright
    have hsplit : Text.trimBy Js.isSpace line =
        (bullets ++ (blanks ++ g)) ++ c :: (g' ++ question Js.isSpace line) := by
      rw [ht]
      simp
    rw [List.nil_append] at hleft
    unfold workerQuestions at hleft hright ⊢
    rw [hsplit, readLines_append hc, hleft, hright, readLines_of_line hunbroken,
      readLines_of_line fun d hd => (of_isBullet (hbullets d hd)).2.1, question_bullets hbullets,
      List.filter_cons_of_neg (by simp), List.filter_nil, List.nil_append]

end

theorem question_of_trimmed {q : Text} (htrimmed : Text.trimBy Text.isSpace q = q)
    (hbullet : ∀ c ∈ q.head?, isBullet c = false) : question Text.isSpace q = q := by
  have hsame : unbullet q = q := by
    cases q with
    | nil => rfl
    | cons c cs => rw [unbullet, if_neg (by simp [hbullet c rfl])]
  rw [question, htrimmed, hsame, htrimmed]

theorem length_question_lt {q : Text} (hc : c ∈ q.head?) (hbullet : isBullet c = true) :
    (question Text.isSpace q).length < q.length := by
  obtain ⟨cs, rfl⟩ : ∃ cs, q = c :: cs := List.head?_eq_some_iff.1 hc
  have htrim : ∃ u, Text.trimBy Text.isSpace (c :: cs) = c :: u ∧ u.length ≤ cs.length := by
    have hspace := (of_isBullet hbullet).1
    rw [Text.trimBy, List.dropWhile_cons_of_neg (by simp [hspace])]
    by_cases hcs : ∀ d ∈ cs, Text.isSpace d = true
    · have := Text.rdropWhile_append_of_all (s := [c]) hcs
      rw [List.singleton_append, List.rdropWhile_singleton, if_neg (by simp [hspace])] at this
      exact ⟨[], this, Nat.zero_le _⟩
    · have := Text.rdropWhile_append_of_not_all (s := [c]) hcs
      exact ⟨_, this, (List.rdropWhile_prefix _ _).length_le⟩
  obtain ⟨u, hu, hle⟩ := htrim
  rw [question, hu, unbullet, if_pos hbullet, List.length_cons]
  have hshort : (Text.trimBy Text.isSpace ((u.dropWhile isBullet).dropWhile isBlank)).length ≤ _ :=
    ((Text.trimBy_sublist _).trans
      ((List.dropWhile_sublist isBlank).trans (List.dropWhile_sublist isBullet))).length_le
  omega

theorem PlainLine.workerQuestions_eq (h : PlainLine line) :
    workerQuestions line = [question Js.isSpace line].filter (· ≠ []) := by
  by_cases hgap : ∃ c ∈ gap line, Text.isLineBreak c = true
  · rw [workerQuestions_of_break h.unbroken h.marks hgap,
      question_of_trimmed h.trimmed (h.bullets hgap)]
  · exact workerQuestions_of_gap h.trimmed h.unbroken h.marks fun c hc => by
      simpa using fun hbreak => hgap ⟨c, hc, hbreak⟩

theorem of_mem_workerQuestions {q : Text} (h : q ∈ workerQuestions line) :
    Text.trimBy Text.isSpace q = q ∧ ∀ c ∈ q, Text.isLineBreak c = false := by
  obtain ⟨piece, rfl, hpiece⟩ := of_mem_readLines h
  exact ⟨Text.trimBy_trimBy _, fun c hc => hpiece c ((question_sublist _ piece).mem hc)⟩

section SameQuestions
variable {lines : List Text} (heq : (lines.flatMap fun line => [question Js.isSpace line].filter
  (· ≠ [])) = lines.flatMap workerQuestions)
include heq

theorem question_read (hline : line ∈ lines) :
    Text.trimBy Text.isSpace (question Js.isSpace line) = question Js.isSpace line ∧
      ∀ c ∈ question Js.isSpace line, Text.isLineBreak c = false := by
  by_cases hq : question Js.isSpace line = []
  · rw [hq]
    exact ⟨rfl, fun c hc => by cases hc⟩
  · have hmem : question Js.isSpace line ∈ lines.flatMap workerQuestions := by
      rw [← heq]
      exact List.mem_flatMap.2 ⟨line, hline, by simpa using hq⟩
    obtain ⟨line', -, hmem⟩ := List.mem_flatMap.1 hmem
    exact of_mem_workerQuestions hmem

theorem flatMap_question : lines.flatMap (question Js.isSpace) =
    lines.flatMap fun line => (workerQuestions line).flatten := by
  have hflat := congrArg List.flatten heq
  simpa only [List.flatMap_def, List.flatten_flatten, List.map_map, Function.comp_def,
    List.flatten_filter_ne_nil, List.flatten_singleton] using hflat

/-- A byte order mark that the reload cuts off is one that the worker has more. -/
theorem question_marks (hline : line ∈ lines) :
    line.count byteOrderMark = (question Js.isSpace line).count byteOrderMark := by
  by_contra hne
  have hle : ∀ line ∈ lines, (question Js.isSpace line).count byteOrderMark ≤
      line.count byteOrderMark := fun line _ => (question_sublist _ line).count_le _
  have hcount := congrArg (List.count byteOrderMark) (flatMap_question heq)
  simp only [List.count_flatMap, Function.comp_def, workerQuestions,
    count_readLines (by decide : Text.isLineBreak byteOrderMark = false) count_question] at hcount
  exact Nat.ne_of_lt (List.sum_lt_sum _ _ hle
    ⟨line, hline, Nat.lt_of_le_of_ne (hle line hline) (Ne.symm hne)⟩) hcount

theorem flatten_workerQuestions_of_break (hline : line ∈ lines)
    (hgap : ∃ c ∈ gap line, Text.isLineBreak c = true) :
    (workerQuestions line).flatten = question Text.isSpace (question Js.isSpace line) := by
  rw [workerQuestions_of_break (question_read heq hline).2 (question_marks heq hline) hgap,
    List.flatten_filter_ne_nil, List.flatten_singleton]

theorem length_workerQuestions_le (hline : line ∈ lines) :
    (workerQuestions line).flatten.length ≤ (question Js.isSpace line).length := by
  by_cases hgap : ∃ c ∈ gap line, Text.isLineBreak c = true
  · rw [flatten_workerQuestions_of_break heq hline hgap]
    exact (question_sublist _ _).length_le
  · obtain ⟨htrimmed, hunbroken⟩ := question_read heq hline
    rw [workerQuestions_of_gap htrimmed hunbroken (question_marks heq hline)
      fun c hc => by simpa using fun hbreak => hgap ⟨c, hc, hbreak⟩,
      List.flatten_filter_ne_nil, List.flatten_singleton]

/-- A second bullet that the worker cuts off makes its questions shorter. -/
theorem question_bullets_kept (hline : line ∈ lines)
    (hgap : ∃ c ∈ gap line, Text.isLineBreak c = true) :
    ∀ c ∈ (question Js.isSpace line).head?, isBullet c = false := by
  intro c hc
  by_contra hbullet
  have hsum := congrArg List.length (flatMap_question heq)
  rw [List.length_flatMap, List.length_flatMap] at hsum
  refine Nat.ne_of_gt (List.sum_lt_sum _ _ (fun _ => length_workerQuestions_le heq)
    ⟨line, hline, ?_⟩) hsum
  rw [flatten_workerQuestions_of_break heq hline hgap]
  exact length_question_lt hc (by simpa using hbullet)

end SameQuestions

/-- The two readers find the same questions exactly when they do so in each line of the reload. -/
theorem questions_eq_iff (block : Text) :
    followupLines block = Generate.followupLines block ↔
      ∀ line ∈ block.splitOnP (· == '\n'), PlainLine line := by
  have hworker : readLines Text.isLineBreak (question Text.isSpace) block = _ :=
    readLines_refine (· == '\n') (fun c hc => by rw [beq_iff_eq.1 hc]; rfl) block
  rw [followupLines_eq, worker_followupLines_eq, hworker, readLines_eq_flatMap]
  generalize block.splitOnP (· == '\n') = lines
  change _ = lines.flatMap workerQuestions ↔ _
  constructor
  · intro heq line hline
    obtain ⟨htrimmed, hunbroken⟩ := question_read heq hline
    exact ⟨htrimmed, hunbroken, question_marks heq hline, question_bullets_kept heq hline⟩
  · exact fun hplain => List.flatMap_congr fun line hline => (hplain line hline).workerQuestions_eq.symm

/-! ## The end of the body -/

def ruleBody : List Re := [.char '\n', .star isBlank, .atLeast 3 isRuleChar, .star isBlank]

theorem reaches_rule {test : Pos → Bool} :
    Reaches (.seqs (ruleBody ++ [.check test])) q q' ↔
      ∃ t, (Re.seqs ruleBody).Spells t ∧ q.Passes t q' ∧ test q' = true :=
  reaches_then_check (by simp [Re.seqs, Re.char, Re.atLeast, ruleBody, Re.Free])

theorem rule_last (h : (Re.seqs ruleBody).Spells t) :
    ∃ u c, t = u ++ [c] ∧ (isBlank c = true ∨ isRuleChar c = true) := by
  obtain ⟨newline, _, -, ⟨blanks, _, -, ⟨_, _, ⟨three, more, ⟨hlength, hthree⟩, hmore, rfl⟩,
    ⟨after, _, hafter, rfl, rfl⟩, rfl⟩, rfl⟩, rfl⟩ := h
  have hall : ∀ c ∈ three ++ more ++ (after ++ []), isBlank c = true ∨ isRuleChar c = true := by
    intro c hc
    simp only [List.mem_append, List.not_mem_nil, or_false] at hc
    rcases hc with (hc | hc) | hc
    · exact .inr (hthree c hc)
    · exact .inr (hmore c hc)
    · exact .inl (hafter c hc)
  have hne : three ++ more ++ (after ++ []) ≠ [] := by
    intro hnil
    have := congrArg List.length hnil
    simp [hlength] at this
  obtain ⟨u, c, hu⟩ := List.eq_nil_or_concat _ |>.resolve_left hne
  rw [hu] at hall ⊢
  exact ⟨newline ++ (blanks ++ u), c, by simp, hall c (by simp)⟩

theorem search_trailingRule (h : search trailingRule s = some m) :
    ∃ t, (Re.seqs ruleBody).Spells t ∧ s = m.prior ++ t ∧ replaceFirst trailingRule s = m.prior := by
  obtain ⟨hstart, -, hreach⟩ := search_eq_some h
  obtain ⟨t, ht, hpass, hend⟩ := reaches_rule.1 hreach
  have hend : m.stop.after = [] := List.isEmpty_iff.1 hend
  rw [Pos.Passes, hend, List.append_nil] at hpass
  refine ⟨t, ht, ?_, ?_⟩
  · rw [Match.prior, ← hpass.1]
    exact hstart.symm
  · simp only [replaceFirst, h, Match.rest, hend, List.append_nil]

theorem search_trailingRule_none (hblank : isBlank c = false) (hrule : isRuleChar c = false) :
    search trailingRule (u ++ [c]) = none := by
  cases hm : search trailingRule (u ++ [c]) with
  | none => rfl
  | some m =>
    obtain ⟨t, ht, hsplit, -⟩ := search_trailingRule hm
    obtain ⟨t', d, rfl, hd⟩ := rule_last ht
    rw [← List.append_assoc] at hsplit
    obtain ⟨-, rfl⟩ := List.append_inj' hsplit rfl |>.imp_right List.singleton_inj.1
    simp [hblank, hrule] at hd

theorem remove_trailingRule (s : Text) :
    remove Generate.trailingRuleRe (Text.rstrip s) = replaceFirst trailingRule (Text.rstrip s) := by
  -- without a last newline `$` is the end of the text
  have hdollar : ∀ q : Pos, q.Of (Text.rstrip s) → (q.atDollar = true ↔ q.atEnd = true) := by
    intro q hq
    have hne : q.after ≠ ['\n'] := fun hq' =>
      Text.rstrip_ne_append_space (s := s) (t := q.before.reverse) (c := '\n') rfl
        (by rw [← hq, hq'])
    simp [Pos.atDollar, Pos.atEnd, hne]
  have hreach : ∀ q q' : Pos, q.Of (Text.rstrip s) →
      (Reaches Generate.trailingRuleRe q q' ↔ Reaches trailingRule q q') := by
    intro q q' hq
    change Reaches (.seqs (ruleBody ++ [.check Pos.atDollar])) q q' ↔
      Reaches (.seqs (ruleBody ++ [.check Pos.atEnd])) q q'
    rw [reaches_rule, reaches_rule]
    refine exists_congr fun t => and_congr_right fun _ => and_congr_right fun hpass => ?_
    exact hdollar q' (Pos.Advances.of ⟨t, hpass⟩ hq)
  have hfirst : remove Generate.trailingRuleRe (Text.rstrip s) =
      replaceFirst Generate.trailingRuleRe (Text.rstrip s) := by
    refine remove_eq_replaceFirst fun m hm => ?_
    obtain ⟨hstart, -, hmatch⟩ := search_eq_some hm
    obtain ⟨t, ht, hpass, hend⟩ := reaches_rule.1 ((hreach _ _ hstart).1 hmatch)
    have hend : m.stop.after = [] := List.isEmpty_iff.1 hend
    obtain ⟨u, c, rfl, -⟩ := rule_last ht
    refine ⟨by simp [hpass.1, hend], ?_⟩
    rw [hend, searchFrom]
    exact matchAt_end rfl
  have hsame := search_start_eq fun q hq => exists_congr fun q' => hreach q q' hq
  rw [hfirst, replaceFirst, replaceFirst]
  cases hpy : search Generate.trailingRuleRe (Text.rstrip s) with
  | none =>
    rw [hpy] at hsame
    rw [Option.map_eq_none_iff.1 hsame.symm]
  | some m =>
    rw [hpy] at hsame
    obtain ⟨m', hjs, hstart⟩ := Option.map_eq_some_iff.1 hsame.symm
    obtain ⟨hof, -, hmatch⟩ := search_eq_some hpy
    obtain ⟨-, -, -, hend⟩ := reaches_rule.1 ((hreach _ _ hof).1 hmatch)
    obtain ⟨-, -, -, hend'⟩ := reaches_rule.1 (search_eq_some hjs).2.2
    rw [hjs]
    simp only [Match.prior, Match.rest, hstart, List.isEmpty_iff.1 hend, List.isEmpty_iff.1 hend']

/-- `trimEnd` loses a visible character exactly when the end has a space that is none for Python. -/
theorem rstrip_trimEnd_iff (s : Text) :
    Text.rstrip (Js.trimEnd s) = Text.rstrip s ↔
      ∀ c ∈ s.rtakeWhile Js.isSpace, Text.isSpace c = true := by
  have hs : Js.trimEnd s ++ s.rtakeWhile Js.isSpace = s := List.rdropWhile_append_rtakeWhile
  constructor
  · intro heq
    by_contra hnot
    have hlonger : Text.rstrip s = Js.trimEnd s ++ Text.rstrip (s.rtakeWhile Js.isSpace) := by
      conv_lhs => rw [← hs]
      exact Text.rdropWhile_append_of_not_all hnot
    have hle : (Text.rstrip (Js.trimEnd s)).length ≤ (Js.trimEnd s).length :=
      (List.rdropWhile_prefix _ _).length_le
    rw [heq, hlonger, List.length_append] at hle
    have hnil : Text.rstrip (s.rtakeWhile Js.isSpace) = [] := List.length_eq_zero_iff.1 (by omega)
    exact hnot (Text.rstrip_eq_nil.1 hnil)
  · intro hall
    conv_rhs => rw [← hs]
    exact (Text.rdropWhile_append_of_all hall).symm

/-- The ends of the body at which both readers cut alike. -/
def SameEnd (s : Text) : Prop :=
  match search trailingRule (Text.rstrip s) with
  | none => ∀ c ∈ s.rtakeWhile Js.isSpace, Text.isSpace c = true
  | some m =>
    (∀ c ∈ s.rtakeWhile Text.isSpace, Js.isSpace c = true) ∧
      ∀ c ∈ m.prior.rtakeWhile Js.isSpace, Text.isSpace c = true

theorem isSpace_of_isBlank (h : isBlank c = true) : Js.isSpace c = true := by
  simp only [isBlank, Bool.or_eq_true, beq_iff_eq] at h
  rcases h with rfl | rfl <;> decide

theorem not_isSpace_of_isRuleChar (h : isRuleChar c = true) :
    Js.isSpace c = false ∧ Text.isSpace c = false := by
  simp only [isRuleChar, Bool.or_eq_true, beq_iff_eq] at h
  rcases h with (rfl | rfl) | rfl <;> decide

theorem trimmed_rule (h : search trailingRule s = some m)
    (htrim : Js.trimEnd s = s ∨ Text.rstrip s = s) :
    Js.trimEnd s = s ∧ Text.rstrip s = s ∧ m.prior.length < s.length := by
  obtain ⟨t, ht, hsplit, -⟩ := search_trailingRule h
  obtain ⟨u, c, rfl, hc⟩ := rule_last ht
  rw [← List.append_assoc] at hsplit
  have hlast : ¬ Js.isSpace c = true ∨ ¬ Text.isSpace c = true := by
    refine htrim.imp (fun htrim hspace => ?_) fun htrim hspace => ?_
    · have hle := Js.length_trimEnd_le (m.prior ++ u)
      rw [hsplit, Js.trimEnd, List.rdropWhile_concat_pos _ _ _ hspace] at htrim
      rw [Js.trimEnd, htrim, List.length_append, List.length_singleton] at hle
      omega
    · exact Text.rstrip_ne_append_space hspace (htrim.trans hsplit)
  have hrule : isRuleChar c = true := by
    rcases hc with hc | hc
    · have hblank := isSpace_of_isBlank hc
      exact (hlast.elim (· hblank) (· (of_isBlank hc).1)).elim
    · exact hc
  obtain ⟨hjs, hpy⟩ := not_isSpace_of_isRuleChar hrule
  rw [hsplit]
  exact ⟨List.rdropWhile_concat_neg _ _ _ (by simp [hjs]),
    List.rdropWhile_concat_neg _ _ _ (by simp [hpy]), by simp⟩

theorem length_rstrip_le (t : Text) : (Text.rstrip t).length ≤ t.length :=
  (List.rdropWhile_prefix _ _).length_le

theorem trimEnd_trimEnd (s : Text) : Js.trimEnd (Js.trimEnd s) = Js.trimEnd s :=
  List.rdropWhile_idempotent _ _

theorem replaceFirst_of_none (h : search trailingRule s = none) :
    replaceFirst trailingRule s = s := by
  simp only [replaceFirst, h]

/-- The reload sees a rule that for Python is not at the end. -/
theorem body_ne_of_reload_rule (hpy : search trailingRule (Text.rstrip s) = none)
    (hjs : search trailingRule (Js.trimEnd s) = some m) :
    Text.rstrip (Js.trimEnd (replaceFirst trailingRule (Js.trimEnd s))) ≠ Text.rstrip s ∧
      ¬ ∀ c ∈ s.rtakeWhile Js.isSpace, Text.isSpace c = true := by
  obtain ⟨-, hstripped, hlt⟩ := trimmed_rule hjs (.inl (trimEnd_trimEnd s))
  obtain ⟨_, -, -, hprior⟩ := search_trailingRule hjs
  have hdiffer : ¬ ∀ c ∈ s.rtakeWhile Js.isSpace, Text.isSpace c = true := by
    intro hall
    rw [← rstrip_trimEnd_iff, hstripped] at hall
    rw [hall, hpy] at hjs
    cases hjs
  refine ⟨fun heq => ?_, hdiffer⟩
  have hs : Js.trimEnd s ++ s.rtakeWhile Js.isSpace = s := List.rdropWhile_append_rtakeWhile
  have hlonger : Text.rstrip s = Js.trimEnd s ++ Text.rstrip (s.rtakeWhile Js.isSpace) := by
    conv_lhs => rw [← hs]
    exact Text.rdropWhile_append_of_not_all hdiffer
  have hshort := (length_rstrip_le (Js.trimEnd m.prior)).trans (Js.length_trimEnd_le m.prior)
  rw [← hprior, heq, hlonger, List.length_append] at hshort
  rw [hprior] at hshort
  omega

/-- The reload stops at a space of Python behind the rule and keeps both. -/
theorem reload_keeps_rule (hall : ¬ ∀ c ∈ s.rtakeWhile Text.isSpace, Js.isSpace c = true) :
    search trailingRule (Js.trimEnd s) = none ∧
      Text.rstrip (Js.trimEnd s) = Text.rstrip (Text.rstrip s) := by
  have hs : Text.rstrip s ++ s.rtakeWhile Text.isSpace = s := List.rdropWhile_append_rtakeWhile
  have htrim : Js.trimEnd s = Text.rstrip s ++ Js.trimEnd (s.rtakeWhile Text.isSpace) := by
    conv_lhs => rw [← hs]
    exact Js.trimEnd_append hall
  have hne : Js.trimEnd (s.rtakeWhile Text.isSpace) ≠ [] := fun hnil =>
    hall (List.rdropWhile_eq_nil_iff.1 hnil)
  obtain ⟨u, c, hu⟩ := List.eq_nil_or_concat _ |>.resolve_left hne
  rw [List.concat_eq_append] at hu
  have hspaces : ∀ d ∈ Js.trimEnd (s.rtakeWhile Text.isSpace), Text.isSpace d = true :=
    fun d hd => List.mem_rtakeWhile_imp ((List.rdropWhile_prefix _ _).subset hd)
  have hc : Js.isSpace c = false := by
    have hself : (u ++ [c]).rdropWhile Js.isSpace = u ++ [c] := by
      rw [← hu]
      exact List.rdropWhile_idempotent _ _
    simpa using List.rdropWhile_eq_self_iff.1 hself (by simp)
  constructor
  · rw [htrim, hu, ← List.append_assoc]
    refine search_trailingRule_none ?_ ?_
    · by_contra hblank
      simp [isSpace_of_isBlank (by simpa using hblank)] at hc
    · by_contra hrule
      have := (not_isSpace_of_isRuleChar (by simpa using hrule)).2
      rw [hspaces c (by rw [hu]; simp)] at this
      cases this
  · rw [htrim]
    exact Text.rdropWhile_append_of_all hspaces

theorem body_eq_iff (s : Text) :
    Text.rstrip (Js.trimEnd (replaceFirst trailingRule (Js.trimEnd s))) =
      Text.rstrip (Text.rstrip (remove Generate.trailingRuleRe (Text.rstrip s))) ↔ SameEnd s := by
  rw [remove_trailingRule, Text.rstrip_rstrip]
  unfold SameEnd
  cases hpy : search trailingRule (Text.rstrip s) with
  | none =>
    rw [replaceFirst_of_none hpy, Text.rstrip_rstrip]
    cases hjs : search trailingRule (Js.trimEnd s) with
    | none => rw [replaceFirst_of_none hjs, trimEnd_trimEnd, rstrip_trimEnd_iff]
    | some m =>
      obtain ⟨hne, hdiffer⟩ := body_ne_of_reload_rule hpy hjs
      exact iff_of_false hne hdiffer
  | some m =>
    obtain ⟨hend, hstripped, hlt⟩ := trimmed_rule hpy (.inr (Text.rstrip_rstrip s))
    obtain ⟨_, -, -, hprior⟩ := search_trailingRule hpy
    rw [hprior]
    by_cases hall : ∀ c ∈ s.rtakeWhile Text.isSpace, Js.isSpace c = true
    · have htrim : Js.trimEnd s = Text.rstrip s := by
        conv_lhs => rw [← List.rdropWhile_append_rtakeWhile (p := Text.isSpace) (l := s)]
        exact (Js.trimEnd_append_space hall).trans hend
      rw [htrim, hprior, rstrip_trimEnd_iff]
      exact (and_iff_right hall).symm
    · refine iff_of_false (fun heq => ?_) fun h => hall h.1
      obtain ⟨hnone, hbody⟩ := reload_keeps_rule hall
      have hshort := length_rstrip_le m.prior
      rw [← heq, replaceFirst_of_none hnone, trimEnd_trimEnd, hbody, hstripped] at hshort
      omega

/-! ## The marker line -/

def workerMarkerBody : List Re :=
  [.star isBlank, .star isRuleChar, .star isBlank, .wordCi "SUIVI", .star isBlank,
    .star isRuleChar, .star isBlank]

/-- The text is a marker line for the worker, without its line ends. -/
def IsWorkerMarker (t : Text) : Prop := (Re.seqs workerMarkerBody).Spells t

def ReloadMarker (q : Pos) (t : Text) (q' : Pos) : Prop :=
  q.Passes t q' ∧ IsMarker t ∧ Js.atLineStart q = true ∧ Js.atLineEnd q' = true

def WorkerMarker (q : Pos) (t : Text) (q' : Pos) : Prop :=
  q.Passes t q' ∧ IsWorkerMarker t ∧ q.atLineStart = true ∧ q'.atLineEnd = true

theorem reaches_reloadMarker : Reaches followupMarkerLine q q' ↔ ∃ t, ReloadMarker q t q' := by
  rw [reaches_marker]
  constructor
  · rintro ⟨hstart, t, ht, hpass, hend⟩
    exact ⟨t, hpass, ht, hstart, hend⟩
  · rintro ⟨t, hpass, ht, hstart, hend⟩
    exact ⟨hstart, t, ht, hpass, hend⟩

theorem reaches_workerMarker :
    Reaches Generate.followupMarkerRe q q' ↔ ∃ t, WorkerMarker q t q' := by
  have hsplit : Generate.followupMarkerRe = .seq (.check Pos.atLineStart)
      (.seqs (workerMarkerBody ++ [.check Pos.atLineEnd])) := rfl
  have hfree : (Re.seqs workerMarkerBody).Free := by simp [Re.seqs, workerMarkerBody, Re.wordCi]
  rw [hsplit, reaches_seq]
  simp only [reaches_check, reaches_then_check hfree]
  constructor
  · rintro ⟨_, ⟨hstart, rfl⟩, t, ht, hpass, hend⟩
    exact ⟨t, hpass, ht, hstart, hend⟩
  · rintro ⟨t, hpass, ht, hstart, hend⟩
    exact ⟨q, ⟨hstart, rfl⟩, t, ht, hpass, hend⟩

theorem IsMarker.isWorkerMarker (h : IsMarker t) : IsWorkerMarker t := by
  have hletter (p c : Char) (hc : Js.ciEq p c = true) : Text.ciEq p c = true := by
    rw [Js.ciEq] at hc
    simp only [Text.ciEq, hc, Bool.true_or]
  have hword (w : List Char) : ∀ {t : Text},
      (w.foldr (fun c r => Re.seq (.cls (Js.ciEq c)) r) .eps).Spells t →
      (w.foldr (fun c r => Re.seq (.cls (Text.ciEq c)) r) .eps).Spells t := by
    induction w with
    | nil => exact fun ht => ht
    | cons p w ih =>
      rintro _ ⟨_, v, ⟨c, hc, rfl⟩, hv, rfl⟩
      exact ⟨[c], v, ⟨c, hletter p c hc, rfl⟩, ih hv, rfl⟩
  obtain ⟨b₁, _, hb₁, ⟨r₁, _, hr₁, ⟨b₂, _, hb₂, ⟨w, v, hw, hv, rfl⟩, rfl⟩, rfl⟩, rfl⟩ := h
  exact ⟨b₁, _, hb₁, ⟨r₁, _, hr₁, ⟨b₂, _, hb₂, ⟨w, v, hword _ hw, hv, rfl⟩, rfl⟩, rfl⟩, rfl⟩

theorem IsWorkerMarker.inLine (h : IsWorkerMarker t) : ∀ c ∈ t, InLine c := by
  have hletter : ∀ pat ∈ "SUIVI".toList, ∀ c, Text.ciEq pat c = true → InLine c := by
    intro pat hpat c hc
    refine .inr ?_
    simp only [Text.ciEq, Bool.or_eq_true, Bool.and_eq_true, beq_iff_eq] at hc
    rcases hc with ((hc | ⟨-, rfl | rfl⟩) | ⟨-, rfl⟩) | ⟨hk, -⟩
    · exact not_isSpace_of_ciEq hpat (beq_iff_eq.2 hc)
    · decide
    · decide
    · decide
    · have hletters : ∀ p ∈ "SUIVI".toList, p.toLower ≠ 'k' := by decide
      exact absurd hk (hletters pat hpat)
  have hword : (Re.wordCi "SUIVI").Over InLine :=
    ⟨hletter _ (by decide), hletter _ (by decide), hletter _ (by decide), hletter _ (by decide),
      hletter _ (by decide), trivial⟩
  have hover : (Re.seqs workerMarkerBody).Over InLine :=
    ⟨fun _ => .inl, fun _ => inLine_of_ruleChar, fun _ => .inl, hword, fun _ => .inl,
      fun _ => inLine_of_ruleChar, fun _ => .inl, trivial⟩
  exact hover.mem h

def EitherMarker (q : Pos) (t : Text) (q' : Pos) : Prop := ReloadMarker q t q' ∨ WorkerMarker q t q'

theorem js_atLineStart (h : q.atLineStart = true) : Js.atLineStart q = true := by
  unfold Pos.atLineStart at h
  unfold Js.atLineStart
  cases hq : q.before with
  | nil => rfl
  | cons c cs =>
    rw [hq] at h
    rw [beq_iff_eq.1 h]
    rfl

theorem js_atLineEnd (h : q.atLineEnd = true) : Js.atLineEnd q = true := by
  unfold Pos.atLineEnd at h
  unfold Js.atLineEnd
  cases hq : q.after with
  | nil => rfl
  | cons c cs =>
    rw [hq] at h
    rw [beq_iff_eq.1 h]
    rfl

theorem EitherMarker.facts (h : EitherMarker q t q') :
    q.Passes t q' ∧ (∀ c ∈ t, InLine c) ∧ Js.atLineEnd q' = true := by
  rcases h with ⟨hpass, ht, -, hend⟩ | ⟨hpass, ht, -, hend⟩
  · exact ⟨hpass, ht.inLine, hend⟩
  · exact ⟨hpass, ht.inLine, js_atLineEnd hend⟩

/-- A marker line goes to the end of its line, so there is one at most from each position. -/
theorem EitherMarker.unique {p' : Pos} (h : EitherMarker q t q') (h' : EitherMarker q u p') :
    t = u ∧ q' = p' := by
  have hshorter {q' p' : Pos} {t u : Text} (h : EitherMarker q t q') (h' : EitherMarker q u p')
      {v : Text} (hu : u = t ++ v) (hv : q'.after = v ++ p'.after) : v = [] := by
    cases v with
    | nil => rfl
    | cons c v =>
      have hin := h'.facts.2.1 c (by simp [hu])
      have hend := h.facts.2.2
      rw [Js.atLineEnd, hv] at hend
      exact absurd hin.not_terminator (by simpa using hend)
  obtain ⟨hpass, -⟩ := h.facts
  obtain ⟨hpass', -⟩ := h'.facts
  have htu : t = u := by
    rcases List.append_eq_append_iff.1 (hpass.1.symm.trans hpass'.1) with
      ⟨v, hu, hv⟩ | ⟨v, ht, hv⟩
    · rw [hu, hshorter h h' hu hv, List.append_nil]
    · rw [ht, hshorter h' h ht hv, List.append_nil]
  subst htu
  refine ⟨rfl, ?_⟩
  cases q'; cases p'
  obtain ⟨h₁, h₂⟩ := hpass
  obtain ⟨h₁', h₂'⟩ := hpass'
  simp_all

/-- The position is that of the first marker line of the two readers. -/
def FirstMarker (answer : Text) (q : Pos) (t : Text) (q' : Pos) : Prop :=
  q.Of answer ∧ EitherMarker q t q' ∧
    ∀ p u p', p.Of answer → EitherMarker p u p' → q.before.length ≤ p.before.length

/-- The first line that one of the readers takes for the marker is written in ASCII letters and
stands between newlines or the ends of the answer. -/
def PlainMarker (answer : Text) : Prop :=
  ∀ q t q', FirstMarker answer q t q' → IsMarker t ∧ q.atLineStart = true ∧ q'.atLineEnd = true

theorem FirstMarker.found (h : FirstMarker answer q t q')
    (hr : ∀ {q q'}, Reaches r q q' ↔ ∃ t, M q t q')
    (hM : ∀ {q t q'}, M q t q' → EitherMarker q t q') (ht : M q t q') :
    (search r answer).map (fun m => (m.start, m.stop)) = some (q, q') := by
  obtain ⟨hq, heither, hfirst⟩ := h
  obtain ⟨m, hm⟩ := search_isSome hq (hr.2 ⟨t, ht⟩)
  obtain ⟨hstart, -, hreach⟩ := search_eq_some hm
  obtain ⟨u, hu⟩ := hr.1 hreach
  have hsame : m.start = q := hstart.eq hq (Nat.le_antisymm
    (search_leftmost hm hq (hr.2 ⟨t, ht⟩)) (hfirst _ _ _ hstart (hM hu)))
  rw [hsame] at hu
  rw [hm, Option.map_some, hsame, ((hM hu).unique heither).2]

theorem found_marker (hr : ∀ {q q'}, Reaches r q q' ↔ ∃ t, M q t q')
    (h : (search r answer).map (fun m => (m.start, m.stop)) = some (q, q')) : ∃ t, M q t q' := by
  obtain ⟨m, hm, hspot⟩ := Option.map_eq_some_iff.1 h
  obtain ⟨rfl, rfl⟩ := Prod.mk.inj hspot
  exact hr.1 (search_eq_some hm).2.2

theorem marker_eq_iff (answer : Text) :
    (search followupMarkerLine answer).map (fun m => (m.start, m.stop)) =
      (search Generate.followupMarkerRe answer).map (fun m => (m.start, m.stop)) ↔
    PlainMarker answer := by
  constructor
  · intro heq q t q' hfirst
    have hboth : ReloadMarker q t q' ∧ WorkerMarker q t q' := by
      rcases hfirst.2.1 with ht | ht
      · have hfound := hfirst.found reaches_reloadMarker .inl ht
        obtain ⟨u, hu⟩ := found_marker reaches_workerMarker (heq ▸ hfound)
        obtain ⟨rfl, -⟩ := hfirst.2.1.unique (.inr hu)
        exact ⟨ht, hu⟩
      · have hfound := hfirst.found reaches_workerMarker .inr ht
        obtain ⟨u, hu⟩ := found_marker reaches_reloadMarker (heq.trans hfound)
        obtain ⟨rfl, -⟩ := hfirst.2.1.unique (.inl hu)
        exact ⟨hu, ht⟩
    exact ⟨hboth.1.2.1, hboth.2.2.2⟩
  · intro hplain
    by_cases hsome : ∃ n, ∃ q t q', q.Of answer ∧ EitherMarker q t q' ∧ q.before.length = n
    · classical
      obtain ⟨q, t, q', hq, ht, hlength⟩ := Nat.find_spec hsome
      have hfirst : FirstMarker answer q t q' := ⟨hq, ht, fun p u p' hp hu =>
        hlength ▸ Nat.find_min' hsome ⟨p, u, p', hp, hu, rfl⟩⟩
      obtain ⟨hmarker, hstart, hend⟩ := hplain q t q' hfirst
      have hpass := ht.facts.1
      rw [hfirst.found reaches_reloadMarker .inl
          ⟨hpass, hmarker, js_atLineStart hstart, js_atLineEnd hend⟩,
        hfirst.found reaches_workerMarker .inr ⟨hpass, hmarker.isWorkerMarker, hstart, hend⟩]
    · have hnone {q q' : Pos} {t : Text} (hq : q.Of answer) (ht : EitherMarker q t q') : False :=
        hsome ⟨_, q, t, q', hq, ht, rfl⟩
      have hreload : search followupMarkerLine answer = none :=
        search_eq_none fun q q' hq hreach =>
          (reaches_reloadMarker.1 hreach).elim fun _ ht => hnone hq (.inl ht)
      have hworker : search Generate.followupMarkerRe answer = none :=
        search_eq_none fun q q' hq hreach =>
          (reaches_workerMarker.1 hreach).elim fun _ ht => hnone hq (.inr ht)
      rw [hreload, hworker]

/-! ## The answer -/

/-- The reload and the worker read an answer alike: they find the marker line at the same place or
not at all, and return the same questions and the same body up to trailing whitespace. -/
def SameReading (answer : Text) : Prop :=
  (search followupMarkerLine answer).map (fun m => (m.start, m.stop)) =
      (search Generate.followupMarkerRe answer).map (fun m => (m.start, m.stop)) ∧
    (parsePersistedAnswer answer).followups = (Generate.extractFollowups answer).2 ∧
    Text.rstrip (parsePersistedAnswer answer).text =
      Text.rstrip (Generate.extractFollowups answer).1

instance (answer : Text) : Decidable (SameReading answer) :=
  inferInstanceAs (Decidable (_ ∧ _ ∧ _))

/-- Where the characters that the two languages treat differently stand: not in or beside the first
marker line, not where one of them only trims the body, and not where a question line is cut. -/
def ReadAlike (answer : Text) : Prop :=
  PlainMarker answer ∧
    match search Generate.followupMarkerRe answer with
    | none => ∀ c ∈ answer.rtakeWhile Js.isSpace, Text.isSpace c = true
    | some m => (∀ line ∈ m.rest.splitOnP (· == '\n'), PlainLine line) ∧ SameEnd m.prior

/-- The reload finds what the worker found exactly in these answers. -/
theorem reload_matches_worker_iff (answer : Text) : SameReading answer ↔ ReadAlike answer := by
  unfold SameReading ReadAlike
  rw [marker_eq_iff]
  refine and_congr_right fun hplain => ?_
  have hspot := (marker_eq_iff answer).2 hplain
  unfold parsePersistedAnswer splitFollowupBlock Generate.extractFollowups
  cases hm : search Generate.followupMarkerRe answer with
  | none =>
    rw [hm] at hspot
    rw [Option.map_eq_none_iff.1 hspot]
    exact (and_iff_right rfl).trans (rstrip_trimEnd_iff answer)
  | some m =>
    rw [hm] at hspot
    obtain ⟨m', hm', hsame⟩ := Option.map_eq_some_iff.1 hspot
    obtain ⟨hstart, hstop⟩ := Prod.mk.inj hsame
    rw [hm']
    simp only [Match.prior, Match.rest, hstart, hstop]
    rw [questions_eq_iff]
    exact and_congr_right fun _ => body_eq_iff _

/-- Letters and line ends of other kinds do no harm inside the body or a question. -/
example : SameReading "Kadıköy\r\n et Bursa.\n---\n--- suivi ---\n- Quand ?\r\n* Où\x1fça ?".toList := by
  decide +kernel

/-- With CRLF line ends the reload finds the marker line and the worker does not. -/
theorem crlf_marker_missed :
    (parsePersistedAnswer "Oui.\r\nSUIVI\r\n- Qui ?".toList).followups = ["Qui ?".toList] ∧
      Generate.extractFollowups "Oui.\r\nSUIVI\r\n- Qui ?".toList =
        ("Oui.\r\nSUIVI\r\n- Qui ?".toList, []) := by
  decide +kernel

end Archiviste.Frontend
