import Archiviste.Base.Js

/-!
# Archiviste.Base.Lines

Texts cut into lines at the characters of a class, each line read by a function, without the lines
read as empty (`readLines`). The lines of Python's `splitlines` and of the split at `/\r?\n/` are
read like those of a plain cut (`readLines_splitlines`, `readLines_splitLines`), so that the two
differ in the class of line ends only.

* `readLines_refine` — a finer cut cuts each line of a coarser one.
-/

namespace Archiviste.Lines

variable {ends : Char → Bool} {read : Text → Text}

theorem linesRule (ends : Char → Bool) {motive : Text → Prop}
    (line : ∀ t, (∀ c ∈ t, ends c = false) → motive t)
    (cut : ∀ t c rest, (∀ d ∈ t, ends d = false) → ends c = true → motive rest →
      motive (t ++ c :: rest)) (s : Text) : motive s := by
  induction hn : s.length using Nat.strong_induction_on generalizing s with
  | _ n ih =>
    have hfirst : ∀ c ∈ s.takeWhile (fun c => !ends c), ends c = false := fun c hc => by
      simpa using List.all_eq_true.1 List.all_takeWhile c hc
    have hsplit := List.takeWhile_append_dropWhile (p := fun c => !ends c) (l := s)
    cases hrest : s.dropWhile (fun c => !ends c) with
    | nil =>
      rw [hrest, List.append_nil] at hsplit
      exact line s (hsplit ▸ hfirst)
    | cons c rest =>
      have hc : ends c = true := by
        have := List.head?_dropWhile_not (fun c => !ends c) s
        simpa [hrest] using this
      rw [hrest] at hsplit
      have hlength := congrArg List.length hsplit
      rw [List.length_append, List.length_cons] at hlength
      rw [← hsplit]
      exact cut _ c rest hfirst hc (ih rest.length (by omega) rest rfl)

/-- The lines of a text as they are read, without the empty ones. -/
def readLines (ends : Char → Bool) (read : Text → Text) (s : Text) : List Text :=
  ((s.splitOnP ends).map read).filter (· ≠ [])

theorem readLines_eq_flatMap (s : Text) :
    readLines ends read s = (s.splitOnP ends).flatMap fun line => [read line].filter (· ≠ []) := by
  rw [readLines]
  induction s.splitOnP ends with
  | nil => rfl
  | cons line lines ih =>
    rw [List.map_cons, List.flatMap_cons, ← ih, ← List.singleton_append, List.filter_append]

variable {s : Text} {c : Char}

theorem readLines_of_line (h : ∀ c ∈ s, ends c = false) :
    readLines ends read s = [read s].filter (· ≠ []) := by
  rw [readLines, List.splitOnP_eq_singleton h, List.map_singleton]

theorem readLines_append {c : Char} (hc : ends c = true) (s t : Text) :
    readLines ends read (s ++ c :: t) = readLines ends read s ++ readLines ends read t := by
  rw [readLines, List.splitOnP_append_cons s t hc, List.map_append, List.filter_append]
  rfl

theorem of_mem_readLines {line : Text} (h : line ∈ readLines ends read s) :
    ∃ piece, line = read piece ∧ ∀ c ∈ piece, ends c = false := by
  induction s using linesRule ends with
  | line s hs =>
    rw [readLines_of_line hs] at h
    exact ⟨s, List.mem_singleton.1 (List.mem_filter.1 h).1, hs⟩
  | cut s c rest hs hc ih =>
    rw [readLines_append hc, readLines_of_line hs] at h
    rcases List.mem_append.1 h with h | h
    · exact ⟨s, List.mem_singleton.1 (List.mem_filter.1 h).1, hs⟩
    · exact ih h

theorem readLines_refine (coarse : Char → Bool) (h : ∀ c, coarse c = true → ends c = true)
    (s : Text) :
    readLines ends read s = (s.splitOnP coarse).flatMap (readLines ends read) := by
  induction s using linesRule coarse with
  | line s hs => rw [List.splitOnP_eq_singleton hs, List.flatMap_singleton]
  | cut s c rest hs hc ih =>
    rw [List.splitOnP_append_cons s rest hc, List.splitOnP_eq_singleton hs, List.flatMap_append,
      List.flatMap_singleton, readLines_append (h c hc), ih]

theorem count_readLines (hends : ends c = false) (hread : ∀ t, (read t).count c = t.count c)
    (s : Text) : (readLines ends read s).flatten.count c = s.count c := by
  induction s using linesRule ends with
  | line s hs =>
    rw [readLines_of_line hs, List.flatten_filter_ne_nil, List.flatten_singleton, hread]
  | cut s d rest hs hd ih =>
    have hne : d ≠ c := fun hdc => by simp [hdc, hends] at hd
    rw [readLines_append hd, readLines_of_line hs, List.flatten_append, List.flatten_filter_ne_nil,
      List.flatten_singleton, List.count_append, List.count_append, hread, ih,
      List.count_cons_of_ne hne]

/-! ## Space at the ends -/

section
variable {space : Char → Bool} (hfront : ∀ c t, space c = true → read (c :: t) = read t)
  (hback : ∀ c t, space c = true → read (t ++ [c]) = read t) (hnil : read [] = [])
include hnil

variable {w : Text}

include hfront in
theorem readLines_space_append (hw : ∀ c ∈ w, space c = true) (s : Text) :
    readLines ends read (w ++ s) = readLines ends read s := by
  induction w with
  | nil => rfl
  | cons c w ih =>
    rw [← ih fun d hd => hw d (List.mem_cons_of_mem c hd), readLines, readLines, List.cons_append,
      List.splitOnP_cons_eq_if_modifyHead]
    split
    · rw [List.map_cons, hnil, List.filter_cons_of_neg (by simp)]
    · obtain ⟨p, ps, hps⟩ := List.exists_cons_of_ne_nil (List.splitOnP_ne_nil ends (w ++ s))
      rw [hps, List.modifyHead_cons, List.map_cons, List.map_cons,
        hfront c p (hw c List.mem_cons_self)]

include hback in
theorem readLines_append_space (hw : ∀ c ∈ w, space c = true) (s : Text) :
    readLines ends read (s ++ w) = readLines ends read s := by
  induction s using linesRule ends with
  | cut s c rest hs hc ih =>
    rw [List.append_assoc, List.cons_append, readLines_append hc, readLines_append hc, ih]
  | line s hs =>
    induction w using List.reverseRecOn with
    | nil => rw [List.append_nil]
    | append_singleton w c ih =>
      rw [← ih fun d hd => hw d (List.mem_append_left _ hd), ← List.append_assoc]
      have hc := hw c (by simp)
      clear ih hw
      induction s ++ w using linesRule ends with
      | cut t d rest ht hd ih =>
        rw [List.append_assoc, List.cons_append, readLines_append hd, readLines_append hd, ih]
      | line t ht =>
        by_cases hends : ends c = true
        · rw [readLines_append hends, readLines_of_line (s := []) (by simp), hnil]
          exact List.append_nil _
        · rw [readLines_of_line ht, readLines_of_line (s := t ++ [c]), hback c t hc]
          intro d hd
          rcases List.mem_append.1 hd with hd | hd
          · exact ht d hd
          · rw [List.mem_singleton.1 hd]
            simpa using hends

end

/-! ## The lines of the two languages -/

def pushChar (c : Char) : List Text → List Text
  | [] => [[c]]
  | p :: ps => (c :: p) :: ps

theorem splitlines_push (hbreak : Text.isLineBreak c = false) (cs : Text) :
    Text.splitlines (c :: cs) = pushChar c (Text.splitlines cs) := by
  rw [Text.splitlines.eq_def]
  split
  · contradiction
  · next heq => cases heq; cases hbreak
  · next heq => cases heq; rw [hbreak]; rfl

theorem splitlines_line (h : ∀ c ∈ s, Text.isLineBreak c = false) :
    Text.splitlines s = [s].filter (· ≠ []) := by
  induction s with
  | nil => rfl
  | cons c s ih =>
    rw [splitlines_push (h c List.mem_cons_self), ih fun d hd => h d (List.mem_cons_of_mem c hd)]
    cases s <;> rfl

theorem splitlines_cut (h : ∀ c ∈ s, Text.isLineBreak c = false) (rest : Text) {lines : List Text}
    (hrest : Text.splitlines rest = [] :: lines) : Text.splitlines (s ++ rest) = s :: lines := by
  induction s with
  | nil => exact hrest
  | cons c s ih =>
    rw [List.cons_append, splitlines_push (h c List.mem_cons_self),
      ih fun d hd => h d (List.mem_cons_of_mem c hd)]
    rfl

theorem readLines_splitlines (hnil : read [] = []) (s : Text) :
    ((Text.splitlines s).map read).filter (· ≠ []) = readLines Text.isLineBreak read s := by
  induction s using linesRule Text.isLineBreak with
  | line s hs =>
    rw [splitlines_line hs, readLines_of_line hs]
    cases s with
    | nil => simp [hnil]
    | cons c s => simp
  | cut s c rest hs hc ih =>
    rw [readLines_append hc, readLines_of_line hs, ← ih]
    have hcut (lines : List Text) (h : Text.splitlines (c :: rest) = [] :: lines) :
        ((Text.splitlines (s ++ c :: rest)).map read).filter (· ≠ []) =
          [read s].filter (· ≠ []) ++ (lines.map read).filter (· ≠ []) := by
      rw [splitlines_cut hs _ h, List.map_cons, ← List.singleton_append, List.filter_append]
    by_cases hcrlf : c = '\r' ∧ ∃ cs, rest = '\n' :: cs
    · -- `\r\n` is one line end, and the empty line between the two is not read
      obtain ⟨rfl, cs, rfl⟩ := hcrlf
      rw [hcut (Text.splitlines cs) (by simp [Text.splitlines])]
      simp [Text.splitlines, Text.isLineBreak, hnil]
    · refine hcut _ ?_
      rw [Text.splitlines.eq_def]
      split
      · contradiction
      · next cs heq => cases heq; exact absurd ⟨rfl, cs, rfl⟩ hcrlf
      · next heq => cases heq; rw [if_pos hc]

theorem splitLines_push (hn : c ≠ '\n') {cs : Text} (hr : c = '\r' → cs.head? ≠ some '\n') :
    Js.splitLines (c :: cs) = pushChar c (Js.splitLines cs) := by
  rw [Js.splitLines.eq_def]
  split
  · contradiction
  · next heq => cases heq; contradiction
  · next heq => cases heq; exact absurd rfl (hr rfl)
  · next heq => cases heq; rfl

theorem splitLines_line (h : '\n' ∉ s) : Js.splitLines s = [s] := by
  induction s with
  | nil => rfl
  | cons c s ih =>
    have hs : '\n' ∉ s := fun hs => h (List.mem_cons_of_mem c hs)
    rw [splitLines_push (fun hc => h (hc ▸ List.mem_cons_self)) fun _ hhead =>
      hs (List.mem_of_mem_head? hhead), ih hs]
    rfl

/-- A line end takes one `\r` before it along. -/
theorem splitLines_cut (h : '\n' ∉ s) (rest : Text) :
    ∃ t, (s = t ∨ s = t ++ ['\r']) ∧ Js.splitLines (s ++ '\n' :: rest) = t :: Js.splitLines rest := by
  induction s with
  | nil => exact ⟨[], .inl rfl, by simp [Js.splitLines]⟩
  | cons c s ih =>
    have hc : c ≠ '\n' := fun hc => h (hc ▸ List.mem_cons_self)
    have hs : '\n' ∉ s := fun hs => h (List.mem_cons_of_mem c hs)
    by_cases hcr : c = '\r' ∧ s = []
    · obtain ⟨rfl, rfl⟩ := hcr
      exact ⟨[], .inr rfl, by simp [Js.splitLines]⟩
    · obtain ⟨t, ht, hsplit⟩ := ih hs
      refine ⟨c :: t, ht.imp (congrArg _) (congrArg _), ?_⟩
      rw [List.cons_append, splitLines_push hc, hsplit]
      · rfl
      · intro hr hhead
        cases s with
        | nil => exact hcr ⟨hr, rfl⟩
        | cons d s => exact hs (List.mem_of_mem_head? (l := d :: s) hhead)

theorem readLines_splitLines (hread : ∀ t, read (t ++ ['\r']) = read t) (s : Text) :
    ((Js.splitLines s).map read).filter (· ≠ []) = readLines (· == '\n') read s := by
  have hmem {t : Text} (ht : ∀ c ∈ t, (c == '\n') = false) : '\n' ∉ t := fun hn => by
    simpa using ht _ hn
  induction s using linesRule (· == '\n') with
  | line s hs => rw [splitLines_line (hmem hs), readLines_of_line hs, List.map_singleton]
  | cut s c rest hs hc ih =>
    have happend := @readLines_append (· == '\n') read c hc s rest
    obtain rfl : c = '\n' := by simpa using hc
    obtain ⟨t, ht, hsplit⟩ := splitLines_cut (hmem hs) rest
    have hline : read s = read t := by
      rcases ht with rfl | rfl
      · rfl
      · exact hread t
    rw [hsplit, happend, readLines_of_line hs, ← ih, hline, List.map_cons,
      ← List.singleton_append, List.filter_append]

end Archiviste.Lines
