import Archiviste.Base.Text

/-!
# Archiviste.Base.Framing

A text cut at its empty lines, as a reader does that receives it in pieces: `splitBlocks` is
`text.split("\n\n")`, leftmost separators first. The reader keeps the last block, which may still
grow, and puts the next piece after it.

* `splitBlocks_append` — the blocks of a text and of what follows it.
-/

namespace Archiviste.Framing

def pushText (t : Text) : List Text → List Text
  | [] => [t]
  | p :: ps => (t ++ p) :: ps

def splitBlocks : Text → List Text
  | [] => [[]]
  | '\n' :: '\n' :: cs => [] :: splitBlocks cs
  | c :: cs => pushText [c] (splitBlocks cs)

example : splitBlocks "a\nb\n\n\nc\n\n".toList =
    ["a\nb".toList, "\nc".toList, []] := by decide

def lastBlock (s : Text) : Text := (splitBlocks s).getLastD []

theorem pushText_ne_nil (t : Text) (ps : List Text) : pushText t ps ≠ [] := by
  cases ps <;> simp [pushText]

theorem splitBlocks_ne_nil (s : Text) : splitBlocks s ≠ [] := by
  fun_cases splitBlocks s
  · simp
  · simp
  · exact pushText_ne_nil _ _

theorem splitBlocks_cons_of {c : Char} {cs : Text} (h : ¬ (c = '\n' ∧ ∃ cs', cs = '\n' :: cs')) :
    splitBlocks (c :: cs) = pushText [c] (splitBlocks cs) := by
  rw [splitBlocks.eq_def]
  split
  · contradiction
  · next heq => cases heq; exact absurd ⟨rfl, _, rfl⟩ h
  · next heq => cases heq; rfl

theorem pushText_append {t : Text} {ps qs : List Text} (h : ps ≠ []) :
    pushText t (ps ++ qs) = pushText t ps ++ qs := by
  cases ps with
  | nil => exact absurd rfl h
  | cons p ps => rfl

variable {s l : Text}

theorem splitBlocks_single (h : ∀ a b, s ≠ a ++ '\n' :: '\n' :: b) : splitBlocks s = [s] := by
  induction s with
  | nil => rfl
  | cons c cs ih =>
    rw [splitBlocks_cons_of, ih]
    · rfl
    · exact fun a b heq => h (c :: a) b (by rw [heq]; rfl)
    · rintro ⟨rfl, cs', rfl⟩
      exact h [] cs' rfl

theorem eq_of_splitBlocks_single {p : Text} (h : splitBlocks s = [p]) : p = s := by
  fun_induction splitBlocks s generalizing p with
  | case1 => simpa using h.symm
  | case2 cs ih =>
    rw [List.cons.injEq] at h
    exact absurd h.2 (splitBlocks_ne_nil cs)
  | case3 c cs hne ih =>
    cases hcs : splitBlocks cs with
    | nil => exact absurd hcs (splitBlocks_ne_nil cs)
    | cons q qs =>
      rw [hcs, pushText, List.cons.injEq] at h
      obtain ⟨rfl, rfl⟩ := h
      rw [ih hcs]
      rfl

theorem splitBlocks_append (s t : Text) :
    splitBlocks (s ++ t) = (splitBlocks s).dropLast ++ splitBlocks (lastBlock s ++ t) := by
  unfold lastBlock
  fun_induction splitBlocks s with
  | case1 => rfl
  | case2 cs ih =>
    obtain ⟨p, ps, hcs⟩ := List.exists_cons_of_ne_nil (splitBlocks_ne_nil cs)
    rw [hcs] at ih ⊢
    show [] :: splitBlocks (cs ++ t) = _
    rw [ih]
    simp
  | case3 c cs hne ih =>
    cases hcs : splitBlocks cs with
    | nil => exact absurd hcs (splitBlocks_ne_nil cs)
    | cons p ps =>
      cases ps with
      | nil =>
        -- no separator in `c :: cs`: all of it is kept
        rw [eq_of_splitBlocks_single hcs]
        rfl
      | cons q qs =>
        have hnext : ¬ (c = '\n' ∧ ∃ cs', cs ++ t = '\n' :: cs') := by
          rintro ⟨hc, cs', heq⟩
          cases cs with
          | nil => simp [splitBlocks] at hcs
          | cons d ds =>
            rw [List.cons_append, List.cons.injEq] at heq
            exact hne ds hc (by rw [heq.1])
        rw [List.cons_append, splitBlocks_cons_of hnext, ih, hcs,
          pushText_append (by simp)]
        simp [pushText]

theorem splitBlocks_lastBlock (s : Text) : splitBlocks (lastBlock s) = [lastBlock s] := by
  have h := splitBlocks_append s []
  obtain ⟨ps, p, hs⟩ := List.eq_nil_or_concat (splitBlocks s) |>.resolve_left (splitBlocks_ne_nil s)
  rw [List.append_nil, List.append_nil, lastBlock, hs] at h
  rw [lastBlock, hs]
  simpa using h.symm

theorem splitBlocks_line (hl : '\n' ∉ l) (s : Text) :
    splitBlocks (l ++ s) = pushText l (splitBlocks s) := by
  obtain ⟨p, ps, hs⟩ := List.exists_cons_of_ne_nil (splitBlocks_ne_nil s)
  induction l with
  | nil => rw [hs]; simpa [pushText] using hs
  | cons c l ih =>
    simp only [List.mem_cons, not_or] at hl
    rw [List.cons_append, splitBlocks_cons_of fun h => hl.1 h.1.symm, ih hl.2, hs]
    rfl

theorem splitBlocks_of_count (h : s.count '\n' ≤ 1) : splitBlocks s = [s] := by
  refine splitBlocks_single fun a b heq => ?_
  rw [heq, List.count_append, List.count_cons_self, List.count_cons_self] at h
  omega

theorem splitBlocks_lines {l' : Text} (hl : '\n' ∉ l) (hl' : '\n' ∉ l') (hne : l' ≠ []) (s : Text) :
    splitBlocks (l ++ '\n' :: l' ++ s) = pushText (l ++ '\n' :: l') (splitBlocks s) := by
  have hnext : ¬ ('\n' = '\n' ∧ ∃ cs', l' ++ s = '\n' :: cs') := by
    rintro ⟨-, cs', heq⟩
    obtain ⟨c, cs, rfl⟩ := List.exists_cons_of_ne_nil hne
    rw [List.cons_append, List.cons.injEq] at heq
    exact hl' (heq.1 ▸ List.mem_cons_self)
  obtain ⟨p, ps, hs⟩ := List.exists_cons_of_ne_nil (splitBlocks_ne_nil s)
  rw [List.append_assoc, List.cons_append, splitBlocks_line hl, splitBlocks_cons_of hnext,
    splitBlocks_line hl', hs]
  simp [pushText]

end Archiviste.Framing
