import Archiviste.Base.Framing

/-!
# Archiviste.Base.Escape

A text cut at a separator, except where an escape character stands before it. An escape character
that is itself escaped escapes nothing, so the reader carries one bit: whether the next character
is escaped.

* `split`, `bareCount`           — the cuts, and how many there are.
* `bareCount_replaceChar_escape` — writing an escape before every separator frees those that were
  escaped, and only those.
-/

namespace Archiviste

/-- `s.replace(old, new)` for one character. -/
def Text.replaceChar (old : Char) (new : Text) (t : Text) : Text :=
  t.flatMap fun c => if c = old then new else [c]

theorem Text.replaceChar_cons (old : Char) (new : Text) (c : Char) (t : Text) :
    replaceChar old new (c :: t) = (if c = old then new else [c]) ++ replaceChar old new t := by
  simp [replaceChar]

variable {old : Char} {new : Text}

theorem Text.not_mem_replaceChar (h : old ∉ new) (t : Text) : old ∉ replaceChar old new t := by
  intro hmem
  obtain ⟨c, _, hc⟩ := List.mem_flatMap.1 hmem
  split at hc
  · exact h hc
  · next hne => exact hne (List.mem_singleton.1 hc).symm

theorem Text.mem_replaceChar {t : Text} {c : Char} (h : c ∈ replaceChar old new t) :
    c ∈ new ∨ c ∈ t := by
  obtain ⟨d, hd, hc⟩ := List.mem_flatMap.1 h
  split at hc
  · exact .inl hc
  · exact .inr (List.mem_singleton.1 hc ▸ hd)

namespace Escape

variable (esc sep : Char)

def next (pending : Bool) (c : Char) : Bool := c = esc && !pending

def after (pending : Bool) (t : Text) : Bool := t.foldl (next esc) pending

def split : Bool → Text → List Text
  | _, [] => [[]]
  | pending, c :: cs =>
    if c = sep ∧ pending = false then [] :: split false cs
    else Framing.pushText [c] (split (next esc pending c) cs)

example : split '\\' '|' false "a\\|b|\\\\|".toList =
    ["a\\|b".toList, "\\\\".toList, []] := by decide

/-- The separators of a text that are not escaped. -/
def bareCount : Bool → Text → Nat
  | _, [] => 0
  | pending, c :: cs =>
    (if c = sep ∧ pending = false then 1 else 0) + bareCount (next esc pending c) cs

def escapedCount : Bool → Text → Nat
  | _, [] => 0
  | pending, c :: cs =>
    (if c = sep ∧ pending = true then 1 else 0) + escapedCount (next esc pending c) cs

variable {esc sep}

variable {c : Char} {t : Text}

theorem next_of_ne (h : c ≠ esc) (pending : Bool) : next esc pending c = false := by
  simp [next, h]

@[simp] theorem after_nil (pending : Bool) : after esc pending [] = pending := rfl

@[simp] theorem after_cons (pending : Bool) (c : Char) (t : Text) :
    after esc pending (c :: t) = after esc (next esc pending c) t := rfl

theorem after_concat_of_ne (h : c ≠ esc) (pending : Bool) (t : Text) :
    after esc pending (t ++ [c]) = false := by
  rw [after, List.foldl_append]
  exact next_of_ne h _

theorem bareCount_append (pending : Bool) (s t : Text) :
    bareCount esc sep pending (s ++ t) =
      bareCount esc sep pending s + bareCount esc sep (after esc pending s) t := by
  induction s generalizing pending with
  | nil => simp [bareCount]
  | cons c s ih => simp only [List.cons_append, bareCount, after_cons, ih, Nat.add_assoc]

theorem length_pushText {ps : List Text} (h : ps ≠ []) :
    (Framing.pushText t ps).length = ps.length := by
  cases ps with
  | nil => exact absurd rfl h
  | cons p ps => rfl

theorem split_ne_nil (pending : Bool) (t : Text) : split esc sep pending t ≠ [] := by
  cases t with
  | nil => simp [split]
  | cons c t =>
    unfold split
    split
    · simp
    · exact Framing.pushText_ne_nil _ _

theorem length_split (hne : sep ≠ esc) (pending : Bool) (t : Text) :
    (split esc sep pending t).length = bareCount esc sep pending t + 1 := by
  induction t generalizing pending with
  | nil => rfl
  | cons c t ih =>
    unfold split bareCount
    split
    · next hcut =>
      rw [List.length_cons, ih, next_of_ne (hcut.1 ▸ hne)]
      omega
    · rw [length_pushText (split_ne_nil _ _), ih]
      omega

theorem split_append {pending : Bool} (hbare : bareCount esc sep pending t = 0)
    (hafter : after esc pending t = false) (s : Text) :
    split esc sep pending (t ++ sep :: s) = t :: split esc sep false s := by
  induction t generalizing pending with
  | nil =>
    rw [after_nil] at hafter
    simp [split, hafter]
  | cons c t ih =>
    unfold bareCount at hbare
    have hcut : ¬ (c = sep ∧ pending = false) := by
      intro hcut
      rw [if_pos hcut] at hbare
      omega
    rw [if_neg hcut, Nat.zero_add] at hbare
    rw [List.cons_append, split, if_neg hcut, ih hbare hafter]
    rfl

/-- After an escape before every separator, the separators that end a piece are those that were
escaped already: the two escapes then escape each other. -/
theorem bareCount_replaceChar_escape (hne : sep ≠ esc) (pending : Bool) (t : Text) :
    bareCount esc sep pending (Text.replaceChar sep [esc, sep] t) =
      escapedCount esc sep pending t := by
  induction t generalizing pending with
  | nil => rfl
  | cons c t ih =>
    rw [Text.replaceChar_cons]
    by_cases hc : c = sep
    · subst hc
      have hesc : next esc pending esc = !pending := by simp [next]
      have hsep : ∀ b, next esc b c = false := next_of_ne hne
      rw [if_pos rfl, List.cons_append, List.singleton_append]
      simp only [bareCount, escapedCount, hsep, ih, hesc, hne.symm, false_and, if_false, true_and]
      cases pending <;> simp
    · rw [if_neg hc, List.singleton_append]
      simp only [bareCount, escapedCount, ih, hc, false_and, if_false]

theorem bareCount_plain {w : Text} (hesc : esc ∉ w) (hsep : sep ∉ w) (pending : Bool) (t : Text)
    (hw : w ≠ []) :
    bareCount esc sep pending (w ++ t) = bareCount esc sep false t := by
  induction w generalizing pending with
  | nil => exact absurd rfl hw
  | cons d w ih =>
    have hd : d ≠ sep := fun he => hsep (by simp [he])
    have hnext : next esc pending d = false := next_of_ne (fun he => hesc (by simp [he])) _
    simp only [List.cons_append, bareCount, hd, false_and, if_false, hnext, Nat.zero_add]
    by_cases hnil : w = []
    · subst hnil; rfl
    · exact ih (fun h => hesc (List.mem_cons_of_mem d h)) (fun h => hsep (List.mem_cons_of_mem d h))
        false hnil

theorem bareCount_replaceChar_plain {old : Char} {new : Text} (holde : old ≠ esc)
    (holds : old ≠ sep) (hesc : esc ∉ new) (hsep : sep ∉ new) (hnew : new ≠ []) (pending : Bool)
    (t : Text) :
    bareCount esc sep pending (Text.replaceChar old new t) = bareCount esc sep pending t := by
  induction t generalizing pending with
  | nil => rfl
  | cons c t ih =>
    rw [Text.replaceChar_cons]
    by_cases hc : c = old
    · subst hc
      rw [if_pos rfl, bareCount_plain hesc hsep pending _ hnew, ih]
      simp [bareCount, holds, next_of_ne holde]
    · rw [if_neg hc, List.singleton_append]
      simp only [bareCount, ih]

end Escape
end Archiviste
