import Mathlib.Data.List.Infix

/-!
# Archiviste.Base.Replace

`s.replace(old, new)` on lists over any alphabet: from left to right, without overlaps.

A list is often written out over a second alphabet, every item `a` as a word `f a`. Replacing in
the written text is replacing in the list as long as the text holds the word only where the list
does (`Aligned`).

* `replace_flatMap` — replacing in the written text.
-/

namespace Archiviste.Replace

variable {α β : Type}

section Scan

variable [DecidableEq α]

/-- The next `skip` items belong to the occurrence that was just replaced. -/
def go (old new : List α) : Nat → List α → List α
  | _, [] => []
  | skip + 1, _ :: l => go old new skip l
  | 0, a :: l =>
    if old <+: a :: l then new ++ go old new (old.length - 1) l else a :: go old new 0 l

/-- `l.replace(old, new)`, for `old` not empty. -/
def replace (old new l : List α) : List α := go old new 0 l

example : replace "aa".toList "b".toList "aaaxaa".toList = "baxb".toList := by decide

variable {old new : List α}

variable {a : α} {l : List α}

theorem go_match (h : old <+: a :: l) :
    go old new 0 (a :: l) = new ++ go old new (old.length - 1) l := if_pos h

theorem go_copy (h : ¬ old <+: a :: l) : go old new 0 (a :: l) = a :: go old new 0 l := if_neg h

theorem go_append {p : List α} (h : ∀ w, w ≠ [] → w <:+ p → ¬ old <+: w ++ l) :
    go old new 0 (p ++ l) = p ++ go old new 0 l := by
  induction p with
  | nil => rfl
  | cons a p ih =>
    have hhere : ¬ old <+: a :: (p ++ l) := h (a :: p) (by simp) List.suffix_rfl
    rw [List.cons_append, go_copy hhere, List.cons_append,
      ih fun w hw hsuf => h w hw (hsuf.trans (List.suffix_cons a p))]

theorem replace_absent (h : ¬ old <:+: l) : replace old new l = l := by
  have hcopy : go old new 0 (l ++ []) = l ++ go old new 0 [] := by
    refine go_append fun w _ hsuf hpre => ?_
    rw [List.append_nil] at hpre
    exact h (hpre.isInfix.trans hsuf.isInfix)
  rw [List.append_nil] at hcopy
  rw [replace, hcopy, go, List.append_nil]

/-- An item that the word does not have cuts the scan in two. -/
theorem go_append_cons {c : α} (hc : c ∉ old) (hne : old ≠ []) (k : Nat) (l r : List α)
    (hk : k ≤ l.length) : go old new k (l ++ c :: r) = go old new k l ++ c :: go old new 0 r := by
  induction l generalizing k with
  | nil =>
    obtain rfl : k = 0 := by simpa using hk
    have hcopy : ¬ old <+: c :: r := by
      intro hpre
      rcases List.prefix_cons_iff.mp hpre with hnil | ⟨t, ht, -⟩
      · exact hne hnil
      · exact hc (by simp [ht])
    rw [List.nil_append, go_copy hcopy, go, List.nil_append]
  | cons a l ih =>
    rcases k with _ | k
    · -- a match that reached `c` would have `c` in it
      have hmatch : old <+: a :: (l ++ c :: r) ↔ old <+: a :: l := by
        refine ⟨fun hpre => ?_, fun hpre => hpre.trans (List.prefix_append (a :: l) (c :: r))⟩
        rcases List.prefix_or_prefix_of_prefix hpre (List.prefix_append (a :: l) (c :: r)) with
          hshort | hlong
        · exact hshort
        · obtain ⟨t, rfl⟩ := hlong
          rw [← List.cons_append, List.prefix_append_right_inj] at hpre
          rcases List.prefix_cons_iff.mp hpre with rfl | ⟨t', rfl, -⟩
          · simp
          · simp at hc
      by_cases hpre : old <+: a :: l
      · have hlen := hpre.length_le
        rw [List.cons_append, go_match (hmatch.mpr hpre), go_match hpre, List.append_assoc,
          ih (old.length - 1) (by simp at hlen; omega)]
      · rw [List.cons_append, go_copy (mt hmatch.mp hpre), go_copy hpre, ih 0 (Nat.zero_le _),
          List.cons_append]
    · exact ih k (by simpa using hk)

theorem go_map {γ : Type} [DecidableEq γ] {f : α → γ} (hf : Function.Injective f) (k : Nat)
    (l : List α) : go (old.map f) (new.map f) k (l.map f) = (go old new k l).map f := by
  induction l generalizing k with
  | nil => simp [go]
  | cons a l ih =>
    rcases k with _ | k
    · have hmatch : old.map f <+: f a :: l.map f ↔ old <+: a :: l := by
        rw [← List.map_cons, List.prefix_map_iff_of_injective hf]
      by_cases hpre : old <+: a :: l
      · rw [List.map_cons, go_match (hmatch.mpr hpre), go_match hpre, List.length_map, ih,
          List.map_append]
      · rw [List.map_cons, go_copy (mt hmatch.mp hpre), go_copy hpre, ih, List.map_cons]
    · exact ih k

end Scan

/-! ## Replacing in the written text -/

/-- Where the word starts in the text as it is written, it starts in the list. -/
def Aligned (f : α → List β) (s l : List α) : Prop :=
  ∀ x, x <:+ l.flatMap f → s.flatMap f <+: x → ∃ y, y <:+ l ∧ y.flatMap f = x ∧ s <+: y

section Aligned

variable {f : α → List β} {s : List α} {a : α} {l : List α}

theorem Aligned.tail (hf : ∀ a, f a ≠ []) (h : Aligned f s (a :: l)) : Aligned f s l := by
  intro x hx hs
  obtain ⟨y, hy, hyx, hstart⟩ := h x (hx.trans (List.suffix_append _ _)) hs
  rcases List.suffix_cons_iff.mp hy with rfl | hy
  · have hlong := hx.length_le
    have hpos := List.length_pos_iff.mpr (hf a)
    rw [← hyx, List.flatMap_cons, List.length_append] at hlong
    omega
  · exact ⟨y, hy, hyx, hstart⟩

theorem Aligned.head (h : Aligned f s (a :: l)) {w : List β} (hw : w ≠ []) (hsuf : w <:+ f a)
    (hpre : s.flatMap f <+: w ++ l.flatMap f) : s <+: a :: l := by
  obtain ⟨u, hu⟩ := hsuf
  have hx : w ++ l.flatMap f <:+ (a :: l).flatMap f := ⟨u, by rw [List.flatMap_cons, ← hu]; simp⟩
  have hpos := List.length_pos_iff.mpr hw
  obtain ⟨y, hy, hyx, hstart⟩ := h _ hx hpre
  rcases List.suffix_cons_iff.mp hy with rfl | ⟨z, rfl⟩
  · exact hstart
  · have hlength := congrArg List.length hyx
    simp only [List.flatMap_append, List.length_append] at hlength
    omega

theorem length_flatMap_of_single (hs : ∀ a ∈ s, ∃ b, f a = [b]) :
    (s.flatMap f).length = s.length := by
  induction s with
  | nil => rfl
  | cons a s ih =>
    obtain ⟨b, hb⟩ := hs a (by simp)
    simp [hb, ih fun c hc => hs c (by simp [hc])]

variable [DecidableEq α] {new : List α}

theorem go_flatMap [DecidableEq β] (hf : ∀ a, f a ≠ []) (hne : s ≠ [])
    (hs : ∀ a ∈ s, ∃ b, f a = [b]) (k : Nat) (l : List α) (h : Aligned f s l)
    (hk : ∀ a ∈ l.take k, ∃ b, f a = [b]) :
    go (s.flatMap f) (new.flatMap f) k (l.flatMap f) = (go s new k l).flatMap f := by
  induction l generalizing k with
  | nil => simp [go]
  | cons a l ih =>
    rcases k with _ | k
    · have htail := h.tail hf
      by_cases hmatch : s <+: a :: l
      · obtain hnil | ⟨t, ht, hrest⟩ := List.prefix_cons_iff.mp hmatch
        · exact absurd hnil hne
        obtain ⟨b, hb⟩ := hs a (by simp [ht])
        have hpre : s.flatMap f <+: b :: l.flatMap f := by
          have hwritten := hmatch.flatMap f
          rwa [List.flatMap_cons, hb] at hwritten
        have hskip : ∀ c ∈ l.take (s.length - 1), ∃ b, f c = [b] := by
          intro c hc
          rw [ht, List.length_cons, Nat.add_sub_cancel, ← List.prefix_iff_eq_take.mp hrest] at hc
          exact hs c (by simp [ht, hc])
        rw [go_match hmatch, List.flatMap_cons, hb, List.singleton_append, go_match hpre,
          length_flatMap_of_single hs, ih _ htail hskip, List.flatMap_append]
      · rw [go_copy hmatch, List.flatMap_cons, go_append, ih 0 htail (by simp), List.flatMap_cons]
        exact fun w hw hsuf hpre => hmatch (h.head hw hsuf hpre)
    · obtain ⟨b, hb⟩ := hk a (by simp)
      rw [List.flatMap_cons, hb, List.singleton_append, go, go]
      exact ih k (h.tail hf) fun c hc => hk c (by simp [hc])

theorem replace_flatMap [DecidableEq β] (hf : ∀ a, f a ≠ []) (hne : s ≠ [])
    (hs : ∀ a ∈ s, ∃ b, f a = [b]) (h : Aligned f s l) :
    replace (s.flatMap f) (new.flatMap f) (l.flatMap f) = (replace s new l).flatMap f :=
  go_flatMap hf hne hs 0 l h (by simp)

end Aligned

end Archiviste.Replace
