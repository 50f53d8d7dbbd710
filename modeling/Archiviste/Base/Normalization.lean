import Mathlib.Data.List.Sort

/-!
# Archiviste.Base.Normalization

Normal forms of texts, and the composed compatibility form over a table of characters: every
character is replaced by its decomposition, the marks between two starters are sorted by class, and
what stands behind a starter is composed with it where nothing blocks it.

Dropping characters after normalising does not give a normal form in general: two characters that
compose may have stood on both sides of a dropped one.

* `NormalForm`            — the laws of a normal form, with characters that are boundaries in it.
* `NormalForm.clean_idem_iff` — normalising and then dropping boundaries is a normal form exactly
  when dropping first gives the same; a second round always is (`NormalForm.norm_clean_clean`).
* `NormalForm.clean_eq_pieces` — the pieces between the dropped characters are normalised apart;
  `NormalForm.norm_flatten` says when that is the normal form of the whole.
* `Table.normalForm_nfkc` — the composed form obeys the laws, for every table.
-/

namespace Archiviste.Normalization

variable {α : Type}

/-! ## Normal forms -/

/-- A part may be normalised before the whole, and an inert character is a boundary that is never
made. -/
structure NormalForm (inert : α → Prop) (norm : List α → List α) : Prop where
  empty : norm [] = []
  absorb : ∀ r s t, norm (r ++ norm s ++ t) = norm (r ++ s ++ t)
  boundary : ∀ {c}, inert c → ∀ s t, norm (s ++ c :: t) = norm s ++ c :: norm t
  fresh : ∀ {c}, inert c → ∀ {t}, c ∈ norm t → c ∈ t

/-- A character that is never joined to what stands before it. -/
def Opens (norm : List α → List α) (c : α) : Prop :=
  ∀ s t, norm (s ++ c :: t) = norm s ++ norm (c :: t)

def strip (removed : α → Bool) (t : List α) : List α := t.filter fun c => !removed c

def clean (norm : List α → List α) (removed : α → Bool) (t : List α) : List α :=
  strip removed (norm t)

theorem strip_append (removed : α → Bool) (s t : List α) :
    strip removed (s ++ t) = strip removed s ++ strip removed t := List.filter_append ..

variable {removed : α → Bool} {c : α} {t : List α}

theorem strip_cons_removed (h : removed c = true) (t : List α) :
    strip removed (c :: t) = strip removed t :=
  List.filter_cons_of_neg (by simp [h])

theorem strip_eq_self : strip removed t = t ↔ ∀ c ∈ t, removed c = false := by
  simp [strip, List.filter_eq_self]

theorem removed_of_mem_strip (h : c ∈ strip removed t) : removed c = false := by
  simpa using (List.mem_filter.mp h).2

theorem clean_of_normal {norm : List α → List α} (hnorm : norm t = t)
    (hplain : ∀ c ∈ t, removed c = false) : clean norm removed t = t := by
  rw [clean, hnorm]
  exact strip_eq_self.mpr hplain

namespace NormalForm

variable {inert : α → Prop} {norm : List α → List α} (h : NormalForm inert norm)
include h

theorem idem (t : List α) : norm (norm t) = norm t := by
  have habsorb := h.absorb [] t []
  simpa using habsorb

theorem norm_append (s t : List α) : norm (norm s ++ norm t) = norm (s ++ t) := by
  have hleft := h.absorb [] s (norm t)
  have hright := h.absorb s t []
  simp only [List.nil_append, List.append_nil] at hleft hright
  rw [hleft, hright]

variable {c : α} {t : List α}

theorem opens (hc : inert c) : Opens norm c := by
  intro s t
  have hhead := h.boundary hc [] t
  rw [h.empty, List.nil_append, List.nil_append] at hhead
  rw [h.boundary hc, hhead]

theorem norm_flatten {ps : List (List α)} (hps : ∀ p ∈ ps.tail, ∀ c ∈ p.head?, Opens norm c) :
    norm ps.flatten = (ps.map norm).flatten := by
  have hjoin : ∀ (qs : List (List α)), (∀ q ∈ qs, ∀ c ∈ q.head?, Opens norm c) →
      ∀ s, norm (s ++ qs.flatten) = norm s ++ (qs.map norm).flatten := by
    intro qs
    induction qs with
    | nil => intro _ s; simp
    | cons q qs ih =>
      intro hqs s
      have hrest := ih fun q' hq' => hqs q' (List.mem_cons_of_mem q hq')
      cases q with
      | nil => simpa [h.empty] using hrest s
      | cons c q =>
        have hopens := hqs (c :: q) List.mem_cons_self c rfl
        rw [List.flatten_cons, List.cons_append, hopens, ← List.cons_append, hrest, List.map_cons,
          List.flatten_cons]
  cases ps with
  | nil => exact h.empty
  | cons p ps => exact hjoin ps hps p

variable {removed : α → Bool} (hinert : ∀ c, removed c = true → inert c)
include hinert

theorem norm_plain (ht : ∀ c ∈ t, removed c = false) : ∀ c ∈ norm t, removed c = false := by
  intro c hc
  by_contra hne
  have hremoved : removed c = true := by simpa using hne
  have hmem := h.fresh (hinert c hremoved) hc
  exact hne (ht c hmem)

theorem clean_eq_norm (ht : ∀ c ∈ t, removed c = false) : clean norm removed t = norm t :=
  strip_eq_self.mpr (h.norm_plain hinert ht)

theorem clean_append (hc : removed c = true) (s t : List α) :
    clean norm removed (s ++ c :: t) = clean norm removed s ++ clean norm removed t := by
  rw [clean, h.boundary (hinert c hc), strip_append, strip_cons_removed hc]
  rfl

theorem norm_clean (t : List α) : norm (clean norm removed t) = norm (strip removed t) := by
  by_cases hplain : ∀ c ∈ t, removed c = false
  · rw [h.clean_eq_norm hinert hplain, strip_eq_self.mpr hplain, h.idem]
  · -- cut at a character that is dropped, and take the two parts
    obtain ⟨c, hmem, hc⟩ : ∃ c ∈ t, removed c = true := by simpa using hplain
    obtain ⟨u, v, rfl⟩ := List.append_of_mem hmem
    have hu := norm_clean u
    have hv := norm_clean v
    rw [h.clean_append hinert hc, strip_append, strip_cons_removed hc, ← h.norm_append, hu, hv,
      h.norm_append]
termination_by t.length
decreasing_by
  all_goals subst_vars; simp only [List.length_append, List.length_cons]; omega

theorem clean_clean_eq (t : List α) :
    clean norm removed (clean norm removed t) = norm (strip removed t) := by
  have hplain : ∀ c ∈ clean norm removed t, removed c = false := fun c hc => removed_of_mem_strip hc
  rw [h.clean_eq_norm hinert hplain, h.norm_clean hinert]

theorem clean_eq_pieces (t : List α) :
    clean norm removed t = ((t.splitOnP removed).map norm).flatten ∧
      strip removed t = (t.splitOnP removed).flatten := by
  by_cases hplain : ∀ c ∈ t, removed c = false
  · rw [h.clean_eq_norm hinert hplain, strip_eq_self.mpr hplain, List.splitOnP_eq_singleton hplain]
    simp
  · obtain ⟨c, hmem, hc⟩ : ∃ c ∈ t, removed c = true := by simpa using hplain
    obtain ⟨u, v, rfl⟩ := List.append_of_mem hmem
    obtain ⟨hcleanU, hstripU⟩ := clean_eq_pieces u
    obtain ⟨hcleanV, hstripV⟩ := clean_eq_pieces v
    rw [h.clean_append hinert hc, strip_append, strip_cons_removed hc, hcleanU, hcleanV, hstripU,
      hstripV, List.splitOnP_append_cons u v hc, List.map_append, List.flatten_append,
      List.flatten_append]
    exact ⟨rfl, rfl⟩
termination_by t.length
decreasing_by
  all_goals subst_vars; simp only [List.length_append, List.length_cons]; omega

theorem norm_clean_iff (t : List α) :
    norm (clean norm removed t) = clean norm removed t ↔
      clean norm removed t = norm (strip removed t) := by
  rw [h.norm_clean hinert]
  exact eq_comm

theorem clean_idem_iff (t : List α) :
    clean norm removed (clean norm removed t) = clean norm removed t ↔
      clean norm removed t = norm (strip removed t) := by
  rw [h.clean_clean_eq hinert]
  exact eq_comm

/-- Two rounds are enough. -/
theorem norm_clean_clean (t : List α) :
    norm (clean norm removed (clean norm removed t)) =
      clean norm removed (clean norm removed t) := by
  rw [h.clean_clean_eq hinert, h.idem]

end NormalForm

/-! ## Tables -/

/-- The data of the characters. Decompositions are full, a composite decomposes as its two parts,
and only a starter is composed with what follows it. -/
structure Table (α : Type) where
  decomposition : α → List α
  combiningClass : α → Nat
  composite : α → α → Option α
  full : ∀ c, ∀ d ∈ decomposition c, decomposition d = [d]
  parts : ∀ {a b c}, composite a b = some c → decomposition c = decomposition a ++ decomposition b
  starter : ∀ {a b c}, composite a b = some c → combiningClass a = 0

namespace Table

variable (T : Table α)

/-- `a` may stand before `b`: a starter is not passed, and marks stand in the order of their
classes. -/
def Ordered (a b : α) : Prop := T.combiningClass b = 0 ∨ T.combiningClass a ≤ T.combiningClass b

instance : DecidableRel T.Ordered := fun a b =>
  inferInstanceAs (Decidable (T.combiningClass b = 0 ∨ T.combiningClass a ≤ T.combiningClass b))

def expand (t : List α) : List α := t.flatMap T.decomposition

/-- The marks between two starters are sorted by class; marks of one class keep their order. -/
def reorder (t : List α) : List α := t.insertionSort T.Ordered

def decomposed (t : List α) : List α := T.reorder (T.expand t)

/-- A mark between the starter and `d` whose class is not smaller. -/
def Blocked (skipped : List α) (d : α) : Prop :=
  ∃ b ∈ skipped, T.combiningClass d ≤ T.combiningClass b

instance (skipped : List α) (d : α) : Decidable (T.Blocked skipped d) :=
  inferInstanceAs (Decidable (∃ b ∈ skipped, T.combiningClass d ≤ T.combiningClass b))

/-- The loop of the composition: the last starter, the marks behind it that were not composed with
it, and what is still to be read. -/
def composeFrom : α → List α → List α → List α
  | a, skipped, [] => a :: skipped
  | a, skipped, d :: rest =>
    match if T.Blocked skipped d then none else T.composite a d with
    | some c => composeFrom c skipped rest
    | none =>
      if T.combiningClass d = 0 then a :: (skipped ++ composeFrom d [] rest)
      else composeFrom a (skipped ++ [d]) rest

def compose : List α → List α
  | [] => []
  | a :: rest => T.composeFrom a [] rest

def nfkc (t : List α) : List α := T.compose (T.decomposed t)

/-! ## Sorting -/

variable {T}

variable {c : α} {t : List α}

theorem orderedInsert_starter (hc : T.combiningClass c = 0) (a : α) (s t : List α) :
    (s ++ c :: t).orderedInsert T.Ordered a = s.orderedInsert T.Ordered a ++ c :: t := by
  induction s with
  | nil => exact List.orderedInsert_cons_of_le _ t (.inl hc)
  | cons b s ih =>
    by_cases hb : T.Ordered a b
    · rw [List.cons_append, List.orderedInsert_cons_of_le _ _ hb,
        List.orderedInsert_cons_of_le _ _ hb, List.cons_append, List.cons_append]
    · rw [List.cons_append, List.orderedInsert_of_not_le _ _ hb, ih,
        List.orderedInsert_of_not_le _ _ hb, List.cons_append]

theorem orderedInsert_comm {a b : α} (ha : 0 < T.combiningClass a)
    (hab : T.combiningClass a < T.combiningClass b) (t : List α) :
    (t.orderedInsert T.Ordered a).orderedInsert T.Ordered b =
      (t.orderedInsert T.Ordered b).orderedInsert T.Ordered a := by
  have hordered : T.Ordered a b := .inr hab.le
  have hpassed : ¬ T.Ordered b a := by
    rintro (hzero | hle) <;> omega
  induction t with
  | nil =>
    rw [List.orderedInsert_nil, List.orderedInsert_nil, List.orderedInsert_of_not_le _ _ hpassed,
      List.orderedInsert_cons_of_le _ _ hordered, List.orderedInsert_nil]
  | cons d t ih =>
    by_cases hd : T.Ordered a d
    · -- `a` stops before `d`, and before `b` if `b` does
      rw [List.orderedInsert_cons_of_le _ _ hd, List.orderedInsert_of_not_le _ _ hpassed]
      by_cases hbd : T.Ordered b d
      · rw [List.orderedInsert_cons_of_le _ _ hbd, List.orderedInsert_cons_of_le _ _ hordered]
      · rw [List.orderedInsert_of_not_le _ _ hbd, List.orderedInsert_cons_of_le _ _ hd]
    · have hbd : ¬ T.Ordered b d := by
        rintro (hzero | hle)
        · exact hd (.inl hzero)
        · exact hd (.inr (by omega))
      rw [List.orderedInsert_of_not_le _ _ hd, List.orderedInsert_of_not_le _ _ hbd,
        List.orderedInsert_of_not_le _ _ hbd, List.orderedInsert_of_not_le _ _ hd, ih]

theorem reorder_cons (a : α) (t : List α) :
    T.reorder (a :: t) = (T.reorder t).orderedInsert T.Ordered a := rfl

theorem reorder_congr_right (s : List α) {t' : List α} (h : T.reorder t = T.reorder t') :
    T.reorder (s ++ t) = T.reorder (s ++ t') := by
  induction s with
  | nil => exact h
  | cons a s ih => rw [List.cons_append, List.cons_append, reorder_cons, reorder_cons, ih]

theorem reorder_orderedInsert (a : α) (s t : List α) :
    T.reorder (s.orderedInsert T.Ordered a ++ t) = T.reorder (a :: (s ++ t)) := by
  induction s with
  | nil => rfl
  | cons b s ih =>
    by_cases hb : T.Ordered a b
    · rw [List.orderedInsert_cons_of_le _ _ hb, List.cons_append]
    · obtain ⟨hzero, hlt⟩ := not_or.mp hb
      rw [List.orderedInsert_of_not_le _ _ hb, List.cons_append, reorder_cons, ih, reorder_cons,
        reorder_cons a, List.cons_append, reorder_cons b]
      exact (orderedInsert_comm (Nat.pos_of_ne_zero hzero) (Nat.lt_of_not_le hlt) _).symm

theorem reorder_append_left (s t : List α) :
    T.reorder (T.reorder s ++ t) = T.reorder (s ++ t) := by
  induction s with
  | nil => rfl
  | cons a s ih => rw [reorder_cons, reorder_orderedInsert, reorder_cons, ih, List.cons_append,
      reorder_cons]

theorem reorder_reorder (t : List α) : T.reorder (T.reorder t) = T.reorder t := by
  have happend := reorder_append_left (T := T) t []
  rwa [List.append_nil, List.append_nil] at happend

theorem reorder_move {d : α} {skipped : List α} (hmarks : ∀ b ∈ skipped, 0 < T.combiningClass b)
    (hfree : ¬ T.Blocked skipped d) (t : List α) :
    T.reorder (d :: (skipped ++ t)) = T.reorder (skipped ++ d :: t) := by
  induction skipped with
  | nil => rfl
  | cons b skipped ih =>
    have hb : 0 < T.combiningClass b := hmarks b List.mem_cons_self
    have hlt : T.combiningClass b < T.combiningClass d := by
      by_contra hle
      exact hfree ⟨b, List.mem_cons_self, Nat.le_of_not_lt hle⟩
    have hrest : ¬ T.Blocked skipped d := by
      rintro ⟨b', hmem, hle⟩
      exact hfree ⟨b', List.mem_cons_of_mem _ hmem, hle⟩
    have hnext := ih (fun b' hmem => hmarks b' (List.mem_cons_of_mem _ hmem)) hrest
    rw [List.cons_append, List.cons_append, reorder_cons, reorder_cons, orderedInsert_comm hb hlt,
      reorder_cons b, ← hnext, reorder_cons d]

theorem reorder_starter (hc : T.combiningClass c = 0) (s t : List α) :
    T.reorder (s ++ c :: t) = T.reorder s ++ c :: T.reorder t := by
  have hhead : T.reorder (c :: t) = c :: T.reorder t := by
    rw [reorder_cons]
    cases T.reorder t with
    | nil => rfl
    | cons b u => exact List.orderedInsert_cons_of_le _ u (.inr (by omega))
  induction s with
  | nil => exact hhead
  | cons a s ih => rw [List.cons_append, reorder_cons, ih, orderedInsert_starter hc, reorder_cons]

/-! ## Decomposing -/

theorem expand_append (s t : List α) : T.expand (s ++ t) = T.expand s ++ T.expand t :=
  List.flatMap_append

theorem expand_cons (a : α) (t : List α) : T.expand (a :: t) = T.decomposition a ++ T.expand t :=
  List.flatMap_cons

def Full (T : Table α) (t : List α) : Prop := ∀ d ∈ t, T.decomposition d = [d]

theorem expand_of_full (h : T.Full t) : T.expand t = t := by
  induction t with
  | nil => rfl
  | cons d t ih =>
    rw [expand_cons, h d List.mem_cons_self, ih fun e he => h e (List.mem_cons_of_mem d he)]
    rfl

theorem full_decomposed (t : List α) : T.Full (T.decomposed t) := by
  intro d hd
  obtain ⟨c, -, hdc⟩ := List.mem_flatMap.mp ((List.mem_insertionSort _).mp hd)
  exact T.full c d hdc

theorem decomposed_append (s t : List α) :
    T.decomposed (s ++ t) = T.reorder (T.decomposed s ++ T.decomposed t) := by
  rw [decomposed, expand_append, decomposed, reorder_append_left]
  exact reorder_congr_right _ (reorder_reorder _).symm

/-! ## Composing -/

/-- What one turn of the loop does: it composes, closes the starter or skips a mark. -/
theorem composeFrom_cons (a d : α) (skipped : List α) :
    (∃ c, T.composite a d = some c ∧ ¬ T.Blocked skipped d ∧
        ∀ rest, T.composeFrom a skipped (d :: rest) = T.composeFrom c skipped rest) ∨
      (T.combiningClass d = 0 ∧ ∀ rest,
        T.composeFrom a skipped (d :: rest) = a :: (skipped ++ T.composeFrom d [] rest)) ∨
      (0 < T.combiningClass d ∧ ∀ rest,
        T.composeFrom a skipped (d :: rest) = T.composeFrom a (skipped ++ [d]) rest) := by
  cases hstep : (if T.Blocked skipped d then none else T.composite a d) with
  | some c =>
    obtain ⟨hfree, hc⟩ : ¬ T.Blocked skipped d ∧ T.composite a d = some c := by simpa using hstep
    exact .inl ⟨c, hc, hfree, fun rest => by rw [composeFrom, hstep]⟩
  | none =>
    by_cases hzero : T.combiningClass d = 0
    · exact .inr (.inl ⟨hzero, fun rest => by rw [composeFrom, hstep, if_pos hzero]⟩)
    · exact .inr (.inr ⟨Nat.pos_of_ne_zero hzero, fun rest => by
        rw [composeFrom, hstep, if_neg hzero]⟩)

theorem Full.append {s : List α} (hs : T.Full s) (ht : T.Full t) : T.Full (s ++ t) :=
  fun d hd => (List.mem_append.mp hd).elim (hs d) (ht d)

theorem decomposed_composeFrom (rest : List α) : ∀ (a : α) (skipped : List α),
    (∀ b ∈ skipped, 0 < T.combiningClass b) → T.Full skipped → T.Full rest →
      T.decomposed (T.composeFrom a skipped rest) =
        T.reorder (T.decomposition a ++ (skipped ++ rest)) := by
  induction rest with
  | nil =>
    intro a skipped _ hskipped _
    rw [composeFrom, decomposed, expand_cons, expand_of_full hskipped, List.append_nil]
  | cons d rest ih =>
    intro a skipped hmarks hskipped hfull
    have hd : T.decomposition d = [d] := hfull d List.mem_cons_self
    have hrest : T.Full rest := fun e he => hfull e (List.mem_cons_of_mem d he)
    rcases composeFrom_cons (T := T) a d skipped with
      ⟨c, hc, hfree, hstep⟩ | ⟨-, hstep⟩ | ⟨hpos, hstep⟩
    · -- the mark has moved to its starter, past marks of smaller class
      rw [hstep, ih c skipped hmarks hskipped hrest, T.parts hc, hd, List.append_assoc]
      exact reorder_congr_right _ (reorder_move hmarks hfree rest)
    · have hnext := ih d [] (fun b hb => absurd hb List.not_mem_nil)
        (fun b hb => absurd hb List.not_mem_nil) hrest
      rw [hd, List.nil_append, List.singleton_append] at hnext
      rw [hstep, decomposed, expand_cons, expand_append, expand_of_full hskipped]
      exact reorder_congr_right _ (reorder_congr_right _ hnext)
    · have hmarks' : ∀ b ∈ skipped ++ [d], 0 < T.combiningClass b := by
        intro b hb
        rcases List.mem_append.mp hb with hb | hb
        · exact hmarks b hb
        · rwa [List.mem_singleton.mp hb]
      have hskipped' : T.Full (skipped ++ [d]) :=
        hskipped.append fun b hb => by rw [List.mem_singleton.mp hb, hd]
      rw [hstep, ih a (skipped ++ [d]) hmarks' hskipped' hrest, List.append_assoc,
        List.singleton_append]

/-- Composing loses nothing: the composed form decomposes to what it was made of. -/
theorem decomposed_nfkc (t : List α) : T.decomposed (T.nfkc t) = T.decomposed t := by
  have hfull := full_decomposed (T := T) t
  have hsorted : T.reorder (T.decomposed t) = T.decomposed t := reorder_reorder _
  rw [nfkc]
  cases ht : T.decomposed t with
  | nil => rfl
  | cons a rest =>
    rw [ht] at hfull hsorted
    have hloop := decomposed_composeFrom rest a [] (fun b hb => absurd hb List.not_mem_nil)
      (fun b hb => absurd hb List.not_mem_nil) fun d hd => hfull d (List.mem_cons_of_mem a hd)
    rw [hfull a List.mem_cons_self] at hloop
    exact hloop.trans hsorted

theorem nfkc_absorb (r s t : List α) : T.nfkc (r ++ T.nfkc s ++ t) = T.nfkc (r ++ s ++ t) := by
  have hsame : T.decomposed (r ++ T.nfkc s ++ t) = T.decomposed (r ++ s ++ t) := by
    rw [decomposed_append, decomposed_append r, decomposed_nfkc, ← decomposed_append r,
      ← decomposed_append]
  exact congrArg T.compose hsame

/-! ## Boundaries -/

/-- A starter that stands for itself only: it is no part of a decomposition, of a composition or of
their results. -/
structure Inert (T : Table α) (c : α) : Prop where
  alone : T.decomposition c = [c]
  apart : ∀ {d}, c ∈ T.decomposition d → d = c
  class_zero : T.combiningClass c = 0
  left : ∀ b, T.composite c b = none
  right : ∀ a, T.composite a c = none
  result : ∀ a b, T.composite a b ≠ some c

theorem decomposed_inert (hc : T.Inert c) (s t : List α) :
    T.decomposed (s ++ c :: t) = T.decomposed s ++ c :: T.decomposed t := by
  rw [decomposed, expand_append, expand_cons, hc.alone, List.singleton_append,
    reorder_starter hc.class_zero]
  rfl

theorem composeFrom_idle (rest : List α) : ∀ {a : α} (skipped : List α),
    (∀ d, T.composite a d = none) →
      T.composeFrom a skipped rest = a :: (skipped ++ T.compose rest) := by
  induction rest with
  | nil => intro a skipped _; rw [composeFrom, compose, List.append_nil]
  | cons d rest ih =>
    intro a skipped hidle
    rcases composeFrom_cons (T := T) a d skipped with
      ⟨c, hc, -, -⟩ | ⟨-, hstep⟩ | ⟨hpos, hstep⟩
    · rw [hidle d] at hc
      cases hc
    · rw [hstep, compose]
    · -- a mark is not a starter, so nothing is composed with it either
      have hd : ∀ e, T.composite d e = none := by
        intro e
        cases hcomp : T.composite d e with
        | none => rfl
        | some c => exact absurd (T.starter hcomp) hpos.ne'
      rw [hstep, ih _ hidle, compose, ih [] hd, List.append_assoc]
      rfl

theorem composeFrom_inert (hc : T.Inert c) (t s : List α) :
    ∀ (a : α) (skipped : List α),
      T.composeFrom a skipped (s ++ c :: t) = T.composeFrom a skipped s ++ c :: T.compose t := by
  induction s with
  | nil =>
    intro a skipped
    rcases composeFrom_cons (T := T) a c skipped with
      ⟨d, hd, -, -⟩ | ⟨-, hstep⟩ | ⟨hpos, -⟩
    · rw [hc.right a] at hd
      cases hd
    · rw [List.nil_append, hstep, composeFrom_idle t [] hc.left, composeFrom]
      rfl
    · exact absurd hc.class_zero hpos.ne'
  | cons d s ih =>
    intro a skipped
    rw [List.cons_append]
    rcases composeFrom_cons (T := T) a d skipped with
      ⟨e, -, -, hstep⟩ | ⟨-, hstep⟩ | ⟨-, hstep⟩
    · rw [hstep, hstep, ih]
    · rw [hstep, hstep, ih, List.cons_append, List.append_assoc]
    · rw [hstep, hstep, ih]

theorem compose_inert (hc : T.Inert c) (s t : List α) :
    T.compose (s ++ c :: t) = T.compose s ++ c :: T.compose t := by
  cases s with
  | nil => exact composeFrom_idle t [] hc.left
  | cons a s => exact composeFrom_inert hc t s a []

theorem mem_composeFrom {x : α} (hx : ∀ b d, T.composite b d ≠ some x) (rest : List α) :
    ∀ {a : α} {skipped : List α}, x ∈ T.composeFrom a skipped rest →
      x ∈ a :: (skipped ++ rest) := by
  induction rest with
  | nil =>
    intro a skipped hmem
    rwa [composeFrom, ← List.append_nil skipped] at hmem
  | cons d rest ih =>
    intro a skipped hmem
    rcases composeFrom_cons (T := T) a d skipped with
      ⟨c, hc, -, hstep⟩ | ⟨-, hstep⟩ | ⟨-, hstep⟩
    · rw [hstep] at hmem
      rcases List.mem_cons.mp (ih hmem) with rfl | hlater
      · exact absurd hc (hx a d)
      · rcases List.mem_append.mp hlater with hlater | hlater <;> simp [hlater]
    · rw [hstep] at hmem
      rcases List.mem_cons.mp hmem with rfl | hlater
      · exact List.mem_cons_self
      · rcases List.mem_append.mp hlater with hlater | hlater
        · simp [hlater]
        · have hnext := ih hlater
          rw [List.nil_append] at hnext
          exact List.mem_cons_of_mem a (List.mem_append_right skipped hnext)
    · rw [hstep] at hmem
      have hnext := ih hmem
      rwa [List.append_assoc] at hnext

theorem mem_of_mem_nfkc (hc : T.Inert c) (h : c ∈ T.nfkc t) : c ∈ t := by
  have hdecomposed : c ∈ T.decomposed t := by
    rw [nfkc] at h
    cases ht : T.decomposed t with
    | nil => rw [ht] at h; cases h
    | cons a rest =>
      rw [ht] at h
      exact mem_composeFrom hc.result rest h
  obtain ⟨d, hd, hcd⟩ := List.mem_flatMap.mp ((List.mem_insertionSort _).mp hdecomposed)
  exact hc.apart hcd ▸ hd

theorem normalForm_nfkc (T : Table α) : NormalForm T.Inert T.nfkc where
  empty := rfl
  absorb := nfkc_absorb
  boundary hc s t := by rw [nfkc, decomposed_inert hc, compose_inert hc]; rfl
  fresh hc _ h := mem_of_mem_nfkc hc h

end Table

end Archiviste.Normalization
