import Archiviste.Base.Regex

/-!
# Archiviste.Base.Spells

The texts a pattern passes. A pattern without position tests (`Re.Free`) leads from one position to
another exactly when the text between them is one it spells, so that what such a pattern matches can
be argued about without positions.

* `reaches_iff_spells` — the correspondence.
* `Over`               — a class that has all characters of the texts a pattern spells.
* `Covers r' r`        — `r'` spells every beginning of the texts that `r` spells, with a rule for
  each constructor the patterns are built with.
-/

namespace Archiviste.Regex

/-- The pattern spells the text; position tests spell nothing. -/
def Re.Spells : Re → Text → Prop
  | .cls p, t => ∃ c, p c = true ∧ t = [c]
  | .star p, t => ∀ c ∈ t, p c = true
  | .lazyStar p, t => ∀ c ∈ t, p c = true
  | .repeated n p, t => t.length = n ∧ ∀ c ∈ t, p c = true
  | .check _, t => t = []
  | .eps, t => t = []
  | .seq r s, t => ∃ u v, r.Spells u ∧ s.Spells v ∧ t = u ++ v
  | .alt r s, t => r.Spells t ∨ s.Spells t
  | .group r, t => r.Spells t

/-- The pattern does not look at its position. -/
def Re.Free : Re → Prop
  | .check _ => False
  | .seq r s => r.Free ∧ s.Free
  | .alt r s => r.Free ∧ s.Free
  | .group r => r.Free
  | _ => True

section
variable (p : Char → Bool) (r s : Re)

@[simp] theorem Re.free_cls : (Re.cls p).Free := trivial
@[simp] theorem Re.free_star : (Re.star p).Free := trivial
@[simp] theorem Re.free_eps : Re.eps.Free := trivial
@[simp] theorem Re.free_seq : (Re.seq r s).Free ↔ r.Free ∧ s.Free := Iff.rfl
@[simp] theorem Re.free_alt : (Re.alt r s).Free ↔ r.Free ∧ s.Free := Iff.rfl

end

/-! ## Positions and texts -/

/-- `q'` is `q` once the text `t` is passed. -/
def Pos.Passes (q : Pos) (t : Text) (q' : Pos) : Prop :=
  q.after = t ++ q'.after ∧ q'.before = t.reverse ++ q.before

variable {q q' : Pos} {t b s : Text} {c : Char} {p : Char → Bool} {r : Re} {rs : List Re}

theorem Pos.Passes.nil_iff : q.Passes [] q' ↔ q' = q := by
  obtain ⟨b, cs⟩ := q
  obtain ⟨b', cs'⟩ := q'
  simp only [Pos.Passes, List.nil_append, List.reverse_nil, Pos.mk.injEq]
  exact ⟨fun ⟨h, h'⟩ => ⟨h', h.symm⟩, fun ⟨h, h'⟩ => ⟨h'.symm, h⟩⟩

theorem Pos.Passes.append {q'' : Pos} {u : Text} (h : q.Passes t q') (h' : q'.Passes u q'') :
    q.Passes (t ++ u) q'' :=
  ⟨by rw [h.1, h'.1, List.append_assoc],
    by rw [h'.2, h.2, List.reverse_append, List.append_assoc]⟩

theorem Pos.Passes.split {q'' : Pos} {u : Text} (h : q.Passes (t ++ u) q'') :
    ∃ q', q.Passes t q' ∧ q'.Passes u q'' := by
  refine ⟨⟨t.reverse ++ q.before, u ++ q''.after⟩, ⟨?_, rfl⟩, rfl, ?_⟩
  · rw [h.1, List.append_assoc]
  · rw [h.2, List.reverse_append, List.append_assoc]

theorem Pos.passes_cons :
    q.Passes (c :: t) q' ↔ ∃ cs, q.after = c :: cs ∧ Pos.Passes ⟨c :: q.before, cs⟩ t q' := by
  simp only [Pos.Passes, List.cons_append, List.reverse_cons, List.append_assoc]
  exact ⟨fun ⟨h, h'⟩ => ⟨_, h, rfl, h'⟩, fun ⟨cs, h, hcs, h'⟩ => ⟨by rw [h, hcs], h'⟩⟩

theorem Pos.Passes.nil (q : Pos) : q.Passes [] q := Pos.Passes.nil_iff.mpr rfl

theorem exists_run_iff {cs : Text} :
    (∃ t, (∀ d ∈ t, p d = true) ∧ Pos.Passes ⟨b, c :: cs⟩ t q) ↔
      q = ⟨b, c :: cs⟩ ∨
        p c = true ∧ ∃ t, (∀ d ∈ t, p d = true) ∧ Pos.Passes ⟨c :: b, cs⟩ t q := by
  constructor
  · rintro ⟨t, hall, ht⟩
    cases t with
    | nil => exact .inl (Pos.Passes.nil_iff.mp ht)
    | cons d t =>
      obtain ⟨cs', hafter, ht⟩ := Pos.passes_cons.mp ht
      obtain ⟨rfl, rfl⟩ := List.cons.inj hafter
      obtain ⟨hc, hall⟩ := List.forall_mem_cons.mp hall
      exact .inr ⟨hc, t, hall, ht⟩
  · rintro (rfl | ⟨hc, t, hall, ht⟩)
    · exact ⟨[], fun _ h => absurd h List.not_mem_nil, Pos.Passes.nil _⟩
    · exact ⟨c :: t, List.forall_mem_cons.mpr ⟨hc, hall⟩, Pos.passes_cons.mpr ⟨cs, rfl, ht⟩⟩

theorem exists_run_nil_iff :
    (∃ t, (∀ d ∈ t, p d = true) ∧ Pos.Passes ⟨b, []⟩ t q) ↔ q = ⟨b, []⟩ := by
  constructor
  · rintro ⟨t, -, ht⟩
    obtain rfl : t = [] := (List.append_eq_nil_iff.mp ht.1.symm).1
    exact Pos.Passes.nil_iff.mp ht
  · rintro rfl
    exact ⟨[], fun _ h => absurd h List.not_mem_nil, Pos.Passes.nil _⟩

theorem mem_starWays_iff : ∀ {b cs : Text},
    q ∈ starWays p b cs ↔ ∃ t, (∀ c ∈ t, p c = true) ∧ Pos.Passes ⟨b, cs⟩ t q := by
  intro b cs
  induction cs generalizing b with
  | nil => rw [starWays, List.mem_singleton, exists_run_nil_iff]
  | cons c cs ih =>
    rw [starWays, exists_run_iff]
    split
    · next hc => rw [List.mem_append, ih, List.mem_singleton, or_comm, and_iff_right hc]
    · next hc => simp [hc]

theorem mem_lazyWays_iff : ∀ {b cs : Text},
    q ∈ lazyWays p b cs ↔ ∃ t, (∀ c ∈ t, p c = true) ∧ Pos.Passes ⟨b, cs⟩ t q := by
  intro b cs
  induction cs generalizing b with
  | nil => rw [lazyWays, List.mem_singleton, exists_run_nil_iff]
  | cons c cs ih =>
    rw [lazyWays, exists_run_iff, List.mem_cons]
    split
    · next hc => rw [ih, and_iff_right hc]
    · next hc => simp [hc]

theorem mem_repeatWays_iff : ∀ {n : Nat} {b cs : Text},
    q ∈ repeatWays p n b cs ↔
      ∃ t, (t.length = n ∧ ∀ c ∈ t, p c = true) ∧ Pos.Passes ⟨b, cs⟩ t q := by
  intro n
  induction n with
  | zero =>
    intro b cs
    rw [repeatWays, List.mem_singleton]
    constructor
    · rintro rfl
      exact ⟨[], ⟨rfl, fun _ h => absurd h List.not_mem_nil⟩, Pos.Passes.nil _⟩
    · rintro ⟨t, ⟨hlength, -⟩, ht⟩
      obtain rfl := List.eq_nil_of_length_eq_zero hlength
      exact Pos.Passes.nil_iff.mp ht
  | succ n ih =>
    intro b cs
    constructor
    · intro h
      cases cs with
      | nil => cases h
      | cons c cs =>
        rw [repeatWays] at h
        split at h
        · next hc =>
          obtain ⟨t, ⟨hlength, hall⟩, ht⟩ := ih.mp h
          exact ⟨c :: t, ⟨by rw [List.length_cons, hlength],
            List.forall_mem_cons.mpr ⟨hc, hall⟩⟩, Pos.passes_cons.mpr ⟨cs, rfl, ht⟩⟩
        · cases h
    · rintro ⟨t, ⟨hlength, hall⟩, ht⟩
      cases t with
      | nil => cases hlength
      | cons c t =>
        obtain ⟨cs', hafter, ht⟩ := Pos.passes_cons.mp ht
        obtain ⟨hc, hall⟩ := List.forall_mem_cons.mp hall
        obtain rfl : cs = c :: cs' := hafter
        rw [repeatWays, if_pos hc]
        exact ih.mpr ⟨t, ⟨Nat.succ.inj hlength, hall⟩, ht⟩

theorem reaches_map_iff {ways' : List Pos} :
    (∃ groups, (q', groups) ∈ ways'.map fun w => (w, ([] : List Text))) ↔ q' ∈ ways' := by
  simp

theorem reaches_iff_spells (hfree : r.Free) : Reaches r q q' ↔ ∃ t, r.Spells t ∧ q.Passes t q' := by
  induction r generalizing q q' with
  | cls p =>
    rw [reaches_cls_iff]
    simp only [Re.Spells]
    constructor
    · rintro ⟨c, hc, hafter, hbefore⟩
      exact ⟨[c], ⟨c, hc, rfl⟩, hafter, hbefore⟩
    · rintro ⟨t, ⟨c, hc, rfl⟩, hafter, hbefore⟩
      exact ⟨c, hc, hafter, hbefore⟩
  | star p => exact reaches_map_iff.trans mem_starWays_iff
  | lazyStar p => exact reaches_map_iff.trans mem_lazyWays_iff
  | repeated n p => exact reaches_map_iff.trans mem_repeatWays_iff
  | check test => exact absurd hfree id
  | eps =>
    rw [reaches_eps, ← Pos.Passes.nil_iff]
    exact ⟨fun h => ⟨[], rfl, h⟩, fun ⟨t, ht, h⟩ => ht ▸ h⟩
  | seq r s ihr ihs =>
    rw [reaches_seq]
    simp only [ihr hfree.1, ihs hfree.2, Re.Spells]
    constructor
    · rintro ⟨m, ⟨u, hu, hpass⟩, v, hv, hpass'⟩
      exact ⟨u ++ v, ⟨u, v, hu, hv, rfl⟩, hpass.append hpass'⟩
    · rintro ⟨t, ⟨u, v, hu, hv, rfl⟩, hpass⟩
      obtain ⟨m, hpass, hpass'⟩ := hpass.split
      exact ⟨m, ⟨u, hu, hpass⟩, v, hv, hpass'⟩
  | alt r s ihr ihs =>
    rw [reaches_alt, ihr hfree.1, ihs hfree.2]
    simp only [Re.Spells, or_and_right, exists_or]
  | group r ih => rw [reaches_group, ih hfree]; rfl

/-! ## Sequences -/

theorem reaches_seqs_append {ss : List Re} :
    Reaches (.seqs (rs ++ ss)) q q' ↔ ∃ m, Reaches (.seqs rs) q m ∧ Reaches (.seqs ss) m q' := by
  induction rs generalizing q with
  | nil =>
    simp only [List.nil_append, Re.seqs, List.foldr_nil, reaches_eps]
    exact ⟨fun h => ⟨q, rfl, h⟩, fun ⟨m, hm, h⟩ => hm ▸ h⟩
  | cons r rs ih =>
    have hcons : ∀ rest : List Re, Re.seqs (r :: rest) = .seq r (.seqs rest) := fun _ => rfl
    rw [List.cons_append, hcons, hcons, reaches_seq]
    simp only [reaches_seq, ih]
    constructor
    · rintro ⟨m, hm, m', hm', h⟩
      exact ⟨m', ⟨m, hm, hm'⟩, h⟩
    · rintro ⟨m', ⟨m, hm, hm'⟩, h⟩
      exact ⟨m, hm, m', hm', h⟩

theorem reaches_then_check (hfree : (Re.seqs rs).Free) {test : Pos → Bool} :
    Reaches (.seqs (rs ++ [.check test])) q q' ↔
      ∃ t, (Re.seqs rs).Spells t ∧ q.Passes t q' ∧ test q' = true := by
  have hend : ∀ m, Reaches (.seqs [.check test]) m q' ↔ test q' = true ∧ m = q' := by
    intro m
    simp only [Re.seqs, List.foldr_cons, List.foldr_nil, reaches_seq, reaches_check, reaches_eps]
    constructor
    · rintro ⟨_, ⟨h, rfl⟩, rfl⟩
      exact ⟨h, rfl⟩
    · rintro ⟨h, rfl⟩
      exact ⟨_, ⟨h, rfl⟩, rfl⟩
  simp only [reaches_seqs_append, hend, reaches_iff_spells hfree]
  constructor
  · rintro ⟨_, ⟨t, ht, hpass⟩, htest, rfl⟩
    exact ⟨t, ht, hpass, htest⟩
  · rintro ⟨t, ht, hpass, htest⟩
    exact ⟨q', ⟨t, ht, hpass⟩, htest, rfl⟩

theorem replaceFirst_begins (rs : List Re) (s : Text) :
    replaceFirst (.seqs (rs ++ [.check Pos.atEnd])) s <+: s := by
  unfold replaceFirst
  split
  · exact List.prefix_refl s
  · next m hm =>
    obtain ⟨hstart, -, hreach⟩ := search_eq_some hm
    obtain ⟨q, -, hend⟩ := reaches_seqs_append.mp hreach
    simp only [Re.seqs, List.foldr_cons, List.foldr_nil, reaches_seq, reaches_check, reaches_eps,
      Pos.atEnd, List.isEmpty_iff] at hend
    obtain ⟨_, ⟨hend, rfl⟩, hstop⟩ := hend
    rw [Match.rest, hstop, hend, List.append_nil, ← hstart]
    exact List.prefix_append _ _

theorem search_eq_none (h : ∀ q q', q.Of s → ¬ Reaches r q q') : search r s = none := by
  cases hm : search r s with
  | none => rfl
  | some m =>
    obtain ⟨hstart, -, hreach⟩ := search_eq_some hm
    exact absurd hreach (h _ _ hstart)

theorem Match.prior_begins {m : Match} (h : search r s = some m) :
    m.prior <+: s := ⟨m.start.after, (search_eq_some h).1⟩

theorem prior_begins_of_reaches {a : Text} (h : Reaches r ⟨a.reverse, b⟩ q') :
    ∃ m, search r (a ++ b) = some m ∧ m.prior <+: a := by
  have hof : Pos.Of (a ++ b) ⟨a.reverse, b⟩ := by simp [Pos.Of]
  obtain ⟨m, hm⟩ := search_isSome hof h
  have hle := search_leftmost hm hof h
  refine ⟨m, hm, List.prefix_of_prefix_length_le (Match.prior_begins hm) (List.prefix_append a b) ?_⟩
  simpa [Match.prior] using hle

/-! ## The characters of the texts -/

def Re.Over (p : Char → Prop) : Re → Prop
  | .cls p' => ∀ c, p' c = true → p c
  | .star p' => ∀ c, p' c = true → p c
  | .lazyStar p' => ∀ c, p' c = true → p c
  | .repeated _ p' => ∀ c, p' c = true → p c
  | .check _ => True
  | .eps => True
  | .seq r s => r.Over p ∧ s.Over p
  | .alt r s => r.Over p ∧ s.Over p
  | .group r => r.Over p

theorem Re.Over.mem {p : Char → Prop} (h : r.Over p) : ∀ {t : Text}, r.Spells t →
    ∀ c ∈ t, p c := by
  induction r with
  | cls p' =>
    rintro t ⟨c, hc, rfl⟩ d hd
    exact h d (List.mem_singleton.mp hd ▸ hc)
  | star p' => exact fun ht c hc => h c (ht c hc)
  | lazyStar p' => exact fun ht c hc => h c (ht c hc)
  | repeated n p' => exact fun ht c hc => h c (ht.2 c hc)
  | check test =>
    rintro t rfl c hc
    cases hc
  | eps =>
    rintro t rfl c hc
    cases hc
  | seq r s ihr ihs =>
    rintro t ⟨u, v, hu, hv, rfl⟩ c hc
    rcases List.mem_append.mp hc with hc | hc
    · exact ihr h.1 hu c hc
    · exact ihs h.2 hv c hc
  | alt r s ihr ihs =>
    rintro t (ht | ht)
    · exact ihr h.1 ht
    · exact ihs h.2 ht
  | group r ih => exact fun ht => ih h ht

/-! ## Beginnings -/

theorem begins_append {p a : Text} (h : p <+: a ++ b) : p <+: a ∨ ∃ u, u <+: b ∧ p = a ++ u := by
  obtain ⟨w, hw⟩ := h
  rcases List.append_eq_append_iff.mp hw with ⟨a', rfl, -⟩ | ⟨u, rfl, rfl⟩
  · exact .inl (List.prefix_append p a')
  · exact .inr ⟨u, List.prefix_append u w, rfl⟩

/-- The first pattern spells every beginning of the texts the second one spells. -/
def Covers (r' r : Re) : Prop := ∀ t, r.Spells t → ∀ u, u <+: t → r'.Spells u

namespace Covers

theorem star (p : Char → Bool) : Covers (.star p) (.star p) :=
  fun _ ht _ hu c hc => ht c (hu.subset hc)

theorem eps : Covers .eps .eps := by
  rintro t rfl u hu
  exact List.prefix_nil.mp hu

theorem seq {r r' s s' : Re} (hr : Covers r' r) (hs : Covers s' s) :
    Covers (.seq r' s') (.seq r s) := by
  rintro t ⟨a, b, ha, hb, rfl⟩ u hu
  rcases begins_append hu with hu | ⟨v, hv, rfl⟩
  · exact ⟨u, [], hr a ha u hu, hs b hb [] List.nil_prefix, (List.append_nil u).symm⟩
  · exact ⟨a, v, hr a ha a (List.prefix_refl a), hs b hb v hv, rfl⟩

theorem letter (p : Char → Bool) {r r' : Re} (h : Covers r' r) :
    Covers (.opt (.seq (.cls p) r')) (.seq (.cls p) r) := by
  rintro t ⟨_, v, ⟨c, hc, rfl⟩, hv, rfl⟩ u hu
  cases u with
  | nil => exact .inr rfl
  | cons d u =>
    obtain ⟨rfl, hrest⟩ := List.cons_prefix_cons.mp hu
    exact .inl ⟨[d], u, ⟨d, hc, rfl⟩, h v hv u hrest, rfl⟩

end Covers

end Archiviste.Regex
