import Archiviste.Sync.Paths
import Mathlib.Data.List.Chain
import Mathlib.Data.List.Infix

/-!
# Archiviste.Sync.Slugs

The shape of a slug. A name that keeps a letter or a digit gives words of `[a-z0-9]` joined by single
hyphens, and such a text is its own slug. A name that keeps none is replaced by `file-` and the head
of the Drive id, which is put there as it is: Drive ids have capitals and underscores.

* `IsSlug`, `Documented` — the documented shapes.
* `slugify_of_isSlug`    — a slug is a fixpoint.
* `slug_spec_iff`        — the slugs of a path have the documented shape and stay as they are exactly
  when every name is usable or the head of the id is itself of that shape.
-/

namespace Archiviste.Sync

def SingleHyphens (s : Text) : Prop := s.IsChain fun a b => ¬ (a = '-' ∧ b = '-')

/-- `^[a-z0-9-]+$` without leading, trailing or doubled hyphens. -/
structure IsSlug (s : Text) : Prop where
  ne_nil : s ≠ []
  chars : ∀ c ∈ s, isSlugChar c = true ∨ c = '-'
  head : s.head? ≠ some '-'
  last : s.getLast? ≠ some '-'
  single : SingleHyphens s

def isLowerHex (c : Char) : Bool := ('0' ≤ c && c ≤ '9') || ('a' ≤ c && c ≤ 'f')

/-- `^file-[0-9a-f]{8}$`. -/
def IsFileSlug (s : Text) : Prop :=
  ∃ digits, s = "file-".toList ++ digits ∧ digits.length = 8 ∧ ∀ c ∈ digits, isLowerHex c = true

def Documented (s : Text) : Prop := s.length ≤ maxLen ∧ (IsSlug s ∨ IsFileSlug s)

def fallback (id : FileId) : Text := "file-".toList ++ id.text.take 8

def lowered (u : Unicode) (text : Text) : Text :=
  u.lower ((u.nfkd (text.map fun c => if c.toNat ∈ unicodeDashes then '-' else c)).filter
    fun c => !u.isMn c)

/-- A letter or a digit is left of the name. -/
def Usable (u : Unicode) (text : Text) : Prop := ∃ c ∈ lowered u text, isSlugChar c = true

def cappedSlug (u : Unicode) (text : Text) : Text :=
  stripHyphens ((stripHyphens (replaceRuns (· = '-') '-' false
    (replaceRuns (fun c => !isSlugChar c) '-' false (lowered u text)))).take maxLen)

theorem slugify_eq (u : Unicode) (text fallbackId : Text) : slugify u text fallbackId =
    if cappedSlug u text = [] then "file-".toList ++ fallbackId.take 8 else cappedSlug u text := by
  unfold slugify
  rfl

/-! ## Runs and ends -/

variable {p : Char → Bool} {r c : Char} {s text : Text} {u : Unicode}

theorem mem_replaceRuns_of_mem (hp : p c = false) (hc : c ∈ s) :
    ∀ inRun, c ∈ replaceRuns p r inRun s := by
  induction s with
  | nil => cases hc
  | cons d s ih =>
    intro inRun
    rcases List.mem_cons.1 hc with rfl | hc
    · simp [replaceRuns, hp]
    · rw [replaceRuns]
      split
      · split
        · exact ih hc true
        · exact List.mem_cons_of_mem _ (ih hc true)
      · exact List.mem_cons_of_mem _ (ih hc false)

/-- Runs of hyphens are made single ones, and inside a run no further one is written. -/
theorem replaceRuns_single (s : Text) : ∀ inRun,
    SingleHyphens (replaceRuns (· = '-') '-' inRun s) ∧
      (inRun = true → (replaceRuns (· = '-') '-' inRun s).head? ≠ some '-') := by
  induction s with
  | nil => exact fun _ => ⟨.nil, nofun⟩
  | cons c s ih =>
    intro inRun
    by_cases hc : c = '-'
    · cases inRun with
      | true =>
        obtain ⟨hsingle, hhead⟩ := ih true
        simp only [replaceRuns, hc, decide_true, if_true]
        exact ⟨hsingle, fun _ => hhead rfl⟩
      | false =>
        simp only [replaceRuns, hc, decide_true, if_true, Bool.false_eq_true, if_false]
        obtain ⟨hsingle, hhead⟩ := ih true
        refine ⟨List.isChain_cons.2 ⟨fun b hb hboth => hhead rfl ?_, hsingle⟩, nofun⟩
        exact hb.trans (congrArg some hboth.2)
    · simp only [replaceRuns, hc, decide_false, Bool.false_eq_true, if_false]
      refine ⟨List.isChain_cons.2 ⟨fun b _ hboth => hc hboth.1, (ih false).1⟩, fun _ => ?_⟩
      simpa using hc

theorem replaceRuns_fixed (hr : ∀ c ∈ s, p c = true → c = r)
    (hsingle : s.IsChain fun a b => ¬ (p a = true ∧ p b = true)) :
    ∀ inRun, (inRun = true → ∀ c ∈ s.head?, p c = false) → replaceRuns p r inRun s = s := by
  induction s with
  | nil => exact fun _ _ => rfl
  | cons c s ih =>
    intro inRun hin
    obtain ⟨hnext, hrest⟩ := List.isChain_cons.1 hsingle
    have ih := ih (fun d hd => hr d (List.mem_cons_of_mem _ hd)) hrest
    rw [replaceRuns]
    by_cases hp : p c = true
    · have hout : inRun = false := by
        cases inRun with
        | false => rfl
        | true => rw [hin rfl c rfl] at hp; cases hp
      rw [if_pos hp, hout, if_neg Bool.false_ne_true, ih true, hr c List.mem_cons_self hp]
      intro _ d hd
      rw [← Bool.not_eq_true]
      exact fun hpd => hnext d hd ⟨hp, hpd⟩
    · rw [if_neg hp, ih false nofun]

theorem head?_stripHyphens (s : Text) : (stripHyphens s).head? ≠ some '-' := by
  intro hhead
  have hsub : stripHyphens s <+: s.dropWhile (· = '-') := List.rdropWhile_prefix _ _
  have hnot := List.head?_dropWhile_not (fun c : Char => c = '-') s
  obtain ⟨rest, hrest⟩ := hsub
  have hne : stripHyphens s ≠ [] := by
    intro hnil
    rw [hnil] at hhead
    cases hhead
  rw [← hrest, List.head?_append_of_ne_nil _ hne, hhead] at hnot
  simp at hnot

theorem getLast?_stripHyphens (s : Text) : (stripHyphens s).getLast? ≠ some '-' := by
  intro hlast
  have hne : stripHyphens s ≠ [] := by
    intro hnil
    rw [hnil] at hlast
    cases hlast
  have hnot := List.rdropWhile_last_not (fun c : Char => c = '-') (s.dropWhile (· = '-')) hne
  rw [List.getLast?_eq_some_getLast hne] at hlast
  exact hnot (decide_eq_true (Option.some.inj hlast))

theorem stripHyphens_within (s : Text) : stripHyphens s <:+: s :=
  (List.rdropWhile_prefix _ _).isInfix.trans (List.dropWhile_suffix _).isInfix

theorem stripHyphens_fixed (hhead : s.head? ≠ some '-') (hlast : s.getLast? ≠ some '-') :
    stripHyphens s = s := by
  have hdrop : s.dropWhile (· = '-') = s := by
    rcases s with _ | ⟨c, s⟩
    · rfl
    · have hc : c ≠ '-' := by simpa using hhead
      simp [hc]
  rw [stripHyphens, hdrop, List.rdropWhile_eq_self_iff]
  intro hne
  rw [List.getLast?_eq_some_getLast hne] at hlast
  simpa using hlast

theorem mem_stripHyphens_of_ne (hc : c ∈ s) (hne : c ≠ '-') : c ∈ stripHyphens s := by
  have hdrop : c ∈ s.dropWhile (· = '-') := by
    rw [← List.takeWhile_append_dropWhile (p := fun c : Char => c = '-') (l := s)] at hc
    rcases List.mem_append.1 hc with hc | hc
    · exact absurd (by simpa using List.mem_takeWhile_imp hc) hne
    · exact hc
  rw [stripHyphens, List.rdropWhile, List.mem_reverse]
  rw [← List.mem_reverse, ← List.takeWhile_append_dropWhile (p := fun c : Char => c = '-')
    (l := (s.dropWhile (· = '-')).reverse)] at hdrop
  rcases List.mem_append.1 hdrop with hdrop | hdrop
  · exact absurd (by simpa using List.mem_takeWhile_imp hdrop) hne
  · exact hdrop

/-! ## The slug of a usable name -/

section
variable {u : Unicode} {text : Text}

theorem cappedSlug_ne_nil_iff : cappedSlug u text ≠ [] ↔ Usable u text := by
  constructor
  · intro hne
    obtain ⟨c, rest, hcons⟩ := List.exists_cons_of_ne_nil hne
    have hc : c ∈ cappedSlug u text := by simp [hcons]
    have hhead : c ≠ '-' := by
      have h := head?_stripHyphens ((stripHyphens (replaceRuns (· = '-') '-' false
        (replaceRuns (fun c => !isSlugChar c) '-' false (lowered u text)))).take maxLen)
      rw [← cappedSlug, hcons] at h
      simpa using h
    have hcollapsed := mem_stripHyphens (List.mem_of_mem_take (mem_stripHyphens hc))
    rcases mem_replaceRuns hcollapsed with rfl | ⟨-, hreplaced⟩
    · exact absurd rfl hhead
    · rcases mem_replaceRuns hreplaced with rfl | ⟨hslug, hmem⟩
      · exact absurd rfl hhead
      · exact ⟨c, hmem, by simpa using hslug⟩
  · rintro ⟨c, hc, hslug⟩ hnil
    have hne : c ≠ '-' := by
      rintro rfl
      cases hslug
    have hreplaced : c ∈ replaceRuns (fun c => !isSlugChar c) '-' false (lowered u text) :=
      mem_replaceRuns_of_mem (by simpa using hslug) hc false
    have hcollapsed : c ∈ replaceRuns (· = '-') '-' false
        (replaceRuns (fun c => !isSlugChar c) '-' false (lowered u text)) :=
      mem_replaceRuns_of_mem (by simpa using hne) hreplaced false
    have hstripped := mem_stripHyphens_of_ne hcollapsed hne
    -- the first character of the stripped text is no hyphen and survives the cut
    obtain ⟨d, rest, hcons⟩ := List.exists_cons_of_ne_nil (List.ne_nil_of_mem hstripped)
    have hd : d ≠ '-' := by
      have h := head?_stripHyphens (replaceRuns (· = '-') '-' false
        (replaceRuns (fun c => !isSlugChar c) '-' false (lowered u text)))
      rw [hcons] at h
      simpa using h
    have hmem : d ∈ cappedSlug u text := by
      refine mem_stripHyphens_of_ne ?_ hd
      rw [hcons]
      exact List.mem_cons_self
    rw [hnil] at hmem
    cases hmem

theorem cappedSlug_isSlug (h : Usable u text) :
    IsSlug (cappedSlug u text) ∧ (cappedSlug u text).length ≤ maxLen := by
  refine ⟨⟨cappedSlug_ne_nil_iff.2 h, fun c hc => ?_, head?_stripHyphens _,
    getLast?_stripHyphens _, ?_⟩, ?_⟩
  · have hcollapsed := mem_stripHyphens (List.mem_of_mem_take (mem_stripHyphens hc))
    rcases mem_replaceRuns hcollapsed with rfl | ⟨-, hreplaced⟩
    · exact .inr rfl
    · rcases mem_replaceRuns hreplaced with rfl | ⟨hslug, -⟩
      · exact .inr rfl
      · exact .inl (by simpa using hslug)
  · have hcollapsed := (replaceRuns_single
      (replaceRuns (fun c => !isSlugChar c) '-' false (lowered u text)) false).1
    refine List.IsChain.infix hcollapsed ?_
    exact (stripHyphens_within _).trans
      ((List.take_prefix _ _).isInfix.trans (stripHyphens_within _))
  · refine (stripHyphens_within _).length_le.trans ?_
    rw [List.length_take]
    exact Nat.min_le_left _ _

variable {s : Text}

theorem IsFileSlug.isSlug (h : IsFileSlug s) : IsSlug s := by
  obtain ⟨digits, rfl, hlen, hdigits⟩ := h
  have hslug : ∀ c ∈ digits, isSlugChar c = true := by
    intro c hc
    have hhex := hdigits c hc
    simp only [isLowerHex, isSlugChar, Bool.or_eq_true, Bool.and_eq_true, decide_eq_true_eq] at *
    rcases hhex with ⟨h₁, h₂⟩ | ⟨h₁, h₂⟩
    · exact .inr ⟨h₁, h₂⟩
    · exact .inl ⟨h₁, h₂.trans (by decide)⟩
  have hne : ∀ c ∈ digits, c ≠ '-' := by
    rintro c hc rfl
    cases hslug '-' hc
  have hdigitsNe : digits ≠ [] := by
    rintro rfl
    cases hlen
  constructor
  case ne_nil => simp
  case chars =>
    intro c hc
    rcases List.mem_append.1 hc with hc | hc
    · exact List.forall_iff_forall_mem.1 (by decide :
        List.Forall (fun c => isSlugChar c = true ∨ c = '-') "file-".toList) c hc
    · exact .inl (hslug c hc)
  case head => simp
  case last =>
    rw [List.getLast?_append_of_ne_nil _ hdigitsNe, List.getLast?_eq_some_getLast hdigitsNe]
    exact fun h => hne _ (List.getLast_mem hdigitsNe) (Option.some.inj h)
  case single =>
    refine List.isChain_append.2 ⟨by decide, ?_, fun a _ b hb hboth => ?_⟩
    · refine List.Pairwise.isChain (List.pairwise_of_forall_mem_list fun a ha b _ hboth => ?_)
      exact hne a ha hboth.1
    · exact hne b (List.mem_of_mem_head? hb) hboth.2

theorem Documented.isSlug (h : Documented s) : IsSlug s := by
  rcases h.2 with hslug | hfile
  · exact hslug
  · exact hfile.isSlug

end

/-! ## Slugs are fixpoints -/

/-- What is used of the Unicode functions: they are the usual ones on ASCII. -/
structure Unicode.Lawful (u : Unicode) : Prop where
  nfkd : ∀ s : Text, (∀ c ∈ s, c.toNat < 128) → u.nfkd s = s
  isMn : ∀ c : Char, c.toNat < 128 → u.isMn c = false
  lower : ∀ s : Text, (∀ c ∈ s, c.toNat < 128) → u.lower s = s.map Char.toLower

theorem toNat_of_isSlugChar (h : isSlugChar c = true ∨ c = '-') :
    c.toNat < 128 ∧ ¬ (65 ≤ c.toNat ∧ c.toNat ≤ 90) := by
  rcases h with h | rfl
  · simp only [isSlugChar, Bool.or_eq_true, Bool.and_eq_true, decide_eq_true_eq, Char.le_def,
      UInt32.le_iff_toNat_le] at h
    have ha : 'a'.val.toNat = 97 := rfl
    have hz : 'z'.val.toNat = 122 := rfl
    have h0 : '0'.val.toNat = 48 := rfl
    have h9 : '9'.val.toNat = 57 := rfl
    rw [Char.toNat]
    omega
  · decide

theorem toLower_of_isSlugChar (h : isSlugChar c = true ∨ c = '-') : c.toLower = c := by
  apply Char.toNat_inj.1
  rw [Text.toNat_toLower, if_neg (toNat_of_isSlugChar h).2]

theorem slugify_of_isSlug (hu : u.Lawful) (hs : IsSlug s) (hlen : s.length ≤ maxLen)
    (fallbackId : Text) : slugify u s fallbackId = s := by
  have hascii : ∀ c ∈ s, c.toNat < 128 := fun c hc => (toNat_of_isSlugChar (hs.chars c hc)).1
  have hdashes : (s.map fun c => if c.toNat ∈ unicodeDashes then '-' else c) = s := by
    refine (List.map_congr_left fun c hc => if_neg fun hdash => ?_).trans (List.map_id s)
    have hlt := hascii c hc
    simp only [unicodeDashes, List.mem_cons, List.not_mem_nil, or_false] at hdash
    omega
  have hmarks : (s.filter fun c => !u.isMn c) = s := by
    refine List.filter_eq_self.2 fun c hc => ?_
    rw [hu.isMn c (hascii c hc)]
    rfl
  have hlower : s.map Char.toLower = s :=
    (List.map_congr_left fun c hc => toLower_of_isSlugChar (hs.chars c hc)).trans (List.map_id s)
  have hlowered : lowered u s = s := by
    rw [lowered, hdashes, hu.nfkd s hascii, hmarks, hu.lower s hascii, hlower]
  have hhyphen : ∀ c ∈ s, (!isSlugChar c) = true → c = '-' := by
    intro c hc hnot
    rcases hs.chars c hc with hslug | hhyphen
    · rw [hslug] at hnot
      cases hnot
    · exact hhyphen
  have hreplaced : replaceRuns (fun c => !isSlugChar c) '-' false s = s := by
    refine replaceRuns_fixed hhyphen (hs.single.imp_of_mem_imp fun a b ha hb hab hboth => ?_) false
      nofun
    exact hab ⟨hhyphen a ha hboth.1, hhyphen b hb hboth.2⟩
  have hcollapsed : replaceRuns (· = '-') '-' false s = s := by
    refine replaceRuns_fixed (fun c _ hc => by simpa using hc)
      (hs.single.imp fun a b hab hboth => ?_) false nofun
    exact hab ⟨by simpa using hboth.1, by simpa using hboth.2⟩
  have hcapped : cappedSlug u s = s := by
    rw [cappedSlug, hlowered, hreplaced, hcollapsed, stripHyphens_fixed hs.head hs.last,
      List.take_of_length_le hlen, stripHyphens_fixed hs.head hs.last]
  rw [slugify_eq, hcapped, if_neg hs.ne_nil]

/-! ## The slugs of a path -/

/-- The names of a path, and what `resolve_local_path` makes of them. -/
structure SlugSpec (u : Unicode) (components : List Text) (text : Text) (id : FileId) : Prop where
  shape : ∀ part ∈ text :: components, Documented (slugify u part id.text)
  fixed : ∀ part ∈ text :: components, ∀ id' : FileId,
    slugify u (slugify u part id.text) id'.text = slugify u part id.text
  path : ∀ ext takenPaths root p,
    resolveLocalPath u components (slugify u text id.text) ext takenPaths id root = some p →
      ∃ stem, (stem = slugify u text id.text ∨
          stem = slugify u text id.text ++ '-' :: id.text.take 8) ∧
        p = (root.joinpath (components.map fun part => slugify u part id.text)).join (stem ++ ext)

theorem slugify_unusable (h : ¬ Usable u text) (id : FileId) :
    slugify u text id.text = fallback id := by
  rw [slugify_eq, if_pos (not_not.1 (cappedSlug_ne_nil_iff.not.2 h))]
  rfl

theorem slugify_documented {id : FileId} (h : Usable u text ∨ Documented (fallback id)) :
    Documented (slugify u text id.text) := by
  by_cases husable : Usable u text
  · rw [slugify_eq, if_neg (cappedSlug_ne_nil_iff.2 husable)]
    obtain ⟨hslug, hlen⟩ := cappedSlug_isSlug husable
    exact ⟨hlen, .inl hslug⟩
  · rw [slugify_unusable husable]
    exact h.resolve_left husable

theorem resolveLocalPath_cases {components : List Text} {slug ext : Text} {takenPaths : List Path}
    {id : FileId} {root p : Path}
    (h : resolveLocalPath u components slug ext takenPaths id root = some p) :
    ∃ stem, (stem = slugify u slug id.text ∨ stem = slugify u slug id.text ++ '-' :: id.text.take 8) ∧
      p = (root.joinpath (components.map fun part => slugify u part id.text)).join (stem ++ ext) := by
  unfold resolveLocalPath at h
  extract_lets safeComponents safeSlug candidate suffixed at h
  repeat' split at h
  · cases h
  · exact ⟨safeSlug, .inl rfl, (Option.some.inj h).symm⟩
  · cases h
  · cases h
  · exact ⟨_, .inr rfl, (Option.some.inj h).symm⟩

/-- For every path and every Drive id: its slugs have the documented shape, are their own slugs and
stand as they are in the resolved path exactly when every name is usable or the replacement has the
documented shape. -/
theorem slug_spec_iff (u : Unicode) (hu : u.Lawful) (components : List Text) (text : Text)
    (id : FileId) : SlugSpec u components text id ↔
      (∀ part ∈ text :: components, Usable u part) ∨ Documented (fallback id) := by
  constructor
  · intro h
    by_cases husable : ∀ part ∈ text :: components, Usable u part
    · exact .inl husable
    · rw [not_forall] at husable
      obtain ⟨part, hpart⟩ := husable
      rw [Classical.not_imp] at hpart
      have hshape := h.shape part hpart.1
      rw [slugify_unusable hpart.2] at hshape
      exact .inr hshape
  · intro h
    have hshape : ∀ part ∈ text :: components, Documented (slugify u part id.text) :=
      fun part hpart => slugify_documented (h.imp_left fun husable => husable part hpart)
    have hfixed : ∀ part ∈ text :: components, ∀ id' : FileId,
        slugify u (slugify u part id.text) id'.text = slugify u part id.text :=
      fun part hpart id' => slugify_of_isSlug hu (hshape part hpart).isSlug (hshape part hpart).1 _
    refine ⟨hshape, hfixed, fun ext takenPaths root p hp => ?_⟩
    have hcases := resolveLocalPath_cases hp
    rwa [hfixed text List.mem_cons_self id] at hcases

def asciiUnicode : Unicode := ⟨id, id, fun _ => false, List.map Char.toLower⟩

theorem asciiUnicode_lawful : asciiUnicode.Lawful :=
  ⟨fun _ _ => rfl, fun _ _ => rfl, fun _ _ => rfl⟩

theorem slug_spec_iff_named :
    SlugSpec asciiUnicode ["Lore".toList] "Les Archives".toList ⟨"1AbC_dEf".toList, by decide⟩ ↔
      (∀ part ∈ ["Les Archives".toList, "Lore".toList], Usable asciiUnicode part) ∨
        Documented (fallback ⟨"1AbC_dEf".toList, by decide⟩) :=
  slug_spec_iff asciiUnicode asciiUnicode_lawful _ _ _

/-- A name of punctuation, and an id with capitals and an underscore: the slug has neither shape, and
the second pass changes it. -/
theorem unusable_name_not_fixed :
    let id : FileId := ⟨"1AbC_dEf9".toList, by decide⟩
    asciiUnicode.Lawful ∧
      slugify asciiUnicode "!!!".toList id.text = "file-1AbC_dEf".toList ∧
      ¬ Documented (slugify asciiUnicode "!!!".toList id.text) ∧
      slugify asciiUnicode (slugify asciiUnicode "!!!".toList id.text) id.text =
        "file-1abc-def".toList ∧
      resolveLocalPath asciiUnicode [] (slugify asciiUnicode "!!!".toList id.text) mdExt [] id
        ["lore".toList] = some ["lore".toList, "file-1abc-def.md".toList] := by
  intro id
  have hslug : slugify asciiUnicode "!!!".toList id.text = "file-1AbC_dEf".toList := by
    decide +kernel
  refine ⟨asciiUnicode_lawful, hslug, ?_, ?_, ?_⟩
  · rw [hslug]
    intro h
    exact absurd (h.isSlug.chars 'A' (by decide)) (by decide)
  · rw [hslug]
    decide +kernel
  · rw [hslug]
    decide +kernel

end Archiviste.Sync
