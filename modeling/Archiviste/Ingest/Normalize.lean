import Archiviste.Base.Normalization
import Archiviste.Ingest.Pipeline
import Archiviste.Sync.Model

/-!
# Archiviste.Ingest.Normalize

`normalize_body` of the exporter and of the ingester: NFKC, then a set of control characters is
dropped. Both drop after they normalise, so a letter and a mark with a control character between
them stand side by side in the result and are not composed.

The characters that are dropped are boundaries of NFKC (`Normalization.NormalForm`): the pieces of
the text between them are normalised apart, and the result is NFKC exactly when joining the pieces
first gives the same text.

* `Implementation.normalizeBody_eq` — both are `Normalization.clean` with a set of their own.
* `normalizeBody_ingester` — the ingester on a body of the exporter without DEL is NFKC alone.
* `normalizeBody_settled_iff` — when a normalised body is NFKC and stays as it is, and what the
  ingester then stores for it.
-/

namespace Archiviste.Ingest

open Normalization (NormalForm Opens clean strip)
open Sync (Unicode)

inductive Implementation where
  | exporter
  | ingester
  deriving DecidableEq, Repr

namespace Implementation

def removes : Implementation → Char → Bool
  | .exporter, c => c.toNat ≤ 0x08 || (0x0b ≤ c.toNat && c.toNat ≤ 0x1f)
  | .ingester, c => !(c = '\n' || c = '\t') && isStrippedControl c

def normalizeBody (u : Unicode) : Implementation → Text → Text
  | .exporter => Sync.normalizeBody u
  | .ingester => Ingest.normalizeBody u.nfkc

theorem normalizeBody_eq (u : Unicode) (i : Implementation) (t : Text) :
    i.normalizeBody u t = clean u.nfkc i.removes t := by
  cases i with
  | exporter =>
    refine List.filter_congr fun c _ => ?_
    simp only [removes, decide_not, Bool.decide_or, Bool.decide_and]
  | ingester =>
    refine List.filter_congr fun c _ => ?_
    simp [removes]

variable {c : Char}

theorem isStrippedControl_of_removes {i : Implementation} (h : i.removes c = true) :
    isStrippedControl c = true := by
  cases i with
  | exporter =>
    simp only [removes, Bool.or_eq_true, Bool.and_eq_true, decide_eq_true_eq] at h
    simp only [isStrippedControl, Bool.or_eq_true, decide_eq_true_eq]
    omega
  | ingester => exact (Bool.and_eq_true_iff.mp h).2

theorem removes_ingester (h : exporter.removes c = false) (hdel : c ≠ '\x7f') :
    ingester.removes c = false := by
  have hnat : c.toNat ≠ 0x7f := fun heq => hdel (Char.toNat_inj.mp heq)
  have htab : c.toNat = 9 → c = '\t' := fun heq => Char.toNat_inj.mp heq
  have hnewline : c.toNat = 10 → c = '\n' := fun heq => Char.toNat_inj.mp heq
  simp only [removes, Bool.or_eq_false_iff, Bool.and_eq_false_iff, decide_eq_false_iff_not] at h
  simp only [removes, isStrippedControl, Bool.and_eq_false_iff, Bool.not_eq_false', Bool.or_eq_true,
    Bool.or_eq_false_iff, decide_eq_true_eq, decide_eq_false_iff_not]
  by_cases hplain : c = '\n' ∨ c = '\t'
  · exact .inl hplain
  · have h9 : c.toNat ≠ 9 := fun heq => hplain (.inr (htab heq))
    have h10 : c.toNat ≠ 10 := fun heq => hplain (.inl (hnewline heq))
    exact .inr ⟨by omega, hnat⟩

theorem removes_normalizeBody (u : Unicode) (i : Implementation) (s : Text) :
    ∀ c ∈ i.normalizeBody u s, i.removes c = false := by
  intro c hc
  rw [normalizeBody_eq] at hc
  exact Normalization.removed_of_mem_strip hc

end Implementation

/-- What is asked of a normalised body: it is NFKC, has none of the characters its implementation
drops, and stays as it is. -/
structure Settled (u : Unicode) (i : Implementation) (body : Text) : Prop where
  nfkc : u.nfkc body = body
  plain : ∀ c ∈ body, i.removes c = false
  fixed : i.normalizeBody u body = body

section
variable {u : Unicode} {i : Implementation} {s : Text}

theorem settled_iff_nfkc :
    Settled u i (i.normalizeBody u s) ↔ u.nfkc (i.normalizeBody u s) = i.normalizeBody u s := by
  have hplain := i.removes_normalizeBody u s
  refine ⟨Settled.nfkc, fun hnfkc => ⟨hnfkc, hplain, ?_⟩⟩
  rw [i.normalizeBody_eq u (i.normalizeBody u s)]
  exact Normalization.clean_of_normal hnfkc hplain

theorem settled_of_plain (hidem : ∀ t, u.nfkc (u.nfkc t) = u.nfkc t)
    (hplain : ∀ c ∈ u.nfkc s, i.removes c = false) : Settled u i (i.normalizeBody u s) := by
  have hsame : i.normalizeBody u s = u.nfkc s := by
    rw [i.normalizeBody_eq]
    exact Normalization.strip_eq_self.mpr hplain
  rw [settled_iff_nfkc, hsame, hidem]

/-! ## Unicode's normal form -/

section
variable (hnfkc : NormalForm (isStrippedControl · = true) u.nfkc)
include hnfkc

theorem settled_iff_strip :
    Settled u i (i.normalizeBody u s) ↔ i.normalizeBody u s = u.nfkc (strip i.removes s) := by
  rw [settled_iff_nfkc, i.normalizeBody_eq]
  exact hnfkc.norm_clean_iff (fun c hc => i.isStrippedControl_of_removes hc) s

/-- The pieces between the characters that are dropped may be normalised one by one. -/
theorem settled_iff_pieces : Settled u i (i.normalizeBody u s) ↔
    u.nfkc (s.splitOnP i.removes).flatten = ((s.splitOnP i.removes).map u.nfkc).flatten := by
  obtain ⟨hclean, hstrip⟩ :=
    hnfkc.clean_eq_pieces (fun c hc => i.isStrippedControl_of_removes hc) s
  rw [settled_iff_strip hnfkc, i.normalizeBody_eq, hclean, hstrip]
  exact eq_comm

/-- Nothing is joined across a dropped character that stands before a starter. -/
theorem settled_of_opens
    (hopens : ∀ p ∈ (s.splitOnP i.removes).tail, ∀ c ∈ p.head?, Opens u.nfkc c) :
    Settled u i (i.normalizeBody u s) :=
  (settled_iff_pieces hnfkc).2 (hnfkc.norm_flatten hopens)

theorem normalizeBody_fixed_iff :
    i.normalizeBody u (i.normalizeBody u s) = i.normalizeBody u s ↔
      Settled u i (i.normalizeBody u s) := by
  rw [settled_iff_strip hnfkc, i.normalizeBody_eq, i.normalizeBody_eq]
  exact hnfkc.clean_idem_iff (fun c hc => i.isStrippedControl_of_removes hc) s

theorem settled_twice : Settled u i (i.normalizeBody u (i.normalizeBody u s)) := by
  rw [settled_iff_nfkc, i.normalizeBody_eq, i.normalizeBody_eq]
  exact hnfkc.norm_clean_clean (fun c hc => i.isStrippedControl_of_removes hc) s

theorem normalizeBody_ingester (hdel : '\x7f' ∉ Sync.normalizeBody u s) :
    normalizeBody u.nfkc (Sync.normalizeBody u s) = u.nfkc (Sync.normalizeBody u s) := by
  have hplain : ∀ c ∈ Sync.normalizeBody u s, Implementation.ingester.removes c = false := by
    intro c hc
    have hne : c ≠ '\x7f' := fun heq => hdel (heq ▸ hc)
    exact Implementation.removes_ingester
      (Implementation.exporter.removes_normalizeBody u s c hc) hne
  exact (Implementation.ingester.normalizeBody_eq u _).trans
    (hnfkc.clean_eq_norm (fun c hc => Implementation.isStrippedControl_of_removes hc) hplain)

end

theorem normalizeBody_ingester_of_settled (hdel : '\x7f' ∉ Sync.normalizeBody u s)
    (h : Settled u .exporter (Sync.normalizeBody u s)) :
    normalizeBody u.nfkc (Sync.normalizeBody u s) = Sync.normalizeBody u s := by
  refine (Implementation.ingester.normalizeBody_eq u _).trans
    (Normalization.clean_of_normal h.nfkc fun c hc => ?_)
  exact Implementation.removes_ingester (h.plain c hc) fun heq => hdel (heq ▸ hc)

end

/-- What `normalize_body` makes of a text, for both implementations and every idempotent NFKC. None
of the characters it drops is left, and where NFKC leaves nothing to drop the result is settled; the
ingester then hashes and stores a body of the exporter without DEL as it is. For a normal form with
the control characters as boundaries, the result is settled exactly when the pieces between the
dropped characters have, joined, the NFKC that each has alone; so it is when every piece but the
first begins with a character that is never joined to what stands before it. The second round is
always settled. -/
theorem normalizeBody_settled_iff (u : Unicode) (hidem : ∀ t, u.nfkc (u.nfkc t) = u.nfkc t)
    (s : Text) :
    (∀ i : Implementation,
      (∀ c ∈ i.normalizeBody u s, i.removes c = false) ∧
        ((∀ c ∈ u.nfkc s, i.removes c = false) → Settled u i (i.normalizeBody u s)) ∧
        (NormalForm (isStrippedControl · = true) u.nfkc →
          (Settled u i (i.normalizeBody u s) ↔
            u.nfkc (s.splitOnP i.removes).flatten =
              ((s.splitOnP i.removes).map u.nfkc).flatten) ∧
          ((∀ p ∈ (s.splitOnP i.removes).tail, ∀ c ∈ p.head?, Opens u.nfkc c) →
            Settled u i (i.normalizeBody u s)) ∧
          (i.normalizeBody u (i.normalizeBody u s) = i.normalizeBody u s ↔
            Settled u i (i.normalizeBody u s)) ∧
          Settled u i (i.normalizeBody u (i.normalizeBody u s)))) ∧
      ∀ (ε : Type) (deps : Deps ε), deps.nfkc = u.nfkc → '\x7f' ∉ Sync.normalizeBody u s →
        (Settled u .exporter (Sync.normalizeBody u s) →
          deps.hash (normalizeBody deps.nfkc (Sync.normalizeBody u s)) =
              deps.hash (Sync.normalizeBody u s) ∧
            ∀ file frontmatter, Parses deps file frontmatter (Sync.normalizeBody u s) →
              ∀ db calls, processFile deps db file calls =
                persist deps db file.relative frontmatter (Sync.normalizeBody u s)
                  (deps.hash (Sync.normalizeBody u s)) calls) ∧
        (NormalForm (isStrippedControl · = true) u.nfkc → Function.Injective deps.hash →
          deps.hash (normalizeBody deps.nfkc (Sync.normalizeBody u s)) =
              deps.hash (Sync.normalizeBody u s) →
            Settled u .exporter (Sync.normalizeBody u s)) := by
  constructor
  · intro i
    exact ⟨i.removes_normalizeBody u s, settled_of_plain hidem, fun hnfkc =>
      ⟨settled_iff_pieces hnfkc, settled_of_opens hnfkc, normalizeBody_fixed_iff hnfkc,
        settled_twice hnfkc⟩⟩
  · intro ε deps hdeps hdel
    constructor
    · intro hsettled
      have hbody : normalizeBody deps.nfkc (Sync.normalizeBody u s) = Sync.normalizeBody u s := by
        rw [hdeps]
        exact normalizeBody_ingester_of_settled hdel hsettled
      refine ⟨congrArg deps.hash hbody, fun file frontmatter hparses db calls => ?_⟩
      rw [processFile_parses hparses, hbody]
    · intro hnfkc hinj hhash
      have hbody := hinj hhash
      rw [hdeps, normalizeBody_ingester hnfkc hdel] at hbody
      exact settled_iff_nfkc.mpr hbody

/-! ## A letter and a mark -/

def acuteTable : Normalization.Table Char where
  decomposition c := if c = '\u00e9' then ['e', '\u0301'] else [c]
  combiningClass c := if c = '\u0301' then 230 else 0
  composite a b := if a = 'e' ∧ b = '\u0301' then some '\u00e9' else none
  full := by
    intro c d hd
    split at hd
    · rcases List.mem_cons.mp hd with rfl | hd
      · rfl
      · rw [List.mem_singleton.mp hd]
        rfl
    · next hc => rw [List.mem_singleton.mp hd, if_neg hc]
  parts := by
    intro a b c h
    split at h
    · next hab =>
      obtain ⟨rfl, rfl⟩ := hab
      cases h
      rfl
    · cases h
  starter := by
    intro a b c h
    split at h
    · next hab => rw [hab.1]; rfl
    · cases h

def acuteUnicode : Unicode :=
  { Sync.plainUnicode with nfkd := acuteTable.decomposed, nfkc := acuteTable.nfkc }

theorem acute_inert {c : Char} (hletter : c ≠ '\u00e9') (hmark : c ≠ '\u0301') (hbase : c ≠ 'e') :
    acuteTable.Inert c := by
  refine ⟨if_neg hletter, ?_, if_neg hmark, fun b => if_neg ?_, fun a => if_neg ?_, fun a b => ?_⟩
  · intro d hd
    simp only [acuteTable] at hd
    split at hd
    · simp [hbase, hmark] at hd
    · exact (List.mem_singleton.mp hd).symm
  · exact fun hab => hbase hab.1
  · exact fun hab => hmark hab.2
  · simp only [acuteTable]
    split
    · exact fun heq => hletter (Option.some.inj heq).symm
    · exact fun heq => by cases heq

theorem acute_normalForm : NormalForm (isStrippedControl · = true) acuteUnicode.nfkc := by
  have hinert : ∀ c, isStrippedControl c = true → acuteTable.Inert c := by
    intro c hc
    refine acute_inert ?_ ?_ ?_
    all_goals rintro rfl; exact absurd hc (by decide)
  exact ⟨rfl, acuteTable.normalForm_nfkc.absorb,
    fun hc => acuteTable.normalForm_nfkc.boundary (hinert _ hc),
    fun hc _ h => acuteTable.normalForm_nfkc.fresh (hinert _ hc) h⟩

/-- A control character before a blank does no harm. -/
theorem normalizeBody_settled_iff_acute :
    Sync.normalizeBody acuteUnicode "cafe\u0301\x00 !".toList = "caf\u00e9 !".toList ∧
      Settled acuteUnicode .exporter (Sync.normalizeBody acuteUnicode "cafe\u0301\x00 !".toList) := by
  refine ⟨by decide +kernel,
    (((normalizeBody_settled_iff acuteUnicode acute_normalForm.idem "cafe\u0301\x00 !".toList).1
      .exporter).2.2 acute_normalForm).2.1 ?_⟩
  have hpieces : ("cafe\u0301\x00 !".toList.splitOnP Implementation.exporter.removes).tail =
      [" !".toList] := by decide +kernel
  rw [hpieces]
  rintro p hp c hc
  cases List.mem_singleton.1 hp
  cases hc
  exact acuteTable.normalForm_nfkc.opens (acute_inert (by decide) (by decide) (by decide))

/-- A NUL between a letter and its mark: it is dropped, and what is left is not NFKC until the
second round composes it. The ingester hashes another text than the one the exporter wrote. -/
theorem normalizeBody_unsettled :
    (∀ i : Implementation,
      i.normalizeBody acuteUnicode "e\x00\u0301".toList = "e\u0301".toList ∧
        acuteUnicode.nfkc "e\u0301".toList = "\u00e9".toList ∧
        i.normalizeBody acuteUnicode "e\u0301".toList = "\u00e9".toList) ∧
      ∀ (ε : Type) (deps : Deps ε), deps.nfkc = acuteUnicode.nfkc →
        Function.Injective deps.hash →
          '\x7f' ∉ Sync.normalizeBody acuteUnicode "e\x00\u0301".toList ∧
            deps.hash (normalizeBody deps.nfkc
                (Sync.normalizeBody acuteUnicode "e\x00\u0301".toList)) ≠
              deps.hash (Sync.normalizeBody acuteUnicode "e\x00\u0301".toList) := by
  constructor
  · intro i
    cases i <;> decide +kernel
  · intro ε deps hdeps hinj
    have hbody : normalizeBody acuteUnicode.nfkc
        (Sync.normalizeBody acuteUnicode "e\x00\u0301".toList) ≠
          Sync.normalizeBody acuteUnicode "e\x00\u0301".toList := by decide +kernel
    exact ⟨by decide +kernel, fun hhash => hbody (hdeps ▸ hinj hhash)⟩

end Archiviste.Ingest
