import Archiviste.Base.FileTree
import Mathlib.Data.Char
import Mathlib.Data.List.DropRight
import Mathlib.Data.List.Lex
import Mathlib.Data.List.Sort

/-!
# Archiviste.Sync.Paths

Where the Drive exporter puts a source: the slug of a name, the path of a document, and the file
names of the tabs of a workbook. NFKD, the category `Mn` and lower-casing are parameters.

* `slugify`, `resolveLocalPath`, `resolveTabCollisions`, `tabLocalPath` — the allocators.
* `Placed`                             — a path under the root made of plain names.
* `slugify_plain`, `resolveLocalPath_placed`, `tabLocalPath_placed` — every allocated path is one.
-/

namespace Archiviste.Sync

/-! ## Sources -/

def isIdChar (c : Char) : Bool := c.isAlphanum || c = '-' || c = '_'

structure FileId where
  text : Text
  alphabet : ∀ c ∈ text, isIdChar c = true
  deriving DecidableEq

def decimal (n : Nat) : Text := Nat.toDigits 10 n

/-- What is exported to one local file, a Drive file or one tab of a workbook. It is the key of the
state file and the `source_id` of the frontmatter. -/
inductive SourceId where
  | file (id : FileId)
  | tab (id : FileId) (gid : Nat)
  deriving DecidableEq

/-- The key as text; `build_tab_source_id` for a tab. -/
def SourceId.text : SourceId → Text
  | .file id => id.text
  | .tab id gid => id.text ++ '#' :: decimal gid

structure Tab where
  title : Text
  sheetId : Nat
  index : Nat
  deriving DecidableEq

def buildTabTitle (workbookTitle tabTitle : Text) : Text :=
  workbookTitle ++ " — ".toList ++ tabTitle

/-! ## Slugs -/

structure Unicode where
  nfkd : Text → Text
  nfkc : Text → Text
  isMn : Char → Bool
  lower : Text → Text

def maxLen : Nat := 80

def unicodeDashes : List Nat := [0x2014, 0x2013, 0x2012, 0x2212]

def isSlugChar (c : Char) : Bool := ('a' ≤ c && c ≤ 'z') || ('0' ≤ c && c ≤ '9')

def replaceRuns (p : Char → Bool) (r : Char) : Bool → Text → Text
  | _, [] => []
  | inRun, c :: cs =>
    if p c then
      if inRun then replaceRuns p r true cs else r :: replaceRuns p r true cs
    else c :: replaceRuns p r false cs

/-- `s.strip("-")`. -/
def stripHyphens (s : Text) : Text := (s.dropWhile (· = '-')).rdropWhile (· = '-')

@[irreducible] def slugify (u : Unicode) (text fallbackId : Text) : Text :=
  let dashNormalised := text.map fun c => if c.toNat ∈ unicodeDashes then '-' else c
  let withoutCombining := (u.nfkd dashNormalised).filter fun c => !u.isMn c
  let lowered := u.lower withoutCombining
  let replaced := replaceRuns (fun c => !isSlugChar c) '-' false lowered
  let collapsed := replaceRuns (· = '-') '-' false replaced
  let capped := stripHyphens ((stripHyphens collapsed).take maxLen)
  if capped = [] then "file-".toList ++ fallbackId.take 8 else capped

/-! ## Paths -/

/-- `_assert_under_root`. -/
def underRoot (root p : Path) : Bool := p.resolve.isRelativeTo root.resolve

/-- `none` where the source raises `ValueError`. -/
def resolveLocalPath (u : Unicode) (components : List Text) (slug ext : Text)
    (takenPaths : List Path) (fileId : FileId) (root : Path) : Option Path :=
  let safeComponents := components.map fun part => slugify u part fileId.text
  let safeSlug := slugify u slug fileId.text
  let candidate := (root.joinpath safeComponents).join (safeSlug ++ ext)
  let suffixed := (root.joinpath safeComponents).join
    (safeSlug ++ '-' :: fileId.text.take 8 ++ ext)
  if ¬ underRoot root candidate then none
  else if candidate ∉ takenPaths then some candidate
  else if ¬ underRoot root suffixed then none
  else if suffixed ∈ takenPaths then none
  else some suffixed

/-- The slugs of the tabs in index order, with the slugs given out so far without a suffix. -/
def assignTabSlugs (u : Unicode) : List Text → List Tab → List (Tab × Text)
  | _, [] => []
  | seen, tab :: tabs =>
    let baseSlug := slugify u tab.title (decimal tab.sheetId)
    if baseSlug ∉ seen then (tab, baseSlug) :: assignTabSlugs u (baseSlug :: seen) tabs
    else (tab, baseSlug ++ '-' :: decimal tab.sheetId) :: assignTabSlugs u seen tabs

def resolveTabCollisions (u : Unicode) (tabs : List Tab) : List (Tab × Text) :=
  assignTabSlugs u [] (tabs.insertionSort fun a b => a.index ≤ b.index)

def mdExt : Text := ".md".toList
def pngExt : Text := ".png".toList

/-- The path `_process_gsheet` gives a tab; it is not checked against the paths already taken. -/
def tabLocalPath (u : Unicode) (components : List Text) (name tabSlug : Text) (fileId : FileId)
    (root : Path) : Path :=
  (root.joinpath (components.map fun part => slugify u part fileId.text)).join
    (slugify u name fileId.text ++ "--".toList ++ tabSlug ++ mdExt)

/-- `{slug}.images` next to the Markdown file. -/
def sidecarDir (mdPath : Path) : Path := mdPath.parent ++ [mdPath.stem ++ ".images".toList]

/-! ## Plain names -/

/-- A name that is one part of a path: not empty, over the alphabet of ids, so without a dot. -/
structure Plain (t : Text) : Prop where
  ne_nil : t ≠ []
  chars : ∀ c ∈ t, isIdChar c = true

/-- A path under the root whose directories and stem are plain. -/
def Placed (root : Path) (ext : Text) (p : Path) : Prop :=
  ∃ dirs stem, p = root ++ dirs ++ [stem ++ ext] ∧ (∀ d ∈ dirs, Plain d) ∧ Plain stem

variable {c : Char} {s t stem ext slug : Text} {dirs components : List Text} {root p q : Path}
  {u : Unicode} {takenPaths : List Path} {fileId : FileId} {tabs : List Tab}

theorem isIdChar_of_isSlugChar (h : isSlugChar c = true) : isIdChar c = true := by
  have hclass : c.isAlphanum = (c.isUpper || isSlugChar c) := Bool.or_assoc _ _ _
  simp [isIdChar, hclass, h]

theorem isIdChar_decimal (n : Nat) : ∀ c ∈ decimal n, isIdChar c = true := by
  intro c hc
  have := Nat.isDigit_of_mem_toDigits (by decide) (by decide) hc
  simp [isIdChar, Char.isAlphanum, this]

theorem mem_replaceRuns {p : Char → Bool} {r : Char} :
    ∀ {inRun : Bool}, c ∈ replaceRuns p r inRun s → c = r ∨ p c = false ∧ c ∈ s := by
  induction s with
  | nil => intro _ h; cases h
  | cons d s ih =>
    intro inRun h
    have htail : ∀ {b}, c ∈ replaceRuns p r b s → c = r ∨ p c = false ∧ c ∈ d :: s := fun h =>
      (ih h).imp_right fun ⟨hp, hs⟩ => ⟨hp, List.mem_cons_of_mem d hs⟩
    unfold replaceRuns at h
    split at h
    · split at h
      · exact htail h
      · exact (List.mem_cons.1 h).elim .inl htail
    · rename_i hp
      rcases List.mem_cons.1 h with rfl | h
      · exact .inr ⟨by simpa using hp, List.mem_cons_self⟩
      · exact htail h

theorem mem_stripHyphens (h : c ∈ stripHyphens s) : c ∈ s :=
  (List.dropWhile_sublist _).mem ((List.rdropWhile_prefix _ _).sublist.mem h)

/-- A slug is plain, whatever the name: either it was cut from runs of `[a-z0-9]` and hyphens, or
it is `file-` and the head of the id. -/
theorem slugify_plain (u : Unicode) (text : Text) {fallbackId : Text}
    (h : ∀ c ∈ fallbackId, isIdChar c = true) : Plain (slugify u text fallbackId) := by
  unfold slugify
  extract_lets dashNormalised withoutCombining lowered replaced collapsed capped
  split
  · refine ⟨by simp, fun c hc => ?_⟩
    rcases List.mem_append.1 hc with hc | hc
    · exact List.all_eq_true.1 (by decide : "file-".toList.all isIdChar = true) c hc
    · exact h c (List.mem_of_mem_take hc)
  · refine ⟨‹_›, fun c hc => ?_⟩
    have hcollapsed := mem_stripHyphens (List.mem_of_mem_take (mem_stripHyphens hc))
    rcases mem_replaceRuns hcollapsed with rfl | ⟨_, hreplaced⟩
    · rfl
    · rcases mem_replaceRuns hreplaced with rfl | ⟨hslug, _⟩
      · rfl
      · exact isIdChar_of_isSlugChar (by simpa using hslug)

theorem Plain.append (hs : Plain s) (ht : ∀ c ∈ t, isIdChar c = true) : Plain (s ++ t) :=
  ⟨by simp [hs.ne_nil], fun c hc => (List.mem_append.1 hc).elim (hs.chars c) (ht c)⟩

theorem Plain.not_mem (ht : Plain t) (hc : isIdChar c = false) : c ∉ t :=
  fun h => by simp [ht.chars c h] at hc

theorem joinpath_plain (h : ∀ d ∈ dirs, Plain d) (root : Path) :
    root.joinpath dirs = root ++ dirs :=
  Path.joinpath_names fun d hd => ⟨(h d hd).ne_nil, (h d hd).not_mem (by decide), fun he =>
    (h d hd).not_mem (c := '.') (by decide) (by simp [he])⟩

theorem join_plain (hdirs : ∀ d ∈ dirs, Plain d) (hstem : Plain stem) (hext : '/' ∉ ext) :
    (root.joinpath dirs).join (stem ++ ext) = root ++ dirs ++ [stem ++ ext] := by
  rw [joinpath_plain hdirs, Path.join_name]
  · simp [hstem.ne_nil]
  · simp [hstem.not_mem (c := '/') (by decide), hext]
  · obtain ⟨c, rest, rfl⟩ := List.exists_cons_of_ne_nil hstem.ne_nil
    intro he
    exact hstem.not_mem (c := '.') (by decide) (by simp_all)

theorem join_placed (hdirs : ∀ d ∈ dirs, Plain d) (hstem : Plain stem) (hext : '/' ∉ ext) :
    Placed root ext ((root.joinpath dirs).join (stem ++ ext)) :=
  ⟨dirs, stem, join_plain hdirs hstem hext, hdirs, hstem⟩

theorem slugify_components_plain (u : Unicode) (components : List Text) (fileId : FileId) :
    ∀ d ∈ components.map fun part => slugify u part fileId.text, Plain d := by
  intro d hd
  obtain ⟨part, _, rfl⟩ := List.mem_map.1 hd
  exact slugify_plain u part fileId.alphabet

theorem resolveLocalPath_eq (hext : '/' ∉ ext)
    (h : resolveLocalPath u components slug ext takenPaths fileId root = some p) :
    ∃ stem, Plain stem ∧
      p = root ++ (components.map fun part => slugify u part fileId.text) ++ [stem ++ ext] := by
  have hslug := slugify_plain u slug fileId.alphabet
  have hdirs := slugify_components_plain u components fileId
  unfold resolveLocalPath at h
  extract_lets safeComponents safeSlug candidate suffixed at h
  repeat' split at h
  · cases h
  · rw [← Option.some.inj h]
    exact ⟨safeSlug, hslug, join_plain hdirs hslug hext⟩
  · cases h
  · cases h
  · rw [← Option.some.inj h]
    have hsuffixed : Plain (safeSlug ++ '-' :: fileId.text.take 8) := hslug.append fun c hc => by
      rcases List.mem_cons.1 hc with rfl | hc
      · rfl
      · exact fileId.alphabet c (List.mem_of_mem_take hc)
    exact ⟨_, hsuffixed, join_plain hdirs hsuffixed hext⟩

theorem resolveLocalPath_placed (hext : '/' ∉ ext)
    (h : resolveLocalPath u components slug ext takenPaths fileId root = some p) :
    Placed root ext p := by
  obtain ⟨stem, hstem, rfl⟩ := resolveLocalPath_eq hext h
  exact ⟨_, stem, rfl, slugify_components_plain u components fileId, hstem⟩

theorem resolveLocalPath_fresh
    (h : resolveLocalPath u components slug ext takenPaths fileId root = some p) :
    p ∉ takenPaths := by
  unfold resolveLocalPath at h
  dsimp only at h
  split at h
  · cases h
  split at h
  · next hfree =>
    cases h
    exact hfree
  split at h
  · cases h
  split at h
  · cases h
  · next hfree =>
    cases h
    exact hfree

theorem assignTabSlugs_tabs (u : Unicode) (seen : List Text) (tabs : List Tab) :
    (assignTabSlugs u seen tabs).map (·.1) = tabs := by
  induction tabs generalizing seen with
  | nil => rfl
  | cons tab tabs ih =>
    unfold assignTabSlugs
    dsimp only
    split <;> rw [List.map_cons, ih]

theorem resolveTabCollisions_perm (u : Unicode) (tabs : List Tab) :
    ((resolveTabCollisions u tabs).map (·.1)).Perm tabs := by
  rw [resolveTabCollisions, assignTabSlugs_tabs]
  exact List.perm_insertionSort _ tabs

theorem resolveTabCollisions_nodup (u : Unicode) (h : (tabs.map (·.sheetId)).Nodup) :
    ((resolveTabCollisions u tabs).map (·.1.sheetId)).Nodup := by
  have hperm := (resolveTabCollisions_perm u tabs).map (·.sheetId)
  rw [List.map_map] at hperm
  exact hperm.nodup_iff.mpr h

theorem assignTabSlugs_plain {e : Tab × Text} :
    ∀ {seen : List Text}, e ∈ assignTabSlugs u seen tabs → Plain e.2 := by
  induction tabs with
  | nil => intro _ h; cases h
  | cons tab tabs ih =>
    intro seen h
    have hbase : Plain (slugify u tab.title (decimal tab.sheetId)) :=
      slugify_plain u tab.title (isIdChar_decimal tab.sheetId)
    unfold assignTabSlugs at h
    generalize slugify u tab.title (decimal tab.sheetId) = baseSlug at h hbase
    dsimp only at h
    split at h <;> rcases List.mem_cons.1 h with rfl | h
    · exact hbase
    · exact ih h
    · refine hbase.append fun c hc => ?_
      rcases List.mem_cons.1 hc with rfl | hc
      · rfl
      · exact isIdChar_decimal tab.sheetId c hc
    · exact ih h

theorem tabLocalPath_placed (components : List Text) (name : Text) (fileId : FileId) (root : Path)
    {tabSlug : Text} (h : Plain tabSlug) :
    Placed root mdExt (tabLocalPath u components name tabSlug fileId root) := by
  have hname := (slugify_plain u name fileId.alphabet).append
    (List.all_eq_true.1 (by decide : "--".toList.all isIdChar = true))
  unfold tabLocalPath
  exact join_placed (slugify_components_plain u components fileId) (hname.append h.chars)
    (by decide)

/-! ## Suffixes and sidecars of placed paths -/

theorem splitName_placed (hstem : Plain stem) (hne : ext ≠ []) (hdot : '.' ∉ ext) :
    Path.splitName (Path.name (root ++ dirs ++ [stem ++ '.' :: ext])) = (stem, '.' :: ext) := by
  have hname : Path.name (root ++ dirs ++ [stem ++ '.' :: ext]) = stem ++ '.' :: ext := by
    simp [Path.name]
  rw [hname, Path.splitName_dot hstem.ne_nil hne hdot]

theorem Placed.suffix (h : Placed root ('.' :: ext) p) (hne : ext ≠ []) (hdot : '.' ∉ ext) :
    p.suffix = '.' :: ext := by
  obtain ⟨dirs, stem, rfl, _, hstem⟩ := h
  rw [Path.suffix, splitName_placed hstem hne hdot]

theorem Placed.suffix_md (h : Placed root mdExt p) : p.suffix = mdExt :=
  Placed.suffix h (by decide) (by decide)

theorem Placed.suffix_png (h : Placed root pngExt p) : p.suffix = pngExt :=
  Placed.suffix h (by decide) (by decide)

/-- A path with a dotted name below the root is a prefix of a placed Markdown file only if it is
that file: the directories of a placed path have no dot. -/
theorem Placed.eq_of_prefix {name : Text} (hq : Placed root mdExt q) (hname : '.' ∈ name)
    (h : root ++ dirs ++ [name] <+: q) : q = root ++ dirs ++ [name] := by
  obtain ⟨dirs', stem', rfl, hdirs', _⟩ := hq
  rcases List.prefix_concat_iff.1 h with h | h
  · exact h.symm
  · rw [List.append_assoc, List.prefix_append_right_inj] at h
    exact absurd hname ((hdirs' name (h.subset (by simp))).not_mem (by decide))

theorem Placed.md_eq_of_prefix (hp : Placed root mdExt p) (hq : Placed root mdExt q) (h : p <+: q) :
    q = p := by
  obtain ⟨dirs, stem, rfl, _, _⟩ := hp
  exact hq.eq_of_prefix (by simp [mdExt]) h

theorem Placed.png_not_prefix (hp : Placed root pngExt p) (hq : Placed root mdExt q) :
    ¬ p <+: q := by
  intro h
  have hsuffix := hp.suffix_png
  obtain ⟨dirs, stem, rfl, _, _⟩ := hp
  rw [← hq.eq_of_prefix (by simp [pngExt]) h, hq.suffix_md] at hsuffix
  exact absurd hsuffix (by decide)

theorem sidecarDir_placed (hstem : Plain stem) :
    sidecarDir (root ++ dirs ++ [stem ++ mdExt]) = root ++ dirs ++ [stem ++ ".images".toList] := by
  have hsplit : Path.splitName (Path.name (root ++ dirs ++ [stem ++ mdExt])) = (stem, mdExt) :=
    splitName_placed hstem (by decide) (by decide)
  rw [sidecarDir, Path.stem, hsplit, Path.parent, List.dropLast_concat]

theorem sidecarName_ne_md (stem stem' : Text) : stem ++ ".images".toList ≠ stem' ++ mdExt := by
  intro h
  have := congrArg List.getLast? h
  simp [mdExt] at this

theorem Placed.not_under_sidecar (hp : Placed root mdExt p) (hq : Placed root mdExt q) :
    ¬ sidecarDir p <+: q := by
  obtain ⟨dirs, stem, rfl, _, hstem⟩ := hp
  rw [sidecarDir_placed hstem]
  intro h
  have heq := hq.eq_of_prefix (by simp) h
  obtain ⟨dirs', stem', rfl, _, _⟩ := hq
  exact sidecarName_ne_md stem stem' (List.singleton_inj.1 (List.append_inj' heq rfl).2).symm

theorem Placed.not_prefix_sidecar (hp : Placed root mdExt p) (rest : Path) :
    ¬ p <+: sidecarDir p ++ rest := by
  obtain ⟨dirs, stem, rfl, _, hstem⟩ := hp
  rw [sidecarDir_placed hstem, List.append_assoc (root ++ dirs), List.prefix_append_right_inj]
  intro h
  obtain ⟨rest', hrest⟩ := h
  exact sidecarName_ne_md stem stem (List.cons.inj hrest).1.symm

end Archiviste.Sync
