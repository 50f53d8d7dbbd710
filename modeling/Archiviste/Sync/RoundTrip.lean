import Archiviste.Ingest.Frontmatter
import Archiviste.Sync.Effects

/-!
# Archiviste.Sync.RoundTrip

The files the exporter writes, as the ingester reads them. Both use one `yaml`, given by its two
functions over `Yaml` values (`YamlLib`); the exporter's codec is built from it.

The ingester cuts a file with a regular expression that also allows CRLF, the exporter with a
search for the closing line after universal newlines. On a file `_write_gdoc` wrote they find the
same line, whatever the body is.

* `splitFrontmatter_append`  — where the regular expression cuts.
* `frontmatter_round_trip`   — title, tags, tier and body come back, also once archived.
-/

namespace Archiviste.Sync

open Prog
open Ingest (allowedAccessTiers buildFrontmatter parseFrontmatter splitFrontmatter)

/-- `yaml`, for both programs. -/
structure YamlLib where
  /-- `none` is a `YAMLError`. -/
  safeLoad : Text → Option Yaml
  safeDump : Dict Text Yaml → Text

/-- What the exporter makes of a loaded value: a mapping, or `bool(value)`. -/
def Loaded.ofYaml : Yaml → Loaded Yaml
  | .map entries => .mapping entries
  | .null | .bool false | .str [] | .seq [] => .falsy
  | .num q => if q = 0 then .falsy else .other
  | _ => .other

def YamlLib.codec (yaml : YamlLib) : Codec Yaml where
  str := .str
  bool := .bool
  null := .null
  emptyList := .seq []
  isNull
    | .null => true
    | _ => false
  safeLoad t := (yaml.safeLoad t).map Loaded.ofYaml
  safeDump := yaml.safeDump

/-- What is used of `yaml` for one mapping: its text ends with a line end, has no carriage return
and no line `---`, and loads as the mapping. -/
def YamlLib.Inverts (yaml : YamlLib) (m : Dict Text Yaml) : Prop :=
  ∃ t, yaml.safeDump m = t ++ ['\n'] ∧ '\r' ∉ t ∧ ¬ "\n---\n".toList <:+: '\n' :: t ++ ['\n'] ∧
    yaml.safeLoad t = some (.map m)

/-! ## The cut of the ingester -/

theorem dropNewline_eq_some {s rest : Text} (h : Ingest.dropNewline s = some rest) :
    s = '\n' :: rest ∨ s = '\r' :: '\n' :: rest := by
  unfold Ingest.dropNewline at h
  split at h
  · cases h
    exact .inl rfl
  · cases h
    exact .inr rfl
  · cases h

theorem dropClosing_eq_some {s rest : Text} (h : Ingest.dropClosing s = some rest) :
    s.head? = some '\r' ∨ s = "\n---\n".toList ++ rest ∨ s = "\n---\r\n".toList ++ rest := by
  obtain ⟨s₂, h, hend⟩ := Option.bind_eq_some_iff.1 h
  obtain ⟨s₁, hstart, hrule⟩ := Option.bind_eq_some_iff.1 h
  rw [Text.dropPrefix?_eq_some] at hrule
  rcases dropNewline_eq_some hstart with rfl | rfl
  · rcases dropNewline_eq_some hend with rfl | rfl
    · exact .inr (.inl (by rw [hrule]; rfl))
    · exact .inr (.inr (by rw [hrule]; rfl))
  · exact .inl rfl

variable {t title tier : Text} {m : Dict Text Yaml} {tags : List Text} {yaml : YamlLib}

theorem dropClosing_within {c : Char} (hcr : '\r' ∉ c :: t)
    (h : ¬ "\n---\n".toList <:+: c :: t ++ ['\n']) (body : Text) :
    Ingest.dropClosing (c :: t ++ "\n---\n".toList ++ body) = none := by
  cases hdrop : Ingest.dropClosing (c :: t ++ "\n---\n".toList ++ body) with
  | none => rfl
  | some rest =>
    exfalso
    rcases dropClosing_eq_some hdrop with hhead | hrest | hrest
    · exact hcr (by rw [← Option.some.inj hhead]; exact List.mem_cons_self)
    · exact h (closing_within hrest)
    · -- the carriage return would stand in the text, or where the closing line has none
      rcases t with _ | ⟨a, _ | ⟨b, _ | ⟨d, _ | ⟨e, t⟩⟩⟩⟩ <;> simp at hrest
      obtain ⟨-, -, -, -, rfl, -⟩ := hrest
      exact hcr (by simp)

theorem ingest_cutClosing_append (hcr : '\r' ∉ t) (h : ¬ "\n---\n".toList <:+: t ++ ['\n'])
    (body : Text) : Ingest.cutClosing (t ++ "\n---\n".toList ++ body) = some (t, body) := by
  induction t with
  | nil => rfl
  | cons c t ih =>
    have htail := ih (fun ht => hcr (List.mem_cons_of_mem c ht))
      fun hi => h (hi.trans (List.suffix_cons c _).isInfix)
    have hnone := dropClosing_within hcr h body
    simp only [List.cons_append] at hnone htail ⊢
    rw [Ingest.cutClosing, hnone]
    simp only [htail, Option.map_some]

theorem splitFrontmatter_append (hcr : '\r' ∉ t) (h : ¬ "\n---\n".toList <:+: t ++ ['\n'])
    (body : Text) :
    splitFrontmatter ("---\n".toList ++ (t ++ "\n---\n".toList ++ body)) = some (t, body) :=
  ingest_cutClosing_append hcr h body

/-! ## What the ingester reads -/

/-- The values of the three keys the ingester reads. -/
def ReadsAs (m : Dict Text Yaml) (title : Text) (tags : List Text) (tier : Text) : Prop :=
  m.get? "title".toList = some (.str title) ∧
    m.get? "tags".toList = some (.seq (tags.map .str)) ∧
    m.get? "access_tier".toList = some (.str tier)

theorem yaml_get?_eq (m : Dict Text Yaml) (k : Text) : Yaml.get? m k = m.get? k := by
  induction m with
  | nil => rfl
  | cons e m ih =>
    obtain ⟨k', v⟩ := e
    rw [Dict.get?_cons, ← ih, Yaml.get?, List.lookup_cons]
    by_cases h : k' = k
    · rw [if_pos h, h, beq_self_eq_true]
    · rw [if_neg h, beq_false_of_ne (Ne.symm h)]
      rfl

theorem strings_map_str (tags : List Text) : Ingest.strings (tags.map .str) = some tags := by
  induction tags with
  | nil => rfl
  | cons tag tags ih =>
    unfold Ingest.strings at ih ⊢
    rw [List.map_cons, List.mapM_cons, ih]
    rfl

theorem buildFrontmatter_readsAs (h : ReadsAs m title tags tier) (htitle : Text.strip title ≠ [])
    (htier : tier ∈ allowedAccessTiers) : buildFrontmatter m = .ok ⟨title, tags, tier⟩ := by
  obtain ⟨hm, htags, haccess⟩ := h
  rw [← yaml_get?_eq] at hm htags haccess
  simp only [buildFrontmatter, hm, htags, haccess, Option.getD_some, strings_map_str,
    Ingest.checkAccessTier, if_neg htitle, if_pos htier]

section
variable {yaml : YamlLib}

/-- A file with these values is read with them, its body as it is. The exporter cuts it at the
same line. -/
theorem parseFrontmatter_fileText {m : Dict Text Yaml} {title tier : Text} {tags : List Text}
    (hyaml : yaml.Inverts m) (h : ReadsAs m title tags tier) (htitle : Text.strip title ≠ [])
    (htier : tier ∈ allowedAccessTiers) (body : Text) :
    ∃ block, yaml.codec.safeLoad block = some (.mapping m) ∧
      splitFrontmatter (fileText yaml.codec m body) = some (block, body) ∧
      splitContent (universalNewlines (fileText yaml.codec m body)) =
        some (block, universalNewlines body) ∧
      parseFrontmatter yaml.safeLoad (fileText yaml.codec m body) =
        .ok (⟨title, tags, tier⟩, body) := by
  obtain ⟨t, hdump, hcr, hrule, hload⟩ := hyaml
  have hrule : ¬ "\n---\n".toList <:+: t ++ ['\n'] := fun hi =>
    hrule (hi.trans (List.suffix_cons '\n' _).isInfix)
  have htext : fileText yaml.codec m body = "---\n".toList ++ (t ++ "\n---\n".toList ++ body) :=
    fileText_eq hdump body
  have hsplit : splitFrontmatter (fileText yaml.codec m body) = some (t, body) := by
    rw [htext, splitFrontmatter_append hcr hrule]
  refine ⟨t, by simp [YamlLib.codec, hload, Loaded.ofYaml], hsplit, ?_, ?_⟩
  · rw [htext, splitContent_append hcr hrule]
  · rw [parseFrontmatter, hsplit]
    simp only [hload, buildFrontmatter_readsAs h htitle htier]

end

/-- The merge writes the title, and keeps or fills in what is the user's. -/
theorem readsAs_orderedFrontmatter {existing : Dict Text Yaml} {sourceId drivePath now : Text}
    (htags : withDefaults yaml.codec existing "tags".toList = some (.seq (tags.map .str)))
    (htier : withDefaults yaml.codec existing "access_tier".toList = some (.str tier)) :
    ReadsAs (orderedFrontmatter yaml.codec existing
      (scriptManaged yaml.codec title sourceId drivePath now)) title tags tier := by
  refine ⟨?_, ?_, ?_⟩
  · exact get?_orderedFrontmatter_script existing rfl (by decide)
  · rw [get?_orderedFrontmatter existing _ _ _ _ (by unfold userKey; decide), htags]
  · rw [get?_orderedFrontmatter existing _ _ _ _ (by unfold userKey; decide), htier]

theorem readsAs_archived (h : ReadsAs m title tags tier) (archivedAt : Text) :
    ReadsAs (markArchived yaml.codec m archivedAt) title tags tier := by
  have hne (k : Text) (hk : k ≠ "archived".toList ∧ k ≠ "archived_at".toList) :
      (markArchived yaml.codec m archivedAt).get? k = m.get? k :=
    get?_markArchived m archivedAt hk.1 hk.2
  unfold ReadsAs
  rw [hne _ (by decide), hne _ (by decide), hne _ (by decide)]
  exact h

/-! ## The functions of the exporter -/

section
variable {ν δ π : Type} {env : Env ν δ π} {p : Path} {c c₁ : Ctx}

variable {raw body : Text}

theorem WrittenAt.write (h : WrittenAt c p raw) (raw' : Text) :
    ∃ c₂, exec (onTree (·.write p (.text raw'))) c = (.ok (), c₂) ∧ WrittenAt c₂ p raw' := by
  obtain ⟨-, hdir, hparent⟩ := h
  refine ⟨_, exec_onTree_ok.2 ⟨_, FileTree.write_eq_ok.2 ⟨hdir, hparent, rfl⟩, rfl⟩, ?_, hdir,
    hparent⟩
  exact Dict.get?_set_self _ _ _

theorem WrittenAt.exec_readText (h : WrittenAt c p raw) :
    exec (readText env p) c = (.ok (universalNewlines raw), c) := by
  have hread : c.tree.read p = .ok (.text raw) := by simp [FileTree.read, h.1]
  rw [readText, exec_bind, exec_get]
  simp only [hread, Content.decode]
  rfl

theorem exec_writeGdoc {title drivePath now : Text} {key : SourceId} {yaml : Option Text}
    {merged : Dict Text ν} {t : FileTree Content}
    (hmerged : buildOrderedFrontmatter env.deps.codec yaml
      (scriptManaged env.deps.codec title key.text drivePath now) = some merged)
    (hparent : c.tree.mkdirs p.parent = .ok t)
    (hdir : t.isDir p = false ∧ t.isDir p.parent = true) :
    exec (writeGdoc env p title key drivePath now body yaml) c =
      (.ok (), { c with tree :=
        { t with files := t.files.set p (.text (fileText env.deps.codec merged body)) } }) := by
  unfold writeGdoc
  simp only [hmerged]
  refine exec_bind_ok.2 ⟨(), { c with tree := t }, exec_onTree_ok.2 ⟨t, hparent, rfl⟩, ?_⟩
  exact exec_onTree_ok.2 ⟨_, FileTree.write_eq_ok.2 ⟨hdir.1, hdir.2, rfl⟩, rfl⟩

theorem WrittenAt.exec_readExistingFrontmatter {block : Text} (h : WrittenAt c p raw)
    (hsplit : splitContent (universalNewlines raw) = some (block, body)) :
    exec (readExistingFrontmatter env p) c = (.ok (some block), c) := by
  have hexists : c.tree.exists? p = true := by simp [FileTree.exists?, h.1]
  rw [readExistingFrontmatter, exec_bind, exec_get]
  simp only [hexists, if_true]
  rw [exec_bind, h.exec_readText]
  simp [hsplit]

theorem WrittenAt.setArchivedFrontmatter {block : Text} {m : Dict Text ν} (h : WrittenAt c p raw)
    (hsplit : splitContent (universalNewlines raw) = some (block, body))
    (hload : env.deps.codec.safeLoad block = some (.mapping m)) (archivedAt : Text) :
    ∃ c₂, exec (setArchivedFrontmatter env p archivedAt) c = (.ok (), c₂) ∧
      WrittenAt c₂ p
        (fileText env.deps.codec (markArchived env.deps.codec m archivedAt) body) := by
  obtain ⟨rest, hopen, hcut⟩ := Option.bind_eq_some_iff.1 hsplit
  obtain ⟨c₂, hwrite, hwritten⟩ :=
    h.write (fileText env.deps.codec (markArchived env.deps.codec m archivedAt) body)
  refine ⟨c₂, ?_, hwritten⟩
  rw [Sync.setArchivedFrontmatter]
  rw [exec_bind, h.exec_readText]
  simp only [hopen, hcut, hload]
  exact hwrite

end

section
variable {δ π : Type} {yaml : YamlLib} {env : Env Yaml δ π}

/-- A Markdown file the exporter wrote is read by the ingester with its title, its body, and the
tags and the tier of the merged frontmatter, also once it is marked as archived. The exporter itself
finds the same frontmatter in it, and the body as text mode reads it. -/
theorem frontmatter_round_trip (hcodec : env.deps.codec = yaml.codec)
    {title tier drivePath exportedAt body : Text} {tags : List Text} {key : SourceId}
    {existing merged : Dict Text Yaml} {existingYaml : Option Text}
    (htitle : Text.strip title ≠ []) (htier : tier ∈ allowedAccessTiers)
    (hexisting : existingMapping yaml.codec existingYaml = some existing)
    (htags : withDefaults yaml.codec existing "tags".toList = some (.seq (tags.map .str)))
    (haccess : withDefaults yaml.codec existing "access_tier".toList = some (.str tier))
    (hmerged : merged = orderedFrontmatter yaml.codec existing
      (scriptManaged yaml.codec title key.text drivePath exportedAt))
    (hyaml : yaml.Inverts merged)
    (hyaml' : ∀ archivedAt, yaml.Inverts (markArchived yaml.codec merged archivedAt))
    {p : Path} {c c₁ : Ctx}
    (hwrite : exec (writeGdoc env p title key drivePath exportedAt body existingYaml) c =
      (.ok (), c₁)) :
    ∃ raw block, c₁.tree.file? p = some (.text raw) ∧
      parseFrontmatter yaml.safeLoad raw = .ok (⟨title, tags, tier⟩, body) ∧
      splitFrontmatter raw = some (block, body) ∧
      exec (readExistingFrontmatter env p) c₁ = (.ok (some block), c₁) ∧
      bodyPart (universalNewlines raw) = universalNewlines body ∧
      ∀ archivedAt, ∃ c₂ raw', exec (setArchivedFrontmatter env p archivedAt) c₁ = (.ok (), c₂) ∧
        c₂.tree.file? p = some (.text raw') ∧
        parseFrontmatter yaml.safeLoad raw' =
          .ok (⟨title, tags, tier⟩, universalNewlines body) := by
  obtain ⟨existing', hexisting', hwritten⟩ := writeGdoc_writes hwrite
  rw [hcodec] at hexisting' hwritten
  obtain rfl : existing = existing' := Option.some.inj (hexisting.symm.trans hexisting')
  have hreads : ReadsAs merged title tags tier := hmerged ▸ readsAs_orderedFrontmatter htags haccess
  rw [← hmerged] at hwritten
  obtain ⟨block, hload, hsplit, hcontent, hparse⟩ :=
    parseFrontmatter_fileText hyaml hreads htitle htier body
  refine ⟨_, block, hwritten.1, hparse, hsplit, hwritten.exec_readExistingFrontmatter hcontent,
    by simp [bodyPart, hcontent], fun archivedAt => ?_⟩
  have hload : env.deps.codec.safeLoad block = some (.mapping merged) := by rw [hcodec, hload]
  obtain ⟨c₂, hexec, hwritten'⟩ := hwritten.setArchivedFrontmatter hcontent hload archivedAt
  obtain ⟨-, -, -, -, hparse'⟩ := parseFrontmatter_fileText (hyaml' archivedAt)
    (readsAs_archived hreads archivedAt) htitle htier (universalNewlines body)
  refine ⟨c₂, _, hexec, hwritten'.1, ?_⟩
  rw [hcodec]
  exact hparse'

end

/-! ## A library for plain values -/

def plainText : Yaml → Text
  | .str s => 's' :: s
  | .bool b => if b then ['t'] else ['f']
  | .seq items => 'l' :: encodeTexts (items.filterMap Yaml.str?)
  | _ => ['n']

def plainValue : Text → Yaml
  | 's' :: s => .str s
  | 't' :: _ => .bool true
  | 'f' :: _ => .bool false
  | 'l' :: t => .seq ((decodeTexts [] t).map .str)
  | _ => .null

def plainYaml : YamlLib where
  safeDump m := tokenCodec.safeDump (m.map fun e => (e.1, plainText e.2))
  safeLoad t :=
    match tokenCodec.safeLoad t with
    | some (.mapping m) => some (.map (m.map fun e => (e.1, plainValue e.2)))
    | _ => none

def IsPlain (v : Yaml) : Prop := plainValue (plainText v) = v

theorem plainYaml_inverts (h : ∀ e ∈ m, IsPlain e.2) : plainYaml.Inverts m := by
  obtain ⟨t, hdump, -, hcr, hdash, hload⟩ :=
    tokenCodec_dump (m.map fun e => (e.1, plainText e.2))
  refine ⟨t, hdump, hcr, not_rule_of_not_mem (t := '\n' :: t) (by simpa using hdash), ?_⟩
  have hvalues : m.map (fun e => (e.1, plainValue (plainText e.2))) = m.map id :=
    List.map_congr_left fun e he => congrArg (e.1, ·) (h e he)
  simp only [plainYaml, hload, List.map_map]
  exact congrArg (some <| Yaml.map ·) (hvalues.trans (List.map_id m))

def sampleExisting : Dict Text Yaml :=
  [("tags".toList, .seq [.str "magie".toList]), ("access_tier".toList, .str "members".toList),
    ("note".toList, .str "à relire".toList)]

def sampleMerged : Dict Text Yaml :=
  orderedFrontmatter plainYaml.codec sampleExisting
    (scriptManaged plainYaml.codec "Alpha".toList "1a".toList "Alpha".toList "t0".toList)

def roundTripEnv : Env Yaml Text Text where
  deps :=
    { codec := plainYaml.codec
      unicode := plainUnicode
      sha256 := id
      md5 _ := []
      decodeUtf8 _ := none
      extractInlineObjects _ := []
      renderDocMarkdown doc _ _ := doc
      renderPresentationMarkdown _ deck _ := deck
      renderTabMarkdown _ _ rows _ _ := rows.flatten.flatten
      compressImage _ _ := .error .undecodable }
  drive := plainDrive [] (.ok []) fun _ => .error .driveApi
  state := []
  dryRun := false
  loreRoot := ["lore".toList]

def samplePath : Path := ["lore".toList, "alpha.md".toList]

theorem isPlain_sampleMerged : ∀ e ∈ sampleMerged, IsPlain e.2 := by
  have hmerged : sampleMerged.map (·.2) =
      [.str "Alpha".toList, .str "gdrive".toList, .str "1a".toList, .str "Alpha".toList,
        .str "t0".toList, .bool false, .seq [.str "magie".toList], .str "members".toList,
        .str "à relire".toList] := rfl
  intro e he
  have hmem := List.mem_map_of_mem (f := (·.2)) he
  rw [hmerged] at hmem
  simp only [List.mem_cons, List.not_mem_nil, or_false] at hmem
  rcases hmem with h | h | h | h | h | h | h | h | h <;> rw [h] <;> rfl

theorem isPlain_markArchived (h : ∀ e ∈ m, IsPlain e.2) (archivedAt : Text) :
    ∀ e ∈ markArchived plainYaml.codec m archivedAt, IsPlain e.2 := by
  intro e he
  rcases Dict.mem_set he with rfl | he
  · rfl
  · rcases Dict.mem_set he with rfl | he
    · rfl
    · exact h e he

def sampleKey : SourceId := .file ⟨"1a".toList, by decide⟩

theorem exists_sampleYaml : ∃ t, existingMapping plainYaml.codec (some t) = some sampleExisting := by
  obtain ⟨t, -, -, -, hload⟩ := plainYaml_inverts (m := sampleExisting) (by
    intro e he
    simp only [sampleExisting, List.mem_cons, List.not_mem_nil, or_false] at he
    rcases he with rfl | rfl | rfl <;> rfl)
  cases t with
  | nil => cases hload
  | cons a t => exact ⟨a :: t, by simp [existingMapping, YamlLib.codec, hload, Loaded.ofYaml]⟩

theorem sample_write (h : existingMapping plainYaml.codec (some t) = some sampleExisting)
    (body : Text) :
    ∃ c₁, exec (writeGdoc roundTripEnv samplePath "Alpha".toList sampleKey "Alpha".toList
      "t0".toList body (some t)) (Ctx.start ⟨[], []⟩) = (.ok (), c₁) :=
  have hmerged : buildOrderedFrontmatter roundTripEnv.deps.codec (some t)
      (scriptManaged roundTripEnv.deps.codec "Alpha".toList sampleKey.text "Alpha".toList
        "t0".toList) = some sampleMerged := congrArg (Option.map _) h
  have hparent : (Ctx.start ⟨[], []⟩).tree.mkdirs samplePath.parent =
      .ok ⟨[], [["lore".toList]]⟩ := rfl
  ⟨_, exec_writeGdoc hmerged hparent (by decide)⟩

theorem frontmatter_round_trip_sample :
    ∃ existingYaml c₁ raw, exec (writeGdoc roundTripEnv samplePath "Alpha".toList sampleKey
        "Alpha".toList "t0".toList "\n---\nfin".toList existingYaml) (Ctx.start ⟨[], []⟩) =
        (.ok (), c₁) ∧
      c₁.tree.file? samplePath = some (.text raw) ∧
      parseFrontmatter plainYaml.safeLoad raw =
        .ok (⟨"Alpha".toList, ["magie".toList], "members".toList⟩, "\n---\nfin".toList) := by
  obtain ⟨t, ht⟩ := exists_sampleYaml
  obtain ⟨c₁, hwrite⟩ := sample_write ht "\n---\nfin".toList
  have htitle : Text.strip "Alpha".toList ≠ [] := by decide
  have htier : "members".toList ∈ allowedAccessTiers := by decide
  have htags : withDefaults plainYaml.codec sampleExisting "tags".toList =
      some (.seq (["magie".toList].map .str)) := rfl
  have haccess : withDefaults plainYaml.codec sampleExisting "access_tier".toList =
      some (.str "members".toList) := rfl
  have hmerged : sampleMerged = orderedFrontmatter plainYaml.codec sampleExisting
      (scriptManaged plainYaml.codec "Alpha".toList sampleKey.text "Alpha".toList "t0".toList) := rfl
  have hcodec : roundTripEnv.deps.codec = plainYaml.codec := rfl
  have hyaml := plainYaml_inverts isPlain_sampleMerged
  have hyaml' := fun archivedAt =>
    plainYaml_inverts (isPlain_markArchived isPlain_sampleMerged archivedAt)
  obtain ⟨raw, -, hraw, hparse, -⟩ :=
    frontmatter_round_trip hcodec htitle htier ht htags haccess hmerged hyaml hyaml' hwrite
  exact ⟨some t, c₁, raw, hwrite, hraw, hparse⟩

def textAfter (x : SyncM Unit) (c : Ctx) : Text :=
  match (exec x c).2.tree.file? samplePath with
  | some (.text raw) => raw
  | _ => []

/-- A body with CRLF line ends is read back as it is, and loses them when the file is marked as
archived. -/
theorem archiving_changes_crlf :
    let write := writeGdoc roundTripEnv samplePath "Alpha".toList sampleKey "Alpha".toList
      "t0".toList "a\r\nb".toList none
    let archive := setArchivedFrontmatter roundTripEnv samplePath "t1".toList
    parseFrontmatter plainYaml.safeLoad (textAfter write (Ctx.start ⟨[], []⟩)) =
        .ok (⟨"Alpha".toList, [], "public".toList⟩, "a\r\nb".toList) ∧
      parseFrontmatter plainYaml.safeLoad
          (textAfter (write >>= fun _ => archive) (Ctx.start ⟨[], []⟩)) =
        .ok (⟨"Alpha".toList, [], "public".toList⟩, "a\nb".toList) := by
  decide +kernel

end Archiviste.Sync
