import Archiviste.Sync.Entries
import Archiviste.Sync.Places

/-!
# Archiviste.Sync.Containment

Which failures of one item end a run. `_process_file` counts a `DriveApiError`, an `OSError` and a
`ValueError` of its handler, and `_process_gsheet` counts what the calls to Drive raise. Nothing is
around the archive pass, around the allocation of a path, or around the write of a tab, and an
exception of another type, such as a YAML error, leaves every handler.

* `ArchiveEscapes`, `Escapes` — an exception that nothing catches.
* `DocAtRisk`, `DocBreaks`    — what a document has to have met, and where it does raise.
* `processListed_errors`      — a turn that ends counts one error for each item that failed in it.
* `failures_contained`        — a run counts its failures and completes when none escapes.
-/

namespace Archiviste.Sync

open Prog

section
variable {ν δ π : Type} {env : Env ν δ π}

/-! ## The archive pass -/

/-- `_set_archived_frontmatter` raises: the file cannot be read or decoded, its frontmatter has no
closing line or is no mapping in YAML, or it cannot be written. -/
def Unmarkable (deps : Deps ν δ π) (tree : FileTree Content) (p : Path) : Prop :=
  match tree.read p with
  | .error _ => True
  | .ok content =>
    match content.decode deps with
    | none => True
    | some text =>
      match afterOpening text with
      | none => False
      | some rest =>
        match cutClosing rest with
        | none => True
        | some (fmYaml, _) =>
          match deps.codec.safeLoad fmYaml with
          | some (.mapping _) => tree.isDir p = true ∨ tree.isDir p.parent = false
          | some .falsy => tree.isDir p = true ∨ tree.isDir p.parent = false
          | some .other => True
          | none => True

variable {p : Path} {c c' : Ctx} {files : List DriveFile} {key : SourceId} {e : Exn} {α β : Type}
  {x : SyncM α} {file : DriveFile} {existing : Option StateEntry} {s : Tab × Text}
  {slugged : List (Tab × Text)}

theorem succeeds_write {content : Content} :
    Succeeds (onTree (·.write p content)) c ↔
      ¬ (c.tree.isDir p = true ∨ c.tree.isDir p.parent = false) := by
  rw [succeeds_onTree]
  simp [FileTree.write_eq_ok]

theorem succeeds_setArchivedFrontmatter (p : Path) (archivedAt : Text) (c : Ctx) :
    Succeeds (setArchivedFrontmatter env p archivedAt) c ↔ ¬ Unmarkable env.deps c.tree p := by
  have hread := exec_readText env p c
  unfold setArchivedFrontmatter Unmarkable
  dsimp only
  cases hfile : c.tree.read p with
  | error e =>
    rw [hfile] at hread
    simp [succeeds_bind, hread]
  | ok content =>
    rw [hfile] at hread
    dsimp only at hread ⊢
    cases hdecode : content.decode env.deps with
    | none =>
      rw [hdecode] at hread
      simp [succeeds_bind, hread]
    | some text =>
      rw [hdecode] at hread
      rw [succeeds_bind_of_ok hread]
      dsimp only
      cases afterOpening text with
      | none => simp
      | some rest =>
        dsimp only
        cases cutClosing rest with
        | none => simp
        | some cut =>
          dsimp only
          rcases env.deps.codec.safeLoad cut.1 with _ | (m | _ | _)
          · simp
          · exact succeeds_write
          · exact succeeds_write
          · simp

def Unarchivable (env : Env ν δ π) (c : Ctx) (entry : StateEntry) : Prop :=
  entry.archivedAt = none ∧ env.dryRun = false ∧ entry.localPath.suffix = mdExt ∧
    c.tree.exists? entry.localPath = true ∧ Unmarkable env.deps c.tree entry.localPath

theorem succeeds_archiveEntry (key : SourceId) (entry : StateEntry) (c : Ctx) :
    Succeeds (archiveEntry env key entry) c ↔ ¬ Unarchivable env c entry := by
  have hrecord : ∀ (e : StateEntry) (f : SummaryCounts → SummaryCounts) (c : Ctx),
      Succeeds (record key e >>= fun _ => bump f) c := fun e f c => ⟨(), _, rfl⟩
  rw [archiveEntry, succeeds_bind_of_ok (exec_bump _ c)]
  unfold Unarchivable
  cases harchived : entry.archivedAt with
  | some time => exact iff_of_true (hrecord _ _ _) (by simp)
  | none =>
    rw [if_neg (by simp)]
    cases hdry : env.dryRun with
    | true => exact iff_of_true (hrecord _ _ _) (by simp)
    | false =>
      rw [if_neg (by simp), succeeds_bind_of_ok (exec_get _)]
      dsimp only
      split
      · next hmd =>
        rw [succeeds_bind_of_succeeds fun _ => hrecord _ _, succeeds_setArchivedFrontmatter]
        simp [hmd.1, hmd.2]
      · next hmd => exact iff_of_true (hrecord _ _ _) (by tauto)

/-- An exception of the archive pass; nothing catches it. -/
def ArchiveEscapes (env : Env ν δ π) (files : List DriveFile) (s : Ctx × TabGids)
    (a : SourceId × StateEntry) : Prop :=
  (∃ e, Unanswered env files s.2 e a.1 ∧ e ≠ .driveApi) ∨
    (Gone env files s.2 a.1 ∧ Unarchivable env s.1 a.2)

theorem Gone.answered {gids : TabGids} (h : Gone env files gids key) :
    ¬ Unanswered env files gids e key := by
  intro hun
  cases key with
  | file id => exact hun
  | tab id gid =>
    rcases h with hlisted | ⟨-, known, hknown, -⟩
    · obtain ⟨file, hfile, hid⟩ := List.mem_map.1 hun.1
      exact hlisted (List.mem_map.2 ⟨file, (List.mem_filter.1 hfile).1, hid⟩)
    · cases hknown.symm.trans hun.2

theorem succeeds_handleArchivedKey (files : List DriveFile) (s : Ctx × TabGids)
    (a : SourceId × StateEntry) :
    Succeeds (handleArchivedKey env files s.2 a) s.1 ↔ ¬ ArchiveEscapes env files s a := by
  obtain ⟨key, entry⟩ := a
  have hstep := handleArchivedKey_step env files s.2 key entry
  unfold ArchiveEscapes
  generalize handleArchivedKey env files s.2 (key, entry) = step at hstep ⊢
  cases hstep with
  | raises hun he =>
    exact iff_of_false (not_succeeds_throw _ _) (not_not.2 (.inl ⟨_, hun, he⟩))
  | gone _ hgone =>
    rw [succeeds_bind_of_succeeds fun _ _ => succeeds_pure _ _, succeeds_archiveEntry]
    have hanswered : ∀ e, ¬ (Unanswered env files s.2 e key ∧ e ≠ .driveApi) :=
      fun e h => hgone.answered h.1
    simp [hgone, hanswered]
  | present _ hkey hgone hanswered =>
    refine iff_of_true ⟨_, _, rfl⟩ ?_
    rintro (⟨e, hun, he⟩ | ⟨h, -⟩)
    · exact he (hanswered e hun)
    · exact hgone h
  | listed hfile hkey =>
    refine iff_of_true (succeeds_pure _ _) ?_
    rintro (⟨e, hun, he⟩ | ⟨h, -⟩)
    · rw [hkey] at hun
      exact hun
    · exact h.not_listed ⟨_, hfile, hkey⟩

/-! ## Tabs, slide decks and images of the listing -/

/-- The turn of a tab raises: Drive answers with another exception than that of the API or the
network, or the tab is to be written and does not fit. -/
def TabEscapes (env : Env ν δ π) (file : DriveFile) (c : Ctx) (s : Tab × Text) : Prop :=
  let p := tabPath env file s.2
  let key := SourceId.tab file.id s.1.sheetId
  match env.drive.sheetValues file.id s.1.title with
  | .error e => e ≠ .driveApi ∧ e ≠ .os
  | .ok values =>
    let body := normalizeBody env.deps.unicode
      (env.deps.renderTabMarkdown file.name s.1.title values file.id s.1.sheetId)
    ¬ utf8Length body > oneMib ∧ Due env (textExport env key p body) (env.state.get? key) ∧
      ¬ Fits (Mergeable env.deps) c.tree p (env.state.get? key)

theorem succeeds_processTab (file : DriveFile) (s : Tab × Text) (c : Ctx) :
    Succeeds (processTab env file s) c ↔ ¬ TabEscapes env file c s := by
  unfold processTab exportTab TabEscapes
  rw [succeeds_bind_of_ok (exec_takePath _ c)]
  dsimp only
  rcases env.drive.sheetValues file.id s.1.title with (_ | _ | _ | _) | values
  · exact iff_of_true ⟨(), _, rfl⟩ (by simp)
  · exact iff_of_true ⟨(), _, rfl⟩ (by simp)
  · exact iff_of_false (not_succeeds_throw _ _) (by simp)
  · exact iff_of_false (not_succeeds_throw _ _) (by simp)
  · dsimp only
    split
    · next hsize => exact iff_of_true ⟨(), _, rfl⟩ fun h => h.1 hsize
    · next hsize =>
      rw [applyTabState, succeeds_bind_of_ok (exec_bump _ _), applyState_eq,
        succeeds_settle_iff (p := tabPath env file s.2) rfl (writeText_writesTo env _ _ _ _ _ _ _)
          harmless_pure]
      simp [hsize]

/-- The handler of a slide deck raises what is not caught: Drive does, or the deck is to be written
and the frontmatter it is merged with is no YAML. -/
def DeckBreaks (env : Env ν δ π) (t : FileTree Content) (file : DriveFile) (p : Path)
    (existing : Option StateEntry) : Prop :=
  match env.drive.presentation file.id with
  | .error e => e = .other
  | .ok deck =>
    let body := normalizeBody env.deps.unicode
      (env.deps.renderPresentationMarkdown file.name deck file.id)
    ¬ utf8Length body > oneMib ∧ Due env (textExport env (.file file.id) p body) existing ∧
      Spoiled (Unloadable env.deps) t p existing

theorem breaks_lift {r : Except Exn α} {f : α → SyncM Unit} :
    Breaks (lift r >>= f) c ↔ r = .error .other ∨ ∃ a, r = .ok a ∧ Breaks (f a) c := by
  cases r with
  | error e => simp [lift, Breaks]
  | ok a => simp [lift]

theorem not_breaks_bump (f : SummaryCounts → SummaryCounts) (c : Ctx) : ¬ Breaks (bump f) c := by
  rintro ⟨c₁, ⟨⟩⟩

theorem breaks_processGslide (env : Env ν δ π) (file : DriveFile) (p : Path)
    (existing : Option StateEntry) (c : Ctx) :
    Breaks (processGslide env file p existing) c ↔ DeckBreaks env c.tree file p existing := by
  unfold processGslide DeckBreaks
  rw [breaks_lift]
  cases env.drive.presentation file.id with
  | error e => simp
  | ok deck =>
    simp only [reduceCtorEq, Except.ok.injEq, exists_eq_left', false_or]
    split
    · next hsize => simp [hsize, not_breaks_bump]
    · next hsize =>
      rw [applyGslideState, applyState_eq,
        settle_breaks_iff (p := p) rfl (writeText_writesTo env _ _ _ _ _ _ _) harmless_pure]
      simp [hsize]

theorem breaks_processPng (env : Env ν δ π) (file : DriveFile) (p : Path)
    (existing : Option StateEntry) (c : Ctx) :
    Breaks (processPng env file p existing) c ↔
      knownPng file existing = none ∧ env.drive.pngBytes file.id = .error .other := by
  have hspoiled : ∀ x : Export, ¬ (Due env x existing ∧ Spoiled (fun _ => False) c.tree p existing) := by
    rintro x ⟨-, hspoiled⟩
    unfold Spoiled Lands at hspoiled
    split at hspoiled <;> simp at hspoiled
  cases hknown : knownPng file existing with
  | some e =>
    rw [processPng_known hknown]
    refine iff_of_false (Succeeds.not_breaks ⟨(), _, exec_settle_kept (knownPng_kept hknown p) _ _ c⟩)
      (by simp)
  | none =>
    rw [processPng_fetched hknown, breaks_lift]
    cases env.drive.pngBytes file.id with
    | error e => simp
    | ok bytes =>
      simp only [reduceCtorEq, Except.ok.injEq, exists_eq_left', false_or, and_false, iff_false]
      split
      · exact not_breaks_bump _ _
      · rw [settle_breaks_iff rfl (writePng_writesTo p existing bytes) harmless_pure]
        exact hspoiled _

/-! ## Documents -/

/-- The download or the compression of an image raises what is not caught. -/
def ImageBreaks (env : Env ν δ π) (uri : Text) : Prop :=
  env.drive.image uri = .error .other ∨
    ∃ raw contentType, env.drive.image uri = .ok (raw, contentType) ∧
      env.deps.compressImage raw contentType = .error (.raised .other)

/-- A document without images is to be written. -/
def PlainDue (env : Env ν δ π) (doc : δ) (file : DriveFile) (p : Path)
    (existing : Option StateEntry) : Prop :=
  let body := normalizeBody env.deps.unicode (env.deps.renderDocMarkdown doc [] file.id)
  ¬ utf8Length body > oneMib ∧ Due env (docExport env (.file file.id) p (body, [])) existing

/-- What the handler of a document has to have met to raise what is not caught: Drive raises it for
the document or one of its images, or the frontmatter that the document is merged with is no
YAML. -/
def DocAtRisk (env : Env ν δ π) (t : FileTree Content) (file : DriveFile) (p : Path)
    (existing : Option StateEntry) : Prop :=
  match env.drive.document file.id with
  | .error e => e = .other
  | .ok doc =>
    env.dryRun = false ∧
      ((∃ image ∈ env.deps.extractInlineObjects doc, ImageBreaks env image.2) ∨
        (∃ old ∈ movedFrom p existing, ¬ Placed env.loreRoot mdExt old) ∨
        ((env.deps.extractInlineObjects doc = [] → PlainDue env doc file p existing) ∧
          ∃ content ∈ t.file? ((movedFrom p existing).getD p), Unloadable env.deps content))

/-- Where it does raise it: for a document without images and without a sidecar directory, nothing
comes before the frontmatter is loaded. -/
def DocBreaks (env : Env ν δ π) (t : FileTree Content) (file : DriveFile) (p : Path)
    (existing : Option StateEntry) : Prop :=
  match env.drive.document file.id with
  | .error e => e = .other
  | .ok doc =>
    env.deps.extractInlineObjects doc = [] ∧ PlainDue env doc file p existing ∧
      Bare t p existing ∧ Spoiled (Unloadable env.deps) t p existing

def Tame {α : Type} (x : SyncM α) : Prop :=
  Triple (fun _ => True) x (fun _ _ => True) fun e _ => e ≠ .other

theorem Tame.bind {f : α → SyncM β} (hx : Tame x) (hf : ∀ a, Tame (f a)) : Tame (x >>= f) :=
  Triple.bind hx hf

theorem Tame.get_bind {f : Ctx → SyncM β} (hf : ∀ c, Tame (f c)) : Tame (get >>= f) :=
  Tame.bind (fun _ _ => trivial) hf

theorem tame_pure (a : α) : Tame (pure a : SyncM α) := Triple.pure fun _ _ => trivial

theorem tame_throw (he : e ≠ .other) : Tame (throw e : SyncM α) :=
  Triple.throw fun _ _ => he

theorem tame_modify (g : Ctx → Ctx) : Tame (modify g : SyncM Unit) :=
  Triple.modify fun _ _ => trivial

theorem tame_onTree (f : FileTree Content → Except FsError (FileTree Content)) : Tame (onTree f) :=
  onTree_triple (fun _ _ _ _ => trivial) fun _ _ => by simp

theorem tame_followSidecar (p : Path) (existing : Option StateEntry) :
    Tame (followSidecar env p existing) := by
  unfold followSidecar renameSidecar
  split
  · exact tame_pure ()
  split
  · refine Tame.get_bind fun c => ?_
    split
    · exact Tame.bind (tame_onTree _) fun _ => tame_onTree _
    · exact tame_pure ()
  · exact tame_pure ()

theorem tame_cleanupOrphans (root sidecar : Path) (kept : List Text) :
    Tame (cleanupOrphans root sidecar kept) := by
  unfold cleanupOrphans
  split
  · exact tame_throw (by simp)
  refine Tame.get_bind fun c => ?_
  split
  · exact tame_pure 0
  refine Tame.get_bind fun c => ?_
  split
  · exact tame_throw (by simp)
  refine Tame.get_bind fun c => ?_
  refine Tame.bind (Triple.forM (I := fun _ _ => True) fun child _ _ => tame_onTree _) fun _ => ?_
  refine Tame.get_bind fun c => ?_
  dsimp only
  split
  · exact Tame.bind (tame_onTree _) fun _ => tame_pure _
  · exact tame_pure _

theorem tame_readText (p : Path) : Tame (readText env p) := by
  refine Tame.get_bind fun c => ?_
  repeat' split
  all_goals first | exact tame_throw (by simp) | exact tame_pure _

theorem tame_readExistingFrontmatter (p : Path) : Tame (readExistingFrontmatter env p) := by
  refine Tame.get_bind fun c => ?_
  split
  · exact Tame.bind (tame_readText p) fun _ => tame_pure _
  · exact tame_pure _

theorem tame_checkLocalDrift (key : SourceId) (p : Path) (existing : Option StateEntry)
    (hash : Text) : Tame (checkLocalDriftBeforeWrite env key p existing hash) := by
  unfold checkLocalDriftBeforeWrite
  split
  · exact tame_pure ()
  refine Tame.get_bind fun c => ?_
  split
  · exact tame_pure ()
  refine Tame.bind (tame_readText p) fun content => ?_
  dsimp only
  split
  · exact tame_modify _
  · exact tame_pure ()

theorem tame_writeImage (p : Path) (bytes : Bytes) : Tame (writeImage p bytes) := by
  refine Triple.tryCatch (Tame.bind (tame_onTree _) fun _ => Tame.bind (tame_onTree _) fun _ =>
    tame_pure true) fun e => ?_
  cases e
  case os => exact Triple.pure fun _ _ => trivial
  all_goals exact Triple.throw fun _ h => h

theorem tame_processDocImages {components : List Text} {docSlug : Text} {uris : Dict Text Text}
    (h : env.dryRun = false → ∀ image ∈ uris, ¬ ImageBreaks env image.2) :
    Tame (processDocImages env components docSlug uris) := by
  have hfailed : ∀ acc objId kind, Tame (imageFailed acc objId kind) :=
    fun acc objId kind => Tame.bind (tame_modify _) fun _ => tame_pure _
  refine Triple.foldlM (I := fun _ _ _ => True) (fun image himage _ acc => ?_) _
  unfold resolveOneImage
  dsimp only
  split
  · exact tame_pure _
  next hdry =>
  have hnot := h (eq_false_of_ne_true hdry) image.1 (List.fst_mem_of_mem_zipIdx himage)
  split
  · exact hfailed _ _ _
  · exact hfailed _ _ _
  · next e _ _ he =>
    exact tame_throw fun hother => hnot (.inl (hother ▸ he))
  next raw contentType himage =>
  unfold compressAndRegister
  split
  · exact hfailed _ _ _
  · exact hfailed _ _ _
  · next e he => exact tame_throw fun hother => hnot (.inr ⟨raw, contentType, himage, hother ▸ he⟩)
  dsimp only
  split
  · exact tame_pure _
  split
  · exact hfailed _ _ _
  refine Tame.bind (tame_writeImage _ _) fun ok => ?_
  split
  · split
    · exact tame_throw (by simp)
    · exact Tame.bind (tame_modify _) fun _ => tame_pure _
  · exact hfailed _ _ _

theorem Tame.not_raises (h : Tame x) {c₁ : Ctx} : exec x c ≠ (.error .other, c₁) := by
  intro hraise
  have hend := h c trivial
  rw [hraise] at hend
  exact hend rfl

theorem unloadable_of_writeDoc (hp : Placed env.loreRoot mdExt p) {r : Text × Dict Text Text}
    {c₁ : Ctx} (h : exec (writeDoc env file p existing r) c = (.error .other, c₁)) :
    ∃ content ∈ c.tree.file? p, Unloadable env.deps content := by
  rcases exec_bind_error.1 h with h | ⟨n, c₂, hclean, h⟩
  · exact absurd h (tame_cleanupOrphans _ _ _).not_raises
  have hquiet := (cleanupOrphans_quiet hp _).of_exec hclean
  rcases exec_bind_error.1 h with h | ⟨⟨⟩, c₃, hbump, h⟩
  · cases h
  rw [exec_bump] at hbump
  cases hbump
  rcases exec_bind_error.1 h with h | ⟨yaml, c₃, hread, h⟩
  · exact absurd h (tame_readExistingFrontmatter p).not_raises
  rcases exec_bind_error.1 h with h | ⟨⟨⟩, c₄, -, h⟩
  · exact absurd h (tame_checkLocalDrift _ p existing _).not_raises
  have hyaml : existingMapping env.deps.codec yaml = none := by
    by_contra hsome
    obtain ⟨m, hm⟩ := Option.ne_none_iff_exists'.1 hsome
    rw [writeGdoc, buildOrderedFrontmatter, hm] at h
    exact (Tame.bind (tame_onTree _) fun _ => tame_onTree _).not_raises h
  rw [exec_readExistingFrontmatter] at hread
  rw [← hquiet.docs p hp]
  exact unloadable_of_readFrontmatter (congrArg Prod.fst hread) hyaml

theorem Positioned.source {root : Path} {t t' : FileTree Content} (hp : Placed root mdExt p)
    (h : Positioned root p existing t t') :
    t'.file? p = t.file? ((movedFrom p existing).getD p) := by
  cases h with
  | fresh hsame => exact hsame p hp
  | inPlace he hsame => simpa [movedFrom_self he] using hsame p hp
  | moved hne _ _ hfiles => simpa [movedFrom_eq hne] using hfiles p hp

theorem docAtRisk_of_breaks (hp : Placed env.loreRoot mdExt p)
    (h : Breaks (processGdoc env file p existing) c) : DocAtRisk env c.tree file p existing := by
  obtain ⟨c', hc'⟩ := h
  rw [processGdoc_eq] at hc'
  unfold DocAtRisk
  cases hdoc : env.drive.document file.id with
  | error e =>
    rw [renderGdoc, hdoc] at hc'
    cases hc'
    rfl
  | ok doc =>
    dsimp only
    by_contra hsafe
    rw [not_and] at hsafe
    simp only [not_or] at hsafe
    have htame : Tame (renderGdoc env file p existing) := by
      rw [renderGdoc, hdoc, lift, pure_bind]
      refine Tame.bind (tame_followSidecar p existing) fun _ => Tame.bind
        (tame_processDocImages fun hdry image himage hbreaks =>
          (hsafe hdry).1 ⟨image, himage, hbreaks⟩) fun _ => tame_pure _
    rcases exec_bind_error.1 hc' with hraise | ⟨r, c₁, hrender, hfinish⟩
    · exact htame.not_raises hraise
    rw [finishGdoc_eq] at hfinish
    split at hfinish
    · cases hfinish
    next hsize =>
    by_cases hdue : Due env (docExport env (.file file.id) p r) existing
    · obtain ⟨-, hold, hload⟩ := hsafe hdue.1
      have hplaced : ∀ e ∈ existing, Placed env.loreRoot mdExt e.localPath := by
        rintro e rfl
        by_cases he : e.localPath = p
        · exact he ▸ hp
        · exact not_not.1 fun hnot => hold ⟨e.localPath, movedFrom_eq he, hnot⟩
      have hquiet : Within (Quiet env.loreRoot) (renderGdoc env file p existing) :=
        Within.bind (lift_within _) fun _ => Within.bind (followSidecar_quiet hp hplaced) fun _ =>
          Within.bind (processDocImages_quiet env _ _ _) fun _ => Within.pure
      rw [settle_due hdue rfl] at hfinish
      rcases exec_bind_error.1 hfinish with hmove | ⟨⟨⟩, c₂, hmove, hrest⟩
      · cases statusAndRename_raises hmove
      rcases exec_bind_error.1 hrest with hwrite | ⟨_, _, _, hrecord⟩
      · have hready := statusAndRename_ready hdue.1 hp hplaced c c₁ (hquiet.of_exec hrender)
        rw [show (docExport env (.file file.id) p r).entry.localPath = p from rfl] at hmove
        rw [hmove] at hready
        have hbad := unloadable_of_writeDoc hp hwrite
        rw [hready.docs.source hp] at hbad
        refine hload ⟨fun himages => ?_, hbad⟩
        obtain ⟨doc', c₃, images, hdoc', -, hprocess, rfl⟩ := exec_renderGdoc_ok.1 hrender
        cases hdoc.symm.trans hdoc'
        rw [himages] at hprocess
        cases hprocess
        exact ⟨hsize, hdue⟩
      · cases hrecord
    · exact Succeeds.not_breaks (succeeds_settle hdue _ (harmless_countOrphans p existing r.2) c₁)
        ⟨c', hfinish⟩

theorem breaks_of_docBreaks (hp : Placed env.loreRoot mdExt p)
    (h : DocBreaks env c.tree file p existing) : Breaks (processGdoc env file p existing) c := by
  rw [processGdoc_eq]
  unfold DocBreaks at h
  cases hdoc : env.drive.document file.id with
  | error e =>
    rw [hdoc] at h
    obtain rfl : e = .other := h
    rw [renderGdoc, hdoc]
    exact ⟨c, rfl⟩
  | ok doc =>
    rw [hdoc] at h
    obtain ⟨himages, ⟨hsize, hdue⟩, hbare, hspoiled⟩ := h
    refine Breaks.bind (exec_renderGdoc_bare hdoc himages hbare) ?_
    rw [finishGdoc_eq, if_neg hsize]
    refine settle_breaks (p := p) hdue rfl hspoiled fun c₁ htouches hbad => ?_
    obtain ⟨content, hcontent, hload⟩ := hbad
    obtain ⟨text, htext, -⟩ := id hload
    have hread : readFrontmatter env.deps c₁.tree p = .ok ((splitContent text).map (·.1)) := by
      rw [readFrontmatter, Option.mem_def.1 hcontent]
      simp [htext]
    obtain ⟨c₂, htree, hexec⟩ := exec_writeDoc_absent hp (hbare.absent hp hspoiled htouches) hread file
      existing (normalizeBody env.deps.unicode (env.deps.renderDocMarkdown doc [] file.id), [])
    unfold Breaks
    rw [hexec]
    rcases writeText_writesTo env p existing file.name (.file file.id)
      (joinDrivePath file.components file.name) (env.drive.clock (.file file.id)) _ c₂ with
      ⟨-, hnot, -⟩ | ⟨-, e, c₃, hc₃, hother⟩
    · exact absurd (htree.symm ▸ ⟨content, hcontent, hload⟩) hnot
    · rw [hother.2 (htree.symm ▸ ⟨content, hcontent, hload⟩)] at hc₃
      exact ⟨c₃, hc₃⟩

/-! ## The turns of the loop -/

/-- The handler of a file raises what is not caught; of documents it is said by `docs`. -/
def HandlerBreaks (env : Env ν δ π)
    (docs : FileTree Content → DriveFile → Path → Option StateEntry → Prop) (c : Ctx)
    (file : DriveFile) (p : Path) : Prop :=
  let existing := env.state.get? (.file file.id)
  match file.mime with
  | .doc => docs c.tree file p existing
  | .slides => DeckBreaks env c.tree file p existing
  | _ => knownPng file existing = none ∧ env.drive.pngBytes file.id = .error .other

/-- An exception in the turn of a file that nothing catches: the tabs of a workbook cannot be listed
for another reason than Drive or the network, one of them raises, the path of a file cannot be
allocated, or its handler raises what `_process_file` does not catch. -/
def Escapes (env : Env ν δ π) (handler : Ctx → DriveFile → Path → Prop) (c : Ctx)
    (file : DriveFile) : Prop :=
  if file.mime = .sheet then
    match env.drive.tabs file.id with
    | .error e => e ≠ .driveApi ∧ e ≠ .os
    | .ok tabs => Run.Sometime (fun c s => (exec (processTab env file s) c).2) (TabEscapes env file) c
        (resolveTabCollisions env.deps.unicode tabs)
  else
    match allocate env file c.takenPaths with
    | none => True
    | some p => handler c file p

theorem Escapes.mono {handler handler' : Ctx → DriveFile → Path → Prop}
    (h : ∀ p, allocate env file c.takenPaths = some p → handler c file p → handler' c file p) :
    Escapes env handler c file → Escapes env handler' c file := by
  unfold Escapes
  split
  · exact id
  cases hp : allocate env file c.takenPaths with
  | none => exact id
  | some p => exact h p hp

theorem succeeds_processListed (c : Ctx) (file : DriveFile) :
    Succeeds (processListed env file) c ↔ ¬ Escapes env
      (fun c file p => Breaks (processKind env file p (env.state.get? (.file file.id))) (c.turn p))
      c file := by
  unfold processListed Escapes
  split
  · unfold processGsheet
    rcases env.drive.tabs file.id with (_ | _ | _ | _) | tabs
    · exact iff_of_true ⟨(), _, rfl⟩ (by simp)
    · exact iff_of_true ⟨(), _, rfl⟩ (by simp)
    · exact iff_of_false (not_succeeds_throw _ _) (by simp)
    · exact iff_of_false (not_succeeds_throw _ _) (by simp)
    · dsimp only
      rw [Run.not_sometime_iff, forM_ends_iff]
      simp only [succeeds_processTab]
  · rw [succeeds_bind_of_ok (exec_get c)]
    cases allocate env file c.takenPaths with
    | none => exact iff_of_false (not_succeeds_throw _ _) (by simp)
    | some p =>
      dsimp only
      unfold Succeeds Breaks
      rw [exec_fileTurn]
      rcases exec (processKind env file p (env.state.get? (.file file.id))) (c.turn p) with
        ⟨e | a, c'⟩
      · cases e <;> simp [Exn.isCaught]
      · simp

/-- What the handler raises in the turn of a file, said of Drive, the state and the tree before it. -/
theorem breaks_processKind (hp : allocate env file c.takenPaths = some p) :
    (HandlerBreaks env (DocBreaks env) c file p →
        Breaks (processKind env file p (env.state.get? (.file file.id))) (c.turn p)) ∧
      (Breaks (processKind env file p (env.state.get? (.file file.id))) (c.turn p) →
        HandlerBreaks env (DocAtRisk env) c file p) := by
  have hplaced := allocate_placed hp
  unfold HandlerBreaks processKind
  cases hmime : file.mime with
  | doc =>
    rw [hmime] at hplaced
    exact ⟨fun h => breaks_of_docBreaks (c := c.turn p) hplaced h, docAtRisk_of_breaks hplaced⟩
  | slides =>
    have hslides := breaks_processGslide env file p (env.state.get? (.file file.id)) (c.turn p)
    exact ⟨hslides.2, hslides.1⟩
  | png | sheet =>
    have hpng := breaks_processPng env file p (env.state.get? (.file file.id)) (c.turn p)
    exact ⟨hpng.2, hpng.1⟩

/-! ## The errors of a turn -/

/-- The number of items that fail in the turn of a file: a workbook that cannot be listed, tabs, or
the file itself. -/
noncomputable def failedItems (env : Env ν δ π) (c : Ctx) (file : DriveFile) : Nat :=
  open Classical in
  if file.mime = .sheet then
    match env.drive.tabs file.id with
    | .error _ => 1
    | .ok tabs => tabs.countP fun tab => TabFails env file tab
  else if Failing env c file then 1 else 0

theorem Filed.errors {e : StateEntry} {v : Verdict} (h : Filed key e v c c') (hv : v ≠ .failed) :
    c'.counts.errors = c.counts.errors :=
  (congrArg Tally.errors h.tally).trans (Verdict.count_errors hv _)

theorem Counted.errors (h : Counted .failed c c') : c'.counts.errors = c.counts.errors + 1 :=
  congrArg Tally.errors h.2

open Classical in
theorem processTab_errors (h : exec (processTab env file s) c = (.ok (), c')) :
    c'.counts.errors = c.counts.errors + if TabFails env file s.1 then 1 else 0 := by
  have hsettles := processTab_settles h
  have hfails := @tabFails_iff ν δ π env (tabPath env file s.2) file s.1
  rcases hj : judgedTab env file s.1 (tabPath env file s.2) with e | (_ | x)
  · rw [hj] at hsettles hfails
    rw [if_pos (hfails.2 (by simp))]
    exact Counted.errors (c := c.take (tabPath env file s.2)) hsettles
  · rw [hj] at hsettles hfails
    rw [if_pos (hfails.2 (by simp))]
    exact Counted.errors (c := c.take (tabPath env file s.2)) hsettles
  · rw [hj] at hsettles hfails
    rw [if_neg (mt hfails.1 (by simp))]
    exact Filed.errors (c := c.take (tabPath env file s.2)) hsettles (x.verdict_ne_failed _)

open Classical in
theorem forM_processTab_errors :
    ∀ {c c' : Ctx}, exec (slugged.forM (processTab env file)) c = (.ok (), c') →
      c'.counts.errors =
        c.counts.errors + (slugged.map (·.1)).countP fun tab => TabFails env file tab := by
  induction slugged with
  | nil => intro c c' h; cases h; rfl
  | cons s slugged ih =>
    intro c c' h
    obtain ⟨c₁, hs, hrest⟩ := exec_forM_ok h
    rw [ih hrest, processTab_errors hs, List.map_cons, List.countP_cons]
    simp only [decide_eq_true_eq]
    omega

theorem processListed_errors (h : exec (processListed env file) c = (.ok (), c')) :
    c'.counts.errors = c.counts.errors + failedItems env c file := by
  unfold failedItems
  unfold processListed at h
  split at h
  · next hmime =>
    rw [if_pos hmime]
    unfold processGsheet at h
    rcases htabs : env.drive.tabs file.id with (_ | _ | _ | _) | tabs <;> rw [htabs] at h
    · cases h; rfl
    · cases h; rfl
    · cases h
    · cases h
    · rw [forM_processTab_errors h, (resolveTabCollisions_perm _ tabs).countP_eq]
  · next hmime =>
    rw [if_neg hmime]
    have hturn : exec (processListed env file) c = (.ok (), c') := by
      rw [processListed, if_neg hmime]
      exact h
    obtain ⟨p, hp, hcases⟩ := processListed_turn hmime hturn
    have hfailing : Failing env c file ↔
        Fails env file p (env.state.get? (.file file.id)) (c.turn p) := by
      simp [Failing, hp]
    rw [hfailing, Fails, oversized_iff hmime]
    rcases hcases with ⟨e, c₁, hraise, -, hraised, rfl⟩ | ⟨hend, hsettles⟩
    · rw [if_pos (.inl ⟨e, c₁, hraise⟩)]
      exact congrArg (· + 1) hraised.2
    · rw [hend]
      rcases hj : judged env file p (env.state.get? (.file file.id)) (c.turn p) with e | (_ | x)
      · rw [hj] at hsettles
        exact hsettles.elim
      · rw [hj] at hsettles
        rw [if_pos (.inr rfl)]
        exact Counted.errors (c := c.turn p) hsettles
      · rw [hj] at hsettles
        rw [if_neg (by simp)]
        exact Filed.errors (c := c.turn p) hsettles (x.verdict_ne_failed _)

theorem forM_errors : ∀ {c c' : Ctx},
    exec (files.forM (processListed env)) c = (.ok (), c') →
    c'.counts.errors = c.counts.errors + Run.sum (turn env) (failedItems env) c files := by
  induction files with
  | nil => intro c c' h; cases h; rfl
  | cons file files ih =>
    intro c c' h
    obtain ⟨c₁, hfile, hrest⟩ := exec_forM_ok h
    have hturn : turn env c file = c₁ := by rw [turn, hfile]
    rw [ih hrest, processListed_errors hfile, Run.sum, hturn]
    omega

theorem handleArchived_errors (h : exec (handleArchived env files) c = (.ok (), c')) :
    c'.counts.errors = c.counts.errors := by
  have hkey : ∀ (gids : TabGids) (a : SourceId × StateEntry),
      Triple (fun c₁ => c₁.counts.errors = c.counts.errors) (handleArchivedKey env files gids a)
        (fun _ c₁ => c₁.counts.errors = c.counts.errors) (fun _ _ => True) := by
    rintro gids ⟨key, entry⟩ c₁ hc₁
    have hstep := handleArchivedKey_step env files gids key entry
    generalize handleArchivedKey env files gids (key, entry) = step at hstep ⊢
    cases hstep with
    | raises _ _ => trivial
    | gone _ _ =>
      have hverdict : archiveVerdict entry ≠ .failed := by
        unfold archiveVerdict
        split <;> simp
      exact Triple.bind ((archiveEntry_filed _ key entry c₁).conseq (fun _ h => h)
        (fun _ _ h => (Filed.errors h hverdict).trans hc₁) fun _ _ _ => trivial)
        (fun _ => Triple.pure fun _ h => h) c₁ (Std.Refl.refl c₁)
    | present _ _ _ _ => exact hc₁
    | listed _ _ => exact hc₁
  have hloop : Triple (fun c₁ => c₁.counts.errors = c.counts.errors)
      (env.state.foldlM (handleArchivedKey env files) [])
      (fun _ c₁ => c₁.counts.errors = c.counts.errors) (fun _ _ => True) :=
    Triple.foldlM (I := fun _ _ (c₁ : Ctx) => c₁.counts.errors = c.counts.errors)
      (fun a _ _ gids => hkey gids a) []
  have hpass : Triple (fun c₁ => c₁.counts.errors = c.counts.errors) (handleArchived env files)
      (fun _ c₁ => c₁.counts.errors = c.counts.errors) (fun _ _ => True) :=
    Triple.bind hloop fun _ => Triple.pure fun _ h => h
  have hend := hpass c rfl
  rw [h] at hend
  exact hend

/-! ## What a run processes -/

/-- The turn of a file exports the source `x`: a tab that does not fail, or the file itself. -/
def Processes (env : Env ν δ π) (c : Ctx) (file : DriveFile) (x : SourceId) : Prop :=
  if file.mime = .sheet then
    ∃ tabs, env.drive.tabs file.id = .ok tabs ∧
      ∃ tab ∈ tabs, ¬ TabFails env file tab ∧ x = .tab file.id tab.sheetId
  else Exports env c file ∧ x = .file file.id

theorem processTab_keys (h : exec (processTab env file s) c = (.ok (), c')) :
    (∀ x ∈ c.newState.keys, x ∈ c'.newState.keys) ∧
      (¬ TabFails env file s.1 → .tab file.id s.1.sheetId ∈ c'.newState.keys) := by
  have hsettles := processTab_settles h
  have hfails := @tabFails_iff ν δ π env (tabPath env file s.2) file s.1
  rcases hj : judgedTab env file s.1 (tabPath env file s.2) with e | (_ | x)
  · rw [hj] at hsettles hfails
    exact ⟨fun x hx => hsettles.1.1 ▸ hx, fun hnot => absurd (hfails.2 (by simp)) hnot⟩
  · rw [hj] at hsettles hfails
    exact ⟨fun x hx => hsettles.1.1 ▸ hx, fun hnot => absurd (hfails.2 (by simp)) hnot⟩
  · rw [hj] at hsettles
    have hstate := Filed.state hsettles
    rw [hstate]
    exact ⟨fun x hx => Dict.mem_keys_set.2 (.inr hx), fun _ => Dict.mem_keys_set.2 (.inl rfl)⟩

theorem forM_processTab_keys : ∀ {c c' : Ctx},
    exec (slugged.forM (processTab env file)) c = (.ok (), c') →
    (∀ x ∈ c.newState.keys, x ∈ c'.newState.keys) ∧
      ∀ s ∈ slugged, ¬ TabFails env file s.1 → .tab file.id s.1.sheetId ∈ c'.newState.keys := by
  induction slugged with
  | nil => intro c c' h; cases h; exact ⟨fun _ h => h, fun _ h => absurd h List.not_mem_nil⟩
  | cons s slugged ih =>
    intro c c' h
    obtain ⟨c₁, hs, hrest⟩ := exec_forM_ok h
    obtain ⟨hkept, hnew⟩ := processTab_keys hs
    obtain ⟨hkept', hnew'⟩ := ih hrest
    refine ⟨fun x hx => hkept' x (hkept x hx), fun s' hs' hfails => ?_⟩
    rcases List.mem_cons.1 hs' with rfl | hs'
    · exact hkept' _ (hnew hfails)
    · exact hnew' s' hs' hfails

theorem Processes.mem_keys (hdry : env.dryRun = false) {x : SourceId}
    (h : exec (processListed env file) c = (.ok (), c')) (hx : Processes env c file x) :
    x ∈ c'.newState.keys := by
  unfold Processes at hx
  split at hx
  · next hmime =>
    obtain ⟨tabs, htabs, tab, htab, hfails, rfl⟩ := hx
    rw [processListed, if_pos hmime, processGsheet, htabs] at h
    obtain ⟨s, hs, rfl⟩ := List.mem_map.1
      ((resolveTabCollisions_perm env.deps.unicode tabs).mem_iff.2 htab)
    exact (forM_processTab_keys h).2 s hs hfails
  · next hmime =>
    obtain ⟨hexports, rfl⟩ := hx
    rcases processListed_file hdry hmime h with ⟨-, p, -, hrec⟩ | ⟨hnot, -⟩
    · exact (hrec.mem_keys _).2 (.inl rfl)
    · exact absurd hexports hnot

theorem forM_processes (hdry : env.dryRun = false) {x : SourceId} :
    ∀ {c c' : Ctx}, exec (files.forM (processListed env)) c = (.ok (), c') →
      Run.Sometime (turn env) (fun c file => Processes env c file x) c files →
      x ∈ c'.newState.keys := by
  induction files with
  | nil => intro c c' _ hx; exact hx.elim
  | cons file files ih =>
    intro c c' h hx
    obtain ⟨c₁, hfile, hrest⟩ := exec_forM_ok h
    have hturn : turn env c file = c₁ := by rw [turn, hfile]
    have hgrows := forM_grows hdry files c₁
    rw [hrest] at hgrows
    rcases hx with hx | hx
    · exact hgrows.kept x (hx.mem_keys hdry hfile)
    · rw [hturn] at hx
      exact ih hrest hx

/-! ## Runs -/

/-- A run counts one error for each item that fails and completes, and everything else is processed:
the state it saves has every tracked key that is not of a listed file, and every source exported. -/
structure Contained (env : Env ν δ π) (files : List DriveFile) (tree : FileTree Content)
    (result : World × Except Exn SummaryCounts) : Prop where
  counted : ∃ counts, result.2 = .ok counts ∧
    counts.errors = Run.sum (turn env) (failedItems env) (archivedCtx env files tree) files
  archived : env.dryRun = false → ∀ x ∈ env.state.keys, ¬ Listed files x → x ∈ result.1.state.keys
  processed : env.dryRun = false → ∀ x,
    Run.Sometime (turn env) (fun c file => Processes env c file x) (archivedCtx env files tree)
      files → x ∈ result.1.state.keys

theorem handleArchived_succeeds_iff (files : List DriveFile) (c : Ctx) :
    Succeeds (handleArchived env files) c ↔
      Run.Along (foldStep (handleArchivedKey env files))
        (fun s a => ¬ ArchiveEscapes env files s a) (c, []) env.state := by
  rw [handleArchived, succeeds_bind_of_succeeds fun _ _ => succeeds_pure _ _, foldlM_ends_iff]
  simp only [succeeds_handleArchivedKey]

end

def betaId : FileId := ⟨"2b".toList, List.all_eq_true.1 (by decide)⟩

def betaFile : DriveFile := ⟨betaId, .doc, "beta".toList, [], none⟩

def partlyDrive : Drive Text Text :=
  plainDrive [loreFile, betaFile] (.ok []) fun id =>
    if id = betaId then .ok "body".toList else .error .driveApi

def editedWorld (text : Text) : World :=
  { loreWorld with tree := { loreWorld.tree with
      files := loreWorld.tree.files.set alphaPath (.text text) } }

/-- YAML has no mapping with a tab in it. -/
def strictDeps : Deps Text Text Text :=
  { plainDeps with codec := { tokenCodec with
      safeLoad := fun t => if '\t' ∈ t then none else tokenCodec.safeLoad t } }

def bookFile : DriveFile := ⟨betaId, .sheet, "book".toList, [], none⟩

def bookDrive (title : Text) : Drive Text Text :=
  plainDrive [bookFile] (.ok [⟨title, 0, 0⟩]) fun _ => .error .driveApi

def bookWorld : World :=
  let world := (runSync plainDeps loreRoot false (bookDrive "one".toList) firstLocal.world).1
  { world with tree := { world.tree with
      files := world.tree.files.set (loreRoot ++ ["book--two.md".toList]) (.text []) } }

/-- Three documents of one name whose ids start with the same eight characters. -/
def triplets : List DriveFile :=
  [⟨⟨"12345678a".toList, List.all_eq_true.1 (by decide)⟩, .doc, "alpha".toList, [], none⟩,
    ⟨⟨"12345678b".toList, List.all_eq_true.1 (by decide)⟩, .doc, "alpha".toList, [], none⟩,
    ⟨⟨"12345678c".toList, List.all_eq_true.1 (by decide)⟩, .doc, "alpha".toList, [], none⟩]

end Archiviste.Sync
