import Archiviste.Sync.Effects

/-!
# Archiviste.Sync.Verdicts

What a handler decides. It gets an export ready, compares it with the entry the state has, and then
either keeps that entry or writes the export and records a new one; the comparison, the count and
the record are the same for all of them, and are said once here.

* `Export`, `settle`     — an export and what is done with it.
* `judged`, `judgedTab`  — the export of a file or a tab, `none` if it is too large.
* `processKind_settles`, `exportTab_settles` — what a handler records and counts.
-/

namespace Archiviste.Sync

open Prog

/-! ## Programs that record and count nothing -/

def Unrecorded (c c' : Ctx) : Prop := c'.newState = c.newState ∧ c'.takenPaths = c.takenPaths

instance : Std.Refl Unrecorded := ⟨fun _ => ⟨rfl, rfl⟩⟩

instance : IsTrans Ctx Unrecorded :=
  ⟨fun _ _ _ h h' => ⟨h'.1.trans h.1, h'.2.trans h.2⟩⟩

theorem Unrecorded.of_eq {c c' : Ctx} (h : c' = c) : Unrecorded c c' := h ▸ ⟨rfl, rfl⟩

/-- The counters that say what became of the items of a run. -/
structure Tally where
  created : Nat
  updated : Nat
  renamed : Nat
  archived : Nat
  unchanged : Nat
  errors : Nat
  deriving DecidableEq

def SummaryCounts.tally (n : SummaryCounts) : Tally :=
  ⟨n.created, n.updated, n.renamed, n.archived, n.unchanged, n.errors⟩

/-- Nothing is recorded and no item is counted. -/
structure Silent (c c' : Ctx) : Prop where
  unrecorded : Unrecorded c c'
  tally : c'.counts.tally = c.counts.tally

instance : Std.Refl Silent := ⟨fun _ => ⟨Std.Refl.refl _, rfl⟩⟩

instance : IsTrans Ctx Silent :=
  ⟨fun _ _ _ h h' => ⟨IsTrans.trans _ _ _ h.unrecorded h'.unrecorded, h'.tally.trans h.tally⟩⟩

section
variable {ν δ π α : Type} {env : Env ν δ π}

theorem onTree_silent (f : FileTree Content → Except FsError (FileTree Content)) :
    Within Silent (onTree f) := by
  intro c
  rw [exec_onTree]
  split <;> exact ⟨⟨rfl, rfl⟩, rfl⟩

variable {f : SummaryCounts → SummaryCounts} {E : Exn → Ctx → Prop} {v : Verdict} {c c' : Ctx}
  {key : SourceId} {e : StateEntry} {existing : Option StateEntry} {x : Export} {p : Path}
  {r : Text × Dict Text Text} {file : DriveFile}

theorem bump_silent (h : ∀ n, (f n).tally = n.tally) : Within Silent (bump f) :=
  Within.modify fun c => ⟨⟨rfl, rfl⟩, h c.counts⟩

theorem followSidecar_silent (p : Path) (existing : Option StateEntry) :
    Within Silent (followSidecar env p existing) :=
  followSidecar_within fun _ _ => renameSidecar_within (onTree_silent _) (onTree_silent _)

theorem processDocImages_silent (components : List Text) (docSlug : Text) (uris : Dict Text Text) :
    Within Silent (processDocImages env components docSlug uris) :=
  processDocImages_within (bump_silent fun _ => rfl) (bump_silent fun _ => rfl)
    (fun _ _ _ bytes _ => writeImage_within (onTree_silent _) (fun _ => onTree_silent _) bytes) uris

theorem cleanupOrphans_silent (root sidecar : Path) (kept : List Text) :
    Within Silent (cleanupOrphans root sidecar kept) :=
  cleanupOrphans_within (fun _ _ _ => onTree_silent _) (onTree_silent _)

theorem renameLocalFile_silent (old new : Path) : Within Silent (renameLocalFile old new) :=
  renameLocalFile_within (onTree_silent _) (onTree_silent _)

theorem checkLocalDriftBeforeWrite_silent (key : SourceId) (p : Path)
    (existing : Option StateEntry) (hash : Text) :
    Within Silent (checkLocalDriftBeforeWrite env key p existing hash) :=
  checkLocalDriftBeforeWrite_within (Within.modify fun _ => ⟨⟨rfl, rfl⟩, rfl⟩) env p existing hash

theorem writeGdoc_silent (p : Path) (title : Text) (key : SourceId)
    (drivePath exportedAt body : Text) (yaml : Option Text) :
    Within Silent (writeGdoc env p title key drivePath exportedAt body yaml) :=
  writeGdoc_within (onTree_silent _) (fun _ => onTree_silent _) title key drivePath exportedAt body
    yaml

theorem setArchivedFrontmatter_silent (p : Path) (archivedAt : Text) :
    Within Silent (setArchivedFrontmatter env p archivedAt) :=
  setArchivedFrontmatter_within (fun _ => onTree_silent _) archivedAt

theorem Silent.bind {β : Type} {x : SyncM α} {f : α → SyncM β} {Q : β → Ctx → Prop} {c₀ : Ctx}
    (hx : Within Silent x) (hE : ∀ e c, Silent c₀ c → E e c)
    (hf : ∀ a, Triple (Silent c₀) (f a) Q E) : Triple (Silent c₀) (x >>= f) Q E :=
  hx.keeps_bind (fun _ _ => IsTrans.trans c₀ _ _) hE hf

def Harmless (x : SyncM Unit) : Prop := ∀ c, ∃ c', exec x c = (.ok (), c') ∧ Silent c c'

theorem Harmless.triple {x : SyncM Unit} {P Q : Ctx → Prop} (hx : Harmless x)
    (h : ∀ c c', P c → Silent c c' → Q c') : Triple P x (fun _ => Q) E := by
  intro c hc
  obtain ⟨c', hexec, hs⟩ := hx c
  rw [hexec]
  exact h c c' hc hs

theorem harmless_pure : Harmless (pure ()) := fun c => ⟨c, rfl, Std.Refl.refl c⟩

/-! ## Verdicts -/

inductive Verdict where
  | created
  | updated
  | renamed
  | archived
  | unchanged
  | failed
  deriving DecidableEq

def Verdict.count : Verdict → Tally → Tally
  | .created, n => { n with created := n.created + 1 }
  | .updated, n => { n with updated := n.updated + 1 }
  | .renamed, n => { n with renamed := n.renamed + 1 }
  | .archived, n => { n with archived := n.archived + 1 }
  | .unchanged, n => { n with unchanged := n.unchanged + 1 }
  | .failed, n => { n with errors := n.errors + 1 }

theorem Verdict.count_errors (h : v ≠ .failed) (n : Tally) : (v.count n).errors = n.errors := by
  cases v <;> first | rfl | exact absurd rfl h

/-- An item is counted and nothing is recorded. -/
def Counted (v : Verdict) (c c' : Ctx) : Prop :=
  Unrecorded c c' ∧ c'.counts.tally = v.count c.counts.tally

/-- An exception was raised: nothing is recorded, and no error is counted yet. -/
def Raised (c c' : Ctx) : Prop :=
  Unrecorded c c' ∧ c'.counts.tally.errors = c.counts.tally.errors

theorem Silent.raised (h : Silent c c') : Raised c c' :=
  ⟨h.unrecorded, congrArg Tally.errors h.tally⟩

theorem Counted.raised (hv : v ≠ .failed) (h : Counted v c c') : Raised c c' :=
  ⟨h.1, (congrArg Tally.errors h.2).trans (Verdict.count_errors hv _)⟩

theorem Counted.silent {c'' : Ctx} (h : Counted v c c') (hs : Silent c' c'') : Counted v c c'' :=
  ⟨IsTrans.trans _ _ _ h.1 hs.unrecorded, hs.tally.trans h.2⟩

theorem bump_counted (hf : ∀ n, (f n).tally = v.count n.tally) (c : Ctx) :
    Triple (Silent c) (bump f) (fun _ => Counted v c) E :=
  Triple.modify fun c' h => ⟨h.unrecorded, (hf c'.counts).trans (congrArg v.count h.tally)⟩

/-! ## Exports -/

/-- An export that is ready: its entry, and which recorded entries make it needless. -/
structure Export where
  entry : StateEntry
  same : StateEntry → Bool

namespace Export

def kept (x : Export) (existing : Option StateEntry) : Option StateEntry := existing.filter x.same

def status (x : Export) : Option StateEntry → Verdict
  | none => .created
  | some e => if e.localPath ≠ x.entry.localPath then .renamed else .updated

def verdict (x : Export) (existing : Option StateEntry) : Verdict :=
  if (x.kept existing).isSome then .unchanged else x.status existing

def filed (x : Export) (dryRun : Bool) (existing : Option StateEntry) : StateEntry :=
  if dryRun then existing.getD x.entry else (x.kept existing).getD x.entry

theorem filed_path {x : Export} (h : ∀ e, x.same e = true → e.localPath = x.entry.localPath)
    (existing : Option StateEntry) : (x.filed false existing).localPath = x.entry.localPath := by
  rw [filed, if_neg (by simp)]
  cases hkept : x.kept existing with
  | none => rfl
  | some e => exact h e (Option.filter_eq_some_iff.1 hkept).2

theorem status_ne_failed (x : Export) (existing : Option StateEntry) :
    x.status existing ≠ .failed := by
  unfold status
  repeat' split
  all_goals simp

theorem verdict_ne_failed (x : Export) (existing : Option StateEntry) :
    x.verdict existing ≠ .failed := by
  unfold verdict
  split
  · simp
  · exact x.status_ne_failed existing

end Export

/-- The end of every handler: the recorded entry is kept, or the export is written and recorded. -/
def settle (env : Env ν δ π) (key : SourceId) (existing : Option StateEntry) (x : Export)
    (write dryEnd : SyncM Unit) : SyncM Unit :=
  match x.kept existing with
  | some e => do
    record key e
    bump fun c => { c with unchanged := c.unchanged + 1 }
  | none => do
    statusAndRename env x.entry.localPath existing
    if env.dryRun then
      record key (existing.getD x.entry)
      dryEnd
    else
      write
      record key x.entry

structure Filed (key : SourceId) (e : StateEntry) (v : Verdict) (c c' : Ctx) : Prop where
  state : c'.newState = c.newState.set key e
  taken : c'.takenPaths = c.takenPaths
  tally : c'.counts.tally = v.count c.counts.tally

theorem Filed.silent {c'' : Ctx} (h : Filed key e v c c') (hs : Silent c' c'') :
    Filed key e v c c'' :=
  ⟨hs.unrecorded.1.trans h.state, hs.unrecorded.2.trans h.taken, hs.tally.trans h.tally⟩

theorem Counted.record (e : StateEntry) (h : Counted v c c') :
    Filed key e v c { c' with newState := c'.newState.set key e } :=
  ⟨congrArg (Dict.set · key e) h.1.1, h.1.2, h.2⟩

theorem record_bump_filed (key : SourceId) (e : StateEntry)
    (hf : ∀ n, (f n).tally = v.count n.tally) (c : Ctx) :
    Triple (Silent c) (record key e >>= fun _ => bump f) (fun _ => Filed key e v c) E :=
  fun c' h => ⟨congrArg (Dict.set · key e) h.unrecorded.1, h.unrecorded.2,
    (hf c'.counts).trans (congrArg v.count h.tally)⟩

def Settled (env : Env ν δ π) (key : SourceId) (existing : Option StateEntry) (x : Export) :
    Ctx → Ctx → Prop :=
  Filed key (x.filed env.dryRun existing) (x.verdict existing)

/-- The status is counted before the file is moved, so it is counted if the move raises too. -/
theorem statusAndRename_counted (x : Export) (existing : Option StateEntry) (c : Ctx) :
    Triple (Silent c) (statusAndRename env x.entry.localPath existing)
      (fun _ => Counted (x.status existing) c) (fun _ => Counted (x.status existing) c) := by
  unfold statusAndRename Export.status
  split
  · exact bump_counted (fun _ => rfl) c
  · next e =>
    by_cases hne : e.localPath ≠ x.entry.localPath
    · simp only [if_pos hne]
      refine Triple.bind (bump_counted (v := .renamed) (fun _ => rfl) c) fun _ => ?_
      split
      · exact Triple.pure fun _ h => h
      · exact (renameLocalFile_silent e.localPath x.entry.localPath).triple fun _ _ h hs =>
          h.silent hs
    · simp only [if_neg hne]
      exact bump_counted (fun _ => rfl) c

/-- An export is settled, or an exception is raised once its status is counted. -/
theorem settle_settled {write dryEnd : SyncM Unit} (hwrite : Within Silent write)
    (hdry : Harmless dryEnd) (c : Ctx) :
    Triple (Silent c) (settle env key existing x write dryEnd)
      (fun _ => Settled env key existing x c) (fun _ => Counted (x.status existing) c) := by
  unfold settle
  split
  · next e hkept =>
    have hexisting : existing = some e := (Option.filter_eq_some_iff.1 hkept).1
    have hfiled : x.filed env.dryRun existing = e := by
      rw [Export.filed, hkept, hexisting]
      exact ite_self e
    have hverdict : x.verdict existing = .unchanged := by rw [Export.verdict, hkept]; rfl
    rw [Settled, hfiled, hverdict]
    exact record_bump_filed key e (fun _ => rfl) c
  · next hkept =>
    have hverdict : x.verdict existing = x.status existing := by rw [Export.verdict, hkept]; rfl
    have hrecord : Triple (Counted (x.verdict existing) c)
        (record key (x.filed env.dryRun existing)) (fun _ => Settled env key existing x c)
        (fun _ => Counted (x.verdict existing) c) :=
      Triple.modify fun _ h => h.record _
    refine Triple.bind (statusAndRename_counted x existing c) fun _ => ?_
    rw [← hverdict]
    split
    · next hd =>
      rw [Export.filed, if_pos hd] at hrecord
      exact Triple.bind hrecord fun _ => hdry.triple fun _ _ h hs => Filed.silent h hs
    · next hd =>
      rw [Export.filed, if_neg hd, hkept] at hrecord
      exact hwrite.keeps_bind (fun _ _ h hs => h.silent hs) (fun _ _ h => h) fun _ => hrecord

/-! ## What the handlers settle -/

def textExport (env : Env ν δ π) (key : SourceId) (p : Path) (body : Text) : Export where
  entry := exportedEntry env key p body []
  same e := e.contentSignature = contentSignature env body ∧ e.localPath = p

def docExport (env : Env ν δ π) (key : SourceId) (p : Path) (r : Text × Dict Text Text) :
    Export where
  entry := exportedEntry env key p r.1 r.2
  same e := e.contentSignature = contentSignature env r.1 ∧ sameKeys e.images r.2 ∧ e.localPath = p

theorem textExport_same {body : Text} (h : (textExport env key p body).same e = true) :
    e.localPath = p :=
  (of_decide_eq_true h).2

theorem docExport_same (h : (docExport env key p r).same e = true) : e.localPath = p :=
  (of_decide_eq_true h).2.2

/-- The export of an image of the listing. Its path is not compared. -/
def pngExport (env : Env ν δ π) (key : SourceId) (p : Path) (signature : Text) : Export where
  entry := ⟨p, signature, env.drive.clock key, [], none, []⟩
  same e := e.contentSignature = signature

theorem applyState_eq (key : SourceId) (p : Path) (title drivePath body : Text)
    (existing : Option StateEntry) :
    applyState env key p title drivePath body existing =
      settle env key existing (textExport env key p body)
        (readExistingFrontmatter env p >>= fun yaml =>
          writeGdoc env p title key drivePath (env.drive.clock key) body yaml)
        (pure ()) := by
  unfold applyState settle
  simp only [keyStatusAndRename_eq, bind_assoc, bind_pure_unit]
  rfl

theorem applyState_settled (key : SourceId) (p : Path) (title drivePath body : Text)
    (existing : Option StateEntry) (c : Ctx) :
    Triple (Silent c) (applyState env key p title drivePath body existing)
      (fun _ => Settled env key existing (textExport env key p body) c)
      (fun _ => Counted ((textExport env key p body).status existing) c) := by
  rw [applyState_eq]
  refine settle_settled (Within.bind (readExistingFrontmatter_within env p) fun yaml => ?_)
    harmless_pure c
  exact writeGdoc_silent p title key drivePath _ body yaml

/-- The first part of `_process_gdoc`: the body of the document and the images it has. -/
def renderGdoc (env : Env ν δ π) (file : DriveFile) (localPath : Path)
    (existing : Option StateEntry) : SyncM (Text × Dict Text Text) := do
  let doc ← lift (env.drive.document file.id)
  followSidecar env localPath existing
  let images ← processDocImages env file.components localPath.stem
    (env.deps.extractInlineObjects doc)
  pure (normalizeBody env.deps.unicode (env.deps.renderDocMarkdown doc images.resolutions file.id),
    images.manifest)

def finishGdoc (env : Env ν δ π) (file : DriveFile) (localPath : Path)
    (existing : Option StateEntry) (r : Text × Dict Text Text) : SyncM Unit :=
  if utf8Length r.1 > oneMib then bump fun c => { c with errors := c.errors + 1 }
  else
    match existing.filter fun e => e.contentSignature = contentSignature env r.1 ∧
        sameKeys e.images r.2 ∧ e.localPath = localPath with
    | some entry => do
      record (.file file.id) entry
      bump fun c => { c with unchanged := c.unchanged + 1 }
    | none => exportGdoc env file localPath existing r.1 r.2

theorem processGdoc_eq (env : Env ν δ π) (file : DriveFile) (localPath : Path)
    (existing : Option StateEntry) : processGdoc env file localPath existing =
      renderGdoc env file localPath existing >>= finishGdoc env file localPath existing := by
  simp only [processGdoc, renderGdoc, bind_assoc, pure_bind]
  rfl

theorem exec_renderGdoc_ok :
    exec (renderGdoc env file p existing) c = (.ok r, c') ↔
      ∃ doc c₁ images, env.drive.document file.id = .ok doc ∧
        exec (followSidecar env p existing) c = (.ok (), c₁) ∧
        exec (processDocImages env file.components p.stem (env.deps.extractInlineObjects doc)) c₁ =
          (.ok images, c') ∧
        (normalizeBody env.deps.unicode
          (env.deps.renderDocMarkdown doc images.resolutions file.id), images.manifest) = r := by
  unfold renderGdoc
  cases env.drive.document file.id with
  | error e => simp [lift]
  | ok doc =>
    rw [lift, pure_bind, exec_bind_ok]
    simp only [exec_bind_ok, exec_pure, Prod.mk.injEq, Except.ok.injEq]
    constructor
    · rintro ⟨⟨⟩, c₁, hfollow, images, c₂, himages, hr, rfl⟩
      exact ⟨doc, c₁, images, rfl, hfollow, himages, hr⟩
    · rintro ⟨doc', c₁, images, rfl, hfollow, himages, hr⟩
      exact ⟨(), c₁, hfollow, images, c', himages, hr, rfl⟩

theorem renderGdoc_silent (env : Env ν δ π) (file : DriveFile) (p : Path)
    (existing : Option StateEntry) :
    Within Silent (renderGdoc env file p existing) := by
  refine Within.bind (lift_within _) fun doc => ?_
  refine Within.bind (followSidecar_silent p existing) fun _ => ?_
  exact Within.bind (processDocImages_silent _ _ _) fun images => Within.pure

/-- The write of `_process_gdoc`. -/
def writeDoc (env : Env ν δ π) (file : DriveFile) (p : Path) (existing : Option StateEntry)
    (r : Text × Dict Text Text) : SyncM Unit := do
  let key := SourceId.file file.id
  let orphans ← cleanupOrphans env.loreRoot (sidecarDir p) r.2.keys
  bump fun c => { c with orphansRemoved := c.orphansRemoved + orphans }
  let existingFm ← readExistingFrontmatter env p
  checkLocalDriftBeforeWrite env key p existing (env.deps.sha256 r.1)
  writeGdoc env p file.name key (joinDrivePath file.components file.name) (env.drive.clock key) r.1
    existingFm

/-- What a dry run counts in its place. -/
def countOrphans (p : Path) (existing : Option StateEntry) (images : Dict Text Text) :
    SyncM Unit := do
  if (← get).tree.exists? (sidecarDir p) then
    let existingManifest : Dict Text Text := (existing.map StateEntry.images).getD []
    let gone := existingManifest.keys.filter (· ∉ images.keys)
    bump fun c => { c with orphansRemoved := c.orphansRemoved + gone.length }
  else pure ()

theorem finishGdoc_eq (file : DriveFile) (p : Path) (existing : Option StateEntry)
    (r : Text × Dict Text Text) :
    finishGdoc env file p existing r =
      if utf8Length r.1 > oneMib then bump fun c => { c with errors := c.errors + 1 }
      else settle env (.file file.id) existing (docExport env (.file file.id) p r)
        (writeDoc env file p existing r) (countOrphans p existing r.2) := by
  unfold finishGdoc settle exportGdoc writeDoc
  simp only [bind_assoc]
  rfl

theorem writeDoc_silent (file : DriveFile) (p : Path) (existing : Option StateEntry)
    (r : Text × Dict Text Text) : Within Silent (writeDoc env file p existing r) := by
  refine Within.bind (cleanupOrphans_silent _ _ _) fun orphans => ?_
  refine Within.bind (bump_silent fun _ => rfl) fun _ => ?_
  refine Within.bind (readExistingFrontmatter_within env p) fun yaml => ?_
  refine Within.bind (checkLocalDriftBeforeWrite_silent _ p existing _) fun _ => ?_
  exact writeGdoc_silent p _ _ _ _ _ _

theorem harmless_countOrphans (p : Path) (existing : Option StateEntry) (images : Dict Text Text) :
    Harmless (countOrphans p existing images) := by
  intro c
  have hexec : exec (countOrphans p existing images) c =
      if c.tree.exists? (sidecarDir p) then
        exec (bump fun n => { n with orphansRemoved := n.orphansRemoved +
          (((existing.map StateEntry.images).getD []).keys.filter (· ∉ images.keys)).length }) c
      else (.ok (), c) := by
    rw [countOrphans, exec_bind, exec_get]
    dsimp only
    split <;> rfl
  rw [hexec]
  split
  · exact ⟨_, rfl, ⟨rfl, rfl⟩, rfl⟩
  · exact ⟨c, rfl, Std.Refl.refl c⟩

/-- The entry of an image whose signature Drive reports unchanged. -/
def knownPng (file : DriveFile) (existing : Option StateEntry) : Option StateEntry :=
  file.md5.bind fun md5 => existing.filter fun e => e.contentSignature = "md5:".toList ++ md5

def pngSignature (env : Env ν δ π) (file : DriveFile) (bytes : Bytes) : Text :=
  "md5:".toList ++ file.md5.getD (env.deps.md5 bytes)

theorem pngSignature_of_md5 {md5 : Option Text} (h : file.md5 = md5) (bytes : Bytes) :
    pngSignature env file bytes = "md5:".toList ++ md5.getD (env.deps.md5 bytes) :=
  congrArg (fun m => "md5:".toList ++ m.getD (env.deps.md5 bytes)) h

theorem knownPng_eq_kept {md5 : Text} (h : file.md5 = some md5) (p : Path)
    (existing : Option StateEntry) (bytes : Bytes) :
    knownPng file existing =
      (pngExport env (.file file.id) p (pngSignature env file bytes)).kept existing := by
  have hknown : knownPng file existing =
      existing.filter fun e => e.contentSignature = "md5:".toList ++ md5 :=
    congrArg (Option.bind · _) h
  rw [hknown, pngSignature_of_md5 h]
  rfl

/-- The write of `_process_png`. -/
def writePng (p : Path) (bytes : Bytes) : SyncM Unit := do
  onTree (·.mkdirs p.parent)
  onTree (·.write p (.bytes bytes))

theorem writePng_silent (p : Path) (bytes : Bytes) : Within Silent (writePng p bytes) :=
  Within.bind (onTree_silent _) fun _ => onTree_silent _

theorem knownPng_kept (h : knownPng file existing = some e) (p : Path) :
    (pngExport env (.file file.id) p e.contentSignature).kept existing = some e := by
  obtain ⟨md5, -, hfilter⟩ := Option.bind_eq_some_iff.1 h
  obtain ⟨rfl, -⟩ := Option.filter_eq_some_iff.1 hfilter
  exact Option.filter_some_pos (decide_eq_true rfl)

theorem processPng_known (h : knownPng file existing = some e) :
    processPng env file p existing =
      settle env (.file file.id) existing (pngExport env (.file file.id) p e.contentSignature)
        (pure ()) (pure ()) := by
  rw [settle, knownPng_kept h, processPng]
  rw [knownPng] at h
  dsimp only
  rw [h]

theorem processPng_fetched (h : knownPng file existing = none) :
    processPng env file p existing = lift (env.drive.pngBytes file.id) >>= fun bytes =>
      if bytes.length > oneMib then bump fun c => { c with errors := c.errors + 1 }
      else settle env (.file file.id) existing
        (pngExport env (.file file.id) p (pngSignature env file bytes)) (writePng p bytes)
        (pure ()) := by
  have hsecond : ∀ bytes : Bytes, (if file.md5 = none then existing.filter fun e =>
        e.contentSignature = "md5:".toList ++ file.md5.getD (env.deps.md5 bytes) else none) =
      (pngExport env (.file file.id) p (pngSignature env file bytes)).kept existing := by
    intro bytes
    split
    · rfl
    · next hsome =>
      obtain ⟨md5, hmd5⟩ := Option.ne_none_iff_exists'.1 hsome
      exact h.symm.trans (knownPng_eq_kept hmd5 p existing bytes)
  rw [knownPng] at h
  unfold processPng exportPng
  dsimp only
  rw [h]
  simp only [hsecond, settle, writePng, bind_assoc, bind_pure_unit]
  rfl

/-- The export the handler of a file comes to, from the context it starts in; `none` if it is over
1 MiB. -/
def judged (env : Env ν δ π) (file : DriveFile) (p : Path) (existing : Option StateEntry)
    (c : Ctx) : Except Exn (Option Export) :=
  let key := SourceId.file file.id
  match file.mime with
  | .doc => (exec (renderGdoc env file p existing) c).1.map fun r =>
      if utf8Length r.1 > oneMib then none else some (docExport env key p r)
  | .slides => (env.drive.presentation file.id).map fun deck =>
      let body := normalizeBody env.deps.unicode
        (env.deps.renderPresentationMarkdown file.name deck file.id)
      if utf8Length body > oneMib then none else some (textExport env key p body)
  | _ =>
    match knownPng file existing with
    | some e => .ok (some (pngExport env key p e.contentSignature))
    | none => (env.drive.pngBytes file.id).map fun bytes =>
      if bytes.length > oneMib then none
      else some (pngExport env key p (pngSignature env file bytes))

section
variable {file : DriveFile} {p : Path} {existing : Option StateEntry} {c : Ctx} {x : Export}

theorem judged_doc (hm : file.mime = .doc) : judged env file p existing c = .ok (some x) ↔
    ∃ r c', exec (renderGdoc env file p existing) c = (.ok r, c') ∧
      ¬ utf8Length r.1 > oneMib ∧ docExport env (.file file.id) p r = x := by
  unfold judged
  rw [hm]
  rcases exec (renderGdoc env file p existing) c with ⟨e | r, c'⟩ <;> simp [Except.map]

theorem judged_slides (hm : file.mime = .slides) : judged env file p existing c = .ok (some x) ↔
    ∃ deck, env.drive.presentation file.id = .ok deck ∧
      let body := normalizeBody env.deps.unicode
        (env.deps.renderPresentationMarkdown file.name deck file.id)
      ¬ utf8Length body > oneMib ∧ textExport env (.file file.id) p body = x := by
  unfold judged
  rw [hm]
  cases env.drive.presentation file.id <;> simp [Except.map]

theorem judged_png (hm : file.mime = .png) : judged env file p existing c = .ok (some x) ↔
    (∃ e, knownPng file existing = some e ∧
        pngExport env (.file file.id) p e.contentSignature = x) ∨
      (knownPng file existing = none ∧ ∃ bytes, env.drive.pngBytes file.id = .ok bytes ∧
        ¬ bytes.length > oneMib ∧
        pngExport env (.file file.id) p (pngSignature env file bytes) = x) := by
  unfold judged
  rw [hm]
  cases knownPng file existing <;> cases env.drive.pngBytes file.id <;> simp [Except.map]

end

/-- What a handler that comes to an export does, and what it does without one. -/
def Settles (env : Env ν δ π) (key : SourceId) (existing : Option StateEntry)
    (x : Except Exn (Option Export)) (c c' : Ctx) : Prop :=
  match x with
  | .error _ => False
  | .ok none => Counted .failed c c'
  | .ok (some x) => Settled env key existing x c c'

/-- What a handler that raises has counted: nothing before it came to an export, the status of the
export after. -/
def Interrupted (existing : Option StateEntry) (x : Except Exn (Option Export)) (c c' : Ctx) :
    Prop :=
  match x with
  | .error _ => Silent c c'
  | .ok none => False
  | .ok (some x) => Counted (x.status existing) c c'

theorem Interrupted.raised {x : Except Exn (Option Export)} (h : Interrupted existing x c c') :
    Raised c c' := by
  rcases x with e | _ | x
  · exact Silent.raised h
  · exact h.elim
  · exact Counted.raised (x.status_ne_failed existing) h

theorem ite_settles {oversized : Prop} [Decidable oversized] {handler : SyncM Unit}
    (h : Triple (Silent c) handler (fun _ => Settled env key existing x c)
      (fun _ => Counted (x.status existing) c)) :
    Triple (Silent c)
      (if oversized then bump fun c => { c with errors := c.errors + 1 } else handler)
      (fun _ => Settles env key existing (.ok (if oversized then none else some x)) c)
      (fun _ => Interrupted existing (.ok (if oversized then none else some x)) c) := by
  split
  · exact bump_counted (fun _ => rfl) c
  · exact h

theorem processKind_interrupted (env : Env ν δ π) (file : DriveFile) (p : Path)
    (existing : Option StateEntry) (c : Ctx) :
    Triple (· = c) (processKind env file p existing)
      (fun _ => Settles env (.file file.id) existing (judged env file p existing c) c)
      (fun _ => Interrupted existing (judged env file p existing c) c) := by
  have hsilent : ∀ c', c' = c → Silent c c' := by
    intro c' h
    rw [h]
    exact Std.Refl.refl c
  have hpng : ∀ x, (match knownPng file existing with
        | some e => .ok (some (pngExport env (.file file.id) p e.contentSignature))
        | none => (env.drive.pngBytes file.id).map fun bytes =>
          if bytes.length > oneMib then none
          else some (pngExport env (.file file.id) p (pngSignature env file bytes))) = x →
      Triple (· = c) (processPng env file p existing)
        (fun _ => Settles env (.file file.id) existing x c) (fun _ => Interrupted existing x c) := by
    rintro x rfl
    cases hknown : knownPng file existing with
    | some e =>
      rw [processPng_known hknown]
      exact (settle_settled Within.pure harmless_pure c).conseq hsilent (fun _ _ h => h)
        fun _ _ h => h
    | none =>
      rw [processPng_fetched hknown]
      cases env.drive.pngBytes file.id with
      | error e => exact Triple.throw fun c' h => hsilent c' h
      | ok bytes =>
        exact (ite_settles (settle_settled (writePng_silent p bytes) harmless_pure c)).conseq
          hsilent (fun _ _ h => h) fun _ _ h => h
  unfold processKind judged
  cases file.mime with
  | doc =>
    intro s hs
    rw [hs, processGdoc_eq, exec_bind]
    have hrender := renderGdoc_silent env file p existing c
    rcases hr : exec (renderGdoc env file p existing) c with ⟨e | r, c₁⟩
    · rw [hr] at hrender
      exact hrender
    · rw [hr] at hrender
      dsimp only
      rw [finishGdoc_eq]
      exact ite_settles (settle_settled (writeDoc_silent file p existing r)
        (harmless_countOrphans p existing r.2) c) c₁ hrender
  | slides =>
    unfold processGslide
    cases env.drive.presentation file.id with
    | error e => exact Triple.throw fun c' h => hsilent c' h
    | ok deck =>
      exact (ite_settles (applyState_settled _ p _ _ _ existing c)).conseq hsilent
        (fun _ _ h => h) fun _ _ h => h
  | png => exact hpng _ rfl
  | sheet => exact hpng _ rfl

theorem processKind_settles (env : Env ν δ π) (file : DriveFile) (p : Path)
    (existing : Option StateEntry) (c : Ctx) :
    Triple (· = c) (processKind env file p existing)
      (fun _ => Settles env (.file file.id) existing (judged env file p existing c) c)
      (fun _ => Raised c) :=
  (processKind_interrupted env file p existing c).conseq (fun _ h => h) (fun _ _ h => h)
    fun _ _ h => h.raised

def Ctx.turn (c : Ctx) (p : Path) : Ctx :=
  { c with
    takenPaths := p :: c.takenPaths
    counts := { c.counts with total := c.counts.total + 1 } }

theorem exec_fileTurn (file : DriveFile) (p : Path) (existing : Option StateEntry) (c : Ctx) :
    exec (takePath p >>= fun _ => processFile env file p existing) c =
      match exec (processKind env file p existing) (c.turn p) with
      | (.ok (), c') => (.ok (), c')
      | (.error e, c') =>
        if e.isCaught then
          (.ok (), { c' with counts := { c'.counts with errors := c'.counts.errors + 1 } })
        else (.error e, c') := by
  have hturn : exec (takePath p >>= fun _ => processFile env file p existing) c =
      exec (tryCatch (processKind env file p existing) fun e =>
        if e.isCaught then bump fun c => { c with errors := c.errors + 1 } else throw e)
        (c.turn p) := rfl
  rw [hturn, exec_tryCatch]
  rcases exec (processKind env file p existing) (c.turn p) with ⟨e | a, c'⟩
  · cases e <;> rfl
  · rfl

theorem processListed_ends (hmime : file.mime ≠ .sheet)
    (hp : allocate env file c.takenPaths = some p)
    (h : exec (processKind env file p (env.state.get? (.file file.id))) (c.turn p) = (.ok (), c')) :
    exec (processListed env file) c = (.ok (), c') := by
  rw [processListed, if_neg hmime, exec_bind, exec_get]
  dsimp only
  rw [hp]
  dsimp only
  rw [exec_fileTurn, h]

/-- All that the turn of a file can do: its handler raises and the error is counted, or its handler
ends. -/
theorem processListed_turn (hmime : file.mime ≠ .sheet)
    (h : exec (processListed env file) c = (.ok (), c')) :
    ∃ p, allocate env file c.takenPaths = some p ∧
      ((∃ e c₁, exec (processKind env file p (env.state.get? (.file file.id))) (c.turn p) =
          (.error e, c₁) ∧ e.isCaught = true ∧ Raised (c.turn p) c₁ ∧
          c' = { c₁ with counts := { c₁.counts with errors := c₁.counts.errors + 1 } }) ∨
        (exec (processKind env file p (env.state.get? (.file file.id))) (c.turn p) = (.ok (), c') ∧
          Settles env (.file file.id) (env.state.get? (.file file.id))
            (judged env file p (env.state.get? (.file file.id)) (c.turn p)) (c.turn p) c')) := by
  rw [processListed, if_neg hmime, exec_bind, exec_get] at h
  dsimp only at h
  cases hp : allocate env file c.takenPaths with
  | none => rw [hp] at h; cases h
  | some p =>
    rw [hp] at h
    dsimp only at h
    rw [exec_fileTurn] at h
    have hsettles := processKind_settles env file p (env.state.get? (.file file.id))
      (c.turn p) (c.turn p) rfl
    refine ⟨p, rfl, ?_⟩
    rcases hk : exec (processKind env file p (env.state.get? (.file file.id))) (c.turn p) with
      ⟨e | a, c₁⟩
    · rw [hk] at h hsettles
      dsimp only at h hsettles
      split at h
      · next hcaught =>
        cases h
        exact .inl ⟨e, c₁, rfl, hcaught, hsettles, rfl⟩
      · cases h
    · rw [hk] at h hsettles
      cases h
      exact .inr ⟨rfl, hsettles⟩

def judgedTab (env : Env ν δ π) (file : DriveFile) (tab : Tab) (p : Path) :
    Except Exn (Option Export) :=
  (env.drive.sheetValues file.id tab.title).map fun values =>
    let body := normalizeBody env.deps.unicode
      (env.deps.renderTabMarkdown file.name tab.title values file.id tab.sheetId)
    if utf8Length body > oneMib then none
    else some (textExport env (.tab file.id tab.sheetId) p body)

theorem judgedTab_eq_some {tab : Tab} :
    judgedTab env file tab p = .ok (some x) ↔
      ∃ values, env.drive.sheetValues file.id tab.title = .ok values ∧
        let body := normalizeBody env.deps.unicode
          (env.deps.renderTabMarkdown file.name tab.title values file.id tab.sheetId)
        ¬ utf8Length body > oneMib ∧ textExport env (.tab file.id tab.sheetId) p body = x := by
  unfold judgedTab
  cases env.drive.sheetValues file.id tab.title <;> simp [Except.map]

def SettlesTab (env : Env ν δ π) (key : SourceId) (x : Except Exn (Option Export)) (c c' : Ctx) :
    Prop :=
  match x with
  | .ok (some x) => Settled env key (env.state.get? key) x c c'
  | _ => Counted .failed c c'

theorem exportTab_settles (env : Env ν δ π) (file : DriveFile) (tab : Tab) (p : Path) (c : Ctx) :
    Triple (Silent c) (exportTab env file tab p)
      (fun _ => SettlesTab env (.tab file.id tab.sheetId) (judgedTab env file tab p) c)
      (fun _ => Raised c) := by
  have hcount : Triple (Silent c) countError (fun _ => Counted .failed c) (fun _ => Raised c) :=
    bump_counted (fun _ => rfl) c
  unfold exportTab judgedTab
  cases env.drive.sheetValues file.id tab.title with
  | error e =>
    cases e with
    | driveApi | os => exact hcount
    | value | other => exact Triple.throw fun _ h => h.raised
  | ok values =>
    simp only [Except.map]
    split
    · exact hcount
    · exact Silent.bind (bump_silent fun _ => rfl) (fun _ _ h => h.raised) fun _ =>
        (applyState_settled _ p _ _ _ _ c).conseq (fun _ h => h) (fun _ _ h => h) fun _ _ h =>
          h.raised (Export.status_ne_failed _ _)

def Ctx.take (c : Ctx) (p : Path) : Ctx := { c with takenPaths := p :: c.takenPaths }

theorem processTab_settles {s : Tab × Text} (h : exec (processTab env file s) c = (.ok (), c')) :
    SettlesTab env (.tab file.id s.1.sheetId) (judgedTab env file s.1 (tabPath env file s.2))
      (c.take (tabPath env file s.2)) c' := by
  have htake : exec (processTab env file s) c =
      exec (exportTab env file s.1 (tabPath env file s.2)) (c.take (tabPath env file s.2)) := rfl
  have hsettles := exportTab_settles env file s.1 (tabPath env file s.2)
    (c.take (tabPath env file s.2)) _ (Std.Refl.refl _)
  rw [← htake, h] at hsettles
  exact hsettles

/-! ## The archive pass -/

/-- The entry of a source that is gone from Drive. -/
def archivedNow (env : Env ν δ π) (key : SourceId) (entry : StateEntry) : StateEntry :=
  if entry.archivedAt.isSome ∨ env.dryRun then entry
  else { entry with archivedAt := some (env.drive.archiveClock key) }

def archiveVerdict (entry : StateEntry) : Verdict :=
  if entry.archivedAt.isSome then .unchanged else .archived

theorem archiveEntry_filed (env : Env ν δ π) (key : SourceId) (entry : StateEntry) (c : Ctx) :
    Triple (Silent c) (archiveEntry env key entry)
      (fun _ => Filed key (archivedNow env key entry) (archiveVerdict entry) c)
      (fun _ => Raised c) := by
  refine Silent.bind (bump_silent fun _ => rfl) (fun _ _ h => h.raised) fun _ => ?_
  by_cases harchived : entry.archivedAt.isSome
  · rw [if_pos harchived, archivedNow, if_pos (.inl harchived), archiveVerdict, if_pos harchived]
    exact record_bump_filed key entry (fun _ => rfl) c
  rw [if_neg harchived, archiveVerdict, if_neg harchived]
  by_cases hdry : env.dryRun = true
  · rw [if_pos hdry, archivedNow, if_pos (.inr hdry)]
    exact record_bump_filed key entry (fun _ => rfl) c
  · rw [if_neg hdry, archivedNow, if_neg (not_or.2 ⟨harchived, hdry⟩)]
    refine Silent.bind Within.get (fun _ _ h => h.raised) fun c₁ => ?_
    have hfile := record_bump_filed key
      { entry with archivedAt := some (env.drive.archiveClock key) } (v := .archived)
      (f := fun n => { n with archived := n.archived + 1 }) (fun _ => rfl)
      (E := fun _ => Raised c) c
    dsimp only
    split
    · exact Silent.bind (setArchivedFrontmatter_silent _ _) (fun _ _ h => h.raised) fun _ => hfile
    · exact hfile

def knownGids (env : Env ν δ π) (gids : TabGids) (key : SourceId) (fileId : FileId) :
    Except Exn (List Nat) :=
  match gids.get? fileId with
  | some known => .ok known
  | none => (env.drive.archiveTabs key).map fun tabs => tabs.map (·.sheetId)

/-- The archive pass finds that a source is gone from Drive. -/
def Gone (env : Env ν δ π) (files : List DriveFile) (gids : TabGids) : SourceId → Prop
  | .file id => id ∉ files.map (·.id)
  | .tab id gid => id ∉ files.map (·.id) ∨
      (id ∈ (files.filter (·.mime = .sheet)).map (·.id) ∧
        ∃ known, knownGids env gids (.tab id gid) id = .ok known ∧ gid ∉ known)

/-- The archive pass asks for the tabs of a workbook and gets an exception. -/
def Unanswered (env : Env ν δ π) (files : List DriveFile) (gids : TabGids) (e : Exn) :
    SourceId → Prop
  | .file _ => False
  | .tab id gid => id ∈ (files.filter (·.mime = .sheet)).map (·.id) ∧
      knownGids env gids (.tab id gid) id = .error e

/-- What is known of the tabs after an entry: what was known, or the answer for its workbook too. -/
inductive Learned (env : Env ν δ π) (gids : TabGids) : SourceId → TabGids → Prop where
  | nothing {key : SourceId} : Learned env gids key gids
  | tabs {id : FileId} {gid : Nat} {tabs : List Tab} :
      env.drive.archiveTabs (.tab id gid) = .ok tabs →
      Learned env gids (.tab id gid) (gids.set id (tabs.map (·.sheetId)))

/-- All that the archive pass does with one entry: it raises what the call for the tabs raised,
archives the entry, records it as it is, or leaves it to the loop. -/
inductive ArchiveStep (env : Env ν δ π) (files : List DriveFile) (gids : TabGids) (key : SourceId)
    (entry : StateEntry) : SyncM TabGids → Prop where
  | raises {e : Exn} : Unanswered env files gids e key → e ≠ .driveApi →
      ArchiveStep env files gids key entry (throw e)
  | gone {gids' : TabGids} : Learned env gids key gids' → Gone env files gids key →
      ArchiveStep env files gids key entry (archiveEntry env key entry >>= fun _ => pure gids')
  | present {gids' : TabGids} {fileId : FileId} {gid : Nat} : Learned env gids key gids' →
      key = .tab fileId gid → ¬ Gone env files gids key →
      (∀ e, Unanswered env files gids e key → e = .driveApi) →
      ArchiveStep env files gids key entry (record key entry >>= fun _ => pure gids')
  | listed {file : DriveFile} : file ∈ files → key = .file file.id →
      ArchiveStep env files gids key entry (pure gids)

theorem handleArchivedKey_step (env : Env ν δ π) (files : List DriveFile) (gids : TabGids)
    (key : SourceId) (entry : StateEntry) :
    ArchiveStep env files gids key entry (handleArchivedKey env files gids (key, entry)) := by
  cases key with
  | file id =>
    unfold handleArchivedKey
    dsimp only
    split
    · next hmem =>
      obtain ⟨file, hfile, rfl⟩ := List.mem_map.1 hmem
      exact .listed hfile rfl
    · next hmem => exact .gone .nothing hmem
  | tab id gid =>
    unfold handleArchivedKey handleArchivedTab
    dsimp only
    split
    · next hlisted => exact .gone .nothing (.inl hlisted)
    next hlisted =>
    split
    · next hsheet =>
      have hnot : ¬ Gone env files gids (.tab id gid) := by
        rintro (h | h)
        · exact hlisted h
        · exact hsheet h.1
      exact .present .nothing rfl hnot fun e h => absurd h.1 hsheet
    next hsheet =>
    -- the tabs are known from an earlier entry, or asked for now
    have htab : ∀ known gids', knownGids env gids (.tab id gid) id = .ok known →
        Learned env gids (.tab id gid) gids' →
        ArchiveStep env files gids (.tab id gid) entry
          (archiveTab env (.tab id gid) gid entry known >>= fun _ => pure gids') := by
      intro known gids' hknown hlearned
      have hanswered : ∀ e, Unanswered env files gids e (.tab id gid) → e = .driveApi := by
        intro e h
        cases hknown.symm.trans h.2
      unfold archiveTab
      split
      · next hgid => exact .gone hlearned (.inr ⟨not_not.1 hsheet, known, hknown, hgid⟩)
      · next hgid =>
        refine .present hlearned rfl ?_ hanswered
        rintro (h | ⟨-, known', hknown', hgid'⟩)
        · exact hlisted h
        · cases hknown.symm.trans hknown'
          exact hgid hgid'
    split
    · next known hcached => exact htab known gids (by rw [knownGids, hcached]) .nothing
    next hcached =>
    have hasked : knownGids env gids (.tab id gid) id =
        (env.drive.archiveTabs (.tab id gid)).map fun tabs => tabs.map (·.sheetId) := by
      rw [knownGids, hcached]
    split
    · next tabs htabs => exact htab _ _ (by rw [hasked, htabs]; rfl) (.tabs htabs)
    · next htabs =>
      rw [htabs] at hasked
      refine .present .nothing rfl ?_ fun e h => ?_
      · rintro (h | ⟨-, known, hknown, -⟩)
        · exact hlisted h
        · cases hasked.symm.trans hknown
      · cases hasked.symm.trans h.2
        rfl
    · next e hne htabs =>
      rw [htabs] at hasked
      exact .raises ⟨not_not.1 hsheet, hasked⟩ hne

end
end Archiviste.Sync
