import Archiviste.Base.Prog
import Archiviste.Sync.Frontmatter
import Archiviste.Sync.Paths

/-!
# Archiviste.Sync.Model

`run_sync`: one pass over a Drive listing that exports documents, slide decks, tabs and images into
a local tree and rebuilds the state file. What the Drive calls of a run answer, and when, is the
input of the run (`Drive`); renderers, hashes, the image codec, UTF-8 and YAML are parameters
(`Deps`). Log lines are left out, but for `gdrive_sync.local_drift_overwritten`.

The exceptions are those the source tells apart: `DriveApiError`, `OSError`, `ValueError`, and the
rest. An exception that leaves `run_sync` ends the run: the tree keeps what was done to it and the
state file is not written.
-/

namespace Archiviste.Sync

/-! ## Drive -/

inductive Mime where
  | doc
  | sheet
  | slides
  | png
  deriving DecidableEq, Repr

structure DriveFile where
  id : FileId
  mime : Mime
  name : Text
  components : List Text
  md5 : Option Text
  deriving DecidableEq

abbrev Bytes := List UInt8

inductive Exn where
  | driveApi
  | os
  | value
  | other
  deriving DecidableEq, Repr

/-- The answers of Drive in one run, for documents `δ` and presentations `π`, and the clock. The
archive pass asks for the tabs of a workbook once more, on behalf of a state key. -/
structure Drive (δ π : Type) where
  listing : Except Exn (List DriveFile)
  archiveTabs : SourceId → Except Exn (List Tab)
  tabs : FileId → Except Exn (List Tab)
  sheetValues : FileId → Text → Except Exn (List (List Text))
  document : FileId → Except Exn δ
  presentation : FileId → Except Exn π
  image : Text → Except Exn (Bytes × Text)
  pngBytes : FileId → Except Exn Bytes
  archiveClock : SourceId → Text
  clock : SourceId → Text

/-! ## Images -/

inductive ImageExt where
  | png
  | jpg
  | gif
  | webp
  deriving DecidableEq, Repr

def ImageExt.text : ImageExt → Text
  | .png => "png".toList
  | .jpg => "jpg".toList
  | .gif => "gif".toList
  | .webp => "webp".toList

structure CompressedImage where
  bytesFinal : Bytes
  extFinal : ImageExt
  md5Hex12 : Text
  deriving DecidableEq

inductive CompressError where
  | oversized
  | undecodable
  | raised (e : Exn)
  deriving DecidableEq

inductive ResolutionKind where
  | ok
  | failed
  | oversized
  deriving DecidableEq, Repr

structure ImageResolution where
  kind : ResolutionKind
  objectId : Text
  relPath : Option Text
  deriving DecidableEq

/-! ## State of a run -/

structure StateEntry where
  localPath : Path
  contentSignature : Text
  lastExportedAt : Text
  bodyHash : Text
  archivedAt : Option Text
  images : Dict Text Text
  deriving DecidableEq

structure SummaryCounts where
  total : Nat
  created : Nat
  updated : Nat
  renamed : Nat
  archived : Nat
  unchanged : Nat
  errors : Nat
  imagesWritten : Nat
  imagesFailed : Nat
  orphansRemoved : Nat
  deriving DecidableEq, Repr

def SummaryCounts.zero : SummaryCounts := ⟨0, 0, 0, 0, 0, 0, 0, 0, 0, 0⟩

inductive Content where
  | text (t : Text)
  | bytes (b : Bytes)
  deriving DecidableEq

/-- What a run changes: the local tree, and the state, counters and paths it builds up.
`driftsLogged` are the sources `gdrive_sync.local_drift_overwritten` was emitted for. -/
structure Ctx where
  tree : FileTree Content
  newState : Dict SourceId StateEntry
  counts : SummaryCounts
  takenPaths : List Path
  driftsLogged : List SourceId
  deriving DecidableEq

structure Deps (ν δ π : Type) where
  codec : Codec ν
  unicode : Unicode
  sha256 : Text → Text
  md5 : Bytes → Text
  decodeUtf8 : Bytes → Option Text
  extractInlineObjects : δ → Dict Text Text
  renderDocMarkdown : δ → Dict Text ImageResolution → FileId → Text
  renderPresentationMarkdown : Text → π → FileId → Text
  renderTabMarkdown : Text → Text → List (List Text) → FileId → Nat → Text
  compressImage : Bytes → Text → Except CompressError CompressedImage

/-- What is fixed during a run (`SyncContext`). -/
structure Env (ν δ π : Type) where
  deps : Deps ν δ π
  drive : Drive δ π
  state : Dict SourceId StateEntry
  dryRun : Bool
  loreRoot : Path

abbrev SyncM (α : Type) := Prog Ctx Exn α

def oneMib : Nat := 1024 * 1024

/-- `len(text.encode("utf-8"))`. -/
def utf8Length (t : Text) : Nat := (t.map Char.utf8Size).sum

/-- `normalize_body`: NFKC, then the C0 controls but for tab and line feed are dropped. -/
def normalizeBody (u : Unicode) (t : Text) : Text :=
  (u.nfkc t).filter fun c => ¬ (c.toNat ≤ 0x08 ∨ (0x0b ≤ c.toNat ∧ c.toNat ≤ 0x1f))

/-! ## Effects -/

def bump (f : SummaryCounts → SummaryCounts) : SyncM Unit :=
  modify fun c => { c with counts := f c.counts }

def record (key : SourceId) (entry : StateEntry) : SyncM Unit :=
  modify fun c => { c with newState := c.newState.set key entry }

def takePath (p : Path) : SyncM Unit := modify fun c => { c with takenPaths := p :: c.takenPaths }

def logDrift (key : SourceId) : SyncM Unit :=
  modify fun c => { c with driftsLogged := c.driftsLogged ++ [key] }

def lift {α : Type} : Except Exn α → SyncM α
  | .ok a => pure a
  | .error e => throw e

/-- An operation of the file system; its failures are `OSError`s. -/
def onTree (f : FileTree Content → Except FsError (FileTree Content)) : SyncM Unit := do
  match f (← get).tree with
  | .ok tree => modify fun c => { c with tree := tree }
  | .error _ => throw .os

section
variable {ν δ π : Type}

/-- The text of a file, or `none` where decoding raises. -/
def Content.decode (deps : Deps ν δ π) : Content → Option Text
  | .text t => some (universalNewlines t)
  | .bytes b => (deps.decodeUtf8 b).map universalNewlines

/-- `p.read_text(encoding="utf-8")`; a `UnicodeDecodeError` is a `ValueError`. -/
def readText (env : Env ν δ π) (p : Path) : SyncM Text := do
  match (← get).tree.read p with
  | .error _ => throw .os
  | .ok content =>
    match content.decode env.deps with
    | none => throw .value
    | some text => pure text

end

def renameLocalFile (oldPath newPath : Path) : SyncM Unit := do
  if ¬ (← get).tree.exists? oldPath then throw .os
  else if (← get).tree.exists? newPath then throw .os
  else
    onTree (·.mkdirs newPath.parent)
    onTree (·.rename oldPath newPath)

def renameSidecar (oldMdPath newMdPath : Path) : SyncM Unit := do
  if (← get).tree.exists? (sidecarDir oldMdPath) then
    onTree (·.mkdirs (sidecarDir newMdPath).parent)
    onTree (·.rename (sidecarDir oldMdPath) (sidecarDir newMdPath))
  else pure ()

/-- Removes the children of a sidecar directory whose name up to the first dot is not kept, and
the directory itself once it is empty. -/
def cleanupOrphans (root sidecar : Path) (keptMd5s : List Text) : SyncM Nat := do
  if ¬ underRoot root sidecar then throw .value
  else if ¬ (← get).tree.exists? sidecar then pure 0
  else if ((← get).tree.file? sidecar).isSome then throw .os
  else
    let orphans := ((← get).tree.children sidecar).filter fun child =>
      (Text.splitOn '.' child.name).headD [] ∉ keptMd5s
    orphans.forM fun child => onTree (·.unlink child)
    if (← get).tree.children sidecar = [] then onTree (·.rmdir sidecar) else pure ()
    pure orphans.length

section
variable {ν δ π : Type} (env : Env ν δ π)

/-! ## Markdown files -/

def readExistingFrontmatter (localPath : Path) : SyncM (Option Text) := do
  if (← get).tree.exists? localPath then
    let content ← readText env localPath
    pure ((splitContent content).map (·.1))
  else pure none

def writeGdoc (localPath : Path) (title : Text) (key : SourceId) (drivePath exportedAt body : Text)
    (existingFmYaml : Option Text) : SyncM Unit :=
  let codec := env.deps.codec
  match buildOrderedFrontmatter codec existingFmYaml
      (scriptManaged codec title key.text drivePath exportedAt) with
  | none => throw .other
  | some merged => do
    onTree (·.mkdirs localPath.parent)
    onTree (·.write localPath (.text (fileText codec merged body)))

/-- A file without an opening line is left alone; one without a closing line raises. -/
def setArchivedFrontmatter (localPath : Path) (archivedAt : Text) : SyncM Unit := do
  let codec := env.deps.codec
  let content ← readText env localPath
  match afterOpening content with
  | none => pure ()
  | some rest =>
    match cutClosing rest with
    | none => throw .value
    | some (fmYaml, body) =>
      let archive := fun fm : Dict Text ν =>
        (fm.set "archived".toList (codec.bool true)).set "archived_at".toList (codec.str archivedAt)
      match codec.safeLoad fmYaml with
      | some (.mapping fm) => onTree (·.write localPath (.text (fileText codec (archive fm) body)))
      | some .falsy => onTree (·.write localPath (.text (fileText codec (archive []) body)))
      | some .other => throw .other
      | none => throw .other

def checkLocalDriftBeforeWrite (key : SourceId) (localPath : Path) (existing : Option StateEntry)
    (incomingBodyHash : Text) : SyncM Unit := do
  match existing with
  | none => pure ()
  | some entry =>
    if ¬ (← get).tree.exists? localPath ∨ entry.bodyHash = [] then pure ()
    else
      let content ← readText env localPath
      let currentHash := env.deps.sha256 (bodyPart content)
      if currentHash ≠ entry.bodyHash ∧ incomingBodyHash ≠ entry.bodyHash then logDrift key
      else pure ()

/-- The body shared by `_gdoc_status_and_rename`, `_tab_status_and_rename` and the end of
`_process_png`. -/
def statusAndRename (localPath : Path) : Option StateEntry → SyncM Unit
  | none => bump fun c => { c with created := c.created + 1 }
  | some entry =>
    if entry.localPath ≠ localPath then do
      bump fun c => { c with renamed := c.renamed + 1 }
      if env.dryRun then pure () else renameLocalFile entry.localPath localPath
    else bump fun c => { c with updated := c.updated + 1 }

def gdocStatusAndRename (localPath : Path) (existing : Option StateEntry) : SyncM Unit :=
  statusAndRename env localPath existing

def tabStatusAndRename (localPath : Path) (existing : Option StateEntry) : SyncM Unit :=
  statusAndRename env localPath existing

def contentSignature (body : Text) : Text := "sha256:".toList ++ env.deps.sha256 body

def exportedEntry (key : SourceId) (localPath : Path) (body : Text) (images : Dict Text Text) :
    StateEntry where
  localPath := localPath
  contentSignature := contentSignature env body
  lastExportedAt := env.drive.clock key
  bodyHash := env.deps.sha256 body
  archivedAt := none
  images := images

/-! ## Archiving -/

def archiveEntry (key : SourceId) (entry : StateEntry) : SyncM Unit := do
  bump fun c => { c with total := c.total + 1 }
  if entry.archivedAt.isSome then
    record key entry
    bump fun c => { c with unchanged := c.unchanged + 1 }
  else if env.dryRun then
    record key entry
    bump fun c => { c with archived := c.archived + 1 }
  else
    let archivedAt := env.drive.archiveClock key
    if entry.localPath.suffix = mdExt ∧ (← get).tree.exists? entry.localPath then
      setArchivedFrontmatter env entry.localPath archivedAt
    else pure ()
    record key { entry with archivedAt := some archivedAt }
    bump fun c => { c with archived := c.archived + 1 }

abbrev TabGids := Dict FileId (List Nat)

def archiveTab (key : SourceId) (gid : Nat) (entry : StateEntry) (gids : List Nat) : SyncM Unit :=
  if gid ∉ gids then archiveEntry env key entry else record key entry

def handleArchivedTab (files : List DriveFile) (currentTabGids : TabGids) (key : SourceId)
    (fileId : FileId) (gid : Nat) (entry : StateEntry) : SyncM TabGids := do
  if fileId ∉ files.map (·.id) then
    archiveEntry env key entry
    pure currentTabGids
  else if fileId ∉ (files.filter (·.mime = .sheet)).map (·.id) then
    record key entry
    pure currentTabGids
  else
    match currentTabGids.get? fileId with
    | some gids =>
      archiveTab env key gid entry gids
      pure currentTabGids
    | none =>
      match env.drive.archiveTabs key with
      | .ok tabs =>
        let gids := tabs.map (·.sheetId)
        archiveTab env key gid entry gids
        pure (currentTabGids.set fileId gids)
      | .error .driveApi =>
        record key entry
        pure currentTabGids
      | .error e => throw e

def handleArchivedKey (files : List DriveFile) (currentTabGids : TabGids) :
    SourceId × StateEntry → SyncM TabGids
  | (.tab fileId gid, entry) =>
    handleArchivedTab env files currentTabGids (.tab fileId gid) fileId gid entry
  | (.file fileId, entry) =>
    if fileId ∈ files.map (·.id) then pure currentTabGids
    else do
      archiveEntry env (.file fileId) entry
      pure currentTabGids

def handleArchived (files : List DriveFile) : SyncM Unit := do
  let _ ← env.state.foldlM (handleArchivedKey env files) []

/-! ## Documents -/

/-- The accumulators of `_process_doc_images`. -/
structure DocImages where
  md5ToRelPath : Dict Text Text
  resolutions : Dict Text ImageResolution
  manifest : Dict Text Text

def DocImages.resolve (acc : DocImages) (objId : Text) (kind : ResolutionKind)
    (relPath : Option Text) : DocImages :=
  { acc with resolutions := acc.resolutions.set objId ⟨kind, objId, relPath⟩ }

def imageFailed (acc : DocImages) (objId : Text) (kind : ResolutionKind) : SyncM DocImages := do
  bump fun c => { c with imagesFailed := c.imagesFailed + 1 }
  pure (acc.resolve objId kind none)

/-- `^[0-9a-f]{12}$`. -/
def isMd5Hex12 (t : Text) : Bool :=
  t.length = 12 && t.all fun c => ('0' ≤ c && c ≤ '9') || ('a' ≤ c && c ≤ 'f')

/-- `compute_image_path`, from the folder names as Drive has them; `none` is a `ValueError`. -/
def computeImagePath (components : List Text) (docSlug md5Hex : Text) (ext : ImageExt) :
    Option Path :=
  let path := ((env.loreRoot.joinpath components).join (docSlug ++ ".images".toList)).join
    (md5Hex ++ '.' :: ext.text)
  if isMd5Hex12 md5Hex ∧ underRoot env.loreRoot path then some path else none

/-- `p.relative_to(root).as_posix()`; `none` is a `ValueError`. -/
def relativePosix (root p : Path) : Option Text :=
  if root <+: p then some (Text.join ['/'] (p.drop root.length)) else none

/-- Writes the bytes of an image, or says that an `OSError` was raised. -/
def writeImage (path : Path) (bytes : Bytes) : SyncM Bool :=
  tryCatch
    (do
      onTree (·.mkdirs path.parent)
      onTree (·.write path (.bytes bytes))
      pure true)
    fun
    | .os => pure false
    | e => throw e

def compressAndRegister (components : List Text) (docSlug : Text) (acc : DocImages) (objId : Text)
    (raw : Bytes) (contentType : Text) : SyncM DocImages :=
  match env.deps.compressImage raw contentType with
  | .error .oversized => imageFailed acc objId .oversized
  | .error .undecodable => imageFailed acc objId .failed
  | .error (.raised e) => throw e
  | .ok compressed =>
    let md5 := compressed.md5Hex12
    match acc.md5ToRelPath.get? md5 with
    | some relPath => pure (acc.resolve objId .ok (some relPath))
    | none =>
      match computeImagePath env components docSlug md5 compressed.extFinal with
      | none => imageFailed acc objId .failed
      | some imagePath => do
        if ← writeImage imagePath.resolve compressed.bytesFinal then
          let relPath := docSlug ++ ".images/".toList ++ md5 ++ '.' :: compressed.extFinal.text
          match relativePosix env.loreRoot imagePath with
          | none => throw .value
          | some rel =>
            bump fun c => { c with imagesWritten := c.imagesWritten + 1 }
            pure ({ acc with
              md5ToRelPath := acc.md5ToRelPath.set md5 relPath
              manifest := acc.manifest.set md5 rel }.resolve objId .ok (some relPath))
        else imageFailed acc objId .failed

def fourDigits (n : Nat) : Text := List.replicate (4 - (decimal n).length) '0' ++ decimal n

def resolveOneImage (components : List Text) (docSlug : Text) (acc : DocImages)
    (image : (Text × Text) × Nat) : SyncM DocImages :=
  let objId := image.1.1
  if env.dryRun then
    pure (acc.resolve objId .ok
      (some (docSlug ++ ".images/dryrun-".toList ++ fourDigits image.2 ++ pngExt)))
  else
    match env.drive.image image.1.2 with
    | .error .driveApi => imageFailed acc objId .failed
    | .error .os => imageFailed acc objId .failed
    | .error e => throw e
    | .ok (raw, contentType) => compressAndRegister env components docSlug acc objId raw contentType

def processDocImages (components : List Text) (docSlug : Text) (contentUriMap : Dict Text Text) :
    SyncM DocImages :=
  contentUriMap.zipIdx.foldlM (resolveOneImage env components docSlug) ⟨[], [], []⟩

/-- `set(a.keys()) == set(b.keys())`. -/
def sameKeys (a b : Dict Text Text) : Bool :=
  a.keys.all (· ∈ b.keys) && b.keys.all (· ∈ a.keys)

def joinDrivePath (components : List Text) (name : Text) : Text :=
  Text.join ['/'] (components ++ [name])

/-- The sidecar directory follows the file before the images are written. -/
def followSidecar (localPath : Path) : Option StateEntry → SyncM Unit
  | none => pure ()
  | some entry =>
    if entry.localPath ≠ localPath ∧ ¬ env.dryRun then renameSidecar entry.localPath localPath
    else pure ()

/-- The end of `_process_gdoc`, from the point where the document has to be written. -/
def exportGdoc (file : DriveFile) (localPath : Path) (existing : Option StateEntry) (body : Text)
    (images : Dict Text Text) : SyncM Unit := do
  let key := SourceId.file file.id
  let entry := exportedEntry env key localPath body images
  gdocStatusAndRename env localPath existing
  if env.dryRun then
    record key (existing.getD entry)
    if (← get).tree.exists? (sidecarDir localPath) then
      let existingManifest : Dict Text Text := (existing.map StateEntry.images).getD []
      let gone := existingManifest.keys.filter (· ∉ images.keys)
      bump fun c => { c with orphansRemoved := c.orphansRemoved + gone.length }
    else pure ()
  else
    let orphans ← cleanupOrphans env.loreRoot (sidecarDir localPath) images.keys
    bump fun c => { c with orphansRemoved := c.orphansRemoved + orphans }
    let existingFm ← readExistingFrontmatter env localPath
    checkLocalDriftBeforeWrite env key localPath existing entry.bodyHash
    writeGdoc env localPath file.name key (joinDrivePath file.components file.name)
      entry.lastExportedAt body existingFm
    record key entry

def processGdoc (file : DriveFile) (localPath : Path) (existing : Option StateEntry) :
    SyncM Unit := do
  let key := SourceId.file file.id
  let doc ← lift (env.drive.document file.id)
  followSidecar env localPath existing
  let images ← processDocImages env file.components localPath.stem
    (env.deps.extractInlineObjects doc)
  let body := normalizeBody env.deps.unicode
    (env.deps.renderDocMarkdown doc images.resolutions file.id)
  if utf8Length body > oneMib then bump fun c => { c with errors := c.errors + 1 }
  else
    match existing.filter fun e => e.contentSignature = contentSignature env body ∧
        sameKeys e.images images.manifest ∧ e.localPath = localPath with
    | some entry =>
      record key entry
      bump fun c => { c with unchanged := c.unchanged + 1 }
    | none => exportGdoc env file localPath existing body images.manifest

/-! ## Slide decks and tabs -/

def keyStatusAndRename : SourceId → Path → Option StateEntry → SyncM Unit
  | .file _ => gdocStatusAndRename env
  | .tab _ _ => tabStatusAndRename env

theorem keyStatusAndRename_eq (key : SourceId) : keyStatusAndRename env key = statusAndRename env := by
  cases key <;> rfl

/-- `_apply_gslide_state`, and `_apply_tab_state` after its count. -/
def applyState (key : SourceId) (localPath : Path) (title drivePath body : Text)
    (existing : Option StateEntry) : SyncM Unit := do
  let entry := exportedEntry env key localPath body []
  match existing.filter fun e => e.contentSignature = entry.contentSignature ∧
      e.localPath = localPath with
  | some unchanged =>
    record key unchanged
    bump fun c => { c with unchanged := c.unchanged + 1 }
  | none =>
    keyStatusAndRename env key localPath existing
    if env.dryRun then record key (existing.getD entry)
    else
      let existingFm ← readExistingFrontmatter env localPath
      writeGdoc env localPath title key drivePath entry.lastExportedAt body existingFm
      record key entry

def applyGslideState (file : DriveFile) (localPath : Path) (existing : Option StateEntry)
    (body : Text) : SyncM Unit :=
  applyState env (.file file.id) localPath file.name (joinDrivePath file.components file.name) body
    existing

def processGslide (file : DriveFile) (localPath : Path) (existing : Option StateEntry) :
    SyncM Unit := do
  let presentation ← lift (env.drive.presentation file.id)
  let body := normalizeBody env.deps.unicode
    (env.deps.renderPresentationMarkdown file.name presentation file.id)
  if utf8Length body > oneMib then bump fun c => { c with errors := c.errors + 1 }
  else applyGslideState env file localPath existing body

/-- `tab_title.replace("/", "\\/")`. -/
def escapeSlashes (t : Text) : Text := t.flatMap fun c => if c = '/' then ['\\', '/'] else [c]

def applyTabState (file : DriveFile) (tab : Tab) (localPath : Path) (body : Text)
    (existing : Option StateEntry) : SyncM Unit := do
  bump fun c => { c with total := c.total + 1 }
  applyState env (.tab file.id tab.sheetId) localPath (buildTabTitle file.name tab.title)
    (joinDrivePath file.components file.name ++ '/' :: escapeSlashes tab.title) body existing

def countError : SyncM Unit :=
  bump fun c => { c with total := c.total + 1, errors := c.errors + 1 }

def tabPath (file : DriveFile) (tabSlug : Text) : Path :=
  tabLocalPath env.deps.unicode file.components file.name tabSlug file.id env.loreRoot

/-- The turn of `_process_gsheet` for one tab, once its path is taken. -/
def exportTab (file : DriveFile) (tab : Tab) (localPath : Path) : SyncM Unit :=
  match env.drive.sheetValues file.id tab.title with
  | .error .driveApi => countError
  | .error .os => countError
  | .error e => throw e
  | .ok values =>
    let body := normalizeBody env.deps.unicode
      (env.deps.renderTabMarkdown file.name tab.title values file.id tab.sheetId)
    if utf8Length body > oneMib then countError
    else applyTabState env file tab localPath body (env.state.get? (.tab file.id tab.sheetId))

def processTab (file : DriveFile) (slugged : Tab × Text) : SyncM Unit := do
  let localPath := tabPath env file slugged.2
  takePath localPath
  exportTab env file slugged.1 localPath

def processGsheet (file : DriveFile) : SyncM Unit :=
  match env.drive.tabs file.id with
  | .error .driveApi => countError
  | .error .os => countError
  | .error e => throw e
  | .ok tabs => (resolveTabCollisions env.deps.unicode tabs).forM (processTab env file)

/-! ## Images of the listing -/

/-- The end of `_process_png`, once the bytes are known and their signature is new. -/
def exportPng (key : SourceId) (localPath : Path) (existing : Option StateEntry) (bytes : Bytes)
    (signature : Text) : SyncM Unit := do
  let entry : StateEntry := ⟨localPath, signature, env.drive.clock key, [], none, []⟩
  statusAndRename env localPath existing
  if env.dryRun then record key (existing.getD entry)
  else
    onTree (·.mkdirs localPath.parent)
    onTree (·.write localPath (.bytes bytes))
    record key entry

/-- An unchanged signature is enough here, whatever the path. -/
def processPng (file : DriveFile) (localPath : Path) (existing : Option StateEntry) :
    SyncM Unit := do
  let key := SourceId.file file.id
  let known := fun signature : Text => existing.filter fun e => e.contentSignature = signature
  match (file.md5.bind fun md5 => known ("md5:".toList ++ md5)) with
  | some entry =>
    record key entry
    bump fun c => { c with unchanged := c.unchanged + 1 }
  | none =>
    let bytes ← lift (env.drive.pngBytes file.id)
    if bytes.length > oneMib then bump fun c => { c with errors := c.errors + 1 }
    else
      let signature := "md5:".toList ++ file.md5.getD (env.deps.md5 bytes)
      match (if file.md5 = none then known signature else none) with
      | some entry =>
        record key entry
        bump fun c => { c with unchanged := c.unchanged + 1 }
      | none => exportPng env key localPath existing bytes signature

/-! ## The run -/

/-- The exceptions `_process_file` turns into a counted error. -/
def Exn.isCaught : Exn → Bool
  | .driveApi | .os | .value => true
  | .other => false

def processKind (file : DriveFile) (localPath : Path) (existing : Option StateEntry) :
    SyncM Unit :=
  match file.mime with
  | .doc => processGdoc env file localPath existing
  | .slides => processGslide env file localPath existing
  | _ => processPng env file localPath existing

def processFile (file : DriveFile) (localPath : Path) (existing : Option StateEntry) :
    SyncM Unit :=
  tryCatch
    (do
      bump fun c => { c with total := c.total + 1 }
      processKind env file localPath existing)
    fun e =>
      if e.isCaught then bump fun c => { c with errors := c.errors + 1 } else throw e

def Mime.ext (mime : Mime) : Text := if mime = .png then pngExt else mdExt

/-- The path of a file that is not a workbook; `none` is a `ValueError` that ends the run. -/
def allocate (file : DriveFile) (takenPaths : List Path) : Option Path :=
  let u := env.deps.unicode
  resolveLocalPath u file.components (slugify u file.name file.id.text)
    file.mime.ext takenPaths file.id env.loreRoot

/-- One turn of the loop of `run_sync`. -/
def processListed (file : DriveFile) : SyncM Unit := do
  if file.mime = .sheet then processGsheet env file
  else
    match allocate env file (← get).takenPaths with
    | none => throw .value
    | some localPath =>
      takePath localPath
      processFile env file localPath (env.state.get? (.file file.id))

def syncFiles (files : List DriveFile) : SyncM Unit := do
  handleArchived env files
  files.forM (processListed env)

end

def Ctx.start (tree : FileTree Content) : Ctx := ⟨tree, [], .zero, [], []⟩

structure World where
  tree : FileTree Content
  state : Dict SourceId StateEntry
  deriving DecidableEq

/-- `sorted(files, key=lambda f: f["id"])`. -/
def sortFiles (files : List DriveFile) : List DriveFile :=
  files.insertionSort fun a b => a.id.text ≤ b.id.text

/-- `save_state` writes the entries in the order of their keys. -/
def saveState (state : Dict SourceId StateEntry) : Dict SourceId StateEntry :=
  state.insertionSort fun a b => a.1.text ≤ b.1.text

/-- `run_sync`: the world it leaves, and its counts or the exception that ended it. -/
def runSync {ν δ π : Type} (deps : Deps ν δ π) (loreRoot : Path) (dryRun : Bool)
    (drive : Drive δ π) (world : World) : World × Except Exn SummaryCounts :=
  match drive.listing with
  | .error e => (world, .error e)
  | .ok files =>
    let env : Env ν δ π := ⟨deps, drive, world.state, dryRun, loreRoot⟩
    match (syncFiles env (sortFiles files)).exec (Ctx.start world.tree) with
    | (.ok (), c) =>
      (⟨c.tree, if dryRun then world.state else saveState c.newState⟩, .ok c.counts)
    | (.error e, c) => (⟨c.tree, world.state⟩, .error e)

/-! ## An instance of the parameters

Documents and decks are their own Markdown, a text is its own hash, and no bytes decode. -/

def plainUnicode : Unicode := ⟨id, id, fun _ => false, id⟩

def plainDeps : Deps Text Text Text where
  codec := tokenCodec
  unicode := plainUnicode
  sha256 := id
  md5 _ := []
  decodeUtf8 _ := none
  extractInlineObjects _ := []
  renderDocMarkdown doc _ _ := doc
  renderPresentationMarkdown _ deck _ := deck
  renderTabMarkdown _ _ rows _ _ := rows.flatten.flatten
  compressImage _ _ := .error .undecodable

def plainDrive (files : List DriveFile) (tabs : Except Exn (List Tab))
    (document : FileId → Except Exn Text) : Drive Text Text where
  listing := .ok files
  archiveTabs _ := tabs
  tabs _ := tabs
  sheetValues _ _ := .ok []
  document := document
  presentation _ := .error .driveApi
  image _ := .error .driveApi
  pngBytes _ := .error .driveApi
  archiveClock _ := []
  clock _ := []

end Archiviste.Sync
