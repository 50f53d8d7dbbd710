import Archiviste.Base.Run
import Archiviste.Sync.DryRun

/-!
# Archiviste.Sync.LocalDrift

Local edits that a run overwrites. `_check_local_drift_before_write` reports one with
`gdrive_sync.local_drift_overwritten`, but it is called for documents only, and it says nothing when
the incoming body is the recorded one: a document that is moved in Drive, or whose images change, is
written again over the edit.

The writes of a run are read off the handlers: `Write` is the point where `_write_gdoc` is called.

* `runWrites`, `journalStep` — the writes of a run, and of a history of runs and edits.
* `turn_written`             — the writes of a turn are those its handlers make.
* `runWrites_emits`          — when the event precedes a write.
* `edits_reported_iff`       — no edit is discarded silently exactly when every write that discards
  one is the write of a document whose recorded hash is neither that of the edited body nor that of
  the incoming one.
-/

namespace Archiviste.Sync

open Prog

/-! ## The writes of a run -/

structure Write where
  key : SourceId
  isDoc : Bool
  existing : Option StateEntry
  localPath : Path
  body : Text
  start : Ctx
  before : Ctx

section
variable {ν δ π : Type} (env : Env ν δ π)

/-- What `_process_gdoc` does between moving the file and writing it. -/
def guardDoc (file : DriveFile) (p : Path) (existing : Option StateEntry)
    (r : Text × Dict Text Text) : SyncM (Option Text) := do
  let orphans ← cleanupOrphans env.loreRoot (sidecarDir p) r.2.keys
  bump fun c => { c with orphansRemoved := c.orphansRemoved + orphans }
  let existingFm ← readExistingFrontmatter env p
  checkLocalDriftBeforeWrite env (.file file.id) p existing (env.deps.sha256 r.1)
  pure existingFm

/-- The write of a handler that settles `x` with `guard` before `commit`, if it comes to it. -/
def settleWrite (key : SourceId) (isDoc : Bool) (existing : Option StateEntry) (x : Export)
    (body : Text) (guard : SyncM (Option Text)) (commit : Option Text → SyncM Unit)
    (start c : Ctx) : Option Write :=
  if (x.kept existing).isSome then none
  else
    match exec (statusAndRename env x.entry.localPath existing >>= fun _ => guard) c with
    | (.error _, _) => none
    | (.ok fm, before) =>
      match exec (commit fm) before with
      | (.error _, _) => none
      | (.ok (), _) => some ⟨key, isDoc, existing, x.entry.localPath, body, start, before⟩

def docWrite (file : DriveFile) (p : Path) (existing : Option StateEntry) (c : Ctx) :
    Option Write :=
  match exec (renderGdoc env file p existing) c with
  | (.error _, _) => none
  | (.ok r, c₁) =>
    if utf8Length r.1 > oneMib then none
    else
      let key := SourceId.file file.id
      settleWrite env key true existing (docExport env key p r) r.1 (guardDoc env file p existing r)
        (fun fm => writeGdoc env p file.name key (joinDrivePath file.components file.name)
          (env.drive.clock key) r.1 fm) c c₁

def stateWrite (key : SourceId) (p : Path) (title drivePath body : Text)
    (existing : Option StateEntry) (start c : Ctx) : Option Write :=
  settleWrite env key false existing (textExport env key p body) body
    (readExistingFrontmatter env p)
    (fun fm => writeGdoc env p title key drivePath (env.drive.clock key) body fm) start c

def slidesWrite (file : DriveFile) (p : Path) (existing : Option StateEntry) (c : Ctx) :
    Option Write :=
  match env.drive.presentation file.id with
  | .error _ => none
  | .ok presentation =>
    let body := normalizeBody env.deps.unicode
      (env.deps.renderPresentationMarkdown file.name presentation file.id)
    if utf8Length body > oneMib then none
    else stateWrite env (.file file.id) p file.name (joinDrivePath file.components file.name) body
      existing c c

def tabWrite (file : DriveFile) (tab : Tab) (p : Path) (c : Ctx) : Option Write :=
  match env.drive.sheetValues file.id tab.title with
  | .error _ => none
  | .ok values =>
    let body := normalizeBody env.deps.unicode
      (env.deps.renderTabMarkdown file.name tab.title values file.id tab.sheetId)
    if utf8Length body > oneMib then none
    else stateWrite env (.tab file.id tab.sheetId) p (buildTabTitle file.name tab.title)
      (joinDrivePath file.components file.name ++ '/' :: escapeSlashes tab.title) body
      (env.state.get? (.tab file.id tab.sheetId)) c
      { c with counts := { c.counts with total := c.counts.total + 1 } }

def kindWrite (file : DriveFile) (p : Path) (existing : Option StateEntry) (c : Ctx) :
    Option Write :=
  match file.mime with
  | .doc => docWrite env file p existing c
  | .slides => slidesWrite env file p existing c
  | _ => none

def turnWrites (file : DriveFile) (c : Ctx) : List Write :=
  if file.mime = .sheet then
    match env.drive.tabs file.id with
    | .error _ => []
    | .ok tabs =>
      gather (processTab env file)
        (fun s c => (tabWrite env file s.1 (tabPath env file s.2)
          (c.take (tabPath env file s.2))).toList)
        (resolveTabCollisions env.deps.unicode tabs) c
  else
    match allocate env file c.takenPaths with
    | none => []
    | some p => (kindWrite env file p (env.state.get? (.file file.id)) (c.turn p)).toList

end

def runWrites {ν δ π : Type} (deps : Deps ν δ π) (root : Path) (drive : Drive δ π)
    (world : World) : List Write :=
  match drive.listing with
  | .error _ => []
  | .ok files =>
    let env : Env ν δ π := ⟨deps, drive, world.state, false, root⟩
    match exec (handleArchived env (sortFiles files)) (Ctx.start world.tree) with
    | (.error _, _) => []
    | (.ok (), c) => gather (processListed env) (turnWrites env) (sortFiles files) c

/-! ## Edits and histories -/

namespace Write

def Emits (w : Write) : Prop := w.before.driftsLogged = w.start.driftsLogged ++ [w.key]

instance (w : Write) : Decidable w.Emits := inferInstanceAs (Decidable (_ = _))

def current {ν δ π : Type} (deps : Deps ν δ π) (w : Write) : Option Text :=
  ((w.before.tree.file? w.localPath).bind (Content.decode deps)).map bodyPart

end Write

def lastExported (writes : List Write) (key : SourceId) : Option Text :=
  (writes.filter (·.key = key)).getLast?.map (·.body)

inductive LocalEvent (δ π : Type) where
  | sync (drive : Drive δ π)
  | edit (tree : FileTree Content)

structure Journal where
  world : World
  writes : List Write

section
variable {ν δ π : Type}

def journalStep (deps : Deps ν δ π) (root : Path) (j : Journal) : LocalEvent δ π → Journal
  | .sync drive =>
    ⟨(runSync deps root false drive j.world).1, j.writes ++ runWrites deps root drive j.world⟩
  | .edit tree => { j with world := { j.world with tree := tree } }

def historyWrites (deps : Deps ν δ π) (root : Path) (tree : FileTree Content)
    (events : List (LocalEvent δ π)) : List Write :=
  (Run.exec (journalStep deps root) ⟨⟨tree, []⟩, []⟩ events).writes

/-- Among these writes, `w` overwrites the file tracked by `entry`, whose body `current` is neither
the one last exported nor the one written. -/
def Discards (deps : Deps ν δ π) (writes : List Write) (w : Write) (entry : StateEntry)
    (current : Text) : Prop :=
  ∃ earlier later, writes = earlier ++ w :: later ∧ w.existing = some entry ∧
    w.current deps = some current ∧ lastExported earlier w.key ≠ some current ∧ current ≠ w.body

/-- The write is preceded by the check, and the check reports. -/
def Reported (deps : Deps ν δ π) (w : Write) (entry : StateEntry) (current : Text) : Prop :=
  w.isDoc = true ∧ entry.bodyHash ≠ [] ∧ deps.sha256 current ≠ entry.bodyHash ∧
    deps.sha256 w.body ≠ entry.bodyHash

/-! ## What is logged -/

def Unlogged (c c' : Ctx) : Prop := c'.driftsLogged = c.driftsLogged

instance : Std.Refl Unlogged := ⟨fun _ => rfl⟩

instance : IsTrans Ctx Unlogged := ⟨fun _ _ _ h h' => h'.trans h⟩

variable {env : Env ν δ π}

theorem onTree_unlogged (f : FileTree Content → Except FsError (FileTree Content)) :
    Within Unlogged (onTree f) := by
  intro c
  rw [exec_onTree]
  split <;> rfl

theorem bump_unlogged (f : SummaryCounts → SummaryCounts) : Within Unlogged (bump f) :=
  Within.modify fun _ => rfl

theorem renderGdoc_unlogged (file : DriveFile) (p : Path) (existing : Option StateEntry) :
    Within Unlogged (renderGdoc env file p existing) := by
  refine Within.bind (lift_within _) fun doc => Within.bind ?_ fun _ => Within.bind ?_ fun images =>
    Within.pure
  · exact followSidecar_within fun _ _ =>
      renameSidecar_within (onTree_unlogged _) (onTree_unlogged _)
  · exact processDocImages_within (bump_unlogged _) (bump_unlogged _)
      (fun _ _ _ bytes _ =>
        writeImage_within (onTree_unlogged _) (fun _ => onTree_unlogged _) bytes) _

theorem statusAndRename_unlogged (p : Path) (existing : Option StateEntry) :
    Within Unlogged (statusAndRename env p existing) :=
  statusAndRename_within bump_unlogged fun _ _ =>
    renameLocalFile_within (onTree_unlogged _) (onTree_unlogged _)

variable {key : SourceId} {p root : Path} {entry : StateEntry} {c : Ctx} {content : Content}
  {text body current : Text} {file : DriveFile} {existing : Option StateEntry} {x : Export}
  {w : Write} {deps : Deps ν δ π}

theorem exec_checkLocalDriftBeforeWrite {hash : Text} (hfile : c.tree.file? p = some content)
    (hdecode : content.decode env.deps = some text) :
    exec (checkLocalDriftBeforeWrite env key p (some entry) hash) c =
      (.ok (), if entry.bodyHash ≠ [] ∧ env.deps.sha256 (bodyPart text) ≠ entry.bodyHash ∧
          hash ≠ entry.bodyHash then
        { c with driftsLogged := c.driftsLogged ++ [key] } else c) := by
  have hexists : c.tree.exists? p = true := by simp [FileTree.exists?, hfile]
  have hread : exec (readText env p) c = (.ok text, c) := by
    rw [exec_readText, FileTree.read, hfile]
    simp [hdecode]
  rw [checkLocalDriftBeforeWrite, exec_bind, exec_get]
  dsimp only
  by_cases hhash : entry.bodyHash = []
  · simp [hhash]
  · rw [if_neg (by simp [hexists, hhash]), exec_bind, hread]
    dsimp only
    by_cases hdrift : env.deps.sha256 (bodyPart text) ≠ entry.bodyHash ∧ hash ≠ entry.bodyHash
    · rw [if_pos hdrift, if_pos ⟨hhash, hdrift⟩]
      rfl
    · rw [if_neg hdrift, if_neg fun h => hdrift h.2, exec_pure]

theorem readExistingFrontmatter_pure {c' : Ctx} {r : Except Exn (Option Text)}
    (h : exec (readExistingFrontmatter env p) c = (r, c')) : c' = c :=
  ((readExistingFrontmatter_within (R := fun c c' : Ctx => c' = c) env p).of_exec h)

theorem guardDoc_logged {r : Text × Dict Text Text} {fm : Option Text} {c' : Ctx}
    (h : exec (guardDoc env file p (some entry) r) c = (.ok fm, c'))
    (hfile : c'.tree.file? p = some content) (hdecode : content.decode env.deps = some text) :
    c'.driftsLogged = c.driftsLogged ++
      if entry.bodyHash ≠ [] ∧ env.deps.sha256 (bodyPart text) ≠ entry.bodyHash ∧
        env.deps.sha256 r.1 ≠ entry.bodyHash then [.file file.id] else [] := by
  obtain ⟨orphans, c₁, hcleanup, h⟩ := exec_bind_ok.mp h
  obtain ⟨⟨⟩, c₂, hbump, h⟩ := exec_bind_ok.mp h
  obtain ⟨yaml, c₃, hread, h⟩ := exec_bind_ok.mp h
  obtain ⟨⟨⟩, c₄, hcheck, h⟩ := exec_bind_ok.mp h
  obtain rfl : c₄ = c' := by
    rw [exec_pure] at h
    exact (Prod.mk.inj h).2
  have hlogged : c₃.driftsLogged = c.driftsLogged := by
    have hclean : Unlogged c c₁ := Within.of_exec
      (cleanupOrphans_within (fun _ _ _ => onTree_unlogged _) (onTree_unlogged _)) hcleanup
    have hbumped : Unlogged c₁ c₂ := (bump_unlogged _).of_exec hbump
    rw [readExistingFrontmatter_pure hread]
    exact hbumped.trans hclean
  have htree : c₄.tree = c₃.tree :=
    (checkLocalDriftBeforeWrite_within (R := SameTree) (Within.modify fun _ => rfl) env p _
      _).of_exec hcheck
  rw [htree] at hfile
  rw [exec_checkLocalDriftBeforeWrite hfile hdecode] at hcheck
  rw [← (Prod.mk.inj hcheck).2, ← hlogged]
  split
  · rfl
  · exact (List.append_nil _).symm

/-! ## The writes that emit the event -/

theorem settleWrite_eq_some {isDoc : Bool} {guard : SyncM (Option Text)}
    {commit : Option Text → SyncM Unit} {start : Ctx}
    (h : settleWrite env key isDoc existing x body guard commit start c = some w) :
    ∃ fm before c', x.kept existing = none ∧
      exec (statusAndRename env x.entry.localPath existing >>= fun _ => guard) c =
        (.ok fm, before) ∧
      exec (commit fm) before = (.ok (), c') ∧
      w = ⟨key, isDoc, existing, x.entry.localPath, body, start, before⟩ := by
  unfold settleWrite at h
  split at h
  · cases h
  · next hkept =>
    split at h
    · cases h
    · next fm before hguard =>
      split at h
      · cases h
      · next c' hcommit =>
        exact ⟨fm, before, c', by simpa using hkept, hguard, hcommit, (Option.some.inj h).symm⟩

/-- What a handler that runs as `prog` has to do with its write. If it comes to one, it has made it,
in the context `before`, and records an entry with the hash of its body. Otherwise, if it ends, it
records nothing but the entry there was. -/
def Written (env : Env ν δ π) (prog : SyncM Unit) (key : SourceId) (existing : Option StateEntry)
    (c : Ctx) : Option Write → Prop
  | some w => ∃ title drivePath fm c' entry, exec (writeGdoc env w.localPath title key drivePath
        (env.drive.clock key) w.body fm) w.before = (.ok (), c') ∧
      entry.bodyHash = env.deps.sha256 w.body ∧
      exec prog c = (.ok (), { c' with newState := c'.newState.set key entry })
  | none => ∀ c', exec prog c = (.ok (), c') → c'.newState = c.newState ∨
      ∃ e, existing = some e ∧ c'.newState = c.newState.set key e

theorem Written.congr {prog q : SyncM Unit} {d : Ctx} {w? : Option Write}
    (h : Written env q key existing d w?) (hexec : exec prog c = exec q d)
    (hstate : d.newState = c.newState) : Written env prog key existing c w? := by
  cases w? with
  | some w => simpa only [Written, hexec] using h
  | none => simpa only [Written, hexec, hstate] using h

theorem settle_written (hdry : env.dryRun = false) (isDoc : Bool) (existing : Option StateEntry)
    (hbody : x.entry.bodyHash = env.deps.sha256 body) (guard : SyncM (Option Text))
    (title drivePath : Text) (start c : Ctx) (dryEnd : SyncM Unit) :
    let commit := fun fm => writeGdoc env x.entry.localPath title key drivePath
      (env.drive.clock key) body fm
    Written env (settle env key existing x (guard >>= commit) dryEnd) key existing c
      (settleWrite env key isDoc existing x body guard commit start c) := by
  intro commit
  cases h : settleWrite env key isDoc existing x body guard commit start c with
  | some w =>
    obtain ⟨fm, before, c', hkept, hguard, hcommit, rfl⟩ := settleWrite_eq_some h
    obtain ⟨⟨⟩, c₁, hstatus, hguard⟩ := exec_bind_ok.mp hguard
    refine ⟨title, drivePath, fm, c', x.entry, hcommit, hbody, ?_⟩
    simp only [settle, hkept, hdry, Bool.false_eq_true, if_false]
    rw [exec_bind, hstatus]
    dsimp only
    rw [exec_bind, exec_bind_ok.mpr ⟨fm, before, hguard, hcommit⟩]
    rfl
  | none =>
    intro c' hok
    cases hkept : x.kept existing with
    | some e =>
      rw [settle, hkept] at hok
      exact .inr ⟨e, (Option.filter_eq_some_iff.mp hkept).1, by rw [← (Prod.mk.inj hok).2]⟩
    | none =>
      simp only [settle, hkept, hdry, Bool.false_eq_true, if_false] at hok
      obtain ⟨⟨⟩, c₁, hstatus, hok⟩ := exec_bind_ok.mp hok
      obtain ⟨⟨⟩, c₂, hwrite, -⟩ := exec_bind_ok.mp hok
      obtain ⟨fm, before, hguard, hcommit⟩ := exec_bind_ok.mp hwrite
      have hcomes : exec (statusAndRename env x.entry.localPath existing >>= fun _ => guard) c =
          (.ok fm, before) := exec_bind_ok.mpr ⟨(), c₁, hstatus, hguard⟩
      simp [settleWrite, hkept, hcomes, hcommit] at h

theorem gdoc_written (hdry : env.dryRun = false) (file : DriveFile) (p : Path)
    (existing : Option StateEntry) (c : Ctx) :
    Written env (processGdoc env file p existing) (.file file.id) existing c
      (docWrite env file p existing c) := by
  rw [processGdoc_eq, docWrite]
  rcases hrender : exec (renderGdoc env file p existing) c with ⟨e | r, c₁⟩
  · intro c' hok
    rw [exec_bind, hrender] at hok
    cases hok
  · have hstate : c₁.newState = c.newState :=
      ((renderGdoc_silent env file p existing).of_exec hrender).unrecorded.1
    have hexec : exec (renderGdoc env file p existing >>= finishGdoc env file p existing) c =
        exec (finishGdoc env file p existing r) c₁ := by rw [exec_bind, hrender]
    rw [finishGdoc_eq] at hexec
    dsimp only
    split_ifs at hexec ⊢ with hsize
    · intro c' hok
      rw [hexec] at hok
      exact .inl (by rw [← hstate, ← (Prod.mk.inj hok).2])
    · have hdoc : writeDoc env file p existing r = guardDoc env file p existing r >>= fun fm =>
          writeGdoc env p file.name (.file file.id) (joinDrivePath file.components file.name)
            (env.drive.clock (.file file.id)) r.1 fm := by
        simp only [writeDoc, guardDoc, bind_assoc, pure_bind]
      rw [hdoc] at hexec
      exact (settle_written hdry true existing rfl _ _ _ c c₁ _).congr hexec hstate

theorem gslide_written (hdry : env.dryRun = false) (file : DriveFile) (p : Path)
    (existing : Option StateEntry) (c : Ctx) :
    Written env (processGslide env file p existing) (.file file.id) existing c
      (slidesWrite env file p existing c) := by
  rw [processGslide, slidesWrite]
  cases hdeck : env.drive.presentation file.id with
  | error e =>
    rintro c' ⟨⟩
  | ok deck =>
    simp only [lift, pure_bind]
    split_ifs with hsize
    · intro c' hok
      exact .inl (by rw [← (Prod.mk.inj hok).2])
    · rw [applyGslideState, applyState_eq]
      exact settle_written hdry false existing rfl _ _ _ c c _

theorem tab_written (hdry : env.dryRun = false) (file : DriveFile) (s : Tab × Text) (c : Ctx) :
    Written env (processTab env file s) (.tab file.id s.1.sheetId)
      (env.state.get? (.tab file.id s.1.sheetId)) c
      (tabWrite env file s.1 (tabPath env file s.2) (c.take (tabPath env file s.2))) := by
  refine Written.congr (q := exportTab env file s.1 (tabPath env file s.2))
    (d := c.take (tabPath env file s.2)) ?_ rfl rfl
  rw [exportTab, tabWrite]
  rcases hvalues : env.drive.sheetValues file.id s.1.title with e | values
  · intro c' hok
    cases e <;> cases hok <;> exact .inl rfl
  · dsimp only
    split_ifs with hsize
    · rintro c' ⟨⟩
      exact .inl rfl
    · refine Written.congr ?_ rfl rfl
      rw [applyTabState, applyState_eq]
      exact settle_written hdry false _ rfl _ _ _ _ _ _

/-- The writes of a turn are those its handlers make. -/
theorem turn_written (hdry : env.dryRun = false) (file : DriveFile) (c : Ctx) :
    (file.mime = .sheet → ∀ s c, Written env (processTab env file s) (.tab file.id s.1.sheetId)
      (env.state.get? (.tab file.id s.1.sheetId)) c
      (tabWrite env file s.1 (tabPath env file s.2) (c.take (tabPath env file s.2)))) ∧
    (file.mime = .doc ∨ file.mime = .slides → ∀ p existing,
      Written env (processKind env file p existing) (.file file.id) existing c
        (kindWrite env file p existing c)) := by
  refine ⟨fun _ s c => tab_written hdry file s c, ?_⟩
  rintro (hmime | hmime) p existing
  · simpa only [processKind, kindWrite, hmime] using gdoc_written hdry file p existing c
  · simpa only [processKind, kindWrite, hmime] using gslide_written hdry file p existing c

theorem docWrite_emits (h : docWrite env file p existing c = some w)
    (hentry : w.existing = some entry) (hcurrent : w.current env.deps = some current) :
    w.Emits ↔ Reported env.deps w entry current := by
  unfold docWrite at h
  split at h
  · cases h
  · next r c₁ hrender =>
    split at h
    · cases h
    · obtain ⟨fm, before, c', -, hguard, -, rfl⟩ := settleWrite_eq_some h
      obtain ⟨⟨⟩, c₂, hstatus, hguard⟩ := exec_bind_ok.mp hguard
      obtain rfl : existing = some entry := hentry
      have hstart : c₂.driftsLogged = c.driftsLogged :=
        ((statusAndRename_unlogged _ _).of_exec hstatus).trans
          ((renderGdoc_unlogged file p _).of_exec hrender)
      obtain ⟨text, htext, rfl⟩ := Option.map_eq_some_iff.mp hcurrent
      obtain ⟨content, hfile, hdecode⟩ := Option.bind_eq_some_iff.mp htext
      have hlogged := guardDoc_logged hguard hfile hdecode
      simp only [Write.Emits, Reported, hlogged, hstart, List.append_cancel_left_eq]
      split
      · next hdrift => simp [hdrift]
      · next hdrift => simp [hdrift]

theorem stateWrite_emits {title drivePath : Text} {start : Ctx}
    (h : stateWrite env key p title drivePath body existing start c = some w)
    (hstart : c.driftsLogged = start.driftsLogged) : ¬ w.Emits ∧ w.isDoc = false := by
  obtain ⟨fm, before, c', -, hguard, -, rfl⟩ := settleWrite_eq_some h
  obtain ⟨⟨⟩, c₁, hstatus, hguard⟩ := exec_bind_ok.mp hguard
  obtain rfl := readExistingFrontmatter_pure hguard
  have hlogged : before.driftsLogged = start.driftsLogged :=
    ((statusAndRename_unlogged _ _).of_exec hstatus).trans hstart
  simp [Write.Emits, hlogged]

/-- The event precedes a write of the turn exactly when the write is one that is reported. -/
theorem turnWrites_emits (h : w ∈ turnWrites env file c) (hentry : w.existing = some entry)
    (hcurrent : w.current env.deps = some current) :
    w.Emits ↔ Reported env.deps w entry current := by
  have hunchecked : ¬ w.Emits ∧ w.isDoc = false → (w.Emits ↔ Reported env.deps w entry current) :=
    fun ⟨hsilent, hkind⟩ => iff_of_false hsilent fun hrep => absurd hrep.1 (by simp [hkind])
  unfold turnWrites at h
  split at h
  · split at h
    · cases h
    · obtain ⟨slugged, -, c₁, hw⟩ := mem_gather h
      rw [Option.mem_toList] at hw
      unfold tabWrite at hw
      split at hw
      · cases hw
      · dsimp only at hw
        split at hw
        · cases hw
        · exact hunchecked (stateWrite_emits hw rfl)
  · split at h
    · cases h
    · next p hp =>
      rw [Option.mem_toList] at h
      unfold kindWrite at h
      split at h
      · exact docWrite_emits h hentry hcurrent
      · unfold slidesWrite at h
        split at h
        · cases h
        · dsimp only at h
          split at h
          · cases h
          · exact hunchecked (stateWrite_emits h rfl)
      · cases h

theorem runWrites_emits {drive : Drive δ π} {world : World}
    (h : w ∈ runWrites deps root drive world) (hentry : w.existing = some entry)
    (hcurrent : w.current deps = some current) : w.Emits ↔ Reported deps w entry current := by
  unfold runWrites at h
  split at h
  · cases h
  · dsimp only at h
    split at h
    · cases h
    · obtain ⟨file, -, c, hw⟩ := mem_gather h
      exact turnWrites_emits hw hentry hcurrent

theorem mem_historyWrites {tree : FileTree Content} {events : List (LocalEvent δ π)}
    (h : w ∈ historyWrites deps root tree events) :
    ∃ drive world, w ∈ runWrites deps root drive world := by
  have hstep : ∀ (j : Journal) (event : LocalEvent δ π),
      (∀ w ∈ j.writes, ∃ drive world, w ∈ runWrites deps root drive world) →
      ∀ w ∈ (journalStep deps root j event).writes,
        ∃ drive world, w ∈ runWrites deps root drive world := by
    intro j event hj w hw
    cases event with
    | sync drive =>
      rcases List.mem_append.mp hw with hw | hw
      · exact hj w hw
      · exact ⟨drive, j.world, hw⟩
    | edit tree => exact hj w hw
  exact Run.exec_inv hstep events _ (fun _ h => absurd h List.not_mem_nil) w h

/-- No local edit is discarded silently, in any history of runs and edits, exactly when each write
that discards one is that of a document, and the recorded hash is neither that of the edited body
nor that of the incoming body. -/
theorem edits_reported_iff (deps : Deps ν δ π) (root : Path) (tree : FileTree Content)
    (events : List (LocalEvent δ π)) :
    (∀ w entry current, Discards deps (historyWrites deps root tree events) w entry current →
        w.Emits) ↔
      ∀ w entry current, Discards deps (historyWrites deps root tree events) w entry current →
        Reported deps w entry current := by
  refine forall₃_congr fun w entry current => imp_congr_right fun h => ?_
  obtain ⟨earlier, later, hwrites, hentry, hcurrent, -, -⟩ := h
  have hmem : w ∈ historyWrites deps root tree events := by simp [hwrites]
  obtain ⟨drive, world, hw⟩ := mem_historyWrites hmem
  exact runWrites_emits hw hentry hcurrent

end

/-! ## Edits that are lost -/

def Write.outline (w : Write) : SourceId × Bool × Option Text × Text × Bool :=
  (w.key, w.existing.isSome, w.current plainDeps, w.body, w.Emits)

theorem discards_of_outline {writes : List Write} (key : SourceId) (first edited second : Text)
    (h : writes.map Write.outline =
      [(key, false, none, first, false), (key, true, some edited, second, false)])
    (hfirst : first ≠ edited) (hsecond : edited ≠ second) :
    ∃ w entry current, Discards plainDeps writes w entry current ∧ ¬ w.Emits := by
  obtain ⟨w₁, rest, rfl, hw₁, hrest⟩ := List.map_eq_cons_iff.mp h
  obtain ⟨w₂, rest, rfl, hw₂, hrest⟩ := List.map_eq_cons_iff.mp hrest
  obtain rfl := List.map_eq_nil_iff.mp hrest
  simp only [Write.outline, Prod.mk.injEq, decide_eq_false_iff_not] at hw₁ hw₂
  obtain ⟨hkey, -, -, hbody₁, -⟩ := hw₁
  obtain ⟨hkey₂, htracked, hcurrent, hbody₂, hsilent⟩ := hw₂
  obtain ⟨entry, hentry⟩ := Option.isSome_iff_exists.mp htracked
  refine ⟨w₂, entry, edited, ⟨[w₁], [], rfl, hentry, hcurrent, ?_, ?_⟩, hsilent⟩
  · simp [lastExported, hkey, hkey₂, hbody₁, hfirst]
  · rw [hbody₂]
    exact hsecond

def editedTree (p : Path) : FileTree Content := ⟨[(p, .text "edited".toList)], [[], loreRoot]⟩

def emptyTree : FileTree Content := ⟨[], [[]]⟩

def deckHistory : List (LocalEvent Text Text) :=
  let drive := fun deck : Text =>
    { plainDrive [⟨loreId, .slides, "alpha".toList, [], none⟩] (.ok []) (fun _ => .error .driveApi)
        with presentation := fun _ => .ok deck }
  [.sync (drive "one".toList), .edit (editedTree alphaPath), .sync (drive "two".toList)]

def tabHistory : List (LocalEvent Text Text) :=
  let drive := fun cell : Text =>
    { plainDrive [⟨loreId, .sheet, "alpha".toList, [], none⟩] (.ok [⟨"tab".toList, 0, 0⟩])
        (fun _ => .error .driveApi) with sheetValues := fun _ _ => .ok [[cell]] }
  [.sync (drive "one".toList), .edit (editedTree (loreRoot ++ ["alpha--tab.md".toList])),
    .sync (drive "two".toList)]

/-- A document is exported, its file is edited, and it is renamed in Drive. -/
def renameHistory : List (LocalEvent Text Text) :=
  [.sync (loreDrive "alpha".toList (.ok "one".toList)), .edit (editedTree alphaPath),
    .sync (loreDrive "beta".toList (.ok "one".toList))]

def LosesEdit (events : List (LocalEvent Text Text)) : Prop :=
  ∃ w entry current, Discards plainDeps (historyWrites plainDeps loreRoot emptyTree events)
    w entry current ∧ ¬ w.Emits

/-- In each of them the second run overwrites the edit and reports nothing. -/
theorem edits_lost : LosesEdit deckHistory ∧ LosesEdit tabHistory ∧ LosesEdit renameHistory := by
  refine ⟨?_, ?_, ?_⟩
  · exact discards_of_outline (.file loreId) "one".toList "edited".toList "two".toList
      (by decide +kernel) (by decide) (by decide)
  · exact discards_of_outline (.tab loreId 0) "one".toList "edited".toList "two".toList
      (by decide +kernel) (by decide) (by decide)
  · exact discards_of_outline (.file loreId) "one".toList "edited".toList "one".toList
      (by decide +kernel) (by decide) (by decide)

end Archiviste.Sync
