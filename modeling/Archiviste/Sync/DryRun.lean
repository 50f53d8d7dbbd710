import Archiviste.Sync.Containment

/-!
# Archiviste.Sync.DryRun

A dry run against the run it announces. It writes nothing, whatever happens (`dryRun_world`). Its
counts are those of the run when that run meets no local failure and no document has images: a dry
run does not load images, renders references of its own and compares an empty manifest.

* `Mirrors`                — the contexts of the two runs.
* `counts_mirrored`        — the counts of the two runs.
-/

namespace Archiviste.Sync

open Prog

section
variable {ν δ π : Type} {env : Env ν δ π}

/-! ## Nothing is written -/

def SameTree (c c' : Ctx) : Prop := c'.tree = c.tree

instance : Std.Refl SameTree := ⟨fun _ => rfl⟩

instance : IsTrans Ctx SameTree := ⟨fun _ _ _ h h' => h'.trans h⟩

theorem modify_sameTree {f : Ctx → Ctx} (h : ∀ c, (f c).tree = c.tree) :
    Within SameTree (modify f : SyncM Unit) := Within.modify h

theorem statusAndRename_sameTree (hdry : env.dryRun = true) (p : Path)
    (existing : Option StateEntry) : Within SameTree (statusAndRename env p existing) := by
  unfold statusAndRename
  split
  · exact modify_sameTree fun _ => rfl
  · split
    · exact Within.bind (modify_sameTree fun _ => rfl) fun _ => Within.pure
    · exact modify_sameTree fun _ => rfl

variable {key : SourceId} {existing : Option StateEntry} {dryEnd : SyncM Unit} {file : DriveFile}
  {p : Path} {c d c' : Ctx} {o : Option Export} {v : Verdict}

theorem settle_sameTree (hdry : env.dryRun = true) {x : Export} {write : SyncM Unit}
    (hend : Within SameTree dryEnd) : Within SameTree (settle env key existing x write dryEnd) := by
  unfold settle
  split
  · exact Within.bind (modify_sameTree fun _ => rfl) fun _ => modify_sameTree fun _ => rfl
  · refine Within.bind (statusAndRename_sameTree hdry _ _) fun _ => ?_
    rw [hdry]
    exact Within.bind (modify_sameTree fun _ => rfl) fun _ => hend

def dryImages (docSlug : Text) (uris : Dict Text Text) : DocImages :=
  uris.zipIdx.foldl (fun acc image => acc.resolve image.1.1 .ok
    (some (docSlug ++ ".images/dryrun-".toList ++ fourDigits image.2 ++ pngExt))) ⟨[], [], []⟩

theorem processDocImages_dry (hdry : env.dryRun = true) (components : List Text) (docSlug : Text)
    (uris : Dict Text Text) :
    processDocImages env components docSlug uris = pure (dryImages docSlug uris) := by
  have hstep : resolveOneImage env components docSlug = fun acc image =>
      pure (acc.resolve image.1.1 .ok
        (some (docSlug ++ ".images/dryrun-".toList ++ fourDigits image.2 ++ pngExt))) := by
    funext acc image
    rw [resolveOneImage, if_pos hdry]
  rw [processDocImages, hstep, List.foldlM_pure]
  rfl

theorem dryImages_manifest (docSlug : Text) (uris : Dict Text Text) :
    (dryImages docSlug uris).manifest = [] := by
  have hfold : ∀ (images : List ((Text × Text) × Nat)) (acc : DocImages),
      (images.foldl (fun acc image => acc.resolve image.1.1 .ok
        (some (docSlug ++ ".images/dryrun-".toList ++ fourDigits image.2 ++ pngExt))) acc).manifest =
        acc.manifest := by
    intro images
    induction images with
    | nil => intro acc; rfl
    | cons image images ih => intro acc; exact ih _
  exact hfold _ _

/-- What a dry run takes a document for: its own references, and no images. -/
def dryRender (env : Env ν δ π) (file : DriveFile) (p : Path) (doc : δ) : Text × Dict Text Text :=
  (normalizeBody env.deps.unicode (env.deps.renderDocMarkdown doc
    (dryImages p.stem (env.deps.extractInlineObjects doc)).resolutions file.id), [])

theorem exec_renderGdoc_dry (env : Env ν δ π) (hdry : env.dryRun = true) (file : DriveFile) (p : Path)
    (existing : Option StateEntry) (c : Ctx) :
    exec (renderGdoc env file p existing) c =
      ((env.drive.document file.id).map (dryRender env file p), c) := by
  have hfollow : followSidecar env p existing = pure () := by
    unfold followSidecar
    split
    · rfl
    · rw [hdry, if_neg (by simp)]
  unfold renderGdoc
  cases env.drive.document file.id with
  | error e => rfl
  | ok doc =>
    simp only [hfollow, processDocImages_dry hdry, lift, pure_bind, dryImages_manifest]
    rfl

theorem processKind_sameTree (hdry : env.dryRun = true) (file : DriveFile) (p : Path)
    (existing : Option StateEntry) : Within SameTree (processKind env file p existing) := by
  have hpng : Within SameTree (processPng env file p existing) := by
    cases hknown : knownPng file existing with
    | some e =>
      rw [processPng_known hknown]
      exact settle_sameTree hdry Within.pure
    | none =>
      rw [processPng_fetched hknown]
      refine Within.bind (lift_within _) fun bytes => ?_
      split
      · exact modify_sameTree fun _ => rfl
      · exact settle_sameTree hdry Within.pure
  unfold processKind
  split
  · rw [processGdoc_eq]
    refine Within.bind (fun c => ?_) fun r => ?_
    · rw [exec_renderGdoc_dry _ hdry]
      rfl
    · rw [finishGdoc_eq]
      split
      · exact modify_sameTree fun _ => rfl
      · refine settle_sameTree hdry (Within.bind Within.get fun c => ?_)
        split
        · exact modify_sameTree fun _ => rfl
        · exact Within.pure
  · refine Within.bind (lift_within _) fun deck => ?_
    dsimp only
    split
    · exact modify_sameTree fun _ => rfl
    · rw [applyGslideState, applyState_eq]
      exact settle_sameTree hdry Within.pure
  · exact hpng

theorem processTab_sameTree (hdry : env.dryRun = true) (file : DriveFile) (s : Tab × Text) :
    Within SameTree (processTab env file s) := by
  refine Within.bind (modify_sameTree fun _ => rfl) fun _ => ?_
  unfold exportTab
  split
  · exact modify_sameTree fun _ => rfl
  · exact modify_sameTree fun _ => rfl
  · exact Within.throw
  · dsimp only
    split
    · exact modify_sameTree fun _ => rfl
    · refine Within.bind (modify_sameTree fun _ => rfl) fun _ => ?_
      rw [applyState_eq]
      exact settle_sameTree hdry Within.pure

theorem processListed_sameTree (hdry : env.dryRun = true) (file : DriveFile) :
    Within SameTree (processListed env file) := by
  unfold processListed
  split
  · unfold processGsheet
    split
    · exact modify_sameTree fun _ => rfl
    · exact modify_sameTree fun _ => rfl
    · exact Within.throw
    · exact Within.forM fun s _ => processTab_sameTree hdry file s
  · refine Within.bind Within.get fun c => ?_
    split
    · exact Within.throw
    · refine Within.bind (modify_sameTree fun _ => rfl) fun _ => Within.tryCatch ?_ fun e => ?_
      · exact Within.bind (modify_sameTree fun _ => rfl) fun _ => processKind_sameTree hdry _ _ _
      · split
        · exact modify_sameTree fun _ => rfl
        · exact Within.throw

theorem archiveEntry_sameTree (hdry : env.dryRun = true) (key : SourceId) (entry : StateEntry) :
    Within SameTree (archiveEntry env key entry) := by
  refine Within.bind (modify_sameTree fun _ => rfl) fun _ => ?_
  rw [if_pos hdry]
  split
  all_goals exact Within.bind (modify_sameTree fun _ => rfl) fun _ => modify_sameTree fun _ => rfl

theorem handleArchived_sameTree (hdry : env.dryRun = true) (files : List DriveFile) :
    Within SameTree (handleArchived env files) := by
  refine Within.bind (Within.foldlM (fun gids a => ?_) _ _) fun _ => Within.pure
  obtain ⟨key, entry⟩ := a
  have hstep := handleArchivedKey_step env files gids key entry
  generalize handleArchivedKey env files gids (key, entry) = step at hstep ⊢
  cases hstep with
  | raises _ _ => exact Within.throw
  | gone _ _ => exact Within.bind (archiveEntry_sameTree hdry key entry) fun _ => Within.pure
  | present _ _ _ _ => exact Within.bind (modify_sameTree fun _ => rfl) fun _ => Within.pure
  | listed _ _ => exact Within.pure

/-- A dry run changes neither a file nor the state, however it ends. -/
theorem dryRun_world (deps : Deps ν δ π) (root : Path) (drive : Drive δ π) (world : World) :
    (runSync deps root true drive world).1 = world := by
  unfold runSync
  cases drive.listing with
  | error e => rfl
  | ok files =>
    have htree : Within SameTree
        (syncFiles (⟨deps, drive, world.state, true, root⟩ : Env ν δ π) (sortFiles files)) :=
      Within.bind (handleArchived_sameTree rfl _) fun _ =>
        Within.forM fun file _ => processListed_sameTree rfl file
    have hend := htree (Ctx.start world.tree)
    dsimp only
    generalize exec (syncFiles (⟨deps, drive, world.state, true, root⟩ : Env ν δ π)
      (sortFiles files)) (Ctx.start world.tree) = r at hend ⊢
    obtain ⟨e | a, c⟩ := r
    · exact congrArg (World.mk · world.state) hend
    · exact congrArg (World.mk · world.state) hend

/-! ## Where a dry run does not raise -/

def Env.dry (env : Env ν δ π) : Env ν δ π := { env with dryRun := true }

theorem succeeds_settle_dry (key : SourceId) (existing : Option StateEntry) (x : Export)
    (write : SyncM Unit) (hend : Harmless dryEnd) (c : Ctx) :
    Succeeds (settle env.dry key existing x write dryEnd) c :=
  succeeds_settle (fun hdue => by cases hdue.1) write hend c

theorem succeeds_processKind_dry (h : judged env.dry file p existing c = .ok o) :
    Succeeds (processKind env.dry file p existing) c := by
  have hcount : ∀ (f : SummaryCounts → SummaryCounts) (c : Ctx), Succeeds (bump f) c :=
    fun f c => ⟨(), _, rfl⟩
  -- an image is known by its checksum, or its bytes are there
  have hpng : (knownPng file existing = none → ∃ bytes, env.dry.drive.pngBytes file.id = .ok bytes) →
      Succeeds (processPng env.dry file p existing) c := by
    intro hfetched
    cases hknown : knownPng file existing with
    | some e =>
      rw [processPng_known hknown]
      exact succeeds_settle_dry _ _ _ _ harmless_pure c
    | none =>
      obtain ⟨bytes, hbytes⟩ := hfetched hknown
      rw [processPng_fetched hknown, hbytes, lift, pure_bind]
      split
      · exact hcount _ c
      · exact succeeds_settle_dry _ _ _ _ harmless_pure c
  have hbytes : ∀ f : Bytes → Option Export, (env.dry.drive.pngBytes file.id).map f = .ok o →
      ∃ bytes, env.dry.drive.pngBytes file.id = .ok bytes := by
    intro f hmap
    cases hread : env.dry.drive.pngBytes file.id with
    | error e => rw [hread] at hmap; cases hmap
    | ok bytes => exact ⟨bytes, rfl⟩
  unfold judged at h
  unfold processKind
  cases hm : file.mime with
  | doc =>
    rw [hm] at h
    dsimp only at h ⊢
    rw [exec_renderGdoc_dry _ rfl] at h
    have hrender := exec_renderGdoc_dry env.dry rfl file p existing c
    rw [processGdoc_eq]
    cases hdoc : env.dry.drive.document file.id with
    | error e => rw [hdoc] at h; cases h
    | ok doc =>
      rw [hdoc] at hrender
      rw [succeeds_bind_of_ok hrender, finishGdoc_eq]
      split
      · exact hcount _ c
      · exact succeeds_settle_dry _ _ _ _ (harmless_countOrphans _ _ _) c
  | slides =>
    rw [hm] at h
    dsimp only at h ⊢
    unfold processGslide
    cases hdeck : env.dry.drive.presentation file.id with
    | error e => rw [hdeck] at h; cases h
    | ok deck =>
      rw [lift, pure_bind]
      dsimp only
      split
      · exact hcount _ c
      · rw [applyGslideState, applyState_eq]
        exact succeeds_settle_dry _ _ _ _ harmless_pure c
  | png =>
    rw [hm] at h
    dsimp only at h
    refine hpng fun hknown => ?_
    rw [hknown] at h
    exact hbytes _ h
  | sheet =>
    rw [hm] at h
    dsimp only at h
    refine hpng fun hknown => ?_
    rw [hknown] at h
    exact hbytes _ h

theorem succeeds_processTab_dry {s : Tab × Text} (h : Succeeds (processTab env file s) c) :
    Succeeds (processTab env.dry file s) d := by
  unfold processTab exportTab at h ⊢
  refine (succeeds_bind_of_ok (exec_takePath _ d)).2 ?_
  rw [succeeds_bind_of_ok (exec_takePath _ c)] at h
  have hsame : env.dry.drive.sheetValues = env.drive.sheetValues := rfl
  rw [hsame]
  rcases hvalues : env.drive.sheetValues file.id s.1.title with (_ | _ | _ | _) | values
  · exact ⟨(), _, rfl⟩
  · exact ⟨(), _, rfl⟩
  · rw [hvalues] at h
    exact absurd h (not_succeeds_throw _ _)
  · rw [hvalues] at h
    exact absurd h (not_succeeds_throw _ _)
  · dsimp only
    split
    · exact ⟨(), _, rfl⟩
    · unfold applyTabState
      rw [succeeds_bind_of_ok (exec_bump _ _), applyState_eq]
      exact succeeds_settle_dry _ _ _ _ harmless_pure _

/-! ## The counts of the two runs -/

/-- The contexts of a run and of its dry run: the same paths are taken and the same items are
counted. -/
def Mirrors (c d : Ctx) : Prop := d.takenPaths = c.takenPaths ∧ d.counts.tally = c.counts.tally

def outcome (existing : Option StateEntry) : Option Export → Verdict
  | none => .failed
  | some x => x.verdict existing

theorem Settles.counts (h : Settles env key existing (.ok o) c c') :
    c'.takenPaths = c.takenPaths ∧
      c'.counts.tally = (outcome existing o).count c.counts.tally := by
  cases o with
  | none => exact ⟨h.1.2, h.2⟩
  | some x => exact ⟨Filed.taken h, Filed.tally h⟩

theorem SettlesTab.counts {j : Except Exn (Option Export)} (h : SettlesTab env key j c c') :
    c'.takenPaths = c.takenPaths ∧ c'.counts.tally =
      (outcome (env.state.get? key) (j.toOption.getD none)).count c.counts.tally := by
  rcases j with e | (_ | x)
  · exact ⟨h.1.2, h.2⟩
  · exact ⟨h.1.2, h.2⟩
  · exact ⟨Filed.taken h, Filed.tally h⟩

theorem Mirrors.step {d' : Ctx} (h : Mirrors c d)
    (hc : c'.takenPaths = c.takenPaths ∧ c'.counts.tally = v.count c.counts.tally)
    (hd : d'.takenPaths = d.takenPaths ∧ d'.counts.tally = v.count d.counts.tally) :
    Mirrors c' d' :=
  ⟨by rw [hd.1, h.1, hc.1], by rw [hd.2, h.2, hc.2]⟩

theorem bump_follows {f : SummaryCounts → SummaryCounts} (hf : ∀ n, (f n).tally = v.count n.tally) :
    Follows Mirrors (bump f) (bump f) :=
  Follows.modify fun c d h => h.step ⟨rfl, hf c.counts⟩ ⟨rfl, hf d.counts⟩

theorem processTab_follows (file : DriveFile) (s : Tab × Text) :
    Follows Mirrors (processTab env file s) (processTab env.dry file s) := by
  rintro c d h ⟨⟩ c' hc
  obtain ⟨⟨⟩, d', hd⟩ := succeeds_processTab_dry (d := d) ⟨(), c', hc⟩
  have htake : Mirrors (c.take (tabPath env file s.2)) (d.take (tabPath env file s.2)) :=
    ⟨congrArg (tabPath env file s.2 :: ·) h.1, h.2⟩
  exact ⟨d', hd, htake.step (processTab_settles hc).counts (processTab_settles hd).counts⟩

theorem processGsheet_follows (file : DriveFile) :
    Follows Mirrors (processGsheet env file) (processGsheet env.dry file) := by
  unfold processGsheet Env.dry
  dsimp only
  split
  · exact bump_follows (v := .failed) fun _ => rfl
  · exact bump_follows (v := .failed) fun _ => rfl
  · exact Follows.throw
  · exact Follows.forM fun s _ => processTab_follows file s

theorem archiveEntry_follows (key : SourceId) (entry : StateEntry) :
    Follows Mirrors (archiveEntry env key entry) (archiveEntry env.dry key entry) := by
  rintro c d h ⟨⟩ c' hc
  have hsucceeds : Succeeds (archiveEntry env.dry key entry) d :=
    (succeeds_archiveEntry key entry d).2 fun hun => absurd hun.2.1 (by simp [Env.dry])
  obtain ⟨⟨⟩, d', hd⟩ := hsucceeds
  have hfiled := archiveEntry_filed env key entry c c (Std.Refl.refl c)
  have hfiled' := archiveEntry_filed env.dry key entry d d (Std.Refl.refl d)
  rw [hc] at hfiled
  rw [hd] at hfiled'
  exact ⟨d', hd, h.step ⟨hfiled.taken, hfiled.tally⟩ ⟨hfiled'.taken, hfiled'.tally⟩⟩

theorem handleArchivedKey_follows (files : List DriveFile) (gids : TabGids)
    (a : SourceId × StateEntry) :
    Follows Mirrors (handleArchivedKey env files gids a)
      (handleArchivedKey env.dry files gids a) := by
  obtain ⟨key, entry⟩ := a
  have hrecord : ∀ g : TabGids, Follows Mirrors (record key entry >>= fun _ => pure g)
      (record key entry >>= fun _ => pure g) :=
    fun g => Follows.bind (Follows.modify fun _ _ h => h) fun _ => Follows.pure
  have harchive : ∀ g : TabGids, Follows Mirrors (archiveEntry env key entry >>= fun _ => pure g)
      (archiveEntry env.dry key entry >>= fun _ => pure g) :=
    fun g => Follows.bind (archiveEntry_follows key entry) fun _ => Follows.pure
  cases key with
  | file id =>
    unfold handleArchivedKey
    dsimp only
    split
    · exact Follows.pure
    · exact harchive gids
  | tab id gid =>
    have htab : ∀ known (g : TabGids),
        Follows Mirrors (archiveTab env (.tab id gid) gid entry known >>= fun _ => pure g)
          (archiveTab env.dry (.tab id gid) gid entry known >>= fun _ => pure g) := by
      intro known g
      unfold archiveTab
      split
      · exact harchive g
      · exact hrecord g
    unfold handleArchivedKey handleArchivedTab
    dsimp only
    split
    · exact harchive gids
    split
    · exact hrecord gids
    split
    · exact htab _ gids
    unfold Env.dry
    dsimp only
    split
    · exact htab _ _
    · exact hrecord gids
    · exact Follows.throw

/-! ## Runs -/

/-- The turn of a file meets no failure: its path is free, its handler does not raise; of a workbook,
no tab does. -/
def Undisturbed (env : Env ν δ π) (c : Ctx) (file : DriveFile) : Prop :=
  if file.mime = .sheet then Succeeds (processGsheet env file) c
  else ∃ p, allocate env file c.takenPaths = some p ∧
    Succeeds (processKind env file p (env.state.get? (.file file.id))) (c.turn p)

def NoImages (env : Env ν δ π) (file : DriveFile) : Prop :=
  file.mime = .doc → ∀ doc, env.drive.document file.id = .ok doc → env.deps.extractInlineObjects doc = []

theorem judged_dry (himages : NoImages env file) (h : judged env file p existing c = .ok o) :
    judged env.dry file p existing d = .ok o := by
  rw [← h]
  unfold judged at h ⊢
  cases hm : file.mime with
  | doc =>
    rw [hm] at h
    dsimp only at h ⊢
    rcases hr : exec (renderGdoc env file p existing) c with ⟨e | r, c'⟩
    · rw [hr] at h
      cases h
    · obtain ⟨doc, c₁, images, hdoc, -, hexec, rfl⟩ := exec_renderGdoc_ok.1 hr
      have hnone := himages hm doc hdoc
      rw [hnone] at hexec
      cases hexec
      rw [exec_renderGdoc_dry _ rfl, show env.dry.drive.document file.id = .ok doc from hdoc]
      simp only [Except.map, dryRender]
      rw [show env.dry.deps.extractInlineObjects doc = [] from hnone]
      rfl
  | slides => rfl
  | png => rfl
  | sheet => rfl

theorem Undisturbed.succeeds (h : Undisturbed env c file) :
    Succeeds (processListed env file) c := by
  unfold Undisturbed at h
  split at h
  · next hmime => rwa [processListed, if_pos hmime]
  · next hmime =>
    obtain ⟨p, hp, ⟨⟩, c', hc'⟩ := h
    exact ⟨(), c', processListed_ends hmime hp hc'⟩

theorem processListed_follows (hmirrors : Mirrors c d) (hquiet : Undisturbed env c file)
    (himages : NoImages env file) (h : exec (processListed env file) c = (.ok (), c')) :
    ∃ d', exec (processListed env.dry file) d = (.ok (), d') ∧ Mirrors c' d' := by
  by_cases hmime : file.mime = .sheet
  · rw [processListed, if_pos hmime] at h ⊢
    exact processGsheet_follows file c d hmirrors () c' h
  obtain ⟨p, hp, hcases⟩ := processListed_turn hmime h
  rw [Undisturbed, if_neg hmime] at hquiet
  obtain ⟨p', hp', ⟨⟩, c₁, hc₁⟩ := hquiet
  cases hp.symm.trans hp'
  rcases hcases with ⟨e, c₂, hraise, -⟩ | ⟨-, hsettles⟩
  · cases hraise.symm.trans hc₁
  rcases ho : judged env file p (env.state.get? (.file file.id)) (c.turn p) with e | o
  · rw [ho] at hsettles
    exact hsettles.elim
  rw [ho] at hsettles
  have ho' := judged_dry (d := d.turn p) himages ho
  obtain ⟨⟨⟩, d', hd'⟩ := succeeds_processKind_dry ho'
  have hsettles' := processKind_settles env.dry file p (env.state.get? (.file file.id))
    (d.turn p) (d.turn p) rfl
  rw [hd', ho'] at hsettles'
  have hturn : Mirrors (c.turn p) (d.turn p) := ⟨congrArg (p :: ·) hmirrors.1, hmirrors.2⟩
  refine ⟨d', ?_, hturn.step hsettles.counts (Settles.counts hsettles')⟩
  refine processListed_ends hmime ?_ hd'
  rw [hmirrors.1]
  exact hp

/-- A run whose archive pass and turns meet no failure has the counts of its dry run. -/
theorem counts_mirrored {deps : Deps ν δ π} {root : Path} {drive : Drive δ π} {world : World}
    {files : List DriveFile} (hlisting : drive.listing = .ok files) :
    let env : Env ν δ π := ⟨deps, drive, world.state, false, root⟩
    (∀ file ∈ sortFiles files, NoImages env file) →
    Succeeds (handleArchived env (sortFiles files)) (Ctx.start world.tree) →
    Run.Along (turn env) (Undisturbed env) (archivedCtx env (sortFiles files) world.tree)
      (sortFiles files) →
    ∃ counts counts', (runSync deps root false drive world).2 = .ok counts ∧
      (runSync deps root true drive world).2 = .ok counts' ∧ counts'.tally = counts.tally := by
  rintro env himages ⟨⟨⟩, c₁, h₁⟩ halong
  have hstart : archivedCtx env (sortFiles files) world.tree = c₁ := congrArg Prod.snd h₁
  rw [hstart] at halong
  have hloop : Succeeds ((sortFiles files).forM (processListed env)) c₁ :=
    forM_ends_iff.2 (halong.mono fun c file h => h.succeeds)
  obtain ⟨⟨⟩, c₂, h₂⟩ := hloop
  have harchive : Follows Mirrors (handleArchived env (sortFiles files))
      (handleArchived env.dry (sortFiles files)) :=
    Follows.bind (Follows.foldlM (handleArchivedKey_follows (sortFiles files)) _ _)
      fun _ => Follows.pure
  obtain ⟨d₁, hd₁, hmirrors⟩ := harchive _ (Ctx.start world.tree) ⟨rfl, rfl⟩ () c₁ h₁
  have hquiet := halong.and (Run.along_of_forall (fun file hfile _ => himages file hfile) c₁)
  obtain ⟨d₂, hd₂, hmirrors₂⟩ := Follows.forM_along
    (fun file c d c' hR hC h => processListed_follows hR hC.1 hC.2 h) hmirrors hquiet h₂
  refine ⟨c₂.counts, d₂.counts, congrArg Prod.snd ((runSync_eq_ok hlisting).2
    ⟨c₁, c₂, h₁, h₂, rfl, rfl⟩), ?_, hmirrors₂.2⟩
  exact congrArg Prod.snd ((runSync_eq_ok hlisting).2 ⟨d₁, d₂, hd₁, hd₂, rfl, rfl⟩)

end

def imageDeps : Deps Text Text Text :=
  { plainDeps with
    extractInlineObjects := fun _ => [("i1".toList, "uri".toList)]
    renderDocMarkdown := fun doc resolutions _ =>
      doc ++ resolutions.flatMap fun e => e.2.relPath.getD []
    compressImage := fun raw _ => .ok ⟨raw, .png, "0123456789ab".toList⟩ }

def imageDrive : Drive Text Text :=
  { loreDrive "alpha".toList (.ok "body".toList) with image := fun _ => .ok ([1], []) }

def imageWorld : World := (runSync imageDeps loreRoot false imageDrive firstLocal.world).1

def occupiedWorld : World :=
  { loreWorld with tree := { loreWorld.tree with
      files := loreWorld.tree.files.set (loreRoot ++ ["beta.md".toList]) (.text []) } }

end Archiviste.Sync
