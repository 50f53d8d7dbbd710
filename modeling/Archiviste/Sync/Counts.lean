import Archiviste.Sync.DryRun

/-!
# Archiviste.Sync.Counts

The summary of a run. An item is added to `total` when its turn begins and to one of the six outcome
counters when it is decided what becomes of it, before that is done.

* `Gains k`           — the six counters have grown by `k` more than `total`.
* `CountedTwice`      — the handler of a file raised after it had counted the file; the exception is
  then counted as an error too.
* `runSync_total_iff` — in a run that completes, `total` is the sum of the six counters exactly when
  no file is counted twice. Tabs, workbooks and archived entries never are.
-/

namespace Archiviste.Sync

open Prog

def Tally.sum (n : Tally) : Nat :=
  n.created + n.updated + n.renamed + n.archived + n.unchanged + n.errors

theorem Verdict.sum_count (v : Verdict) (n : Tally) : (v.count n).sum = n.sum + 1 := by
  cases v
  all_goals
    simp only [Verdict.count, Tally.sum]
    omega

/-! ## Programs that begin no item -/

def SameTotal (c c' : Ctx) : Prop := c'.counts.total = c.counts.total

instance : Std.Refl SameTotal := ⟨fun _ => rfl⟩

instance : IsTrans Ctx SameTotal := ⟨fun _ _ _ h h' => h'.trans h⟩

section
variable {ν δ π : Type} {env : Env ν δ π}

theorem onTree_total (f : FileTree Content → Except FsError (FileTree Content)) :
    Within SameTotal (onTree f) := by
  intro c
  rw [exec_onTree]
  split <;> rfl

theorem bump_total {f : SummaryCounts → SummaryCounts} (h : ∀ n, (f n).total = n.total) :
    Within SameTotal (bump f) :=
  Within.modify fun c => h c.counts

theorem record_total (key : SourceId) (e : StateEntry) : Within SameTotal (record key e) :=
  Within.modify fun _ => rfl

theorem writeGdoc_total (p : Path) (title : Text) (key : SourceId)
    (drivePath exportedAt body : Text) (yaml : Option Text) :
    Within SameTotal (writeGdoc env p title key drivePath exportedAt body yaml) :=
  writeGdoc_within (onTree_total _) (fun _ => onTree_total _) title key drivePath exportedAt body
    yaml

theorem statusAndRename_total (p : Path) (existing : Option StateEntry) :
    Within SameTotal (statusAndRename env p existing) := by
  unfold statusAndRename
  split
  · exact bump_total fun _ => rfl
  split
  · refine Within.bind (bump_total fun _ => rfl) fun _ => ?_
    split
    · exact Within.pure
    · exact renameLocalFile_within (onTree_total _) (onTree_total _)
  · exact bump_total fun _ => rfl

theorem settle_total (key : SourceId) (existing : Option StateEntry) (x : Export)
    {write dryEnd : SyncM Unit} (hwrite : Within SameTotal write)
    (hdry : Within SameTotal dryEnd) :
    Within SameTotal (settle env key existing x write dryEnd) := by
  unfold settle
  split
  · exact Within.bind (record_total _ _) fun _ => bump_total fun _ => rfl
  refine Within.bind (statusAndRename_total _ _) fun _ => ?_
  split
  · exact Within.bind (record_total _ _) fun _ => hdry
  · exact Within.bind hwrite fun _ => record_total _ _

theorem applyState_total (env : Env ν δ π) (key : SourceId) (p : Path) (title drivePath body : Text)
    (existing : Option StateEntry) :
    Within SameTotal (applyState env key p title drivePath body existing) := by
  rw [applyState_eq]
  refine settle_total key existing _ ?_ Within.pure
  exact Within.bind (readExistingFrontmatter_within env p) fun yaml =>
    writeGdoc_total p title key drivePath _ body yaml

theorem renderGdoc_total (file : DriveFile) (p : Path) (existing : Option StateEntry) :
    Within SameTotal (renderGdoc env file p existing) := by
  refine Within.bind (lift_within _) fun doc => ?_
  refine Within.bind (followSidecar_within fun _ _ =>
    renameSidecar_within (onTree_total _) (onTree_total _)) fun _ => ?_
  refine Within.bind (processDocImages_within (bump_total fun _ => rfl) (bump_total fun _ => rfl)
    (fun _ _ _ bytes _ => writeImage_within (onTree_total _) (fun _ => onTree_total _) bytes) _)
    fun images => Within.pure

theorem writeDoc_total (file : DriveFile) (p : Path) (existing : Option StateEntry)
    (r : Text × Dict Text Text) : Within SameTotal (writeDoc env file p existing r) := by
  refine Within.bind (cleanupOrphans_within (fun _ _ _ => onTree_total _) (onTree_total _))
    fun orphans => ?_
  refine Within.bind (bump_total fun _ => rfl) fun _ => ?_
  refine Within.bind (readExistingFrontmatter_within env p) fun yaml => ?_
  have hlog : Within SameTotal (logDrift (.file file.id)) := Within.modify fun _ => rfl
  refine Within.bind (checkLocalDriftBeforeWrite_within hlog env p existing _) fun _ => ?_
  exact writeGdoc_total p _ _ _ _ _ _

theorem countOrphans_total (p : Path) (existing : Option StateEntry) (images : Dict Text Text) :
    Within SameTotal (countOrphans p existing images) := by
  refine Within.bind Within.get fun c => ?_
  split
  · exact bump_total fun _ => rfl
  · exact Within.pure

theorem processKind_total (env : Env ν δ π) (file : DriveFile) (p : Path)
    (existing : Option StateEntry) :
    Within SameTotal (processKind env file p existing) := by
  have hpng : Within SameTotal (processPng env file p existing) := by
    cases hknown : knownPng file existing with
    | some e =>
      rw [processPng_known hknown]
      exact settle_total _ _ _ Within.pure Within.pure
    | none =>
      rw [processPng_fetched hknown]
      refine Within.bind (lift_within _) fun bytes => ?_
      split
      · exact bump_total fun _ => rfl
      · exact settle_total _ _ _ (Within.bind (onTree_total _) fun _ => onTree_total _) Within.pure
  unfold processKind
  cases file.mime with
  | doc =>
    rw [processGdoc_eq]
    refine Within.bind (renderGdoc_total file p existing) fun r => ?_
    rw [finishGdoc_eq]
    split
    · exact bump_total fun _ => rfl
    · exact settle_total _ _ _ (writeDoc_total file p existing r) (countOrphans_total p existing r.2)
  | slides =>
    refine Within.bind (lift_within _) fun deck => ?_
    dsimp only
    split
    · exact bump_total fun _ => rfl
    · exact applyState_total _ _ _ _ _ _ _
  | png => exact hpng
  | sheet => exact hpng

/-! ## What an item adds -/

def Gains (k : Nat) (c c' : Ctx) : Prop :=
  c'.counts.tally.sum + c.counts.total = c.counts.tally.sum + c'.counts.total + k

theorem Gains.refl (c : Ctx) : Gains 0 c c := rfl

variable {c c' : Ctx} {file : DriveFile} {files : List DriveFile}

theorem Gains.trans {k k' : Nat} {c'' : Ctx} (h : Gains k c c') (h' : Gains k' c' c'') :
    Gains (k + k') c c'' := by
  unfold Gains at *
  omega

theorem gains_of_count {v : Verdict} (ht : c'.counts.total = c.counts.total + 1)
    (hv : c'.counts.tally = v.count c.counts.tally) : Gains 0 c c' := by
  have hsum := v.sum_count c.counts.tally
  rw [← hv] at hsum
  unfold Gains
  omega

/-- The handler of the file has counted what becomes of it when an exception ends it. -/
def CountedTwice (env : Env ν δ π) (c : Ctx) (file : DriveFile) : Prop :=
  file.mime ≠ .sheet ∧ ∃ p, allocate env file c.takenPaths = some p ∧
    (∃ x, judged env file p (env.state.get? (.file file.id)) (c.turn p) = .ok (some x)) ∧
    ∃ e c', exec (processKind env file p (env.state.get? (.file file.id))) (c.turn p) =
      (.error e, c')

open Classical in
noncomputable def countedTwice (env : Env ν δ π) (c : Ctx) (file : DriveFile) : Nat :=
  if CountedTwice env c file then 1 else 0

theorem processTab_gains {s : Tab × Text} (h : exec (processTab env file s) c = (.ok (), c')) :
    Gains 0 c c' := by
  have htotal : c'.counts.total = c.counts.total + 1 := by
    have hexport : exec (exportTab env file s.1 (tabPath env file s.2))
        (c.take (tabPath env file s.2)) = (.ok (), c') := h
    unfold exportTab at hexport
    rcases hvalues : env.drive.sheetValues file.id s.1.title with (_ | _ | _ | _) | values
    all_goals rw [hvalues] at hexport
    · cases hexport; rfl
    · cases hexport; rfl
    · cases hexport
    · cases hexport
    · dsimp only at hexport
      split at hexport
      · cases hexport; rfl
      · rw [applyTabState, exec_bind_ok] at hexport
        obtain ⟨_, c₁, hbump, happly⟩ := hexport
        cases hbump
        exact (applyState_total env _ _ _ _ _ _).of_exec happly
  have hsettles := processTab_settles h
  rcases hj : judgedTab env file s.1 (tabPath env file s.2) with e | (_ | x)
  all_goals rw [hj] at hsettles
  · exact gains_of_count htotal hsettles.2
  · exact gains_of_count htotal hsettles.2
  · exact gains_of_count htotal hsettles.tally

theorem forM_processTab_gains {slugged : List (Tab × Text)} :
    ∀ {c c' : Ctx}, exec (slugged.forM (processTab env file)) c = (.ok (), c') → Gains 0 c c' := by
  induction slugged with
  | nil => intro c c' h; cases h; exact Gains.refl c
  | cons s slugged ih =>
    intro c c' h
    obtain ⟨c₁, hs, hrest⟩ := exec_forM_ok h
    exact (processTab_gains hs).trans (ih hrest)

theorem countedTwice_pos (h : CountedTwice env c file) : countedTwice env c file = 1 := if_pos h

theorem countedTwice_neg (h : ¬ CountedTwice env c file) : countedTwice env c file = 0 := if_neg h

/-- The turn of a file: one item counted once, unless it is counted twice. -/
theorem processListed_gains (h : exec (processListed env file) c = (.ok (), c')) :
    Gains (countedTwice env c file) c c' := by
  by_cases hmime : file.mime = .sheet
  · rw [countedTwice_neg fun htwice => htwice.1 hmime]
    rw [processListed, if_pos hmime, processGsheet] at h
    rcases htabs : env.drive.tabs file.id with (_ | _ | _ | _) | tabs <;> rw [htabs] at h
    · cases h; exact gains_of_count (v := .failed) rfl rfl
    · cases h; exact gains_of_count (v := .failed) rfl rfl
    · cases h
    · cases h
    · exact forM_processTab_gains h
  · rw [processListed, if_neg hmime, exec_bind, exec_get] at h
    dsimp only at h
    cases hp : allocate env file c.takenPaths with
    | none => rw [hp] at h; cases h
    | some p =>
      rw [hp] at h
      dsimp only at h
      rw [exec_fileTurn] at h
      have hturn : (c.turn p).counts.total = c.counts.total + 1 := rfl
      have houtcome := processKind_interrupted env file p (env.state.get? (.file file.id)) (c.turn p)
        (c.turn p) rfl
      have htotal := processKind_total env file p (env.state.get? (.file file.id)) (c.turn p)
      have htwice : CountedTwice env c file ↔
          (∃ x, judged env file p (env.state.get? (.file file.id)) (c.turn p) = .ok (some x)) ∧
          ∃ e c', exec (processKind env file p (env.state.get? (.file file.id))) (c.turn p) =
            (.error e, c') := by
        simp [CountedTwice, hmime, hp]
      rcases hk : exec (processKind env file p (env.state.get? (.file file.id))) (c.turn p) with
        ⟨e | a, c₁⟩
      · rw [hk] at h houtcome htotal
        dsimp only at h houtcome htotal
        split at h
        · cases h
          rcases hj : judged env file p (env.state.get? (.file file.id)) (c.turn p) with
            e' | (_ | x)
          all_goals rw [hj] at houtcome
          · -- nothing was counted before the exception
            rw [countedTwice_neg (mt htwice.1 (by simp [hj]))]
            exact gains_of_count (v := .failed) (htotal.trans hturn)
              (congrArg (Verdict.count .failed) houtcome.tally)
          · exact houtcome.elim
          · rw [countedTwice_pos (htwice.2 ⟨⟨x, hj⟩, e, c₁, hk⟩)]
            have hsum := (x.status (env.state.get? (.file file.id))).sum_count
              (c.turn p).counts.tally
            rw [← houtcome.2] at hsum
            have herrors := Verdict.sum_count .failed c₁.counts.tally
            have hc : c.counts.tally.sum = (c.turn p).counts.tally.sum := rfl
            have htotal' : c₁.counts.total = c.counts.total + 1 := htotal.trans hturn
            show (Verdict.count .failed c₁.counts.tally).sum + c.counts.total =
              c.counts.tally.sum + c₁.counts.total + 1
            omega
        · cases h
      · rw [hk] at h houtcome htotal
        cases h
        rw [countedTwice_neg (mt htwice.1 (by simp [hk]))]
        rcases hj : judged env file p (env.state.get? (.file file.id)) (c.turn p) with e | (_ | x)
        all_goals rw [hj] at houtcome
        · exact houtcome.elim
        · exact gains_of_count (htotal.trans hturn) houtcome.2
        · exact gains_of_count (htotal.trans hturn) houtcome.tally

theorem forM_gains : ∀ {c c' : Ctx},
    exec (files.forM (processListed env)) c = (.ok (), c') →
    Gains (Run.sum (turn env) (countedTwice env) c files) c c' := by
  induction files with
  | nil => intro c c' h; cases h; exact Gains.refl c
  | cons file files ih =>
    intro c c' h
    obtain ⟨c₁, hfile, hrest⟩ := exec_forM_ok h
    have hturn : turn env c file = c₁ := by rw [turn, hfile]
    rw [Run.sum, hturn]
    exact (processListed_gains hfile).trans (ih hrest)

/-! ## The archive pass -/

theorem archiveEntry_gains {key : SourceId} {entry : StateEntry}
    (h : exec (archiveEntry env key entry) c = (.ok (), c')) : Gains 0 c c' := by
  have hfiled := archiveEntry_filed env key entry c c (Std.Refl.refl c)
  rw [h] at hfiled
  refine gains_of_count ?_ hfiled.tally
  rw [archiveEntry, exec_bind_ok] at h
  obtain ⟨_, c₁, hbump, hrest⟩ := h
  cases hbump
  refine Within.of_exec (R := SameTotal) ?_ hrest
  split
  · exact Within.bind (record_total _ _) fun _ => bump_total fun _ => rfl
  split
  · exact Within.bind (record_total _ _) fun _ => bump_total fun _ => rfl
  refine Within.bind Within.get fun c₂ => ?_
  have hfile : ∀ e, Within SameTotal (record key e >>= fun _ =>
      bump fun n => { n with archived := n.archived + 1 }) :=
    fun e => Within.bind (record_total _ _) fun _ => bump_total fun _ => rfl
  dsimp only
  split
  · exact Within.bind (setArchivedFrontmatter_within (fun _ => onTree_total _) _) fun _ => hfile _
  · exact hfile _

theorem handleArchived_gains (h : exec (handleArchived env files) c = (.ok (), c')) :
    Gains 0 c c' := by
  have hkey : ∀ (gids : TabGids) (a : SourceId × StateEntry),
      Triple (Gains 0 c) (handleArchivedKey env files gids a) (fun _ => Gains 0 c)
        (fun _ _ => True) := by
    rintro gids ⟨key, entry⟩ c₁ hc₁
    have hstep := handleArchivedKey_step env files gids key entry
    generalize handleArchivedKey env files gids (key, entry) = step at hstep ⊢
    cases hstep with
    | raises _ _ => trivial
    | gone _ _ =>
      rw [exec_bind]
      rcases hentry : exec (archiveEntry env key entry) c₁ with ⟨e | ⟨⟩, c₂⟩
      · trivial
      · exact hc₁.trans (archiveEntry_gains hentry)
    | present _ _ _ _ => exact hc₁
    | listed _ _ => exact hc₁
  have hloop : Triple (Gains 0 c) (env.state.foldlM (handleArchivedKey env files) [])
      (fun _ => Gains 0 c) (fun _ _ => True) :=
    Triple.foldlM (I := fun _ _ => Gains 0 c) (fun a _ _ gids => hkey gids a) []
  have hpass : Triple (Gains 0 c) (handleArchived env files) (fun _ => Gains 0 c)
      (fun _ _ => True) := Triple.bind hloop fun _ => Triple.pure fun _ h => h
  have hend := hpass c (Gains.refl c)
  rw [h] at hend
  exact hend

/-! ## Runs -/

/-- A run that completes counts each item once exactly when no handler raises after it has counted
its file. -/
theorem runSync_total_iff (deps : Deps ν δ π) (root : Path) (dryRun : Bool) (drive : Drive δ π)
    (world : World) (counts : SummaryCounts)
    (hrun : (runSync deps root dryRun drive world).2 = .ok counts) :
    let env : Env ν δ π := ⟨deps, drive, world.state, dryRun, root⟩
    ∃ files, drive.listing = .ok files ∧
      (counts.total = counts.created + counts.updated + counts.renamed + counts.archived +
          counts.unchanged + counts.errors ↔
        Run.Along (turn env) (fun c file => ¬ CountedTwice env c file)
          (archivedCtx env (sortFiles files) world.tree) (sortFiles files)) := by
  intro env
  cases hlisting : drive.listing with
  | error e =>
    rw [runSync, hlisting] at hrun
    cases hrun
  | ok files =>
    obtain ⟨c₁, c₂, h₁, h₂, -, hcounts⟩ := (runSync_eq_ok hlisting).1 (Prod.ext rfl hrun)
    have hstart : archivedCtx env (sortFiles files) world.tree = c₁ := congrArg Prod.snd h₁
    have hgains : Gains (0 + Run.sum (turn env) (countedTwice env) c₁ (sortFiles files))
        (Ctx.start world.tree) c₂ := (handleArchived_gains h₁).trans (forM_gains h₂)
    have hsum : counts.tally.sum = counts.total + Run.sum (turn env) (countedTwice env) c₁
        (sortFiles files) := by
      have hzero : (Ctx.start world.tree).counts.tally.sum = 0 := rfl
      have hnone : (Ctx.start world.tree).counts.total = 0 := rfl
      unfold Gains at hgains
      rw [← hcounts]
      omega
    have hnone : ∀ c file, countedTwice env c file = 0 ↔ ¬ CountedTwice env c file := by
      intro c file
      refine ⟨fun h htwice => ?_, countedTwice_neg⟩
      rw [countedTwice_pos htwice] at h
      cases h
    have halong : Run.sum (turn env) (countedTwice env) c₁ (sortFiles files) = 0 ↔
        Run.Along (turn env) (fun c file => ¬ CountedTwice env c file) c₁ (sortFiles files) := by
      rw [Run.sum_eq_zero_iff]
      simp only [hnone]
    refine ⟨files, rfl, ?_⟩
    rw [hstart, ← halong]
    unfold Tally.sum SummaryCounts.tally at hsum
    dsimp only at hsum
    omega

end

/-- The first run over a document: one item, counted once. -/
theorem runSync_total_iff_firstLocal :
    let drive := loreDrive "alpha".toList (.ok "body".toList)
    let env : Env Text Text Text := ⟨plainDeps, drive, firstLocal.world.state, false, loreRoot⟩
    (runSync plainDeps loreRoot false drive firstLocal.world).2 =
        .ok { SummaryCounts.zero with total := 1, created := 1 } ∧
      ∃ files, drive.listing = .ok files ∧
        Run.Along (turn env) (fun c file => ¬ CountedTwice env c file)
          (archivedCtx env (sortFiles files) firstLocal.world.tree) (sortFiles files) := by
  intro drive env
  have hrun : (runSync plainDeps loreRoot false drive firstLocal.world).2 =
      .ok { SummaryCounts.zero with total := 1, created := 1 } := by decide +kernel
  obtain ⟨files, hlisting, hiff⟩ :=
    runSync_total_iff plainDeps loreRoot false drive firstLocal.world _ hrun
  exact ⟨hrun, files, hlisting, hiff.1 rfl⟩

/-- A document is renamed in Drive, and there is a file where it goes: the one item is counted as
renamed and as an error. -/
theorem renamed_and_failed :
    (runSync plainDeps loreRoot false (loreDrive "beta".toList (.ok "body".toList))
        occupiedWorld).2 =
      .ok { SummaryCounts.zero with total := 1, renamed := 1, errors := 1 } := by
  decide +kernel

end Archiviste.Sync
