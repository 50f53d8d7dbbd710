import Archiviste.Sync.CleanRuns
import Archiviste.Sync.Sidecars

/-!
# Archiviste.Sync.Idempotence

A second run over the same Drive contents. Every entry the first run saved is one its export makes
needless, so the second run keeps it; what it does before it compares is to write the images of the
documents again, and they need not go where they went. So the second run leaves everything as it is
when no image can be had, and may do something else when one can.

* `Unobtainable`, `ImagesOut` — an image, or the images of a document, cannot be had.
* `processListed_again`       — the turn of a file, once more.
* `second_run_idle`           — the second run.
-/

namespace Archiviste.Sync

open Prog

/-! ## Images that cannot be had -/

structure Rests (c d : Ctx) : Prop where
  tree : d.tree = c.tree
  silent : Silent c d
  total : d.counts.total = c.counts.total

theorem Rests.refl (c : Ctx) : Rests c c := ⟨rfl, Std.Refl.refl c, rfl⟩

theorem Rests.trans {c d e : Ctx} (h : Rests c d) (h' : Rests d e) : Rests c e :=
  ⟨h'.tree.trans h.tree, IsTrans.trans c d e h.silent h'.silent, h'.total.trans h.total⟩

section
variable {ν δ π : Type} {env : Env ν δ π}

def Unobtainable (env : Env ν δ π) (uri : Text) : Prop :=
  ∀ raw contentType compressed, env.drive.image uri = .ok (raw, contentType) →
    env.deps.compressImage raw contentType ≠ .ok compressed

variable {components : List Text} {docSlug : Text} {x : Export}

/-- An image that cannot be had is left out, whatever the local tree. -/
theorem resolveOneImage_again (hdry : env.dryRun = false) {acc acc' : DocImages}
    {image : (Text × Text) × Nat} {c c' : Ctx} (hnone : Unobtainable env image.1.2)
    (h : exec (resolveOneImage env components docSlug acc image) c = (.ok acc', c')) (d : Ctx) :
    ∃ d', exec (resolveOneImage env components docSlug acc image) d = (.ok acc', d') ∧ Rests d d' := by
  generalize hprog : resolveOneImage env components docSlug acc image = prog at h ⊢
  have hfailed : ∀ kind, prog = imageFailed acc image.1.1 kind →
      ∃ d', exec prog d = (.ok acc', d') ∧ Rests d d' := by
    rintro kind rfl
    cases h
    exact ⟨_, rfl, rfl, ⟨⟨rfl, rfl⟩, rfl⟩, rfl⟩
  unfold resolveOneImage at hprog
  simp only [hdry, Bool.false_eq_true, if_false] at hprog
  split at hprog
  · exact hfailed .failed hprog.symm
  · exact hfailed .failed hprog.symm
  · subst hprog
    cases h
  next raw contentType hfetched =>
  unfold compressAndRegister at hprog
  split at hprog
  · exact hfailed .oversized hprog.symm
  · exact hfailed .failed hprog.symm
  · subst hprog
    cases h
  next compressed hcompressed => exact absurd hcompressed (hnone raw contentType compressed hfetched)

theorem foldlM_images_again (hdry : env.dryRun = false) {images : List ((Text × Text) × Nat)}
    (hnone : ∀ image ∈ images, Unobtainable env image.1.2) :
    ∀ {acc acc' : DocImages} {c c' : Ctx},
      exec (images.foldlM (resolveOneImage env components docSlug) acc) c = (.ok acc', c') →
      ∀ d, ∃ d', exec (images.foldlM (resolveOneImage env components docSlug) acc) d = (.ok acc', d') ∧
        Rests d d' := by
  induction images with
  | nil =>
    intro acc acc' c c' h d
    cases h
    exact ⟨d, rfl, Rests.refl d⟩
  | cons image images ih =>
    intro acc acc' c c' h d
    obtain ⟨acc₁, c₁, hstep, hrest⟩ := exec_bind_ok.1
      (show exec (resolveOneImage env components docSlug acc image >>= fun acc₁ =>
        images.foldlM (resolveOneImage env components docSlug) acc₁) c = (.ok acc', c') from h)
    obtain ⟨d₁, hd₁, hrests⟩ := resolveOneImage_again hdry (hnone image List.mem_cons_self) hstep d
    obtain ⟨d', hd', hrests'⟩ := ih (fun i hi => hnone i (List.mem_cons_of_mem image hi)) hrest d₁
    exact ⟨d', exec_bind_ok.2 ⟨acc₁, d₁, hd₁, hd'⟩, hrests.trans hrests'⟩

/-! ## A turn once more -/

def Drive.later (drive : Drive δ π) (archiveClock clock : SourceId → Text) : Drive δ π :=
  { drive with archiveClock := archiveClock, clock := clock }

def Env.next (env : Env ν δ π) (saved : Dict SourceId StateEntry)
    (archiveClock clock : SourceId → Text) : Env ν δ π :=
  { env with drive := env.drive.later archiveClock clock, state := saved }

structure Idle (n : SummaryCounts) : Prop where
  created : n.created = 0
  updated : n.updated = 0
  renamed : n.renamed = 0
  archived : n.archived = 0
  errors : n.errors = 0
  unchanged : n.unchanged = n.total

/-- The second run so far: the tree is as the first run left it, the paths taken are those the first
run had taken here, and only saved entries have been recorded. -/
structure Again (saved : Dict SourceId StateEntry) (t : FileTree Content) (taken : List Path)
    (d : Ctx) : Prop where
  tree : d.tree = t
  taken : d.takenPaths = taken
  idle : Idle d.counts
  kept : ∀ key e, d.newState.get? key = some e → saved.get? key = some e

/-- No image of a document can be had; a document without images is one. -/
def ImagesOut (env : Env ν δ π) (file : DriveFile) : Prop :=
  file.mime = .doc → ∀ doc, env.drive.document file.id = .ok doc →
    ∀ image ∈ env.deps.extractInlineObjects doc, Unobtainable env image.2

theorem Export.same_filed (h : x.same x.entry = true) (existing : Option StateEntry) :
    x.same (x.filed false existing) = true := by
  rw [filed, if_neg (by simp)]
  cases hkept : x.kept existing with
  | none => exact h
  | some e => exact (Option.filter_eq_some_iff.1 hkept).2

theorem Export.kept_of_same {e : StateEntry} (h : x.same e = true) : x.kept (some e) = some e :=
  Option.filter_some_pos h

theorem textExport_same_entry (key : SourceId) (p : Path) (body : Text) :
    (textExport env key p body).same (textExport env key p body).entry = true :=
  decide_eq_true ⟨rfl, rfl⟩

theorem docExport_same_entry (key : SourceId) (p : Path) (r : Text × Dict Text Text) :
    (docExport env key p r).same (docExport env key p r).entry = true := by
  have hkeys : sameKeys r.2 r.2 = true := by simp [sameKeys]
  exact decide_eq_true ⟨rfl, hkeys, rfl⟩

theorem pngExport_same_entry (key : SourceId) (p : Path) (signature : Text) :
    (pngExport env key p signature).same (pngExport env key p signature).entry = true :=
  decide_eq_true rfl

variable {saved : Dict SourceId StateEntry} {archiveClock clock : SourceId → Text}
  {t : FileTree Content} {taken : List Path} {d : Ctx} {key : SourceId} {e : StateEntry}

def Ctx.count (c : Ctx) : Ctx := { c with counts := { c.counts with total := c.counts.total + 1 } }

theorem Again.take (h : Again saved t taken d) (p : Path) : Again saved t (p :: taken) (d.take p) :=
  ⟨h.tree, congrArg (p :: ·) h.taken, h.idle, h.kept⟩

theorem Again.kept_set (h : Again saved t taken d) (he : saved.get? key = some e) (key' : SourceId)
    (e' : StateEntry) (hget : (d.newState.set key e).get? key' = some e') :
    saved.get? key' = some e' := by
  rw [Dict.get?_set] at hget
  split at hget
  · next heq =>
    cases hget
    exact heq ▸ he
  · exact h.kept key' e' hget

theorem Again.keep (h : Again saved t taken d) {d₁ : Ctx} (hrests : Rests d.count d₁)
    (he : saved.get? key = some e) :
    Again saved t taken { d₁ with
      newState := d₁.newState.set key e
      counts := { d₁.counts with unchanged := d₁.counts.unchanged + 1 } } := by
  have htally := hrests.silent.tally
  have htotal : d₁.counts.total = d.counts.total + 1 := hrests.total
  simp only [SummaryCounts.tally, Ctx.count, Tally.mk.injEq] at htally
  obtain ⟨hcreated, hupdated, hrenamed, harchived, hunchanged, herrors⟩ := htally
  refine ⟨hrests.tree.trans h.tree, hrests.silent.unrecorded.2.trans h.taken,
    ⟨hcreated.trans h.idle.created, hupdated.trans h.idle.updated, hrenamed.trans h.idle.renamed,
      harchived.trans h.idle.archived, herrors.trans h.idle.errors, ?_⟩, ?_⟩
  · rw [hunchanged, htotal, h.idle.unchanged]
  · rw [hrests.silent.unrecorded.1]
    exact h.kept_set he

section
variable {file : DriveFile} {p : Path} {existing : Option StateEntry} {c c' : Ctx}

theorem exec_renderGdoc_again (hdry : env.dryRun = false) (hm : file.mime = .doc)
    (himages : ImagesOut env file) {r : Text × Dict Text Text}
    (h : exec (renderGdoc env file p existing) c = (.ok r, c')) (he : e.localPath = p) (d : Ctx) :
    ∃ d', exec (renderGdoc (env.next saved archiveClock clock) file p (some e)) d = (.ok r, d') ∧
      Rests d d' := by
  obtain ⟨doc, c₁, images, hdoc, -, hloop, rfl⟩ := exec_renderGdoc_ok.1 h
  obtain ⟨d', hd', hrests⟩ := foldlM_images_again hdry (fun image himage =>
    himages hm doc hdoc image.1 (List.fst_mem_of_mem_zipIdx himage)) hloop d
  have hstays : followSidecar (env.next saved archiveClock clock) p (some e) = pure () :=
    if_neg fun hmoved => hmoved.1 he
  refine ⟨d', exec_renderGdoc_ok.2 ⟨doc, d, images, hdoc, ?_, hd', rfl⟩, hrests⟩
  rw [hstays]
  rfl

theorem knownPng_of_signature {md5 : Text} (h : file.md5 = some md5)
    (he : e.contentSignature = "md5:".toList ++ md5) : knownPng file (some e) = some e := by
  rw [knownPng, h, Option.bind_some]
  exact Option.filter_some_pos (decide_eq_true he)

variable {x : Export}

theorem processPng_again (hx : (∃ e, knownPng file existing = some e ∧
        pngExport env (.file file.id) p e.contentSignature = x) ∨
      (knownPng file existing = none ∧ ∃ bytes, env.drive.pngBytes file.id = .ok bytes ∧
        ¬ bytes.length > oneMib ∧
        pngExport env (.file file.id) p (pngSignature env file bytes) = x)) (d : Ctx) :
    exec (processPng (env.next saved archiveClock clock) file p (some (x.filed false existing))) d =
      (.ok (), { d with
        newState := d.newState.set (.file file.id) (x.filed false existing)
        counts := { d.counts with unchanged := d.counts.unchanged + 1 } }) := by
  have hknown : ∀ e, knownPng file (some e) = some e →
      exec (processPng (env.next saved archiveClock clock) file p (some e)) d = (.ok (), { d with
        newState := d.newState.set (.file file.id) e
        counts := { d.counts with unchanged := d.counts.unchanged + 1 } }) := by
    intro e he
    rw [processPng_known he]
    exact exec_settle_kept (Export.kept_of_same (decide_eq_true rfl)) _ _ d
  rcases hx with ⟨e, he, rfl⟩ | ⟨-, bytes, hbytes, hsize, rfl⟩
  · obtain ⟨md5, hmd5, hfilter⟩ := Option.bind_eq_some_iff.1 he
    refine hknown _ (knownPng_of_signature hmd5 ?_)
    have hsignature := (Option.filter_eq_some_iff.1 hfilter).2
    exact (of_decide_eq_true (Export.same_filed (pngExport_same_entry _ p _) existing)).trans
      (of_decide_eq_true hsignature)
  · have hsame : (pngExport (env.next saved archiveClock clock) (.file file.id) p
        (pngSignature env file bytes)).same
        ((pngExport env (.file file.id) p (pngSignature env file bytes)).filed false existing) = true :=
      Export.same_filed (pngExport_same_entry _ p _) existing
    cases hmd5 : file.md5 with
    | some md5 =>
      refine hknown _ (knownPng_of_signature hmd5 ((of_decide_eq_true hsame).trans ?_))
      rw [pngSignature, hmd5]
      rfl
    | none =>
      have hunknown : ∀ o, knownPng file o = none := fun o => by rw [knownPng, hmd5]; rfl
      have hfetched : (env.next saved archiveClock clock).drive.pngBytes file.id = .ok bytes := hbytes
      rw [processPng_fetched (hunknown _), hfetched, lift, pure_bind, if_neg hsize]
      exact exec_settle_kept (Export.kept_of_same hsame) _ _ d

/-- The handler of a file that has been exported finds the entry it was filed as, and keeps it. -/
theorem processKind_again (hdry : env.dryRun = false) (hmime : file.mime ≠ .sheet)
    (hx : judged env file p existing c = .ok (some x)) (himages : ImagesOut env file) :
    ∃ d₁, Rests d d₁ ∧
      exec (processKind (env.next saved archiveClock clock) file p (some (x.filed false existing)))
        d = (.ok (), { d₁ with
          newState := d₁.newState.set (.file file.id) (x.filed false existing)
          counts := { d₁.counts with unchanged := d₁.counts.unchanged + 1 } }) := by
  unfold processKind
  cases hm : file.mime with
  | doc =>
    obtain ⟨r, c₁, hrender, hsize, rfl⟩ := (judged_doc hm).1 hx
    have hsame : (docExport (env.next saved archiveClock clock) (.file file.id) p r).same
        ((docExport env (.file file.id) p r).filed false existing) = true :=
      Export.same_filed (docExport_same_entry (.file file.id) p r) existing
    obtain ⟨d₁, hd₁, hrests⟩ := exec_renderGdoc_again hdry hm himages hrender (docExport_same hsame) d
    refine ⟨d₁, hrests, ?_⟩
    dsimp only
    rw [processGdoc_eq, exec_bind, hd₁]
    dsimp only
    rw [finishGdoc_eq, if_neg hsize]
    exact exec_settle_kept (Export.kept_of_same hsame) _ _ d₁
  | slides =>
    obtain ⟨deck, hdeck, hsize, rfl⟩ := (judged_slides hm).1 hx
    refine ⟨d, Rests.refl d, ?_⟩
    have hfetched : (env.next saved archiveClock clock).drive.presentation file.id = .ok deck := hdeck
    have hsame : ∀ body, (textExport (env.next saved archiveClock clock) (.file file.id) p body).same
        ((textExport env (.file file.id) p body).filed false existing) = true := fun body =>
      Export.same_filed (textExport_same_entry (.file file.id) p body) existing
    dsimp only
    rw [processGslide, hfetched, lift, pure_bind]
    refine (congrArg (exec · d) (if_neg hsize)).trans ?_
    rw [applyGslideState, applyState_eq]
    exact exec_settle_kept (Export.kept_of_same (hsame _)) _ _ d
  | png => exact ⟨d, Rests.refl d, processPng_again ((judged_png hm).1 hx) d⟩
  | sheet => exact absurd hm hmime

theorem processTab_again {s : Tab × Text}
    (hx : judgedTab env file s.1 (tabPath env file s.2) = .ok (some x))
    (hsaved : saved.get? (.tab file.id s.1.sheetId) =
      some (x.filed false (env.state.get? (.tab file.id s.1.sheetId)))) :
    Follows (fun c d => Again saved t c.takenPaths d) (processTab env file s)
      (processTab (env.next saved archiveClock clock) file s) := by
  rintro c d h ⟨⟩ c' hc
  obtain ⟨values, hvalues, hsize, rfl⟩ := judgedTab_eq_some.1 hx
  have hfetched : (env.next saved archiveClock clock).drive.sheetValues file.id s.1.title =
      .ok values := hvalues
  have hsame : ∀ body, (textExport (env.next saved archiveClock clock) (.tab file.id s.1.sheetId)
      (tabPath env file s.2) body).same ((textExport env (.tab file.id s.1.sheetId)
        (tabPath env file s.2) body).filed false
          (env.state.get? (.tab file.id s.1.sheetId))) = true := fun body =>
    Export.same_filed (textExport_same_entry (.tab file.id s.1.sheetId) _ body) _
  have htaken : c'.takenPaths = tabPath env file s.2 :: c.takenPaths :=
    (processTab_settles hc).counts.1
  refine ⟨_, ?_, htaken ▸ (h.take _).keep (Rests.refl _) hsaved⟩
  have htake : exec (processTab (env.next saved archiveClock clock) file s) d =
      exec (exportTab (env.next saved archiveClock clock) file s.1 (tabPath env file s.2))
        (d.take (tabPath env file s.2)) := rfl
  rw [htake, exportTab, hfetched]
  refine (congrArg (exec · (d.take (tabPath env file s.2))) (if_neg hsize)).trans ?_
  have hrecorded : (env.next saved archiveClock clock).state.get? (.tab file.id s.1.sheetId) =
      saved.get? (.tab file.id s.1.sheetId) := rfl
  rw [hrecorded, hsaved, applyTabState, applyState_eq]
  exact exec_settle_kept (Export.kept_of_same (hsame _)) _ _ (d.turn (tabPath env file s.2))

theorem processListed_again (hdry : env.dryRun = false)
    (hgids : ∀ tabs, env.drive.tabs file.id = .ok tabs → (tabs.map (·.sheetId)).Nodup)
    (htabs : file.mime = .sheet → ∃ tabs, env.drive.tabs file.id = .ok tabs)
    (hfiled : ∀ key, SourceOf env file key → FiledIn env c file saved key)
    (himages : ImagesOut env file) (hagain : Again saved t c.takenPaths d)
    (h : exec (processListed env file) c = (.ok (), c')) :
    ∃ d', exec (processListed (env.next saved archiveClock clock) file) d = (.ok (), d') ∧
      Again saved t c'.takenPaths d' := by
  by_cases hmime : file.mime = .sheet
  · obtain ⟨tabs, htabs⟩ := htabs hmime
    have htabs' : (env.next saved archiveClock clock).drive.tabs file.id = .ok tabs := htabs
    rw [processListed, if_pos hmime, processGsheet, htabs] at h
    rw [processListed, if_pos hmime, processGsheet, htabs']
    refine Follows.forM (R := fun c d => Again saved t c.takenPaths d) (fun s hs => ?_) c d hagain
      () c' h
    have hsource : SourceOf env file (.tab file.id s.1.sheetId) :=
      ⟨hmime, rfl, tabs, htabs, List.mem_map_of_mem
        ((resolveTabCollisions_perm env.deps.unicode tabs).mem_iff.1 (List.mem_map_of_mem hs))⟩
    obtain ⟨p, x, hx, hsaved⟩ := hfiled _ hsource
    obtain ⟨tabs', s', htabs'', hs', hgid, -, hjudged⟩ := hx.tab_inv
    cases htabs.symm.trans htabs''
    cases List.inj_on_of_nodup_map (resolveTabCollisions_nodup env.deps.unicode (hgids tabs htabs))
      hs' hs hgid
    exact processTab_again hjudged hsaved
  · obtain ⟨p, x, hx, hsaved⟩ := hfiled (.file file.id) ⟨hmime, rfl⟩
    obtain ⟨hp, hjudged⟩ := hx.file_inv
    obtain ⟨p', hp', hturn⟩ := processListed_turn hmime h
    cases hp.symm.trans hp'
    have htaken : c'.takenPaths = p :: c.takenPaths := by
      rcases hturn with ⟨e, c₁, -, -, hraised, rfl⟩ | ⟨-, hsettles⟩
      · exact hraised.1.2
      · rw [hjudged] at hsettles
        exact hsettles.counts.1
    obtain ⟨d₁, hrests, hd₁⟩ := processKind_again (d := d.turn p) hdry hmime hjudged himages
    rw [htaken]
    refine ⟨_, processListed_ends hmime ?_ ((show (env.next saved archiveClock clock).state.get?
      (.file file.id) = _ from hsaved) ▸ hd₁), (hagain.take p).keep hrests hsaved⟩
    rw [hagain.taken]
    exact hp

end

/-! ## The archive pass once more -/

/-- The archive pass finds the entries it has archived before, and leaves them as they are. -/
theorem handleArchivedKey_again {files : List DriveFile} (hdry : env.dryRun = false)
    (hsteady : Steady env.drive)
    (htabs : ∀ file ∈ files, file.mime = .sheet → ∃ tabs, env.drive.tabs file.id = .ok tabs)
    (harchived : ∀ key, Absent env files key → ArchivedAs env files key (saved.get? key))
    (he : saved.get? key = some e) (gids : TabGids) :
    Triple (fun d => KnownTabs env gids ∧ Again saved t [] d)
      (handleArchivedKey (env.next saved archiveClock clock) files gids (key, e))
      (fun gids' d => KnownTabs env gids' ∧ Again saved t [] d) (fun _ _ => False) := by
  rintro d ⟨hknown, hagain⟩
  have hsteady' : Steady (env.next saved archiveClock clock).drive := hsteady
  have hknown' : KnownTabs (env.next saved archiveClock clock) gids := hknown
  have hlearns : ∀ gids', Learned (env.next saved archiveClock clock) gids key gids' →
      KnownTabs (env.next saved archiveClock clock) gids' := fun _ h => h.knownTabs hsteady' hknown'
  have hstep := handleArchivedKey_step (env.next saved archiveClock clock) files gids key e
  generalize handleArchivedKey (env.next saved archiveClock clock) files gids (key, e) = step
    at hstep ⊢
  cases hstep with
  | raises hunanswered _ =>
    cases key with
    | file id => exact hunanswered.elim
    | tab id gid =>
      obtain ⟨hsheet, herror⟩ := hunanswered
      obtain ⟨file, hfile, rfl⟩ := List.mem_map.1 hsheet
      obtain ⟨hfile, hmime⟩ := List.mem_filter.1 hfile
      obtain ⟨tabs, hok⟩ := htabs file hfile (of_decide_eq_true hmime)
      have hok' : (env.next saved archiveClock clock).drive.tabs file.id = .ok tabs := hok
      rw [knownGids_eq hsteady' hknown', hok'] at herror
      cases herror
  | gone hlearned hgone =>
    have habsent : Absent env files key := (gone_iff_absent hsteady' hknown').1 hgone
    obtain ⟨e₀, -, rfl⟩ := Option.map_eq_some_iff.1
      (((harchived key habsent).absent habsent).symm.trans he)
    have hsome := archivedNow_isSome hdry key e₀
    have hkept : exec (archiveEntry (env.next saved archiveClock clock) key (archivedNow env key e₀)) d =
        (.ok (), { d.count with
          newState := d.newState.set key (archivedNow env key e₀)
          counts := { d.count.counts with unchanged := d.count.counts.unchanged + 1 } }) := by
      rw [archiveEntry, exec_bind, if_pos hsome]
      rfl
    rw [exec_bind, hkept]
    exact ⟨hlearns _ hlearned, hagain.keep (Rests.refl _) he⟩
  | present hlearned _ _ _ =>
    exact ⟨hlearns _ hlearned, hagain.tree, hagain.taken, hagain.idle,
      hagain.kept_set he⟩
  | listed _ _ => exact ⟨hknown, hagain⟩

theorem handleArchived_again {files : List DriveFile} (hdry : env.dryRun = false)
    (hsteady : Steady env.drive) (hkeys : saved.keys.Nodup)
    (htabs : ∀ file ∈ files, file.mime = .sheet → ∃ tabs, env.drive.tabs file.id = .ok tabs)
    (harchived : ∀ key, Absent env files key → ArchivedAs env files key (saved.get? key)) :
    ∃ d, exec (handleArchived (env.next saved archiveClock clock) files) (Ctx.start t) = (.ok (), d) ∧
      Again saved t [] d := by
  have hstart : Again saved t [] (Ctx.start t) :=
    ⟨rfl, rfl, ⟨rfl, rfl, rfl, rfl, rfl, rfl⟩, fun _ _ h => by cases h⟩
  have hloop := Triple.foldlM
    (I := fun _ gids (d : Ctx) => KnownTabs env gids ∧ Again saved t [] d)
    (fun (a : SourceId × StateEntry) ha _ gids =>
      @handleArchivedKey_again ν δ π env saved archiveClock clock t a.1 a.2 files
        hdry hsteady htabs harchived (Dict.get?_of_mem hkeys ha) gids) ([] : TabGids)
  have hpass : Triple (fun d => KnownTabs env ([] : TabGids) ∧ Again saved t [] d)
      (handleArchived (env.next saved archiveClock clock) files) (fun _ d => Again saved t [] d)
      (fun _ _ => False) :=
    Triple.bind hloop fun _ => Triple.pure fun _ h => h.2
  have hend := hpass (Ctx.start t) ⟨by simp [KnownTabs], hstart⟩
  rcases hexec : exec (handleArchived (env.next saved archiveClock clock) files) (Ctx.start t) with
    ⟨e | ⟨⟩, d⟩ <;> rw [hexec] at hend
  · exact hend.elim
  · exact ⟨d, rfl, hend⟩

/-! ## The run once more -/

theorem ArchivedAs.again {files : List DriveFile} {found : Option StateEntry}
    (hsaved : ArchivedAs env files key (saved.get? key))
    (h : ArchivedAs (env.next saved archiveClock clock) files key found)
    (hkept : ∀ e, found = some e → saved.get? key = some e) : found = saved.get? key := by
  by_cases hlisted : Listed files key
  · rw [h.listed hlisted, hsaved.listed hlisted]
  by_cases habsent : Absent env files key
  · have hfound := h.absent habsent
    cases hget : (env.next saved archiveClock clock).state.get? key with
    | none => exact hfound.trans ((congrArg _ hget).trans hget.symm)
    | some e =>
      rw [hget] at hfound
      exact hfound.trans (hkept _ hfound).symm
  · exact h.present hlisted habsent

end

def brokenDrive : Drive Text Text := loreDrive "alpha".toList (.ok "body".toList)

def brokenWorld : World := (runSync imageDeps loreRoot false brokenDrive firstLocal.world).1

def picturesWorld : World :=
  (runSync pictureDeps loreRoot false (pictureDrive [⟨betaId, .doc, "beta".toList, [], none⟩])
    firstLocal.world).1

/-- The document `beta` is renamed, and there is another one, in a folder called `beta.md`. -/
def renamedDrive : Drive DocsRenderer.Document Text :=
  pictureDrive [⟨loreId, .doc, "alpha".toList, ["beta.md".toList], none⟩,
    ⟨betaId, .doc, "gamma".toList, [], none⟩]

end Archiviste.Sync
