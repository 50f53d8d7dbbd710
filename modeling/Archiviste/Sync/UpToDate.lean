import Archiviste.Sync.LiveFiles
import Archiviste.Sync.DryRun

/-!
# Archiviste.Sync.UpToDate

After a run without errors, whether the state and the files are up to date with Drive: every source
of the listing recorded at the path of this run, with the signature of its content and as not
archived, and every other key as archived.

They are not always. An image whose checksum has not changed keeps the entry it had, at the path it
had, and a source that comes back to Drive unchanged keeps its entry as archived
(`restored_and_moved`). These are the only ways, in histories whose runs are `Regular`.

* `Current`, `UpToDate`  — what is asked of a listed file, and of the run.
* `Regular`              — what is asked of each run of the history.
* `KeepsCurrent`         — what a turn keeps as unchanged has the path of this run and is not archived.
* `up_to_date_iff`       — the run is up to date exactly when its turns keep what is current.
-/

namespace Archiviste.Sync

open Prog

section
variable {ν δ π : Type}

/-! ## What is asked of a run -/

/-- Every source of a listed file is recorded at the path of this run, with the signature of its
content, and is not archived, in the state and in its Markdown file. -/
def Current (env : Env ν δ π) (saved : World) (c : Ctx) (file : DriveFile) : Prop :=
  ∀ key, SourceOf env file key → ∃ p x e, Prepares env c file key p x ∧
    saved.state.get? key = some e ∧ e.localPath = p ∧
    e.contentSignature = x.entry.contentSignature ∧ e.archivedAt = none ∧
    (p.suffix = mdExt → Live env.deps env.loreRoot saved.tree p key)

/-- The run over `files` from the tree `t` left what Drive has in `saved`. -/
structure UpToDate (env : Env ν δ π) (files : List DriveFile) (t : FileTree Content)
    (saved : World) : Prop where
  present : Run.Along (turn env) (Current env saved) (archivedCtx env (sortFiles files) t)
    (sortFiles files)
  absent : ∀ key ∈ env.state.keys, (∀ file ∈ files, ¬ SourceOf env file key) →
    ∃ e, saved.state.get? key = some e ∧ e.archivedAt.isSome = true

/-- An entry that a turn keeps as unchanged has the path of this run, and is not archived. -/
def KeepsCurrent (env : Env ν δ π) (c : Ctx) (file : DriveFile) : Prop :=
  ∀ key p x e, Prepares env c file key p x → x.kept (env.state.get? key) = some e →
    e.localPath = p ∧ e.archivedAt = none

/-- No file of the listing was recorded as a workbook before and is none now, or the other way. -/
def KindsKept (state : Dict SourceId StateEntry) (files : List DriveFile) : Prop :=
  ∀ file ∈ files, (.file file.id ∈ state.keys → file.mime ≠ .sheet) ∧
    ∀ gid, .tab file.id gid ∈ state.keys → file.mime = .sheet

/-- A run that completes, over an orderly world and a Drive that does not change meanwhile. -/
structure Regular (deps : Deps ν δ π) (root : Path) (world : World) (drive : Drive δ π) : Prop where
  orderly : Orderly deps root world drive
  steady : Steady drive
  ids : ∀ files, drive.listing = .ok files → (files.map (·.id)).Nodup
  gids : ∀ id tabs, drive.tabs id = .ok tabs → (tabs.map (·.sheetId)).Nodup
  completes : ∃ counts, (runSync deps root false drive world).2 = .ok counts

variable {env : Env ν δ π} {c : Ctx} {file : DriveFile} {key : SourceId} {p p' : Path}
  {x x' : Export}

/-! ## What a turn prepares -/

theorem Prepares.source (h : Prepares env c file key p x) : SourceOf env file key := by
  cases h with
  | file hmime _ _ => exact ⟨hmime, rfl⟩
  | @tab tabs s _ hmime htabs hs _ =>
    exact ⟨hmime, rfl, tabs, htabs, List.mem_map_of_mem
      ((resolveTabCollisions_perm env.deps.unicode tabs).mem_iff.1 (List.mem_map_of_mem hs))⟩

theorem Prepares.unique
    (hgids : ∀ tabs, env.drive.tabs file.id = .ok tabs → (tabs.map (·.sheetId)).Nodup)
    (h : Prepares env c file key p x) (h' : Prepares env c file key p' x') : p = p' ∧ x = x' := by
  cases key with
  | file id =>
    obtain ⟨hp, hx⟩ := h.file_inv
    obtain ⟨hp', hx'⟩ := h'.file_inv
    obtain rfl := Option.some.inj (hp.symm.trans hp')
    exact ⟨rfl, Option.some.inj (Except.ok.inj (hx.symm.trans hx'))⟩
  | tab id gid =>
    obtain ⟨tabs, s, htabs, hs, hgid, rfl, hx⟩ := h.tab_inv
    obtain ⟨tabs', s', htabs', hs', hgid', rfl, hx'⟩ := h'.tab_inv
    cases htabs.symm.trans htabs'
    obtain rfl := List.inj_on_of_nodup_map
      (resolveTabCollisions_nodup env.deps.unicode (hgids tabs htabs)) hs hs' (hgid.trans hgid'.symm)
    exact ⟨rfl, Option.some.inj (Except.ok.inj (hx.symm.trans hx'))⟩

/-- The entry of an export has its path and is not archived, and an entry with which the export is
needless has its signature. -/
structure Export.Of (x : Export) (p : Path) : Prop where
  path : x.entry.localPath = p
  live : x.entry.archivedAt = none
  signature : ∀ e, x.same e = true → e.contentSignature = x.entry.contentSignature

theorem textExport_of (env : Env ν δ π) (key : SourceId) (p : Path) (body : Text) :
    (textExport env key p body).Of p :=
  ⟨rfl, rfl, fun _ h => (of_decide_eq_true h).1⟩

theorem docExport_of (env : Env ν δ π) (key : SourceId) (p : Path) (r : Text × Dict Text Text) :
    (docExport env key p r).Of p :=
  ⟨rfl, rfl, fun _ h => (of_decide_eq_true h).1⟩

theorem pngExport_of (env : Env ν δ π) (key : SourceId) (p : Path) (signature : Text) :
    (pngExport env key p signature).Of p :=
  ⟨rfl, rfl, fun _ h => of_decide_eq_true h⟩

theorem Prepares.export_of (h : Prepares env c file key p x) : x.Of p := by
  cases h with
  | @file p x hmime _ hx =>
    cases hm : file.mime with
    | doc =>
      obtain ⟨r, c', -, -, rfl⟩ := (judged_doc hm).1 hx
      exact docExport_of env _ p r
    | slides =>
      obtain ⟨deck, -, -, rfl⟩ := (judged_slides hm).1 hx
      exact textExport_of env _ p _
    | png =>
      rcases (judged_png hm).1 hx with ⟨e, -, rfl⟩ | ⟨-, bytes, -, -, rfl⟩ <;>
        exact pngExport_of env _ p _
    | sheet => exact absurd hm hmime
  | tab _ _ _ hx =>
    obtain ⟨values, -, -, rfl⟩ := judgedTab_eq_some.1 hx
    exact textExport_of env _ _ _

/-! ## The history before the run -/

/-- What holds between runs: whose file each Markdown file is, and that those of entries that are not
archived say so. -/
structure WorldInv (deps : Deps ν δ π) (root : Path) (world : World) : Prop where
  files : LocalInv deps root (⟨world, fun _ => none⟩ : Local ν)
  live : LiveSaved deps root world
  keys : world.state.keys.Nodup

variable {deps : Deps ν δ π} {root : Path} {world world' : World} {drive : Drive δ π}
  {files : List DriveFile} {counts : SummaryCounts}

theorem WorldInv.of_firstRun (h : FirstRun root (⟨world, fun _ => none⟩ : Local ν)) :
    WorldInv deps root world where
  files := LocalInv.of_firstRun h
  live x e he := by
    rw [h.1] at he
    cases he
  keys := by
    rw [h.1]
    exact List.nodup_nil

theorem WorldInv.run (law : deps.codec.Lawful) (h : WorldInv deps root world)
    (hregular : Regular deps root world drive) :
    WorldInv deps root (runSync deps root false drive world).1 := by
  obtain ⟨counts, hcounts⟩ := hregular.completes
  cases hlisting : drive.listing with
  | error e =>
    rw [runSync, hlisting] at hcounts
    cases hcounts
  | ok files =>
    have hrun : runSync deps root false drive world =
        ((runSync deps root false drive world).1, .ok counts) := Prod.ext rfl hcounts
    exact ⟨runSync_localInv law h.files hregular.orderly,
      runSync_live law h.files h.live h.keys hregular.orderly hlisting
        (hregular.ids files hlisting) hregular.gids hregular.steady hrun,
      saved_keys_nodup h.keys hlisting hrun⟩

theorem WorldInv.history (law : deps.codec.Lawful) (h : WorldInv deps root world)
    {runs : List (Bool × Drive δ π)}
    (hruns : Run.Along (syncStep deps root)
      (fun world run => run.1 = false → Regular deps root world run.2) world runs) :
    WorldInv deps root (Run.exec (syncStep deps root) world runs) := by
  refine Run.Always.last (Run.always_of_along (P := WorldInv deps root) ?_ runs world h hruns)
  rintro world ⟨dry, drive⟩ h hregular
  cases dry with
  | true =>
    rw [syncStep, dryRun_world]
    exact h
  | false => exact h.run law (hregular rfl)

/-! ## The run -/

/-- The keys that Drive has no source for are the absent ones, when the kinds of files stay and the
tabs of every workbook are known. -/
theorem absent_of_not_source (hkinds : KindsKept env.state files)
    (htabs : ∀ file ∈ files, file.mime = .sheet → ∃ tabs, env.drive.tabs file.id = .ok tabs)
    (hkey : key ∈ env.state.keys) (hnot : ∀ file ∈ files, ¬ SourceOf env file key) :
    Absent env files key := by
  cases key with
  | file id =>
    intro hmem
    obtain ⟨file, hfile, rfl⟩ := List.mem_map.1 hmem
    exact hnot file hfile ⟨(hkinds file hfile).1 hkey, rfl⟩
  | tab id gid =>
    by_cases hmem : id ∈ files.map (·.id)
    · obtain ⟨file, hfile, rfl⟩ := List.mem_map.1 hmem
      have hsheet := (hkinds file hfile).2 gid hkey
      obtain ⟨tabs, htabs⟩ := htabs file hfile hsheet
      refine .inr ⟨List.mem_map_of_mem (List.mem_filter.2 ⟨hfile, decide_eq_true hsheet⟩), tabs,
        htabs, fun hgid => hnot file hfile ⟨hsheet, rfl, tabs, htabs, hgid⟩⟩
    · exact .inl hmem

variable {saved : World}

theorem FiledIn.current (hlive : LiveSaved env.deps env.loreRoot saved)
    (hkept : KeepsCurrent env c file)
    (h : ∀ key, SourceOf env file key → FiledIn env c file saved.state key) :
    Current env saved c file := by
  intro key hkey
  obtain ⟨p, x, hx, hsaved⟩ := h key hkey
  obtain ⟨hpath, hnone, hsignature⟩ := hx.export_of
  have hentry : (x.filed false (env.state.get? key)).localPath = p ∧
      (x.filed false (env.state.get? key)).contentSignature = x.entry.contentSignature ∧
      (x.filed false (env.state.get? key)).archivedAt = none := by
    rw [Export.filed, if_neg (by simp)]
    cases hk : x.kept (env.state.get? key) with
    | none => exact ⟨hpath, rfl, hnone⟩
    | some e =>
      obtain ⟨hp, harchived⟩ := hkept key p x e hx hk
      exact ⟨hp, hsignature e (Option.filter_eq_some_iff.1 hk).2, harchived⟩
  obtain ⟨hp, hsig, harchived⟩ := hentry
  refine ⟨p, x, _, hx, hsaved, hp, hsig, harchived, fun hsuffix => ?_⟩
  have hfile := hlive key _ hsaved harchived (hp.symm ▸ hsuffix)
  rwa [hp] at hfile

theorem Current.keeps
    (hgids : ∀ tabs, env.drive.tabs file.id = .ok tabs → (tabs.map (·.sheetId)).Nodup)
    (h : Current env saved c file)
    (hfiled : ∀ key, SourceOf env file key → FiledIn env c file saved.state key) :
    KeepsCurrent env c file := by
  intro key p x e hx hkept
  obtain ⟨p', x', hx', hsaved⟩ := hfiled key hx.source
  obtain ⟨p'', x'', e', hx'', hsaved', hpath, -, harchived, -⟩ := h key hx.source
  obtain ⟨-, rfl⟩ := hx.unique hgids hx'
  obtain ⟨rfl, -⟩ := hx.unique hgids hx''
  rw [Export.filed, if_neg (by simp), hkept] at hsaved
  cases hsaved.symm.trans hsaved'
  exact ⟨hpath, harchived⟩

/-- After a run without errors, at the end of any history of regular runs from a first one, the
state and the files are up to date with Drive exactly when every entry that was kept as unchanged
has the path of this run and is not archived. -/
theorem up_to_date_iff (deps : Deps ν δ π) (law : deps.codec.Lawful) (root : Path) (world : World)
    (hfirst : FirstRun root (⟨world, fun _ => none⟩ : Local ν)) (runs : List (Bool × Drive δ π))
    (hruns : Run.Along (syncStep deps root)
      (fun world run => run.1 = false → Regular deps root world run.2) world runs)
    (before saved : World) (hbefore : Run.exec (syncStep deps root) world runs = before)
    (drive : Drive δ π) (hregular : Regular deps root before drive) (files : List DriveFile)
    (hlisting : drive.listing = .ok files) (hkinds : KindsKept before.state files)
    (counts : SummaryCounts) (hrun : runSync deps root false drive before = (saved, .ok counts))
    (herrors : counts.errors = 0) :
    let env : Env ν δ π := ⟨deps, drive, before.state, false, root⟩
    UpToDate env files before.tree saved ↔
      Run.Along (turn env) (KeepsCurrent env) (archivedCtx env (sortFiles files) before.tree)
        (sortFiles files) := by
  intro env
  have hinv : WorldInv deps root before := hbefore ▸ (WorldInv.of_firstRun hfirst).history law hruns
  have hlive : LiveSaved deps root saved := runSync_live law hinv.files hinv.live hinv.keys
    hregular.orderly hlisting (hregular.ids files hlisting) hregular.gids hregular.steady hrun
  obtain ⟨-, htabs, hfiled, harchived⟩ := clean_run hinv.keys hlisting (hregular.ids files hlisting)
    hregular.gids hregular.steady hrun herrors
  constructor
  · intro h
    exact (h.present.and hfiled).mono fun c file h => h.1.keeps (hregular.gids file.id) h.2
  · intro h
    refine ⟨(h.and hfiled).mono fun c file h => FiledIn.current hlive h.1 h.2, fun key hkey hnot => ?_⟩
    have habsent := absent_of_not_source hkinds htabs hkey hnot
    obtain ⟨e, he⟩ := Dict.get?_of_mem_keys hkey
    refine ⟨archivedNow env key e, ?_, archivedNow_isSome rfl key e⟩
    rw [(harchived key hnot).absent habsent, he]
    rfl

end
theorem loreDrive_regular {world : World} {document : Except Exn Text}
    (halloc : runAllocations plainDeps loreRoot (loreDrive "alpha".toList document) world.state =
      [(.file loreId, alphaPath)])
    (hstate : ∀ a ∈ world.state.map fun a => (a.1, a.2.localPath), a = (.file loreId, alphaPath))
    (hfiles : ∀ a ∈ world.tree.files.map fun f : Path × Content =>
      (f.1, (f.2.mapping plainDeps).bind (·.get? "source_id".toList)),
      a = (alphaPath, some (tokenCodec.str (SourceId.file loreId).text)))
    (counts : SummaryCounts)
    (hcounts : (runSync plainDeps loreRoot false (loreDrive "alpha".toList document) world).2 =
      .ok counts) : Regular plainDeps loreRoot world (loreDrive "alpha".toList document) where
  orderly := .of_single halloc hstate fun _ _ => fileOf_single hfiles
  steady _ _ := rfl
  ids := by
    rintro files ⟨⟩
    exact List.nodup_singleton _
  gids := by
    rintro id tabs ⟨⟩
    exact List.nodup_nil
  completes := ⟨counts, hcounts⟩

/-- A document that has been exported and then changed. -/
theorem up_to_date_loreWorld :
    let env := loreEnv (.ok "new body".toList)
    UpToDate env [loreFile] loreWorld.tree
      (runSync plainDeps loreRoot false env.drive loreWorld).1 := by
  intro env
  have hfirst : Regular plainDeps loreRoot firstLocal.world
      (loreDrive "alpha".toList (.ok "body".toList)) :=
    loreDrive_regular (by decide +kernel) (by decide) (by decide)
      { SummaryCounts.zero with total := 1, created := 1 } (by decide +kernel)
  have hsecond : Regular plainDeps loreRoot loreWorld env.drive :=
    loreDrive_regular (by decide +kernel) (by decide +kernel) (by decide +kernel)
      { SummaryCounts.zero with total := 1, updated := 1 } (by decide +kernel)
  refine (up_to_date_iff plainDeps tokenCodec_lawful loreRoot firstLocal.world firstLocal_firstRun
    [(false, loreDrive "alpha".toList (.ok "body".toList))] ⟨fun _ => hfirst, trivial⟩ loreWorld _ rfl
    env.drive hsecond [loreFile] rfl ?_ { SummaryCounts.zero with total := 1, updated := 1 }
    (by decide +kernel) rfl).2 ⟨?_, trivial⟩
  · intro file hfile
    cases List.mem_singleton.1 hfile
    refine ⟨fun _ => by decide, fun gid hgid => ?_⟩
    have hkeys : loreWorld.state.keys = [.file loreId] := by decide +kernel
    rw [hkeys] at hgid
    cases List.mem_singleton.1 hgid
  · -- nothing is kept, since the content has changed
    intro key p x e hx hkept
    cases hx with
    | tab hmime _ _ _ => cases hmime
    | file _ hp hjudged =>
      obtain rfl : p = alphaPath := Option.some.inj (hp.symm.trans (by decide +kernel))
      have hnone : (judged env loreFile alphaPath (env.state.get? (.file loreId))
          ((archivedCtx env [loreFile] loreWorld.tree).turn alphaPath)).map
          (Option.map fun x => (x.kept (env.state.get? (.file loreId))).isSome) =
            .ok (some false) := by decide +kernel
      rw [show judged env loreFile alphaPath (env.state.get? (.file loreId))
        ((archivedCtx env [loreFile] loreWorld.tree).turn alphaPath) = _ from hjudged] at hnone
      have hsome : (x.kept (env.state.get? (.file loreId))).isSome = true := by
        rw [show x.kept (env.state.get? (.file loreId)) = _ from hkept]
        rfl
      cases hsome.symm.trans (Option.some.inj (Except.ok.inj hnone))

/-- A document and an image, which is called `name`; its checksum stays. -/
def albumDrive (files : List DriveFile) : Drive Text Text :=
  { plainDrive files (.ok []) fun _ => .ok "body".toList with pngBytes := fun _ => .ok [1] }

def albumImage (name : Text) : DriveFile := ⟨betaId, .png, name, [], some "m".toList⟩

/-- Exported, then the document is deleted in Drive, then it is restored and the image renamed. -/
def albumWorld : World :=
  Run.exec (syncStep plainDeps loreRoot) firstLocal.world
    [(false, albumDrive [loreFile, albumImage "map".toList]),
      (false, albumDrive [albumImage "map".toList])]

theorem restored_and_moved :
    let drive := albumDrive [loreFile, albumImage "atlas".toList]
    let run := runSync plainDeps loreRoot false drive albumWorld
    run.2 = .ok { SummaryCounts.zero with total := 2, unchanged := 2 } ∧
      (run.1.state.get? (.file loreId)).map (·.archivedAt.isSome) = some true ∧
      ((run.1.tree.file? alphaPath).bind fun content =>
        (content.mapping plainDeps).bind (·.get? "archived".toList)) = some (tokenCodec.bool true) ∧
      (.file betaId, loreRoot ++ ["atlas.png".toList]) ∈
        runAllocations plainDeps loreRoot drive albumWorld.state ∧
      (run.1.state.get? (.file betaId)).map (·.localPath) =
        some (loreRoot ++ ["map.png".toList]) := by
  decide +kernel

end Archiviste.Sync
