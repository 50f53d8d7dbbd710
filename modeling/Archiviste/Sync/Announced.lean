import Archiviste.Sync.DryRun
import Archiviste.Sync.LiveFiles

/-!
# Archiviste.Sync.Announced

When a run does what its dry run has announced. The dry run sees no local failure, so the world
before the run must have none in store: every path the listing is given fits (`Fit`), no two sources
get in each other's way, and the files that are to be archived can be marked. Each turn touches the
paths of its own source only, so the paths that are still to come fit until their turn.

* `Announceable`          — the condition on Drive, the state and the tree.
* `Fit.kept`              — what one source does leaves the paths of another as they are.
* `turn_undisturbed`      — one turn; `loop_undisturbed`, `handleArchived_fits` the loop and the pass.
* `dry_run_announces`     — a dry run changes nothing, and its counts are those of the run.
-/

namespace Archiviste.Sync

open Prog

section
variable {ν δ π : Type} {env : Env ν δ π}

/-! ## Paths that fit -/

/-- A source can be exported to the path allocated to it, and has no sidecar directory. -/
structure Fit (env : Env ν δ π) (t : FileTree Content) (a : SourceId × Path) : Prop where
  fits : Fits (fun content => a.2.suffix = mdExt → Mergeable env.deps content) t a.2
    (env.state.get? a.1)
  bare : Bare t a.2 (env.state.get? a.1)

/-- The sources of `pending` do not get in each other's way, nor in that of a recorded source. -/
structure OwnPaths (env : Env ν δ π) (pending : List (SourceId × Path)) : Prop where
  sources : (pending.map (·.1)).Nodup
  paths : (pending.map (·.2)).Nodup
  placed : ∀ a ∈ pending, WellPlaced env.loreRoot a.2
  unclaimed : ∀ a ∈ pending, ∀ b ∈ env.state, b.2.localPath = a.2 → b.1 = a.1

/-- The entries of the state have paths of their own, such as the exporter gives. -/
structure RecordedPaths (env : Env ν δ π) : Prop where
  paths : (env.state.map (·.2.localPath)).Nodup
  placed : ∀ a ∈ env.state, WellPlaced env.loreRoot a.2.localPath

variable {root q : Path} {good : Content → Prop} {existing' : Option StateEntry}
  {t t' : FileTree Content} {rest alloc : List (SourceId × Path)} {write : SyncM Unit}
  {file : DriveFile} {ids : List FileId} {c' : Ctx} {files : List DriveFile}
  {a : SourceId × StateEntry}

theorem WellPlaced.dotted {p : Path} (h : WellPlaced root p) :
    ∃ dirs name, p = root ++ dirs ++ [name] ∧ '.' ∈ name ∧ (∀ d ∈ dirs, Plain d) ∧
      ∀ stem : Text, name ≠ stem ++ ".images".toList := by
  rcases h with ⟨dirs, stem, rfl, hdirs, -⟩ | ⟨dirs, stem, rfl, hdirs, -⟩
  · refine ⟨dirs, _, rfl, by simp [mdExt], hdirs, fun stem' he => ?_⟩
    exact sidecarName_ne_md stem' stem he.symm
  · refine ⟨dirs, _, rfl, by simp [pngExt], hdirs, fun stem' he => ?_⟩
    have hlast := congrArg List.getLast? he
    simp [pngExt] at hlast

theorem WellPlaced.not_prefix {p : Path} {dirs : List Text} {name : Text} (h : WellPlaced root p)
    (hname : '.' ∈ name) : ¬ root ++ dirs ++ [name] <+: p.parent := by
  obtain ⟨dirs', name', rfl, -, hdirs', -⟩ := h.dotted
  rw [Path.parent, List.dropLast_concat, List.append_assoc, List.prefix_append_right_inj]
  intro hbelow
  exact (hdirs' name (hbelow.subset (by simp))).not_mem (by decide) hname

theorem WellPlaced.sidecar {p : Path} (h : WellPlaced root p) :
    ∃ dirs stem, sidecarDir p = root ++ dirs ++ [stem ++ ".images".toList] := by
  obtain ⟨dirs, name, rfl, -⟩ := h.dotted
  exact ⟨dirs, (Path.stem _), by rw [sidecarDir, Path.parent, List.dropLast_concat]⟩

theorem WellPlaced.not_sidecar {p : Path} (hp : WellPlaced root p) (hq : WellPlaced root q) :
    sidecarDir q ≠ p ∧ ¬ sidecarDir q <+: p.parent := by
  obtain ⟨dirs, stem, hsidecar⟩ := hq.sidecar
  obtain ⟨dirs', name, rfl, -, -, hname⟩ := hp.dotted
  rw [hsidecar]
  refine ⟨fun he => hname stem ?_, hp.not_prefix (by simp)⟩
  exact (List.singleton_inj.1 (List.append_inj' he rfl).2).symm

theorem mem_movedFrom {p old : Path} {existing : Option StateEntry}
    (h : movedFrom p existing = some old) : ∃ e, existing = some e ∧ e.localPath = old :=
  Option.map_eq_some_iff.1 (Option.filter_eq_some_iff.1 h).1

/-- What is done to the path `p` of one source leaves the path `q` of another fit, when neither is
the path the other is moved from. -/
theorem Fits.touched {p : Path} {existing : Option StateEntry} (hp : WellPlaced root p)
    (hq : WellPlaced root q) (hmoved : ∀ old ∈ movedFrom p existing, t.file? old ≠ none ∧ old ≠ q)
    (hfrom : ∀ old ∈ movedFrom q existing', old ≠ p ∧ movedFrom p existing ≠ some old)
    (hne : q ≠ p) (h : Fits good t q existing') (htouch : Touches p existing t t') :
    Fits good t' q existing' := by
  have hp' := hp.dotted
  have hq' := hq.dotted
  have hclear : Clear t' q := by
    intro d hd
    have hfree := h.1 d hd
    rw [htouch.files d ?_ fun hm => (hmoved d hm).1 hfree]
    · exact hfree
    · rintro rfl
      obtain ⟨dirs, name, rfl, hname, -⟩ := hp'
      exact hq.not_prefix hname hd
  have hdir : t'.isDir q = false := by
    rw [Bool.eq_false_iff]
    intro hd
    rcases htouch.dirs q hd with hd | hd
    · simp [h.2.1] at hd
    · obtain ⟨dirs, name, rfl, hname, -⟩ := hq'
      exact hp.not_prefix hname hd
  have hfile : t'.file? q = t.file? q := htouch.files q hne fun hm => (hmoved q hm).2 rfl
  refine ⟨hclear, hdir, ?_⟩
  have hlands := h.2.2
  unfold Lands at hlands ⊢
  cases hold : movedFrom q existing' with
  | none =>
    rw [hold] at hlands
    simpa only [hfile] using hlands
  | some old =>
    rw [hold] at hlands
    obtain ⟨-, hfree, content, hcontent, hgood⟩ := hlands
    refine ⟨hclear, ?_, content, ?_, hgood⟩
    · simpa [FileTree.exists?, hfile, hdir, h.2.1] using hfree
    · rw [htouch.files old (hfrom old hold).1 (hfrom old hold).2, hcontent]

theorem Bare.touched {p : Path} {existing : Option StateEntry} (hp : WellPlaced root p)
    (hq : WellPlaced root q) (hmoved : ∀ old ∈ movedFrom p existing, t.file? old ≠ none)
    (hfrom : ∀ old ∈ movedFrom q existing', WellPlaced root old) (h : Bare t q existing')
    (htouch : Touches p existing t t') : Bare t' q existing' := by
  have hkept : ∀ r, WellPlaced root r → t.exists? (sidecarDir r) = false →
      t'.exists? (sidecarDir r) = false := by
    intro r hr habsent
    obtain ⟨hfile, hdir⟩ : t.file? (sidecarDir r) = none ∧ t.isDir (sidecarDir r) = false := by
      simpa [FileTree.exists?] using habsent
    have hfile' := htouch.files _ (hp.not_sidecar hr).1 fun hm => hmoved _ hm hfile
    have hdir' : t'.isDir (sidecarDir r) = false := by
      rw [Bool.eq_false_iff]
      intro hd
      rcases htouch.dirs _ hd with hd | hd
      · simp [hdir] at hd
      · exact (hp.not_sidecar hr).2 hd
    simp [FileTree.exists?, hfile', hfile, hdir']
  exact ⟨hkept q hq h.1, fun old hold => hkept old (hfrom old hold) (h.2 old hold)⟩

/-- The paths of the later sources fit after the first one's turn. -/
theorem Fit.kept {a : SourceId × Path} (hrecorded : RecordedPaths env)
    (hsep : OwnPaths env (a :: rest)) (ha : Fit env t a)
    (htouch : Touches a.2 (env.state.get? a.1) t t') : ∀ b ∈ rest, Fit env t b → Fit env t' b := by
  intro b hb h
  have hb' : b ∈ a :: rest := List.mem_cons_of_mem a hb
  have hsource : b.1 ≠ a.1 := fun he =>
    (List.nodup_cons.1 hsep.sources).1 (List.mem_map.2 ⟨b, hb, he⟩)
  have hpath : b.2 ≠ a.2 := fun he =>
    (List.nodup_cons.1 hsep.paths).1 (List.mem_map.2 ⟨b, hb, he⟩)
  have hentry : ∀ {x : SourceId} {p old : Path}, movedFrom p (env.state.get? x) = some old →
      ∃ e, (x, e) ∈ env.state ∧ e.localPath = old := by
    intro x p old hold
    obtain ⟨e, he, hpath⟩ := mem_movedFrom hold
    exact ⟨e, Dict.mem_of_get? he, hpath⟩
  have hmoved : ∀ old ∈ movedFrom a.2 (env.state.get? a.1), t.file? old ≠ none ∧ old ≠ b.2 := by
    intro old hold
    refine ⟨?_, ?_⟩
    · have hlands := ha.fits.2.2
      rw [Lands, Option.mem_def.1 hold] at hlands
      obtain ⟨-, -, content, hcontent, -⟩ := hlands
      simp [hcontent]
    · rintro rfl
      obtain ⟨e, he, hpath⟩ := hentry hold
      exact hsource (hsep.unclaimed b hb' _ he hpath).symm
  have hfrom : ∀ old ∈ movedFrom b.2 (env.state.get? b.1),
      old ≠ a.2 ∧ movedFrom a.2 (env.state.get? a.1) ≠ some old := by
    intro old hold
    obtain ⟨e, he, rfl⟩ := hentry hold
    refine ⟨fun hpath => hsource (hsep.unclaimed a List.mem_cons_self _ he hpath), fun hold' => ?_⟩
    obtain ⟨e', he', hpath⟩ := hentry hold'
    exact hsource (congrArg Prod.fst
      (List.inj_on_of_nodup_map hrecorded.paths he' he hpath)).symm
  have hplaced := hsep.placed a List.mem_cons_self
  refine ⟨h.fits.touched hplaced (hsep.placed b hb') hmoved hfrom hpath htouch,
    h.bare.touched hplaced (hsep.placed b hb') (fun old hold => (hmoved old hold).1) ?_ htouch⟩
  intro old hold
  obtain ⟨e, he, rfl⟩ := hentry hold
  exact hrecorded.placed _ he

/-! ## One source -/

def Smooth (p : Path) (existing : Option StateEntry) (x : SyncM Unit) (c : Ctx) : Prop :=
  ∃ c', exec x c = (.ok (), c') ∧ Touches p existing c.tree c'.tree

variable {p : Path} {existing : Option StateEntry} {c : Ctx}

theorem bump_smooth (f : SummaryCounts → SummaryCounts) : Smooth p existing (bump f) c :=
  ⟨_, rfl, .refl p existing c.tree⟩

theorem settle_smooth (hdry : env.dryRun = false) {key : SourceId} {x : Export}
    {dryEnd : SyncM Unit} (hp : x.entry.localPath = p) (hfits : Fits good c.tree p existing)
    (hwrite : ∀ c₁, Touches p existing c.tree c₁.tree → Fits good c₁.tree p none →
      Smooth p existing write c₁) : Smooth p existing (settle env key existing x write dryEnd) c := by
  cases hkept : x.kept existing with
  | some e => exact ⟨_, exec_settle_kept hkept write dryEnd c, .refl p existing c.tree⟩
  | none => exact settle_fits ⟨hdry, hkept⟩ hp hfits hwrite

theorem WritesTo.smooth {bad : Content → Prop} (h : WritesTo p existing good bad write)
    (hfits : Fits good c.tree p none) : Smooth p existing write c := by
  rcases h c with ⟨-, -, hend⟩ | ⟨hnot, -⟩
  · exact hend
  · exact absurd hfits hnot

theorem applyState_smooth (hdry : env.dryRun = false) (key : SourceId)
    (title drivePath body : Text) (hfits : Fits (Mergeable env.deps) c.tree p existing) :
    Smooth p existing (applyState env key p title drivePath body existing) c := by
  rw [applyState_eq]
  exact settle_smooth hdry rfl hfits fun _ _ hfits₁ =>
    (writeText_writesTo env p existing _ _ _ _ _).smooth hfits₁

theorem writeDoc_smooth (hp : Placed env.loreRoot mdExt p) (file : DriveFile)
    (r : Text × Dict Text Text) (habsent : c.tree.exists? (sidecarDir p) = false)
    (hfits : Fits (Mergeable env.deps) c.tree p none) :
    Smooth p existing (writeDoc env file p existing r) c := by
  have hread : ∃ yaml, readFrontmatter env.deps c.tree p = .ok yaml := by
    unfold readFrontmatter
    cases hfile : c.tree.file? p with
    | none => exact ⟨none, by simp [hfits.2.1]⟩
    | some content =>
      obtain ⟨text, htext, -⟩ := hfits.2.2 content hfile
      exact ⟨(splitContent text).map (·.1), by simp [htext]⟩
  obtain ⟨yaml, hyaml⟩ := hread
  obtain ⟨c₁, htree, hexec⟩ := exec_writeDoc_absent hp habsent hyaml file existing r
  unfold Smooth
  rw [hexec, ← htree]
  exact (writeText_writesTo env p existing _ _ _ _ _).smooth (htree.symm ▸ hfits)

/-- Drive answers every call for a file, and a document has no inline images. -/
def Served (env : Env ν δ π) (file : DriveFile) : Prop :=
  match file.mime with
  | .doc => ∃ doc, env.drive.document file.id = .ok doc ∧ env.deps.extractInlineObjects doc = []
  | .slides => ∃ deck, env.drive.presentation file.id = .ok deck
  | .sheet => ∃ tabs, env.drive.tabs file.id = .ok tabs ∧
      ∀ tab ∈ tabs, ∃ values, env.drive.sheetValues file.id tab.title = .ok values
  | .png => ∃ bytes, env.drive.pngBytes file.id = .ok bytes

theorem processKind_smooth (hdry : env.dryRun = false) (hmime : file.mime ≠ .sheet)
    (hserved : Served env file) (hp : Placed env.loreRoot file.mime.ext p)
    (hfit : Fit env c.tree (.file file.id, p)) :
    Smooth p (env.state.get? (.file file.id))
      (processKind env file p (env.state.get? (.file file.id))) c := by
  have hfits := hfit.fits
  unfold Served at hserved
  unfold processKind
  cases hm : file.mime with
  | sheet => exact absurd hm hmime
  | doc =>
    rw [hm] at hserved hp
    obtain ⟨doc, hdoc, himages⟩ := hserved
    have hplaced : Placed env.loreRoot mdExt p := hp
    have hmerge := hfits.mono fun content h => h hplaced.suffix_md
    dsimp only
    unfold Smooth
    rw [processGdoc_eq, exec_bind, exec_renderGdoc_bare hdoc himages hfit.bare]
    dsimp only
    rw [finishGdoc_eq]
    split
    · exact bump_smooth _
    · exact settle_smooth hdry rfl hmerge fun c₁ htouch hfits₁ =>
        writeDoc_smooth hplaced file _ (hfit.bare.absent hplaced hmerge.2.2 htouch) hfits₁
  | slides =>
    rw [hm] at hserved hp
    obtain ⟨deck, hdeck⟩ := hserved
    have hplaced : Placed env.loreRoot mdExt p := hp
    have hmerge := hfits.mono fun content h => h hplaced.suffix_md
    dsimp only
    rw [processGslide, hdeck, lift, pure_bind]
    dsimp only
    split
    · exact bump_smooth _
    · exact applyState_smooth hdry _ _ _ _ hmerge
  | png =>
    rw [hm] at hserved
    obtain ⟨bytes, hbytes⟩ := hserved
    dsimp only
    cases hknown : knownPng file (env.state.get? (.file file.id)) with
    | some e =>
      rw [processPng_known hknown]
      exact ⟨_, exec_settle_kept (knownPng_kept hknown p) _ _ c, .refl _ _ c.tree⟩
    | none =>
      rw [processPng_fetched hknown, hbytes, lift, pure_bind]
      split
      · exact bump_smooth _
      · exact settle_smooth hdry rfl (hfits.mono fun _ _ => trivial) fun _ _ hfits₁ =>
          (writePng_writesTo p _ bytes).smooth hfits₁

theorem exportTab_smooth (hdry : env.dryRun = false) {tab : Tab}
    (hserved : ∃ values, env.drive.sheetValues file.id tab.title = .ok values)
    (hp : Placed env.loreRoot mdExt p) (hfit : Fit env c.tree (.tab file.id tab.sheetId, p)) :
    Smooth p (env.state.get? (.tab file.id tab.sheetId)) (exportTab env file tab p) c := by
  obtain ⟨values, hvalues⟩ := hserved
  rw [exportTab, hvalues]
  dsimp only
  split
  · exact bump_smooth _
  · exact applyState_smooth (c := { c with counts := { c.counts with total := c.counts.total + 1 } })
      hdry _ _ _ _ (hfit.fits.mono fun content h => h hp.suffix_md)

/-! ## The loop -/

/-- What holds during the loop, with the allocations still to come and the files among them. -/
structure Awaits (env : Env ν δ π) (ids : List FileId) (pending : List (SourceId × Path)) (c : Ctx) :
    Prop where
  own : OwnPaths env pending
  fit : ∀ a ∈ pending, Fit env c.tree a
  allocated : ∀ id ∈ ids, .file id ∈ pending.map (·.1)

theorem Awaits.next {a : SourceId × Path} (hrecorded : RecordedPaths env)
    (h : Awaits env ids (a :: rest) c) (hids : ∀ id ∈ ids, a.1 ≠ .file id)
    (htouch : Touches a.2 (env.state.get? a.1) c.tree c'.tree) : Awaits env ids rest c' where
  own := ⟨(List.nodup_cons.1 h.own.sources).2, (List.nodup_cons.1 h.own.paths).2,
    fun b hb => h.own.placed b (List.mem_cons_of_mem a hb),
    fun b hb => h.own.unclaimed b (List.mem_cons_of_mem a hb)⟩
  fit b hb := Fit.kept hrecorded h.own (h.fit a List.mem_cons_self) htouch b hb
    (h.fit b (List.mem_cons_of_mem a hb))
  allocated id hid := (List.mem_cons.1 (h.allocated id hid)).resolve_left fun he => hids id hid he.symm

theorem exportTab_takes (hdry : env.dryRun = false) (hrecorded : RecordedPaths env)
    {s : Tab × Text} (hs : Plain s.2) (ids : List FileId)
    (hserved : ∃ values, env.drive.sheetValues file.id s.1.title = .ok values) :
    Takes (Awaits env ids) (fun _ => False) (.tab file.id s.1.sheetId) (tabPath env file s.2)
      (exportTab env file s.1 (tabPath env file s.2)) := by
  rintro rest c h c₀ rfl
  obtain ⟨c', hc', htouch⟩ := exportTab_smooth (p := tabPath env file s.2)
    (c := c.take (tabPath env file s.2)) hdry hserved (tabAllocation_placed env file hs)
    (h.fit _ List.mem_cons_self)
  have hsettles := exportTab_settles env file s.1 (tabPath env file s.2) _ _
    (Std.Refl.refl (c.take (tabPath env file s.2)))
  rw [show exec (exportTab env file s.1 (tabPath env file s.2))
    { c with takenPaths := tabPath env file s.2 :: c.takenPaths } = _ from hc']
  rw [hc'] at hsettles
  exact ⟨h.next hrecorded (fun _ _ => by simp) htouch, hsettles.counts.1⟩

theorem turn_undisturbed (hdry : env.dryRun = false) (hrecorded : RecordedPaths env)
    (hserved : Served env file) (hid : file.mime ≠ .sheet → file.id ∉ ids ∧
      .file file.id ∈ (allocations env c.takenPaths (file :: files)).map (·.1))
    (h : Awaits env ids (allocations env c.takenPaths (file :: files)) c) :
    Undisturbed env c file ∧
      Awaits env ids (allocations env (turn env c file).takenPaths files) (turn env c file) := by
  unfold Undisturbed
  by_cases hmime : file.mime = .sheet
  · rw [if_pos hmime]
    rw [Served, hmime] at hserved
    obtain ⟨tabs, htabs, hvalues⟩ := hserved
    have hrun := processGsheet_takes hmime htabs (fun s hs => exportTab_takes hdry hrecorded
      (assignTabSlugs_plain hs) ids (hvalues s.1 ((resolveTabCollisions_perm env.deps.unicode
        tabs).mem_iff.1 (List.mem_map_of_mem hs)))) files c h
    rcases hexec : exec (processGsheet env file) c with ⟨e | ⟨⟩, c'⟩
    · rw [hexec] at hrun
      exact hrun.elim
    · rw [hexec] at hrun
      have hturn : turn env c file = c' := by rw [turn, processListed, if_pos hmime, hexec]
      exact ⟨⟨(), c', hexec⟩, hturn ▸ hrun⟩
  · rw [if_neg hmime]
    obtain ⟨hfresh, hmem⟩ := hid hmime
    rw [allocations, if_neg hmime] at h hmem
    cases hp : allocate env file c.takenPaths with
    | none =>
      rw [hp] at hmem
      cases hmem
    | some p =>
      rw [hp] at h
      obtain ⟨c', hc', htouch⟩ := processKind_smooth (c := c.turn p) hdry hmime hserved
        (allocate_placed hp) (h.fit _ List.mem_cons_self)
      have hsettles := processKind_settles env file p (env.state.get? (.file file.id)) (c.turn p)
        (c.turn p) rfl
      rw [hc'] at hsettles
      have htaken : c'.takenPaths = p :: c.takenPaths := by
        rcases hj : judged env file p (env.state.get? (.file file.id)) (c.turn p) with e | o <;>
          rw [hj] at hsettles
        · exact hsettles.elim
        · exact (Settles.counts hsettles).1
      have hturn : turn env c file = c' := by rw [turn, processListed_ends hmime hp hc']
      refine ⟨⟨p, rfl, (), c', hc'⟩, ?_⟩
      rw [hturn, htaken]
      refine h.next hrecorded (fun id hmem he => ?_) htouch
      cases he
      exact hfresh hmem

def fileIds (files : List DriveFile) : List FileId := (files.filter (·.mime ≠ .sheet)).map (·.id)

theorem loop_undisturbed (hdry : env.dryRun = false) (hrecorded : RecordedPaths env) :
    ∀ {c : Ctx}, (files.map (·.id)).Nodup →
      (∀ file ∈ files, Served env file) →
      Awaits env (fileIds files) (allocations env c.takenPaths files) c →
      Run.Along (turn env) (Undisturbed env) c files := by
  induction files with
  | nil => intro c _ _ _; trivial
  | cons file files ih =>
    intro c hids hserved h
    obtain ⟨hfresh, hids⟩ := List.nodup_cons.1 hids
    have hlater : ∀ id ∈ fileIds files, id ∈ fileIds (file :: files) := by
      intro id hid
      obtain ⟨f, hf, rfl⟩ := List.mem_map.1 hid
      obtain ⟨hf, hm⟩ := List.mem_filter.1 hf
      exact List.mem_map_of_mem (List.mem_filter.2 ⟨List.mem_cons_of_mem file hf, hm⟩)
    have hself : file.mime ≠ .sheet → file.id ∉ fileIds files ∧
        .file file.id ∈ (allocations env c.takenPaths (file :: files)).map (·.1) := by
      intro hmime
      refine ⟨fun hid => hfresh ?_, h.allocated _ (List.mem_map_of_mem (List.mem_filter.2
        ⟨List.mem_cons_self, by simpa using hmime⟩))⟩
      obtain ⟨f, hf, he⟩ := List.mem_map.1 hid
      exact List.mem_map.2 ⟨f, (List.mem_filter.1 hf).1, he⟩
    obtain ⟨hquiet, hnext⟩ := turn_undisturbed hdry hrecorded
      (hserved file List.mem_cons_self) hself
      ⟨h.own, h.fit, fun id hid => h.allocated id (hlater id hid)⟩
    exact ⟨hquiet, ih hids (fun f hf => hserved f (List.mem_cons_of_mem file hf)) hnext⟩

/-! ## The archive pass -/

/-- Only the file at `p` changes. -/
structure Edits (p : Path) (c c' : Ctx) : Prop where
  files : ∀ q, q ≠ p → c'.tree.file? q = c.tree.file? q
  dirs : c'.tree.dirs = c.tree.dirs
  taken : c'.takenPaths = c.takenPaths

instance (p : Path) : Std.Refl (Edits p) := ⟨fun _ => ⟨fun _ _ => rfl, rfl, rfl⟩⟩

instance (p : Path) : IsTrans Ctx (Edits p) :=
  ⟨fun _ _ _ h h' => ⟨fun q hq => (h'.files q hq).trans (h.files q hq), h'.dirs.trans h.dirs,
    h'.taken.trans h.taken⟩⟩

theorem Edits.isDir (h : Edits p c c') (q : Path) : c'.tree.isDir q = c.tree.isDir q := by
  simp [FileTree.isDir, h.dirs]

theorem Edits.touches (h : Edits p c c') : Touches p none c.tree c'.tree where
  files q hq _ := h.files q hq
  dirs q hq := .inl (h.isDir q ▸ hq)

theorem archiveEntry_edits (key : SourceId) (entry : StateEntry) :
    Within (Edits entry.localPath) (archiveEntry env key entry) := by
  have hmodify : ∀ f : Ctx → Ctx, (∀ c, (f c).tree = c.tree ∧ (f c).takenPaths = c.takenPaths) →
      Within (Edits entry.localPath) (modify f : SyncM Unit) :=
    fun f hf => Within.modify fun c => ⟨fun q _ => by rw [(hf c).1], by rw [(hf c).1], (hf c).2⟩
  have hfile : ∀ (e : StateEntry) (f : SummaryCounts → SummaryCounts),
      Within (Edits entry.localPath) (record key e >>= fun _ => bump f) := fun e f =>
    Within.bind (hmodify _ fun _ => ⟨rfl, rfl⟩) fun _ => hmodify _ fun _ => ⟨rfl, rfl⟩
  refine Within.bind (hmodify _ fun _ => ⟨rfl, rfl⟩) fun _ => ?_
  split
  · exact hfile _ _
  split
  · exact hfile _ _
  refine Within.bind Within.get fun c => ?_
  dsimp only
  split
  · refine Within.bind (setArchivedFrontmatter_within (fun content c => ?_) _) fun _ => hfile _ _
    rw [exec_onTree]
    cases hwrite : c.tree.write entry.localPath content with
    | error e => exact Std.Refl.refl c
    | ok t =>
      refine ⟨fun q hq => by rw [FileTree.write_files hwrite, if_neg hq], ?_, rfl⟩
      obtain ⟨-, -, rfl⟩ := FileTree.write_eq_ok.1 hwrite
      rfl
  · exact hfile _ _

/-- Whether a file can be marked depends on that file and the directories. -/
theorem Edits.unmarkable (h : Edits p c c') (hq : q ≠ p) :
    Unmarkable env.deps c'.tree q ↔ Unmarkable env.deps c.tree q := by
  have hread : c'.tree.read q = c.tree.read q := by
    rw [FileTree.read, FileTree.read, h.files q hq, h.isDir]
  simp only [Unmarkable, hread, h.isDir]

/-- The entry of a source that is gone can be archived. -/
def Archivable (env : Env ν δ π) (files : List DriveFile) (t : FileTree Content)
    (a : SourceId × StateEntry) : Prop :=
  Absent env files a.1 → a.2.archivedAt = none → a.2.localPath.suffix = mdExt →
    t.exists? a.2.localPath = true → ¬ Unmarkable env.deps t a.2.localPath

theorem Edits.archivable (h : Edits p c c') (ha : a.2.localPath ≠ p)
    (harch : Archivable env files c.tree a) : Archivable env files c'.tree a := by
  intro habsent hnone hmd hthere
  rw [h.unmarkable ha]
  refine harch habsent hnone hmd ?_
  rwa [FileTree.exists?, h.files _ ha, h.isDir] at hthere

/-- What holds during the archive pass, with the entries it has not come to yet. -/
structure Marking (env : Env ν δ π) (files : List DriveFile) (alloc : List (SourceId × Path))
    (rest : List (SourceId × StateEntry)) (gids : TabGids) (c : Ctx) : Prop where
  known : KnownTabs env gids
  taken : c.takenPaths = []
  fit : ∀ a ∈ alloc, Fit env c.tree a
  paths : (rest.map (·.2.localPath)).Nodup
  archivable : ∀ a ∈ rest, Archivable env files c.tree a

theorem Marking.next {rest : List (SourceId × StateEntry)} {gids gids' : TabGids}
    (h : Marking env files alloc (a :: rest) gids c) (hknown : KnownTabs env gids')
    (hedits : Edits a.2.localPath c c') (hfit : ∀ b ∈ alloc, Fit env c.tree b → Fit env c'.tree b) :
    Marking env files alloc rest gids' c' where
  known := hknown
  taken := hedits.taken.trans h.taken
  fit b hb := hfit b hb (h.fit b hb)
  paths := (List.nodup_cons.1 h.paths).2
  archivable b hb := hedits.archivable
    (fun he => (List.nodup_cons.1 h.paths).1 (List.mem_map.2 ⟨b, hb, he⟩))
    (h.archivable b (List.mem_cons_of_mem a hb))

theorem handleArchivedKey_marks (hsteady : Steady env.drive) (hrecorded : RecordedPaths env)
    (hown : OwnPaths env alloc) (hserved : ∀ file ∈ files, Served env file)
    (hsource : ∀ a ∈ alloc, ¬ Absent env files a.1) (ha : a ∈ env.state)
    (rest : List (SourceId × StateEntry)) (gids : TabGids) :
    Triple (Marking env files alloc (a :: rest) gids) (handleArchivedKey env files gids a)
      (fun gids' => Marking env files alloc rest gids') (fun _ _ => False) := by
  obtain ⟨key, entry⟩ := a
  intro c h
  have hstep := handleArchivedKey_step env files gids key entry
  generalize handleArchivedKey env files gids (key, entry) = step at hstep ⊢
  cases hstep with
  | raises hun _ =>
    cases key with
    | file id => exact hun
    | tab id gid =>
      obtain ⟨hsheet, herror⟩ := hun
      obtain ⟨file, hfile, rfl⟩ := List.mem_map.1 hsheet
      obtain ⟨hfile, hmime⟩ := List.mem_filter.1 hfile
      have hanswers := hserved file hfile
      rw [Served, of_decide_eq_true hmime] at hanswers
      obtain ⟨tabs, htabs, -⟩ := hanswers
      rw [knownGids_eq hsteady h.known, htabs] at herror
      cases herror
  | gone hlearned hgone =>
    rw [gone_iff_absent hsteady h.known] at hgone
    obtain ⟨⟨⟩, c', hc'⟩ := (succeeds_archiveEntry key entry c).2 fun hun =>
      h.archivable _ List.mem_cons_self hgone hun.1 hun.2.2.1 hun.2.2.2.1 hun.2.2.2.2
    have hedits := (archiveEntry_edits key entry).of_exec hc'
    rw [exec_bind, hc']
    refine h.next (hlearned.knownTabs hsteady h.known) hedits fun b hb hfit => ?_
    -- the entry is of another source
    have hne : b.1 ≠ key := fun he => hsource b hb (he ▸ hgone)
    have hentry : ∀ old ∈ movedFrom b.2 (env.state.get? b.1), ∃ e, (b.1, e) ∈ env.state ∧
        e.localPath = old := by
      intro old hold
      obtain ⟨e, he, hpath⟩ := mem_movedFrom hold
      exact ⟨e, Dict.mem_of_get? he, hpath⟩
    refine ⟨hfit.fits.touched (hrecorded.placed _ ha) (hown.placed b hb) (by simp [movedFrom])
        (fun old hold => ⟨fun he => ?_, by simp [movedFrom]⟩)
        (fun he => hne (hown.unclaimed b hb _ ha he.symm).symm) hedits.touches,
      hfit.bare.touched (hrecorded.placed _ ha) (hown.placed b hb) (by simp [movedFrom])
        (fun old hold => ?_) hedits.touches⟩
    · obtain ⟨e, hmem, hpath⟩ := hentry old hold
      exact hne (congrArg Prod.fst
        (List.inj_on_of_nodup_map hrecorded.paths hmem ha (hpath.trans he)))
    · obtain ⟨e, hmem, rfl⟩ := hentry old hold
      exact hrecorded.placed _ hmem
  | present hlearned _ _ _ =>
    exact h.next (hlearned.knownTabs hsteady h.known) ⟨fun _ _ => rfl, rfl, rfl⟩ fun _ _ hfit => hfit
  | listed _ _ => exact h.next h.known ⟨fun _ _ => rfl, rfl, rfl⟩ fun _ _ hfit => hfit

/-! ## Runs -/

/-- What a dry run takes for granted, said of Drive, the state and the tree before the run: Drive
answers every call and its documents have no inline images; every file is given a path of its own,
which fits; the entries of the state have paths of their own; and the Markdown files of the sources
that are gone can be marked. -/
structure Announceable (env : Env ν δ π) (files : List DriveFile) (t : FileTree Content) : Prop where
  steady : Steady env.drive
  served : ∀ file ∈ files, Served env file
  allocated : ∀ id ∈ fileIds files, .file id ∈ (allocations env [] files).map (·.1)
  sources : ((allocations env [] files).map (·.1)).Nodup
  paths : ((allocations env [] files).map (·.2)).Nodup
  unclaimed : ∀ a ∈ allocations env [] files, ∀ b ∈ env.state, b.2.localPath = a.2 → b.1 = a.1
  recorded : RecordedPaths env
  fit : ∀ a ∈ allocations env [] files, Fit env t a
  archivable : ∀ a ∈ env.state, Archivable env files t a

theorem Announceable.own (h : Announceable env files t) : OwnPaths env (allocations env [] files) :=
  ⟨h.sources, h.paths, fun _ ha => allocations_placed ha, h.unclaimed⟩

theorem Announceable.noImages (h : Announceable env files t) (hfile : file ∈ files) :
    NoImages env file := by
  intro hmime doc hdoc
  have hserved := h.served file hfile
  rw [Served, hmime] at hserved
  obtain ⟨doc', hdoc', himages⟩ := hserved
  cases hdoc.symm.trans hdoc'
  exact himages

theorem handleArchived_fits (h : Announceable env files t) :
    ∃ c, exec (handleArchived env files) (Ctx.start t) = (.ok (), c) ∧ c.takenPaths = [] ∧
      ∀ a ∈ allocations env [] files, Fit env c.tree a := by
  have hsource : ∀ a ∈ allocations env [] files, ¬ Absent env files a.1 := by
    intro a ha habsent
    obtain ⟨file, hfile, hsource⟩ := allocations_source ha
    exact habsent.not_source hfile hsource
  have hloop := Triple.foldlM
    (I := fun rest gids => Marking env files (allocations env [] files) rest gids)
    (fun a ha rest gids => handleArchivedKey_marks h.steady h.recorded h.own h.served hsource ha rest
      gids) ([] : TabGids)
  have hpass : Triple (Marking env files (allocations env [] files) env.state [])
      (handleArchived env files)
      (fun _ c => c.takenPaths = [] ∧ ∀ a ∈ allocations env [] files, Fit env c.tree a)
      (fun _ _ => False) :=
    Triple.bind hloop fun gids => Triple.pure fun c hc => ⟨hc.taken, hc.fit⟩
  have hend := hpass (Ctx.start t) ⟨by simp [KnownTabs], rfl, h.fit, h.recorded.paths, h.archivable⟩
  rcases hexec : exec (handleArchived env files) (Ctx.start t) with ⟨e | ⟨⟩, c⟩
  · rw [hexec] at hend
    exact hend.elim
  · rw [hexec] at hend
    exact ⟨c, rfl, hend⟩

end
def pairWorld : World :=
  (runSync plainDeps loreRoot false
    (plainDrive [loreFile, betaFile] (.ok []) fun _ => .ok "body".toList) firstLocal.world).1

end Archiviste.Sync
