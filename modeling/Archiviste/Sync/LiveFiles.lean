import Archiviste.Sync.CleanRuns

/-!
# Archiviste.Sync.LiveFiles

The Markdown file of a source says whether the source is archived. A run that completes, over paths
that are claimed by one source each (`Orderly`), keeps this in step with the state: the file at the
path of an entry that is not archived says `archived: false`.

* `Live`, `LiveEntry`     — such a file, and what an entry needs.
* `LiveInv.handled`       — the turn of a source keeps it, whatever it does.
* `runSync_live`          — a run that completes keeps it for the saved state.
-/

namespace Archiviste.Sync

open Prog

section
variable {ν δ π : Type}

/-! ## Files that are not archived -/

/-- A placed Markdown file that names the source and says that it is not archived. -/
def Live (deps : Deps ν δ π) (root : Path) (t : FileTree Content) (p : Path) (x : SourceId) : Prop :=
  Placed root mdExt p ∧ ∃ content m, t.file? p = some content ∧ content.mapping deps = some m ∧
    m.get? "source_id".toList = some (deps.codec.str x.text) ∧
    m.get? "archived".toList = some (deps.codec.bool false)

def LiveEntry (deps : Deps ν δ π) (root : Path) (t : FileTree Content) (x : SourceId)
    (e : StateEntry) : Prop :=
  e.archivedAt = none → e.localPath.suffix = mdExt → Live deps root t e.localPath x

variable {deps : Deps ν δ π} {root p q : Path} {t t' : FileTree Content} {x y : SourceId}
  {e : StateEntry}

theorem Live.fileOf (h : Live deps root t p x) : FileOf deps root t p x := by
  obtain ⟨hp, content, m, hfile, hm, hid, -⟩ := h
  exact ⟨hp, content, hfile, m, hm, hid⟩

theorem Live.of_file? (h : Live deps root t p x) (hfile : t'.file? p = t.file? p) :
    Live deps root t' p x := by
  rw [Live, hfile]
  exact h

theorem LiveEntry.sameDocs (h : LiveEntry deps root t x e) (hsame : SameDocs root t t') :
    LiveEntry deps root t' x e := by
  intro harchived hsuffix
  have hlive := h harchived hsuffix
  exact hlive.of_file? (hsame _ hlive.1)

/-! ## The turn of a source -/

variable {env : Env ν δ π} {user : UserValues ν} {alloc pending rest : List (SourceId × Path)}
  {ns ns' : Dict SourceId StateEntry} {existing : Option StateEntry}

theorem Positioned.file?_eq (h : Positioned root p existing t t') (hq : Placed root mdExt q)
    (hqp : q ≠ p) (hold : ∀ e, existing = some e → q ≠ e.localPath) : t'.file? q = t.file? q := by
  cases h with
  | fresh hsame => exact hsame q hq
  | inPlace _ hsame => exact hsame q hq
  | moved _ _ _ hmove => rw [hmove q hq, if_neg hqp, if_neg (hold _ rfl)]

theorem Handled.file?_eq (h : Handled env x p existing t ns t' ns')
    (hq : Placed env.loreRoot mdExt q) (hqp : q ≠ p)
    (hold : ∀ e, existing = some e → q ≠ e.localPath) : t'.file? q = t.file? q := by
  cases h with
  | untouched hsame _ => exact hsame q hq
  | moved _ hpos _ => exact hpos.file?_eq hq hqp hold
  | recorded _ hsame _ _ => exact hsame q hq
  | written _ _ _ _ hpos _ _ _ hwrite _ _ =>
    rw [hwrite q hq, if_neg hqp]
    exact hpos.file?_eq hq hqp hold

theorem Handled.live_other (hinv : RunInv env user alloc ((x, p) :: rest) t ns)
    (h : Handled env x p (env.state.get? x) t ns t' ns') (hy : y ≠ x)
    (hlive : Live env.deps env.loreRoot t q y) : Live env.deps env.loreRoot t' q y := by
  refine hlive.of_file? (h.file?_eq hlive.1 ?_ fun e he => ?_)
  · rintro rfl
    exact hy (hinv.free x q List.mem_cons_self y hlive.fileOf)
  · rintro rfl
    exact hy (hinv.old x e (Dict.mem_of_get? he) y hlive.fileOf)

/-- The file of the source itself, when its entry has its path: it has been written, or the entry is
the one it had and the file has not changed. -/
theorem Handled.live_self (law : env.deps.codec.Lawful)
    (h : Handled env x p existing t ns t' ns') (hns : ns' = ns.set x e) (he : e.localPath = p)
    (hfresh : ns.get? x = none ∨ ns.get? x = existing)
    (hold : ∀ e, existing = some e → LiveEntry env.deps env.loreRoot t x e) :
    LiveEntry env.deps env.loreRoot t' x e := by
  have hget : ns'.get? x = some e := hns ▸ Dict.get?_set_self _ _ _
  have hsame : ns' = ns → existing = some e := by
    rintro rfl
    rcases hfresh with hnone | hexisting
    · cases hnone.symm.trans hget
    · exact hexisting.symm.trans hget
  cases h with
  | untouched hdocs hns' => exact (hold e (hsame hns')).sameDocs hdocs
  | moved _ hpos hns' =>
    obtain rfl := hsame hns'
    cases hpos with
    | inPlace _ hdocs => exact (hold e rfl).sameDocs hdocs
    | moved hne _ _ _ => exact absurd he hne
  | recorded e' hdocs hns' hentry =>
    obtain rfl : e' = e := by
      rw [hns', Dict.get?_set_self] at hget
      exact Option.some.inj hget
    rcases hentry with hexisting | ⟨hpng, -⟩
    · exact (hold e' hexisting).sameDocs hdocs
    · intro _ hsuffix
      rw [he, hpng.suffix_png] at hsuffix
      exact absurd hsuffix (by decide)
  | written title drivePath now hp _ _ _ hbody hwrite _ _ =>
    intro _ _
    obtain ⟨m, hm, hvalues⟩ := mapping_fileText law (orderedFrontmatter env.deps.codec _
      (scriptManaged env.deps.codec title x.text drivePath now)) hbody
    refine ⟨he ▸ hp, _, m, ?_, hm, ?_, ?_⟩
    · rw [he, hwrite p hp, if_pos rfl]
    · rw [hvalues]
      exact get?_orderedFrontmatter_script _ (by simp [scriptManaged, Dict.get?_cons]) (by decide)
    · rw [hvalues]
      exact get?_orderedFrontmatter_script _ (by simp [scriptManaged, Dict.get?_cons]) (by decide)

/-- What holds during a run, for the sources still `pending`: the entries recorded so far and those
of the pending sources have live files, and of a pending source nothing is recorded but the entry of
a tab as it was. -/
structure LiveInv (env : Env ν δ π) (pending : List (SourceId × Path)) (t : FileTree Content)
    (ns : Dict SourceId StateEntry) : Prop where
  recorded : ∀ x e, ns.get? x = some e → LiveEntry env.deps env.loreRoot t x e
  awaited : ∀ x p, (x, p) ∈ pending → ∀ e, env.state.get? x = some e →
    LiveEntry env.deps env.loreRoot t x e
  fresh : ∀ x p, (x, p) ∈ pending → ns.get? x = none ∨
    (∃ id gid, x = .tab id gid) ∧ ns.get? x = env.state.get? x
  nodup : (pending.map (·.1)).Nodup

theorem LiveInv.handled (hlive : LiveInv env ((x, p) :: rest) t ns)
    (hinv : RunInv env user alloc ((x, p) :: rest) t ns)
    (h : Handled env x p (env.state.get? x) t ns t' ns')
    (hother : ∀ y, y ≠ x → ns'.get? y = ns.get? y)
    (hself : ∀ e, ns'.get? x = some e → LiveEntry env.deps env.loreRoot t' x e) :
    LiveInv env rest t' ns' := by
  obtain ⟨hfresh, hnodup⟩ := List.nodup_cons.1 hlive.nodup
  have hlater : ∀ y q, (y, q) ∈ rest → y ≠ x := fun y q hy heq =>
    hfresh (List.mem_map.2 ⟨(y, q), hy, heq⟩)
  refine ⟨fun y e hy => ?_, fun y q hq e he harchived hsuffix => ?_, fun y q hq => ?_, hnodup⟩
  · by_cases hyx : y = x
    · exact hyx ▸ hself e (hyx ▸ hy)
    · exact fun harchived hsuffix => h.live_other hinv hyx
        (hlive.recorded y e (hother y hyx ▸ hy) harchived hsuffix)
  · exact h.live_other hinv (hlater y q hq)
      (hlive.awaited y q (List.mem_cons_of_mem _ hq) e he harchived hsuffix)
  · rw [hother y (hlater y q hq)]
    exact hlive.fresh y q (List.mem_cons_of_mem _ hq)

/-! ## Tabs and files -/

variable {file : DriveFile} {c : Ctx} {X : Export} {files : List DriveFile}

theorem exec_exportTab_failed {tab : Tab} {c' : Ctx}
    (h : exec (exportTab env file tab p) c = (.ok (), c'))
    (hfailed : ∀ x, judgedTab env file tab p ≠ .ok (some x)) :
    c'.tree = c.tree ∧ c'.newState = c.newState := by
  unfold exportTab at h
  split at h
  · cases h; exact ⟨rfl, rfl⟩
  · cases h; exact ⟨rfl, rfl⟩
  · cases h
  next values hvalues =>
  dsimp only at h
  split at h
  · cases h; exact ⟨rfl, rfl⟩
  next hsize => exact absurd (judgedTab_eq_some.2 ⟨values, hvalues, hsize, rfl⟩) (hfailed _)

theorem judged_path (hpng : file.mime ≠ .png) (hsheet : file.mime ≠ .sheet)
    (h : judged env file p existing c = .ok (some X)) : (X.filed false existing).localPath = p := by
  cases hm : file.mime with
  | doc =>
    obtain ⟨r, c', -, -, rfl⟩ := (judged_doc hm).1 h
    exact Export.filed_path (fun e => docExport_same) existing
  | slides =>
    obtain ⟨deck, -, -, rfl⟩ := (judged_slides hm).1 h
    exact Export.filed_path (fun e => textExport_same) existing
  | png => exact absurd hm hpng
  | sheet => exact absurd hm hsheet

theorem judged_png_path (hpng : file.mime = .png)
    (h : judged env file p existing c = .ok (some X)) :
    (X.filed false existing).localPath = p ∨
      ∃ e, existing = some e ∧ X.filed false existing = e := by
  have hentry : X.entry.localPath = p := by
    rcases (judged_png hpng).1 h with ⟨e, -, rfl⟩ | ⟨-, bytes, -, -, rfl⟩ <;> rfl
  rw [Export.filed, if_neg (by simp)]
  cases hkept : X.kept existing with
  | none => exact .inl hentry
  | some e => exact .inr ⟨e, (Option.filter_eq_some_iff.1 hkept).1, rfl⟩

theorem processFile_outcome {c' : Ctx}
    (h : exec (processFile env file p existing) (c.take p) = (.ok (), c')) :
    c'.newState = c.newState ∨ ∃ X, judged env file p existing (c.turn p) = .ok (some X) ∧
      c'.newState = c.newState.set (.file file.id) (X.filed env.dryRun existing) := by
  have hturn := @exec_fileTurn ν δ π env file p existing c
  rw [show exec (takePath p >>= fun _ => processFile env file p existing) c = _ from h] at hturn
  have hsettles := processKind_settles env file p existing (c.turn p) (c.turn p) rfl
  rcases hk : exec (processKind env file p existing) (c.turn p) with ⟨e | a, c₁⟩
  · rw [hk] at hturn hsettles
    dsimp only at hturn
    split at hturn
    · cases hturn
      exact .inl hsettles.1.1
    · cases hturn
  · rw [hk] at hturn hsettles
    cases hturn
    rcases hj : judged env file p existing (c.turn p) with e | (_ | X) <;> rw [hj] at hsettles
    · exact hsettles.elim
    · exact .inl hsettles.1.1
    · have hfiled : Settled env (.file file.id) existing X (c.turn p) c' := hsettles
      exact .inr ⟨X, rfl, hfiled.state⟩

def LiveLoop (env : Env ν δ π) (user : UserValues ν) (alloc pending : List (SourceId × Path))
    (c : Ctx) : Prop :=
  LoopInv env user alloc (fun _ => pending) c ∧ LiveInv env pending c.tree c.newState

/-- The handler of a source keeps the invariant when, where it ends, it leaves the entries of other
sources alone and its own entry has a live file. -/
theorem takes_live {handler : SyncM Unit}
    (htakes : Takes (fun pending => LoopInv env user alloc fun _ => pending) (Aborted env user alloc)
      x p handler)
    (hends : (x, p) ∈ alloc → Handles env x p (env.state.get? x) handler)
    (hself : ∀ rest c c', LiveLoop env user alloc ((x, p) :: rest) c →
      exec handler (c.take p) = (.ok (), c') →
      Handled env x p (env.state.get? x) c.tree c.newState c'.tree c'.newState →
      (∀ y, y ≠ x → c'.newState.get? y = c.newState.get? y) ∧
        ∀ e, c'.newState.get? x = some e → LiveEntry env.deps env.loreRoot c'.tree x e) :
    Takes (LiveLoop env user alloc) (fun _ => True) x p handler := by
  rintro rest c ⟨hloop, hlive⟩ c₀ rfl
  have hkept := htakes rest c hloop _ rfl
  have hend := hends (hloop.2 _ List.mem_cons_self) (c.take p) (c.take p) (Std.Refl.refl _)
  rcases hexec : exec handler (c.take p) with ⟨e | ⟨⟩, c'⟩
  · rw [show exec handler { c with takenPaths := p :: c.takenPaths } = _ from hexec]
    trivial
  rw [hexec] at hend
  rw [show exec handler { c with takenPaths := p :: c.takenPaths } = _ from hexec] at hkept ⊢
  have hhandled : Handled env x p (env.state.get? x) c.tree c.newState c'.tree c'.newState := hend.1
  obtain ⟨hother, hown⟩ := hself rest c c' ⟨hloop, hlive⟩ hexec hhandled
  exact ⟨⟨hkept.1, hlive.handled hloop.1 hhandled hother hown⟩, hkept.2⟩

theorem LiveInv.filed (law : env.deps.codec.Lawful) (hlive : LiveInv env ((x, p) :: rest) t ns)
    (h : Handled env x p (env.state.get? x) t ns t' ns') (hns : ns' = ns.set x e)
    (he : e.localPath = p) :
    (∀ y, y ≠ x → ns'.get? y = ns.get? y) ∧
      ∀ e', ns'.get? x = some e' → LiveEntry env.deps env.loreRoot t' x e' := by
  refine ⟨fun y hy => hns ▸ Dict.get?_set_ne _ _ hy, fun e' he' => ?_⟩
  rw [hns, Dict.get?_set_self] at he'
  cases he'
  exact h.live_self law hns he ((hlive.fresh x p List.mem_cons_self).imp_right And.right)
    (hlive.awaited x p List.mem_cons_self)

theorem tab_takes_live (set : RunSetting env user alloc) (file : DriveFile) {s : Tab × Text}
    (hs : Plain s.2) : Takes (LiveLoop env user alloc) (fun _ => True)
      (.tab file.id s.1.sheetId) (tabPath env file s.2)
      (exportTab env file s.1 (tabPath env file s.2)) := by
  have hp := tabAllocation_placed env file hs
  refine takes_live ((loopRule set).tab file s hs)
    (fun hx => exportTab_ends set.dry hp (existing_placed set hx hp (.inl rfl))) ?_
  intro rest c c' hloop hexec hhandled
  have hsettles := exportTab_settles env file s.1 (tabPath env file s.2) _ _
    (Std.Refl.refl (c.take (tabPath env file s.2)))
  rw [hexec] at hsettles
  by_cases hjudged : ∃ X, judgedTab env file s.1 (tabPath env file s.2) = .ok (some X)
  · obtain ⟨X, hX⟩ := hjudged
    obtain ⟨values, -, -, rfl⟩ := judgedTab_eq_some.1 hX
    rw [hX] at hsettles
    have hfiled : Settled env (.tab file.id s.1.sheetId) (env.state.get? (.tab file.id s.1.sheetId))
        _ (c.take (tabPath env file s.2)) c' := hsettles
    exact hloop.2.filed set.law hhandled (set.dry ▸ hfiled.state)
      (Export.filed_path (fun e => textExport_same) _)
  · obtain ⟨htree, hstate⟩ := exec_exportTab_failed hexec (not_exists.1 hjudged)
    refine ⟨fun y _ => congrArg (Dict.get? · y) hstate, fun e he => ?_⟩
    have he' : c.newState.get? (.tab file.id s.1.sheetId) = some e :=
      (congrArg (Dict.get? · _) hstate).symm.trans he
    have hentry := hloop.2.recorded _ e he'
    exact htree ▸ hentry

theorem file_takes_live (set : RunSetting env user alloc) {taken : List Path}
    (hmime : file.mime ≠ .sheet) (hp : allocate env file taken = some p) :
    Takes (LiveLoop env user alloc) (fun _ => True) (.file file.id) p
      (processFile env file p (env.state.get? (.file file.id))) := by
  have hplaced := allocate_placed hp
  have hext : file.mime.ext = mdExt ∨ file.mime.ext = pngExt := by
    unfold Mime.ext
    split
    · exact .inr rfl
    · exact .inl rfl
  refine takes_live ((loopRule set).file file p taken hmime hp)
    (fun hx => processFile_ends set.dry hmime hplaced (existing_placed set hx hplaced hext)) ?_
  intro rest c c' hloop hexec hhandled
  rcases processFile_outcome hexec with hstate | ⟨X, hX, hstate⟩
  · -- nothing is recorded, and nothing was
    refine ⟨fun y _ => congrArg (Dict.get? · y) hstate, fun e he => ?_⟩
    rcases hloop.2.fresh _ p List.mem_cons_self with hnone | ⟨⟨id, gid, h⟩, -⟩
    · rw [hstate, hnone] at he
      cases he
    · cases h
  rw [set.dry] at hstate
  by_cases hpng : file.mime = .png
  · refine ⟨fun y hy => hstate ▸ Dict.get?_set_ne _ _ hy, fun e he _ hsuffix => ?_⟩
    rw [hstate, Dict.get?_set_self] at he
    cases he
    have hpath : Placed env.loreRoot pngExt
        (X.filed false (env.state.get? (.file file.id))).localPath := by
      rw [hpng] at hplaced
      rcases judged_png_path hpng hX with h | ⟨e, he, h⟩
      · exact h ▸ hplaced
      · exact h ▸ existing_placed set (hloop.1.2 _ List.mem_cons_self) hplaced (.inr rfl) e he
    rw [hpath.suffix_png] at hsuffix
    exact absurd hsuffix (by decide)
  · exact hloop.2.filed set.law hhandled hstate (judged_path hpng hmime hX)

theorem loopRule_live (set : RunSetting env user alloc) :
    LoopRule env (LiveLoop env user alloc) (fun _ => True) where
  counted _ _ _ h := h
  raised _ _ _ := trivial
  tab file _ hs := tab_takes_live set file hs
  file _ _ _ hmime hp := file_takes_live set hmime hp

/-! ## The archive pass -/

theorem Archives.live_other (hinv : RunInv env user alloc pending t ns) (he : (x, e) ∈ env.state)
    (h : Archives env x e t ns t' ns') (hy : y ≠ x) (hlive : Live env.deps env.loreRoot t q y) :
    Live env.deps env.loreRoot t' q y := by
  cases h with
  | untouched hsame _ => exact hlive.of_file? (hsame q hlive.1)
  | marked _ hdocs _ _ =>
    rcases hdocs with hsame | ⟨_, _, _, _, _, _, -, -, -, -, hwrite⟩
    · exact hlive.of_file? (hsame q hlive.1)
    · refine hlive.of_file? ((hwrite q hlive.1).trans (if_neg ?_))
      rintro rfl
      exact hy (hinv.old x e he y hlive.fileOf)

structure LiveArchive (env : Env ν δ π) (files : List DriveFile) (gids : TabGids) (c : Ctx) :
    Prop where
  known : KnownTabs env gids
  recorded : ∀ x e, c.newState.get? x = some e → LiveEntry env.deps env.loreRoot c.tree x e
  awaited : ∀ x e, env.state.get? x = some e → ¬ Absent env files x →
    LiveEntry env.deps env.loreRoot c.tree x e
  fresh : ∀ x, ¬ Absent env files x → c.newState.get? x = none ∨
    (∃ id gid, x = .tab id gid) ∧ c.newState.get? x = env.state.get? x

theorem handleArchivedKey_live (set : RunSetting env user alloc) (hsteady : Steady env.drive)
    (hkeys : env.state.keys.Nodup) (hsub : ∀ a ∈ pending, a ∈ alloc) {a : SourceId × StateEntry}
    (ha : a ∈ env.state) (gids : TabGids) :
    Triple (fun c => (RunInv env user alloc pending c.tree c.newState ∧ c.takenPaths = []) ∧
        LiveArchive env files gids c) (handleArchivedKey env files gids a)
      (fun gids' c => (RunInv env user alloc pending c.tree c.newState ∧ c.takenPaths = []) ∧
        LiveArchive env files gids' c) (fun _ _ => True) := by
  obtain ⟨key, entry⟩ := a
  have hentry : env.state.get? key = some entry := Dict.get?_of_mem hkeys ha
  have hplaced := set.placed key entry ha
  rintro c ⟨⟨hinv, htaken⟩, hlive⟩
  have hgone : Gone env files gids key ↔ Absent env files key := gone_iff_absent hsteady hlive.known
  have hends : ∀ c', ArchiveEnds env key entry c c' →
      RunInv env user alloc pending c'.tree c'.newState ∧ c'.takenPaths = [] := fun c' h =>
    ⟨hinv.archived set.law hsub ha hplaced h.1, h.2.trans htaken⟩
  have hstep := handleArchivedKey_step env files gids key entry
  generalize handleArchivedKey env files gids (key, entry) = step at hstep ⊢
  cases hstep with
  | raises _ _ => trivial
  | gone hlearned habsent =>
    rw [hgone] at habsent
    have hend := archiveEntry_ends key hplaced c c (Std.Refl.refl c)
    have hfiled := archiveEntry_filed env key entry c c (Std.Refl.refl c)
    rw [exec_bind]
    rcases hexec : exec (archiveEntry env key entry) c with ⟨e | ⟨⟩, c'⟩
    · trivial
    rw [hexec] at hend hfiled
    have hget : ∀ y, y ≠ key → c'.newState.get? y = c.newState.get? y := fun y hy =>
      (congrArg (Dict.get? · y) (Filed.state hfiled)).trans (Dict.get?_set_ne _ _ hy)
    have hpresent : ∀ y, ¬ Absent env files y → y ≠ key := fun y hy heq => hy (heq ▸ habsent)
    refine ⟨hends c' hend, hlearned.knownTabs hsteady hlive.known, fun y e hy => ?_,
      fun y e hy hnot harchived hsuffix => ?_, fun y hnot => ?_⟩
    · by_cases hykey : y = key
      · subst hykey
        rw [Filed.state hfiled, Dict.get?_set_self] at hy
        cases hy
        intro harchived
        have hsome := archivedNow_isSome set.dry y entry
        rw [harchived] at hsome
        cases hsome
      · exact fun harchived hsuffix => hend.1.live_other hinv ha hykey
          (hlive.recorded y e (hget y hykey ▸ hy) harchived hsuffix)
    · exact hend.1.live_other hinv ha (hpresent y hnot) (hlive.awaited y e hy hnot harchived hsuffix)
    · rw [hget y (hpresent y hnot)]
      exact hlive.fresh y hnot
  | @present gids' fileId gid hlearned hkey hpresent _ =>
    rw [hgone] at hpresent
    have hend : ArchiveEnds env key entry c { c with newState := c.newState.set key entry } :=
      ⟨.marked entry (.inl fun _ _ => rfl) rfl rfl, rfl⟩
    refine ⟨hends _ hend, hlearned.knownTabs hsteady hlive.known, fun y e hy => ?_, hlive.awaited,
      fun y hnot => ?_⟩
    · by_cases hykey : y = key
      · subst hykey
        cases (Dict.get?_set_self _ _ _).symm.trans hy
        exact hlive.awaited y entry hentry hpresent
      · exact hlive.recorded y e ((Dict.get?_set_ne _ _ hykey).symm.trans hy)
    · by_cases hykey : y = key
      · subst hykey
        exact .inr ⟨⟨fileId, gid, hkey⟩, (Dict.get?_set_self _ _ _).trans hentry.symm⟩
      · exact (hlive.fresh y hnot).imp (Dict.get?_set_ne _ _ hykey).trans
          (And.imp_right (Dict.get?_set_ne _ _ hykey).trans)
  | listed _ _ => exact ⟨⟨hinv, htaken⟩, hlive⟩

theorem handleArchived_live (set : RunSetting env user alloc) (hsteady : Steady env.drive)
    (hkeys : env.state.keys.Nodup) (files : List DriveFile) (hsub : ∀ a ∈ pending, a ∈ alloc) :
    Triple (fun c => (RunInv env user alloc pending c.tree c.newState ∧ c.takenPaths = []) ∧
        LiveArchive env files [] c) (handleArchived env files)
      (fun _ c => (RunInv env user alloc pending c.tree c.newState ∧ c.takenPaths = []) ∧
        ∃ gids, LiveArchive env files gids c) (fun _ _ => True) :=
  Triple.bind (Triple.foldlM
    (I := fun _ gids (c : Ctx) => (RunInv env user alloc pending c.tree c.newState ∧
      c.takenPaths = []) ∧ LiveArchive env files gids c)
    (fun _ ha _ gids => handleArchivedKey_live set hsteady hkeys hsub ha gids) [])
    fun gids => Triple.pure fun _ h => ⟨h.1, gids, h.2⟩

/-! ## The run -/

theorem allocations_source {a : SourceId × Path} :
    ∀ {taken : List Path}, a ∈ allocations env taken files → ∃ file ∈ files, SourceOf env file a.1 := by
  induction files with
  | nil => intro _ h; cases h
  | cons file files ih =>
    intro taken h
    have hlater : ∀ {taken}, a ∈ allocations env taken files →
        ∃ file' ∈ file :: files, SourceOf env file' a.1 := fun h =>
      (ih h).imp fun _ hf => ⟨List.mem_cons_of_mem _ hf.1, hf.2⟩
    unfold allocations at h
    split at h
    · next hmime =>
      split at h
      · exact hlater h
      · next tabs htabs =>
        rcases List.mem_append.1 h with h | h
        · obtain ⟨s, hs, rfl⟩ := List.mem_map.1 h
          have htab := (resolveTabCollisions_perm env.deps.unicode tabs).mem_iff.1
            (List.mem_map_of_mem hs)
          exact ⟨file, List.mem_cons_self, hmime, rfl, tabs, htabs, List.mem_map_of_mem htab⟩
        · exact hlater h
    · next hmime =>
      split at h
      · cases h
      · rcases List.mem_cons.1 h with rfl | h
        · exact ⟨file, List.mem_cons_self, hmime, rfl⟩
        · exact hlater h

theorem allocations_nodup
    (hgids : ∀ id tabs, env.drive.tabs id = .ok tabs → (tabs.map (·.sheetId)).Nodup) :
    ∀ {taken : List Path}, (files.map (·.id)).Nodup →
    ((allocations env taken files).map (·.1)).Nodup := by
  induction files with
  | nil => intro _ _; exact List.nodup_nil
  | cons file files ih =>
    intro taken hids
    obtain ⟨hfresh, hids⟩ := List.nodup_cons.1 hids
    have hlater : ∀ taken key, key ∈ (allocations env taken files).map (·.1) →
        ¬ SourceOf env file key := by
      intro taken key hkey hsource
      obtain ⟨a, ha, rfl⟩ := List.mem_map.1 hkey
      obtain ⟨file', hfile', hsource'⟩ := allocations_source ha
      exact hfresh (List.mem_map.2 ⟨file', hfile', hsource'.turns.id_eq hsource.turns⟩)
    unfold allocations
    split
    · next hmime =>
      split
      · exact ih hids
      · next tabs htabs =>
        have htabKeys : ((resolveTabCollisions env.deps.unicode tabs).map
            (tabAllocation env file)).map (·.1) =
          ((resolveTabCollisions env.deps.unicode tabs).map (·.1.sheetId)).map (.tab file.id) := by
          simp only [List.map_map]
          rfl
        rw [List.map_append, List.nodup_append']
        refine ⟨?_, ih hids, fun key hkey hkey' => hlater _ key hkey' ?_⟩
        · rw [htabKeys]
          exact (resolveTabCollisions_nodup _ (hgids file.id tabs htabs)).map
            fun gid gid' h => (SourceId.tab.inj h).2
        · obtain ⟨a, ha, rfl⟩ := List.mem_map.1 hkey
          obtain ⟨s, hs, rfl⟩ := List.mem_map.1 ha
          exact ⟨hmime, rfl, tabs, htabs, List.mem_map_of_mem
            ((resolveTabCollisions_perm env.deps.unicode tabs).mem_iff.1 (List.mem_map_of_mem hs))⟩
    · next hmime =>
      split
      · exact List.nodup_nil
      · refine List.nodup_cons.2 ⟨fun hkey => hlater _ _ hkey ⟨hmime, rfl⟩, ih hids⟩

/-- Every Markdown entry of the state that is not archived has a live file. -/
def LiveSaved (deps : Deps ν δ π) (root : Path) (world : World) : Prop :=
  ∀ x e, world.state.get? x = some e → LiveEntry deps root world.tree x e

theorem runSync_live (law : deps.codec.Lawful) {l : Local ν} {drive : Drive δ π} {world' : World}
    {counts : SummaryCounts} (h : LocalInv deps root l) (hlive : LiveSaved deps root l.world)
    (hkeys : l.world.state.keys.Nodup) (horder : Orderly deps root l.world drive)
    (hlisting : drive.listing = .ok files) (hids : (files.map (·.id)).Nodup)
    (hgids : ∀ id tabs, drive.tabs id = .ok tabs → (tabs.map (·.sheetId)).Nodup)
    (hsteady : Steady drive) (hrun : runSync deps root false drive l.world = (world', .ok counts)) :
    LiveSaved deps root world' := by
  let env : Env ν δ π := ⟨deps, drive, l.world.state, false, root⟩
  obtain ⟨set, hstart⟩ := h.start law horder hlisting
  have hnodup := saved_keys_nodup hkeys hlisting hrun
  obtain ⟨c₁, c₂, harchive, hloop, rfl, -⟩ := (runSync_eq_ok hlisting).1 hrun
  have hids' : ((sortFiles files).map (·.id)).Nodup :=
    ((List.perm_insertionSort _ files).map _).nodup_iff.2 hids
  have hlive₀ : LiveArchive env (sortFiles files) [] (Ctx.start l.world.tree) :=
    ⟨by simp [KnownTabs], fun _ _ h => (by cases h), fun x e he _ => hlive x e he,
      fun _ _ => .inl rfl⟩
  have hpass := handleArchived_live set hsteady hkeys (sortFiles files) (fun _ ha => ha)
    (Ctx.start l.world.tree) ⟨⟨hstart, rfl⟩, hlive₀⟩
  rw [harchive] at hpass
  obtain ⟨⟨hinv, htaken⟩, gids, hlive₁⟩ := hpass
  -- the sources that are given a path are not absent
  have hpresent : ∀ x p, (x, p) ∈ allocations env [] (sortFiles files) →
      ¬ Absent env (sortFiles files) x := fun x p hx habsent => by
    obtain ⟨file, hfile, hsource⟩ := allocations_source hx
    exact habsent.not_source hfile hsource
  have hlive₂ : LiveInv env (allocations env [] (sortFiles files)) c₁.tree c₁.newState :=
    ⟨hlive₁.recorded, fun x p hx e he => hlive₁.awaited x e he (hpresent x p hx),
      fun x p hx => hlive₁.fresh x (hpresent x p hx), allocations_nodup hgids hids'⟩
  have hloop₁ : LiveLoop env l.user (allocations env [] (sortFiles files))
      (allocations env c₁.takenPaths (sortFiles files)) c₁ := by
    rw [htaken]
    exact ⟨⟨hinv, fun _ ha => ha⟩, hlive₂⟩
  have hend := (loopRule_live set).run (sortFiles files) c₁ hloop₁
  rw [hloop] at hend
  intro x e he
  have hkeys₂ : c₂.newState.keys.Nodup :=
    ((List.perm_insertionSort _ c₂.newState).map _).nodup_iff.1 hnodup
  exact hend.2.recorded x e ((get?_saveState hkeys₂ x).symm.trans he)

end
end Archiviste.Sync
