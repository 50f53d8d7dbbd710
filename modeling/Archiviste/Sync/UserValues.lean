import Archiviste.Base.Run
import Archiviste.Sync.Allocations
import Archiviste.Sync.Tracking

/-!
# Archiviste.Sync.UserValues

Sync runs and user edits in any order, and whether the Markdown file tracked for a source carries
the values the user last set for it (`Faithful`).

It does not always. A failed export drops the state entry of its source; when the document is then
renamed, a second file is created with the defaults (`tier_lost`). And the path a run allocates may
hold the file of a source that left Drive, or of a tab, which the export then merges with.

* `Orderly`     — what is needed of the tree and the state before a run: the paths it allocates are
  claimed by nobody else, and each source's file is where the run or the state looks for it.
* `user_values_kept` — in every history whose runs are orderly, every world reached is `Faithful`.
-/

namespace Archiviste.Sync

open Prog

section
variable {ν δ π : Type}

/-! ## A run keeps the invariant -/

variable {env : Env ν δ π} {user : UserValues ν} {alloc : List (SourceId × Path)}

/-- What a run needs of the state it loads and the paths it allocates. -/
structure RunSetting (env : Env ν δ π) (user : UserValues ν) (alloc : List (SourceId × Path)) :
    Prop where
  law : env.deps.codec.Lawful
  filled : Filled user
  dry : env.dryRun = false
  claims : Claims env alloc
  placed : ∀ x e, (x, e) ∈ env.state → WellPlaced env.loreRoot e.localPath
  sameKind : ∀ x p e, (x, p) ∈ alloc → (x, e) ∈ env.state → e.localPath.suffix = p.suffix

def LoopInv (env : Env ν δ π) (user : UserValues ν) (alloc : List (SourceId × Path))
    (pending : List Path → List (SourceId × Path)) (c : Ctx) : Prop :=
  RunInv env user alloc (pending c.takenPaths) c.tree c.newState ∧
    ∀ a ∈ pending c.takenPaths, a ∈ alloc

/-- What is left of the invariant when an exception ends the run. -/
def Aborted (env : Env ν δ π) (user : UserValues ν) (alloc : List (SourceId × Path)) (c : Ctx) :
    Prop :=
  ∃ pending, RunInv env user alloc pending c.tree c.newState

variable {x : SourceId} {p : Path}

theorem existing_placed (set : RunSetting env user alloc) {ext : Text} (hx : (x, p) ∈ alloc)
    (hp : Placed env.loreRoot ext p) (hext : ext = mdExt ∨ ext = pngExt) :
    ∀ e ∈ env.state.get? x, Placed env.loreRoot ext e.localPath := by
  intro e he
  have hmem := Dict.mem_of_get? he
  have hsuffix := set.sameKind x p e hx hmem
  have hplaced := (set.placed x e hmem).of_suffix
  rcases hext with rfl | rfl
  · exact hplaced.1 (hsuffix.trans hp.suffix_md)
  · exact hplaced.2 (hsuffix.trans hp.suffix_png)

theorem takes_of_ends (set : RunSetting env user alloc) {handler : SyncM Unit}
    (hends : (x, p) ∈ alloc → Handles env x p (env.state.get? x) handler) :
    Takes (fun pending => LoopInv env user alloc fun _ => pending) (Aborted env user alloc) x p
      handler := by
  rintro rest c ⟨hinv, hsub⟩
  have hstep : ∀ c', Ends env x p (env.state.get? x) { c with takenPaths := p :: c.takenPaths } c' →
      RunInv env user alloc rest c'.tree c'.newState := fun c' h =>
    hinv.handled set.law set.filled set.claims hsub h.1
  refine (hends (hsub _ List.mem_cons_self) _).conseq (fun _ h => h ▸ Std.Refl.refl _)
    (fun _ c' h => ?_) fun _ c' h => ⟨_, hstep c' h⟩
  exact ⟨⟨hstep c' h, fun a ha => hsub a (List.mem_cons_of_mem _ ha)⟩, h.2⟩

theorem loopRule (set : RunSetting env user alloc) :
    LoopRule env (fun pending => LoopInv env user alloc fun _ => pending)
      (Aborted env user alloc) where
  counted := fun _ _ _ h => h
  raised := fun _ _ h => ⟨_, h.1⟩
  tab := by
    intro file s hs
    have hp := tabAllocation_placed env file hs
    exact takes_of_ends set fun hx =>
      exportTab_ends set.dry hp (existing_placed set hx hp (.inl rfl))
  file := by
    intro file p taken hmime hp
    have hplaced := allocate_placed hp
    refine takes_of_ends set fun hx =>
      processFile_ends set.dry hmime hplaced (existing_placed set hx hplaced ?_)
    unfold Mime.ext
    split
    · exact .inr rfl
    · exact .inl rfl

theorem handleArchived_runInv (set : RunSetting env user alloc) (files : List DriveFile)
    {pending : List (SourceId × Path)} (hsub : ∀ a ∈ pending, a ∈ alloc) :
    Triple (fun c => RunInv env user alloc pending c.tree c.newState ∧ c.takenPaths = [])
      (handleArchived env files)
      (fun _ c => RunInv env user alloc pending c.tree c.newState ∧ c.takenPaths = [])
      (fun _ => Aborted env user alloc) := by
  refine Triple.bind (Triple.foldlM (I := fun _ _ (c : Ctx) =>
    RunInv env user alloc pending c.tree c.newState ∧ c.takenPaths = [])
    (fun entry hentry _ gids c hc => ?_) []) fun _ => Triple.pure fun _ h => h
  have hplaced := set.placed entry.1 entry.2 hentry
  have hinv : ∀ c', ArchiveEnds env entry.1 entry.2 c c' →
      RunInv env user alloc pending c'.tree c'.newState := fun c' h =>
    hc.1.archived set.law hsub hentry hplaced h.1
  exact (handleArchivedKey_ends hplaced c).conseq (fun _ h => h)
    (fun _ c' h => ⟨hinv c' h, h.2.trans hc.2⟩) (fun _ c' h => ⟨_, hinv c' h⟩) c (Std.Refl.refl c)

theorem syncFiles_runInv (set : RunSetting env user alloc) (files : List DriveFile)
    (hsub : ∀ a ∈ allocations env [] files, a ∈ alloc) :
    Triple (fun c => RunInv env user alloc (allocations env [] files) c.tree c.newState ∧
        c.takenPaths = [])
      (syncFiles env files) (fun _ => Aborted env user alloc) (fun _ => Aborted env user alloc) := by
  refine Triple.bind (handleArchived_runInv set files hsub) fun _ => ?_
  refine ((loopRule set).run files).conseq (fun c h => ?_) (fun _ c h => ⟨_, h.1⟩) fun _ _ h => h
  rw [h.2]
  exact ⟨h.1, hsub⟩

end

/-! ## Histories -/

structure Local (ν : Type) where
  world : World
  user : UserValues ν

inductive Event (δ π : Type) where
  | sync (drive : Drive δ π)
  | edit (source : SourceId) (path : Path) (text : Text)

section
variable {ν δ π : Type}

/-- A non-dry run, or a file the user writes for a source: whatever frontmatter it has is what the
user last set for that source. -/
def localStep (deps : Deps ν δ π) (root : Path) (l : Local ν) : Event δ π → Local ν
  | .sync drive => { l with world := (runSync deps root false drive l.world).1 }
  | .edit source path text =>
    { world := { l.world with tree := { l.world.tree with
        files := l.world.tree.files.set path (.text text) } }
      user := match (Content.text text).mapping deps with
        | some m => Function.update l.user source (some m.get?)
        | none => l.user }

/-- Every Markdown file tracked for a source carries the values the user last set for it. -/
def Faithful (deps : Deps ν δ π) (l : Local ν) : Prop :=
  ∀ x e content, l.world.state.get? x = some e → e.localPath.suffix = mdExt →
    l.world.tree.file? e.localPath = some content → Carries deps l.user content x

def FirstRun (root : Path) (l : Local ν) : Prop :=
  l.world.state = [] ∧ (∀ q, Placed root mdExt q → l.world.tree.file? q = none) ∧
    ∀ x, l.user x = none

/-- What a run needs of the world before it: the path it will allocate to a source is no other
source's, in this run, in the state or on disk; the source's file, if there is one, is at that path
or at the recorded one; and the source keeps its kind. -/
structure Orderly (deps : Deps ν δ π) (root : Path) (world : World) (drive : Drive δ π) : Prop where
  onePath : ∀ x p p', (x, p) ∈ runAllocations deps root drive world.state →
    (x, p') ∈ runAllocations deps root drive world.state → p = p'
  oneSource : ∀ x y p, (x, p) ∈ runAllocations deps root drive world.state →
    (y, p) ∈ runAllocations deps root drive world.state → x = y
  unclaimed : ∀ x y p e, (x, p) ∈ runAllocations deps root drive world.state →
    (y, e) ∈ world.state → e.localPath = p → y = x
  free : ∀ x p, (x, p) ∈ runAllocations deps root drive world.state →
    ∀ y, FileOf deps root world.tree p y → y = x
  found : ∀ x p, (x, p) ∈ runAllocations deps root drive world.state →
    ∀ q, FileOf deps root world.tree q x →
      q = p ∨ ∃ e, world.state.get? x = some e ∧ e.localPath = q
  sameKind : ∀ x p e, (x, p) ∈ runAllocations deps root drive world.state →
    (x, e) ∈ world.state → e.localPath.suffix = p.suffix

/-- An edit of the source's Markdown file, tracked or not, that stays within the user's keys: the
exporter's own keys stay as they are, and tags and tier keep a value. -/
def UserEdit (deps : Deps ν δ π) (root : Path) (tree : FileTree Content) (source : SourceId)
    (path : Path) (text : Text) : Prop :=
  Placed root mdExt path ∧ ∃ content m m', tree.file? path = some content ∧
    content.mapping deps = some m ∧ (Content.text text).mapping deps = some m' ∧
    m.get? "source_id".toList = some (deps.codec.str source.text) ∧
    (∀ k ∈ scriptManagedKeys, m'.get? k = m.get? k) ∧
    (m'.get? "tags".toList).isSome ∧ (m'.get? "access_tier".toList).isSome

def OrderlyEvent (deps : Deps ν δ π) (root : Path) (l : Local ν) : Event δ π → Prop
  | .sync drive => Orderly deps root l.world drive
  | .edit source path text => UserEdit deps root l.world.tree source path text

/-- What holds between runs. -/
structure LocalInv (deps : Deps ν δ π) (root : Path) (l : Local ν) : Prop where
  docs : DocsInv deps root l.user l.world.tree
  placed : ∀ x e, (x, e) ∈ l.world.state → WellPlaced root e.localPath
  owned : ∀ x e, (x, e) ∈ l.world.state → OwnedBy deps root l.world.tree e.localPath x
  filled : Filled l.user

variable {deps : Deps ν δ π} {root : Path} {l : Local ν}

theorem LocalInv.faithful (h : LocalInv deps root l) : Faithful deps l := by
  intro x e content he hsuffix hfile
  have hmem := Dict.mem_of_get? he
  have hp := (h.placed x e hmem).of_suffix.1 hsuffix
  obtain ⟨y, hnames, hcarries⟩ := h.docs.named _ content hp hfile
  obtain rfl := h.owned x e hmem y ⟨hp, content, hfile, hnames⟩
  exact hcarries

theorem LocalInv.of_firstRun (h : FirstRun root l) : LocalInv deps root l where
  docs :=
    { named := fun q content hq hfile => absurd ((h.2.1 q hq).symm.trans hfile) (by simp)
      unique := fun q _ _ hq _ => by
        obtain ⟨hp, content, hfile, _⟩ := hq
        exact absurd ((h.2.1 q hp).symm.trans hfile) (by simp)
      kept := fun x hx => absurd hx (by simp [h.2.2 x]) }
  placed := fun x e he => absurd he (by simp [h.1])
  owned := fun x e he => absurd he (by simp [h.1])
  filled := fun x values hv => absurd ((h.2.2 x).symm.trans hv) (by simp)

variable {drive : Drive δ π} {p : Path} {x : SourceId}

theorem LocalInv.start (law : deps.codec.Lawful) (h : LocalInv deps root l)
    (horder : Orderly deps root l.world drive) {files : List DriveFile}
    (hlisting : drive.listing = .ok files) :
    let env : Env ν δ π := ⟨deps, drive, l.world.state, false, root⟩
    let alloc := allocations env [] (sortFiles files)
    RunSetting env l.user alloc ∧ RunInv env l.user alloc alloc l.world.tree [] := by
  intro env alloc
  have halloc : runAllocations deps root drive l.world.state = alloc := by
    rw [runAllocations, hlisting]
  obtain ⟨onePath, oneSource, unclaimed, free, found, sameKind⟩ := horder
  rw [halloc] at onePath oneSource unclaimed free found sameKind
  exact ⟨⟨law, h.filled, rfl, ⟨onePath, oneSource, unclaimed⟩, h.placed, sameKind⟩,
    ⟨h.docs, h.owned, fun _ _ he => absurd he List.not_mem_nil, free, found⟩⟩

theorem runSync_localInv (law : deps.codec.Lawful) (h : LocalInv deps root l)
    (horder : Orderly deps root l.world drive) :
    LocalInv deps root { l with world := (runSync deps root false drive l.world).1 } := by
  unfold runSync
  cases hlisting : drive.listing with
  | error e => exact h
  | ok files =>
    let env : Env ν δ π := ⟨deps, drive, l.world.state, false, root⟩
    obtain ⟨set, hstart⟩ := h.start law horder hlisting
    have hrun := syncFiles_runInv set (sortFiles files) (fun _ ha => ha)
      (Ctx.start l.world.tree) ⟨hstart, rfl⟩
    dsimp only
    generalize (syncFiles env (sortFiles files)).exec (Ctx.start l.world.tree) = result at hrun ⊢
    obtain ⟨_ | _, c⟩ := result
    · obtain ⟨pending, hend⟩ := hrun
      exact ⟨hend.docs, h.placed, hend.old, h.filled⟩
    · obtain ⟨pending, hend⟩ := hrun
      have hmem : ∀ {a}, a ∈ saveState c.newState → a ∈ c.newState :=
        (List.mem_insertionSort _).1
      refine ⟨hend.docs, fun x e he => ?_, fun x e he => ?_, h.filled⟩
      · rcases hend.new x e (hmem he) with ⟨e₀, he₀, hpath⟩ | ⟨ha, _⟩
        · exact hpath ▸ h.placed x e₀ he₀
        · exact allocations_placed ha
      · rcases hend.new x e (hmem he) with ⟨e₀, he₀, hpath⟩ | ⟨_, howned⟩
        · exact hpath ▸ hend.old x e₀ he₀
        · exact howned

/-- The one file of a source is replaced by one that still names it: it now carries what is in the
new mapping, and every other file stays what it was. -/
theorem DocsInv.edited {user : UserValues ν} {t t' : FileTree Content} {content : Content}
    {m : Dict Text ν} (law : deps.codec.Lawful) (h : DocsInv deps root user t)
    (hx : FileOf deps root t p x)
    (hwrite : ∀ q, t'.file? q = if q = p then some content else t.file? q)
    (hnames : Names deps content x) (hm : content.mapping deps = some m) :
    (∀ q y, FileOf deps root t' q y ↔ FileOf deps root t q y) ∧
      DocsInv deps root (Function.update user x (some m.get?)) t' := by
  have hat : ∀ y, FileOf deps root t p y ↔ y = x := by
    refine fun y => ⟨fun hy => ?_, fun hy => hy ▸ hx⟩
    obtain ⟨_, c, hc, hy⟩ := hy
    obtain ⟨_, c', hc', hx⟩ := hx
    exact (Option.some.inj (hc.symm.trans hc') ▸ hy).unique law hx
  have hfiles : ∀ q y, FileOf deps root t' q y ↔ FileOf deps root t q y := by
    intro q y
    by_cases hq : q = p
    · subst hq
      refine ⟨fun ⟨_, c, hc, hy⟩ => ?_, fun hy => ?_⟩
      · rw [hwrite, if_pos rfl] at hc
        exact (hat y).2 ((Option.some.inj hc ▸ hy).unique law hnames)
      · exact ⟨hy.1, content, by rw [hwrite, if_pos rfl], (hat y).1 hy ▸ hnames⟩
    · simp only [FileOf, hwrite q, if_neg hq]
  refine ⟨hfiles, fun q c hq hc => ?_, fun q q' y hy hy' => ?_, fun y hy => ?_⟩
  · by_cases hqp : q = p
    · rw [hwrite, if_pos hqp] at hc
      obtain rfl := Option.some.inj hc
      exact ⟨x, hnames, m, hm, fun k _ => by simp [expected]⟩
    · rw [hwrite, if_neg hqp] at hc
      obtain ⟨y, hy, m₁, hm₁, hvalues⟩ := h.named q c hq hc
      have hyx : y ≠ x := by
        rintro rfl
        exact hqp (h.unique q p y ⟨hq, c, hc, hy⟩ hx)
      refine ⟨y, hy, m₁, hm₁, fun k hk => ?_⟩
      rw [hvalues k hk, expected, expected, Function.update_of_ne hyx]
  · exact h.unique q q' y ((hfiles q y).1 hy) ((hfiles q' y).1 hy')
  · by_cases hyx : y = x
    · exact ⟨p, hyx ▸ (hfiles p x).2 hx⟩
    · rw [Function.update_of_ne hyx] at hy
      obtain ⟨q, hq⟩ := h.kept y hy
      exact ⟨q, (hfiles q y).2 hq⟩

theorem LocalInv.edited (law : deps.codec.Lawful) {text : Text} (h : LocalInv deps root l)
    (hedit : UserEdit deps root l.world.tree x p text) :
    LocalInv deps root (localStep deps root l (.edit x p text)) := by
  obtain ⟨hp, content, m, m', hfile, hm, hm', hid, hscript, hset⟩ := hedit
  have hfileOf : FileOf deps root l.world.tree p x := ⟨hp, content, hfile, m, hm, hid⟩
  have hnames' : Names deps (.text text) x := ⟨m', hm', (hscript _ (by decide)).trans hid⟩
  let tree' : FileTree Content :=
    { l.world.tree with files := l.world.tree.files.set p (.text text) }
  have hwrite : ∀ q, tree'.file? q = if q = p then some (.text text) else l.world.tree.file? q :=
    fun q => Dict.get?_set _ _ _ _
  obtain ⟨hfiles, hdocs⟩ := h.docs.edited law hfileOf hwrite hnames' hm'
  simp only [localStep, hm']
  refine ⟨hdocs, h.placed, fun z e' he' w hw => h.owned z e' he' w ((hfiles _ w).1 hw),
    fun z values hz => ?_⟩
  by_cases hzx : z = x
  · subst hzx
    simp only [Function.update_self, Option.some.injEq] at hz
    exact hz ▸ hset
  · exact h.filled z values ((Function.update_of_ne hzx _ _).symm.trans hz)

theorem localStep_localInv (law : deps.codec.Lawful) (event : Event δ π)
    (h : LocalInv deps root l) (hevent : OrderlyEvent deps root l event) :
    LocalInv deps root (localStep deps root l event) := by
  cases event with
  | sync drive => exact runSync_localInv law h hevent
  | edit source path text => exact h.edited law hevent

/-- In every history from a first run whose events are all orderly, every tracked Markdown file
carries the values its user last set for that source. -/
theorem user_values_kept (deps : Deps ν δ π) (law : deps.codec.Lawful)
    (root : Path) (l : Local ν) (hfirst : FirstRun root l) (events : List (Event δ π))
    (horder : Run.Along (localStep deps root) (OrderlyEvent deps root) l events) :
    Run.Always (localStep deps root) (Faithful deps) l events := by
  have hinv : Run.Always (localStep deps root) (LocalInv deps root) l events :=
    Run.always_of_along (fun _ event h hevent => localStep_localInv law event h hevent)
      events l (LocalInv.of_firstRun hfirst) horder
  exact Run.always_mono (fun _ h => h.faithful) events l hinv

end

/-! ## Two histories -/

def loreRoot : Path := ["lore".toList]

def firstLocal : Local Text := ⟨⟨⟨[], [[]]⟩, []⟩, fun _ => none⟩

def loreId : FileId := ⟨"1a".toList, List.all_eq_true.1 (by decide)⟩

def loreDrive (name : Text) (document : Except Exn Text) : Drive Text Text :=
  plainDrive [⟨loreId, .doc, name, [], none⟩] (.ok []) fun _ => document

def alphaPath : Path := loreRoot ++ ["alpha.md".toList]

def alphaMapping : Dict Text Text :=
  orderedFrontmatter tokenCodec []
    (scriptManaged tokenCodec "alpha".toList loreId.text "alpha".toList [])

def tierEdit (tier : Text) : Event Text Text :=
  .edit (.file loreId) alphaPath (fileText tokenCodec
    (alphaMapping.set "access_tier".toList (tokenCodec.str tier)) "body".toList)

theorem firstLocal_firstRun : FirstRun loreRoot firstLocal :=
  ⟨rfl, fun _ _ => rfl, fun _ => rfl⟩

variable {x : SourceId}

theorem Orderly.of_single {ν δ π : Type} {deps : Deps ν δ π} {root p : Path} {world : World}
    {drive : Drive δ π} (halloc : runAllocations deps root drive world.state = [(x, p)])
    (hstate : ∀ a ∈ world.state.map fun a => (a.1, a.2.localPath), a = (x, p))
    (hfiles : ∀ q y, FileOf deps root world.tree q y → q = p ∧ y = x) :
    Orderly deps root world drive := by
  have hentry : ∀ y e, (y, e) ∈ world.state → y = x ∧ e.localPath = p := fun y e he =>
    Prod.mk.inj (hstate (y, e.localPath) (List.mem_map_of_mem he))
  have hmem : ∀ y q, (y, q) ∈ runAllocations deps root drive world.state → y = x ∧ q = p := by
    intro y q h
    rw [halloc] at h
    exact Prod.mk.inj (List.mem_singleton.1 h)
  exact
    { onePath := fun y q q' h h' => (hmem y q h).2.trans (hmem y q' h').2.symm
      oneSource := fun y z q h h' => (hmem y q h).1.trans (hmem z q h').1.symm
      unclaimed := fun y z q e h he _ => (hentry z e he).1.trans (hmem y q h).1.symm
      free := fun y q h z hz => (hfiles q z hz).2.trans (hmem y q h).1.symm
      found := fun y q h q' hq' => .inl ((hfiles q' y hq').1.trans (hmem y q h).2.symm)
      sameKind := fun y q e h he => by rw [(hentry y e he).2, (hmem y q h).2] }

theorem fileOf_single {root p q : Path} {t : FileTree Content} {y : SourceId}
    (hone : ∀ a ∈ t.files.map fun f : Path × Content =>
      (f.1, (f.2.mapping plainDeps).bind (·.get? "source_id".toList)),
      a = (p, some (tokenCodec.str x.text))) (hy :
    FileOf plainDeps root t q y) : q = p ∧ y = x := by
  obtain ⟨_, content, hfile, m, hm, hid⟩ := hy
  obtain ⟨hq, hs⟩ := Prod.mk.inj (hone _ (List.mem_map_of_mem (Dict.mem_of_get? hfile)))
  simp only [hm, Option.bind_some, hid, Option.some.injEq] at hs
  exact ⟨hq, SourceId.text_injective (tokenCodec_lawful.str_injective hs)⟩

def tierHistory : List (Event Text Text) :=
  [.sync (loreDrive "alpha".toList (.ok "body".toList)), tierEdit "author_only".toList,
    .sync (loreDrive "alpha".toList (.ok "new body".toList))]

theorem tierHistory_orderly :
    Run.Along (localStep plainDeps loreRoot) (OrderlyEvent plainDeps loreRoot) firstLocal
      tierHistory := by
  have hexported : ((localStep plainDeps loreRoot firstLocal
      (.sync (loreDrive "alpha".toList (.ok "body".toList)))).world.tree.file? alphaPath).bind
        (·.mapping plainDeps) = some alphaMapping := by decide +kernel
  obtain ⟨content, hfile, hm⟩ := Option.bind_eq_some_iff.1 hexported
  refine ⟨.of_single (x := .file loreId) (p := alphaPath) (by decide +kernel) (by simp [firstLocal])
    (fun q y hy => fileOf_single (by decide) hy),
    ⟨⟨[], "alpha".toList, rfl, by simp, by decide, by decide⟩, content, alphaMapping,
      alphaMapping.set "access_tier".toList (tokenCodec.str "author_only".toList), hfile, hm,
      by decide +kernel, by decide +kernel, by decide +kernel, by decide +kernel,
      by decide +kernel⟩,
    .of_single (x := .file loreId) (p := alphaPath) (by decide +kernel) (by decide +kernel)
      (fun q y hy => fileOf_single (by decide +kernel) hy), trivial⟩

/-- The tier the user set is still there after the second export. -/
theorem user_values_kept_tierHistory :
    Run.Always (localStep plainDeps loreRoot) (Faithful plainDeps) firstLocal tierHistory :=
  user_values_kept plainDeps tokenCodec_lawful loreRoot firstLocal firstLocal_firstRun tierHistory
    tierHistory_orderly

/-- Exported, made `author_only` by the user, lost from the state by a failed call of Drive, then
exported again under another name. -/
def lossHistory : List (Event Text Text) :=
  [.sync (loreDrive "alpha".toList (.ok "body".toList)), tierEdit "author_only".toList,
    .sync (loreDrive "alpha".toList (.error .driveApi)),
    .sync (loreDrive "beta".toList (.ok "body".toList))]

/-- The file tracked for the document is then a new one, with the default tier. -/
theorem tier_lost :
    FirstRun loreRoot firstLocal ∧
      ¬ Run.Always (localStep plainDeps loreRoot) (Faithful plainDeps) firstLocal lossHistory := by
  refine ⟨firstLocal_firstRun, fun h => ?_⟩
  have hfaithful := h.last
  generalize hl : Run.exec (localStep plainDeps loreRoot) firstLocal lossHistory = l at hfaithful
  obtain ⟨htracked, hpublic, hset⟩ : (l.world.state.get? (.file loreId)).map (·.localPath) =
        some (loreRoot ++ ["beta.md".toList]) ∧
      (l.world.tree.file? (loreRoot ++ ["beta.md".toList])).map (fun content =>
          (content.mapping plainDeps).bind (·.get? "access_tier".toList)) =
        some (some (tokenCodec.str "public".toList)) ∧
      expected tokenCodec l.user (.file loreId) "access_tier".toList =
        some (tokenCodec.str "author_only".toList) := by subst hl; decide +kernel
  obtain ⟨e, he, hpath⟩ := Option.map_eq_some_iff.1 htracked
  obtain ⟨content, hfile, htier⟩ := Option.map_eq_some_iff.1 hpublic
  obtain ⟨m, hm, hvalues⟩ := hfaithful (.file loreId) e content he (by rw [hpath]; decide)
    (hpath ▸ hfile)
  have := (hvalues "access_tier".toList (by unfold userKey; decide)).trans hset
  rw [hm, Option.bind_some, this] at htier
  exact absurd htier (by decide)

end Archiviste.Sync
