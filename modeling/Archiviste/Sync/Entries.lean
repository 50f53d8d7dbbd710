import Archiviste.Base.Run
import Archiviste.Sync.UserValues
import Archiviste.Sync.Verdicts

/-!
# Archiviste.Sync.Entries

The entries a run records. The state is rebuilt from nothing: the archive pass records the keys of
sources that left Drive and of all tabs, and the handler of a file records the key of that file as
its last effect, if it gets there.

* `Unrecorded`, `Recorded` — the two ways a handler can leave the state under construction.
* `processKind_outcome` — a handler records its entry exactly when it does not fail.
* `keys_kept_iff` — a run forgets a key exactly when a file that has one fails, or is a workbook now.
-/

namespace Archiviste.Sync

open Prog

section
variable {ν δ π α : Type} {env : Env ν δ π}

theorem bump_unrecorded (f : SummaryCounts → SummaryCounts) : Within Unrecorded (bump f) :=
  Within.modify fun _ => ⟨rfl, rfl⟩

/-! ## What a handler records -/

def Recorded (key : SourceId) (p : Path) (c c' : Ctx) : Prop :=
  ∃ e, c'.newState = c.newState.set key e ∧ e.localPath = p ∧ c'.takenPaths = c.takenPaths

variable {key : SourceId} {p : Path} {existing : Option StateEntry}

theorem record_recorded {e : StateEntry} (he : e.localPath = p) (c₀ : Ctx) :
    Triple (Unrecorded c₀) (record key e) (fun _ => Recorded key p c₀) (fun _ => Unrecorded c₀) :=
  Triple.modify fun _ h => ⟨e, congrArg (Dict.set · key e) h.1, he, h.2⟩

variable {c c' : Ctx} {x : SyncM α} {file : DriveFile} {K : SourceId → Prop} {entry : StateEntry}
  {files : List DriveFile} {gids : TabGids} {deps : Deps ν δ π} {root : Path} {drive : Drive δ π}
  {world : World} {counts : SummaryCounts}

theorem Unrecorded.then_recorded {c'' : Ctx} (h : Unrecorded c c') (hrec : Recorded key p c' c'') :
    Recorded key p c c'' := by
  obtain ⟨e, heq, he, htaken⟩ := hrec
  exact ⟨e, by rw [heq, h.1], he, htaken.trans h.2⟩

theorem Unrecorded.then_records {β : Type} {f : α → SyncM β} {Q : β → Ctx → Prop} (c₀ : Ctx)
    (hx : Within Unrecorded x) (hf : ∀ a, Triple (Unrecorded c₀) (f a) Q (fun _ => Unrecorded c₀)) :
    Triple (Unrecorded c₀) (x >>= f) Q (fun _ => Unrecorded c₀) :=
  hx.keeps_bind (fun _ _ => IsTrans.trans c₀ _ _) (fun _ _ h => h) hf

theorem Settled.recorded {x : Export} (hdry : env.dryRun = false)
    (hp : (x.filed false existing).localPath = p) (h : Settled env key existing x c c') :
    Recorded key p c c' :=
  ⟨x.filed false existing, hdry ▸ h.state, hp, h.taken⟩

/-! ## When a handler fails -/

/-- The entry an image keeps, whatever its path: the checksum recorded is the one Drive reports or,
if it reports none, that of the bytes. -/
def unchangedPng (env : Env ν δ π) (file : DriveFile) (existing : Option StateEntry) :
    Option StateEntry :=
  match file.md5, env.drive.pngBytes file.id with
  | some _, _ => knownPng file existing
  | none, .ok bytes =>
    existing.filter fun e => e.contentSignature = "md5:".toList ++ env.deps.md5 bytes
  | none, .error _ => none

/-- The path of the entry that a handler given `p` records. -/
def landing (env : Env ν δ π) (file : DriveFile) (p : Path) (existing : Option StateEntry) : Path :=
  if file.mime = .png then ((unchangedPng env file existing).map (·.localPath)).getD p else p

/-- The export of a file, in the context its handler starts in, is over 1 MiB. -/
def Oversized (env : Env ν δ π) (file : DriveFile) (p : Path) (existing : Option StateEntry)
    (c : Ctx) : Prop :=
  match file.mime with
  | .doc => ∃ r c', exec (renderGdoc env file p existing) c = (.ok r, c') ∧ utf8Length r.1 > oneMib
  | .slides => ∃ deck, env.drive.presentation file.id = .ok deck ∧
      utf8Length (normalizeBody env.deps.unicode
        (env.deps.renderPresentationMarkdown file.name deck file.id)) > oneMib
  | .png => knownPng file existing = none ∧
      ∃ bytes, env.drive.pngBytes file.id = .ok bytes ∧ bytes.length > oneMib
  | .sheet => False

/-- The handler of a file raises, or finds its export too large. -/
def Fails (env : Env ν δ π) (file : DriveFile) (p : Path) (existing : Option StateEntry) (c : Ctx) :
    Prop :=
  (∃ e c', exec (processKind env file p existing) c = (.error e, c')) ∨
    Oversized env file p existing c

/-- A handler that ends normally has recorded its entry, unless the export is too large; one that
raises has recorded nothing. -/
def Outcome (env : Env ν δ π) (file : DriveFile) (p : Path) (existing : Option StateEntry)
    (handler : SyncM Unit) (c : Ctx) : Prop :=
  Triple (· = c) handler
    (fun _ c' => (Oversized env file p existing c ∧ Unrecorded c c') ∨
      (¬ Oversized env file p existing c ∧
        Recorded (.file file.id) (landing env file p existing) c c'))
    (fun _ => Unrecorded c)

theorem oversized_iff (hmime : file.mime ≠ .sheet) (c : Ctx) :
    Oversized env file p existing c ↔ judged env file p existing c = .ok none := by
  unfold Oversized judged
  cases hm : file.mime with
  | doc =>
    rcases hr : exec (renderGdoc env file p existing) c with ⟨e | r, c'⟩ <;> simp [Except.map]
  | slides => cases env.drive.presentation file.id <;> simp [Except.map]
  | png =>
    cases knownPng file existing <;> cases env.drive.pngBytes file.id <;> simp [Except.map]
  | sheet => exact absurd hm hmime

theorem filed_landing {x : Export} (hmime : file.mime ≠ .sheet)
    (h : judged env file p existing c = .ok (some x)) :
    (x.filed false existing).localPath = landing env file p existing := by
  unfold landing
  cases hm : file.mime with
  | doc =>
    obtain ⟨r, -, -, -, rfl⟩ := (judged_doc hm).1 h
    exact Export.filed_path (fun _ => docExport_same) existing
  | slides =>
    obtain ⟨deck, -, -, rfl⟩ := (judged_slides hm).1 h
    exact Export.filed_path (fun _ => textExport_same) existing
  | png =>
    -- the entry an image keeps has the signature of the export, at whatever path
    have hkept : x.entry.localPath = p ∧ unchangedPng env file existing = x.kept existing := by
      rcases (judged_png hm).1 h with ⟨e, hknown, rfl⟩ | ⟨hunknown, bytes, hbytes, -, rfl⟩
      · obtain ⟨md5, hmd5, -⟩ := Option.bind_eq_some_iff.1 hknown
        refine ⟨rfl, ?_⟩
        rw [unchangedPng, hmd5, knownPng_kept hknown]
        exact hknown
      · refine ⟨rfl, ?_⟩
        rw [unchangedPng, hbytes]
        cases hmd5 : file.md5 with
        | none =>
          rw [pngSignature_of_md5 hmd5]
          rfl
        | some md5 => exact knownPng_eq_kept hmd5 p existing bytes
    rw [if_pos rfl, hkept.2, Export.filed, if_neg (by simp)]
    cases x.kept existing with
    | none => exact hkept.1
    | some e => rfl
  | sheet => exact absurd hm hmime

theorem processKind_outcome (hdry : env.dryRun = false) (hmime : file.mime ≠ .sheet) (c : Ctx) :
    Outcome env file p existing (processKind env file p existing) c := by
  refine (processKind_settles env file p existing c).conseq (fun _ h => h) (fun _ c' h => ?_)
    fun _ _ h => h.1
  rw [oversized_iff hmime c]
  rcases hj : judged env file p existing c with e | (_ | x)
  · rw [hj] at h
    exact h.elim
  · rw [hj] at h
    exact .inl ⟨rfl, h.1⟩
  · rw [hj] at h
    exact .inr ⟨by simp, Settled.recorded hdry (filed_landing hmime hj) h⟩

/-! ## What a turn records -/

/-- No key is lost, only keys in `K` are new, and none comes twice. -/
structure Grows (K : SourceId → Prop) (c c' : Ctx) : Prop where
  kept : ∀ x ∈ c.newState.keys, x ∈ c'.newState.keys
  new : ∀ x ∈ c'.newState.keys, x ∈ c.newState.keys ∨ K x
  nodup : c.newState.keys.Nodup → c'.newState.keys.Nodup

instance (K : SourceId → Prop) : Std.Refl (Grows K) :=
  ⟨fun _ => ⟨fun _ h => h, fun _ h => .inl h, fun h => h⟩⟩

instance (K : SourceId → Prop) : IsTrans Ctx (Grows K) where
  trans _ _ _ h h' := by
    refine ⟨fun x hx => h'.kept x (h.kept x hx), fun x hx => ?_, fun hc => h'.nodup (h.nodup hc)⟩
    exact (h'.new x hx).elim (h.new x) .inr

theorem Unrecorded.grows (h : Unrecorded c c') : Grows K c c' :=
  ⟨fun _ hx => h.1 ▸ hx, fun _ hx => .inl (h.1 ▸ hx), fun hc => h.1 ▸ hc⟩

theorem Recorded.mem_keys (h : Recorded key p c c') (x : SourceId) :
    x ∈ c'.newState.keys ↔ x = key ∨ x ∈ c.newState.keys := by
  obtain ⟨e, heq, -, -⟩ := h
  rw [heq]
  exact Dict.mem_keys_set

theorem Recorded.nodup (h : Recorded key p c c') (hc : c.newState.keys.Nodup) :
    c'.newState.keys.Nodup := by
  obtain ⟨e, heq, -, -⟩ := h
  rw [heq]
  exact Dict.nodup_keys_set hc

theorem Recorded.grows (h : Recorded key p c c') (hK : K key) : Grows K c c' := by
  refine ⟨fun x hx => (h.mem_keys x).mpr (.inr hx), fun x hx => ?_, h.nodup⟩
  rcases (h.mem_keys x).mp hx with rfl | hx
  · exact .inr hK
  · exact .inl hx

def Turns (file : DriveFile) (x : SourceId) : Prop :=
  if file.mime = .sheet then ∃ gid, x = .tab file.id gid else x = .file file.id

theorem grows_of_triple (hK : K key)
    (h : ∀ c, Triple (Unrecorded c) x (fun _ c' => Unrecorded c c' ∨ Recorded key p c c')
      (fun _ => Unrecorded c)) : Within (Grows K) x := by
  intro c
  have hc := h c c (Std.Refl.refl c)
  generalize exec x c = r at hc ⊢
  obtain ⟨e | a, c'⟩ := r
  · exact hc.grows
  · exact hc.elim Unrecorded.grows fun hr => hr.grows hK

theorem bump_grows (f : SummaryCounts → SummaryCounts) : Within (Grows K) (bump f) :=
  (bump_unrecorded f).mono fun _ _ h => h.grows

/-- The values of a tab cannot be read, or its export is over 1 MiB. -/
def TabFails (env : Env ν δ π) (file : DriveFile) (tab : Tab) : Prop :=
  match env.drive.sheetValues file.id tab.title with
  | .error _ => True
  | .ok values => utf8Length (normalizeBody env.deps.unicode
      (env.deps.renderTabMarkdown file.name tab.title values file.id tab.sheetId)) > oneMib

theorem tabFails_iff {file : DriveFile} {tab : Tab} :
    TabFails env file tab ↔ ∀ x, judgedTab env file tab p ≠ .ok (some x) := by
  unfold TabFails judgedTab
  cases env.drive.sheetValues file.id tab.title with
  | error e => simp [Except.map]
  | ok values => simp [Except.map]

theorem exportTab_recorded (hdry : env.dryRun = false) {file : DriveFile} {tab : Tab} (c : Ctx) :
    Triple (Unrecorded c) (exportTab env file tab p)
      (fun _ c' => (TabFails env file tab ∧ Unrecorded c c') ∨
        (¬ TabFails env file tab ∧ Recorded (.tab file.id tab.sheetId) p c c'))
      (fun _ => Unrecorded c) := by
  intro c₁ h₁
  have hsettles := exportTab_settles env file tab p c₁ c₁ (Std.Refl.refl c₁)
  rw [tabFails_iff (p := p)]
  generalize exec (exportTab env file tab p) c₁ = r at hsettles ⊢
  obtain ⟨e | a, c₂⟩ := r
  · exact IsTrans.trans c c₁ c₂ h₁ hsettles.1
  · rcases hj : judgedTab env file tab p with e | (_ | x)
    · rw [hj] at hsettles
      exact .inl ⟨by simp, IsTrans.trans c c₁ c₂ h₁ hsettles.1⟩
    · rw [hj] at hsettles
      exact .inl ⟨by simp, IsTrans.trans c c₁ c₂ h₁ hsettles.1⟩
    · rw [hj] at hsettles
      refine .inr ⟨by simp, h₁.then_recorded (Settled.recorded hdry ?_ hsettles)⟩
      obtain ⟨values, -, -, rfl⟩ := judgedTab_eq_some.1 hj
      exact Export.filed_path (fun _ => textExport_same) _

theorem takePath_grows (p : Path) : Within (Grows K) (takePath p) :=
  Within.modify fun _ => ⟨fun _ h => h, fun _ h => .inl h, fun h => h⟩

theorem processGsheet_grows (hdry : env.dryRun = false) (hmime : file.mime = .sheet) :
    Within (Grows (Turns file)) (processGsheet env file) := by
  unfold processGsheet
  split
  · exact bump_grows _
  · exact bump_grows _
  · exact Within.throw
  · refine Within.forM fun s _ => Within.bind (takePath_grows _) fun _ => ?_
    have hturn : Turns file (.tab file.id s.1.sheetId) := by
      rw [Turns, if_pos hmime]
      exact ⟨_, rfl⟩
    exact grows_of_triple hturn fun c => (exportTab_recorded hdry c).conseq (fun _ h => h)
      (fun _ _ h => h.imp And.right And.right) fun _ _ h => h

def Failing (env : Env ν δ π) (c : Ctx) (file : DriveFile) : Prop :=
  ∃ p, allocate env file c.takenPaths = some p ∧
    Fails env file p (env.state.get? (.file file.id)) (c.turn p)

/-- A file is exported: it has a handler, which does not fail. -/
def Exports (env : Env ν δ π) (c : Ctx) (file : DriveFile) : Prop :=
  file.mime ≠ .sheet ∧ ¬ Failing env c file

/-- The turn of a file that is not a workbook, if it does not end the run, records the file's key
exactly when the file is exported. -/
theorem processListed_file (hdry : env.dryRun = false) (hmime : file.mime ≠ .sheet)
    (h : exec (processListed env file) c = (.ok (), c')) :
    (Exports env c file ∧ ∃ p, allocate env file c.takenPaths = some p ∧
        Recorded (.file file.id) (landing env file p (env.state.get? (.file file.id))) (c.turn p)
          c') ∨
      (¬ Exports env c file ∧ ∃ p, allocate env file c.takenPaths = some p ∧
        Unrecorded (c.turn p) c') := by
  obtain ⟨p, hp, hturn⟩ := processListed_turn hmime h
  have hexports : Exports env c file ↔
      ¬ Fails env file p (env.state.get? (.file file.id)) (c.turn p) := by
    simp [Exports, Failing, hmime, hp]
  have houtcome : Outcome env file p (env.state.get? (.file file.id))
      (processKind env file p (env.state.get? (.file file.id))) (c.turn p) :=
    processKind_outcome hdry hmime (c.turn p)
  have hout := houtcome (c.turn p) rfl
  rw [hexports]
  rcases hturn with ⟨e, c₁, hraise, -, hun, rfl⟩ | ⟨hend, -⟩
  · exact .inr ⟨not_not.mpr (.inl ⟨e, c₁, hraise⟩), p, hp, hun.1⟩
  · rw [hend] at hout
    rcases hout with ⟨hover, hun⟩ | ⟨hsmall, hrec⟩
    · exact .inr ⟨not_not.mpr (.inr hover), p, hp, hun⟩
    · refine .inl ⟨?_, p, hp, hrec⟩
      rintro (⟨e, c₂, hraise⟩ | hover)
      · rw [hend] at hraise
        cases hraise
      · exact hsmall hover

theorem processFile_recorded (hdry : env.dryRun = false) (hmime : file.mime ≠ .sheet) (p : Path)
    (existing : Option StateEntry) (c₀ : Ctx) :
    Triple (Unrecorded c₀) (processFile env file p existing)
      (fun _ c' => Unrecorded c₀ c' ∨
        Recorded (.file file.id) (landing env file p existing) c₀ c')
      (fun _ => Unrecorded c₀) := by
  refine Triple.tryCatch (Unrecorded.then_records c₀ (bump_unrecorded _) fun _ c hc => ?_) fun e => ?_
  · have houtcome : Outcome env file p existing (processKind env file p existing) c :=
      processKind_outcome hdry hmime c
    refine houtcome.conseq (fun _ h => h) (fun _ c' h => ?_)
      (fun _ _ h => IsTrans.trans c₀ c _ hc h) c rfl
    exact h.imp (fun ⟨_, hun⟩ => IsTrans.trans c₀ c c' hc hun) fun ⟨_, hrec⟩ => hc.then_recorded hrec
  · split
    · exact Triple.modify fun _ h => .inl h
    · exact Triple.throw fun _ h => h

theorem processFile_grows (hdry : env.dryRun = false) (hmime : file.mime ≠ .sheet) (p : Path)
    (existing : Option StateEntry) :
    Within (Grows (Turns file)) (processFile env file p existing) := by
  have hturn : Turns file (.file file.id) := by rw [Turns, if_neg hmime]
  exact grows_of_triple hturn (processFile_recorded hdry hmime p existing)

theorem processListed_grows (hdry : env.dryRun = false) (file : DriveFile) :
    Within (Grows (Turns file)) (processListed env file) := by
  unfold processListed
  split
  · next hmime => exact processGsheet_grows hdry hmime
  · next hmime =>
    refine Within.bind Within.get fun c => ?_
    split
    · exact Within.throw
    · exact Within.bind (takePath_grows _) fun _ => processFile_grows hdry hmime _ _

theorem Turns.file_eq {id : FileId} (h : Turns file (.file id)) :
    file.mime ≠ .sheet ∧ id = file.id := by
  unfold Turns at h
  split at h
  · obtain ⟨gid, hgid⟩ := h
    cases hgid
  · next hmime =>
    cases h
    exact ⟨hmime, rfl⟩

theorem mem_keys_turn (hdry : env.dryRun = false)
    (h : exec (processListed env file) c = (.ok (), c')) (hnew : .file file.id ∉ c.newState.keys) :
    .file file.id ∈ c'.newState.keys ↔ Exports env c file := by
  by_cases hmime : file.mime = .sheet
  · have hgrows := processListed_grows hdry file c
    rw [h] at hgrows
    refine iff_of_false (fun hmem => ?_) fun hexports => hexports.1 hmime
    rcases hgrows.new _ hmem with hold | hturn
    · exact hnew hold
    · exact hturn.file_eq.1 hmime
  · rcases processListed_file hdry hmime h with ⟨hexports, p, -, hrec⟩ | ⟨hfails, p, -, hun⟩
    · exact iff_of_true ((hrec.mem_keys _).mpr (.inl rfl)) hexports
    · refine iff_of_false (fun hmem => hnew ?_) hfails
      rw [hun.1] at hmem
      exact hmem

/-! ## The archive pass -/

def Listed (files : List DriveFile) (x : SourceId) : Prop :=
  ∃ file ∈ files, x = .file file.id

theorem archivedNow_path (env : Env ν δ π) (key : SourceId) (entry : StateEntry) :
    (archivedNow env key entry).localPath = entry.localPath := by
  unfold archivedNow
  split <;> rfl

theorem archiveEntry_recorded (c : Ctx) :
    Triple (Unrecorded c) (archiveEntry env key entry)
      (fun _ => Recorded key entry.localPath c) (fun _ => Unrecorded c) := by
  intro c₁ h₁
  refine (archiveEntry_filed _ key entry c₁).conseq (fun _ h => h) (fun _ c₂ h => ?_)
    (fun _ c₂ h => IsTrans.trans c c₁ c₂ h₁ h.1) c₁ (Std.Refl.refl c₁)
  exact h₁.then_recorded ⟨_, h.state, archivedNow_path env key entry, h.taken⟩

theorem Gone.not_listed (h : Gone env files gids key) : ¬ Listed files key := by
  rintro ⟨file, hfile, rfl⟩
  exact h (List.mem_map_of_mem hfile)

/-- The archive pass records the key of every entry but those of the files still listed. -/
theorem handleArchivedKey_recorded (c : Ctx) :
    Triple (Unrecorded c) (handleArchivedKey env files gids (key, entry))
      (fun _ c' => (Listed files key ∧ Unrecorded c c') ∨
        (¬ Listed files key ∧ Recorded key entry.localPath c c'))
      (fun _ => Unrecorded c) := by
  have hstep := handleArchivedKey_step env files gids key entry
  generalize handleArchivedKey env files gids (key, entry) = step at hstep ⊢
  cases hstep with
  | raises _ _ => exact Triple.throw fun _ h => h
  | gone _ hgone =>
    exact Triple.bind (archiveEntry_recorded c) fun _ => Triple.pure fun _ h =>
      .inr ⟨hgone.not_listed, h⟩
  | present _ hkey _ _ =>
    refine Triple.bind (record_recorded rfl c) fun _ => Triple.pure fun _ h => .inr ⟨?_, h⟩
    rintro ⟨file, -, heq⟩
    cases hkey.symm.trans heq
  | listed hfile hkey => exact Triple.pure fun _ h => .inl ⟨⟨_, hfile, hkey⟩, h⟩

structure ArchiveInv (env : Env ν δ π) (files : List DriveFile) (rest : List (SourceId × StateEntry))
    (c : Ctx) : Prop where
  recorded : ∀ x ∈ c.newState.keys, x ∈ env.state.keys ∧ ¬ Listed files x
  left : ∀ a ∈ env.state, ¬ Listed files a.1 → a.1 ∈ c.newState.keys ∨ a ∈ rest

theorem handleArchivedKey_inv {a : SourceId × StateEntry} (ha : a ∈ env.state)
    (rest : List (SourceId × StateEntry)) (gids : TabGids) :
    Triple (ArchiveInv env files (a :: rest)) (handleArchivedKey env files gids a)
      (fun _ => ArchiveInv env files rest) (fun _ _ => True) := by
  obtain ⟨key, entry⟩ := a
  intro c hc
  refine (handleArchivedKey_recorded c).conseq (fun _ h => h) (fun _ c' h => ?_)
    (fun _ _ _ => trivial) c (Std.Refl.refl c)
  rcases h with ⟨hlisted, hun⟩ | ⟨hnot, hrec⟩
  · refine ⟨fun x hx => hc.recorded x (hun.1 ▸ hx), fun a' ha' hnot' => ?_⟩
    rw [hun.1]
    refine (hc.left a' ha' hnot').imp_right fun hmem => ?_
    rcases List.mem_cons.mp hmem with rfl | hmem
    · exact absurd hlisted hnot'
    · exact hmem
  · refine ⟨fun x hx => ?_, fun a' ha' hnot' => ?_⟩
    · rcases (hrec.mem_keys x).mp hx with rfl | hx
      · exact ⟨List.mem_map_of_mem ha, hnot⟩
      · exact hc.recorded x hx
    · rw [hrec.mem_keys]
      rcases hc.left a' ha' hnot' with hmem | hmem
      · exact .inl (.inr hmem)
      · rcases List.mem_cons.mp hmem with rfl | hmem
        · exact .inl (.inl rfl)
        · exact .inr hmem

theorem handleArchived_keys (files : List DriveFile) :
    Triple (fun c => c.newState = []) (handleArchived env files)
      (fun _ c => ∀ x, x ∈ c.newState.keys ↔ x ∈ env.state.keys ∧ ¬ Listed files x)
      (fun _ _ => True) := by
  have hloop := Triple.foldlM (I := fun rest _ => ArchiveInv env files rest)
    (fun a ha rest gids => handleArchivedKey_inv ha rest gids) ([] : TabGids)
  refine Triple.bind (hloop.conseq (fun c hc => ⟨fun x hx => ?_, fun a ha _ => .inr ha⟩)
    (fun _ _ h => h) fun _ _ h => h) fun _ => Triple.pure fun c hc x => ⟨hc.recorded x, ?_⟩
  · rw [hc] at hx
    cases hx
  · rintro ⟨hx, hnot⟩
    obtain ⟨a, ha, rfl⟩ := List.mem_map.mp hx
    exact (hc.left a ha hnot).resolve_right List.not_mem_nil

/-! ## The keys of a run -/

def turn (env : Env ν δ π) (c : Ctx) (file : DriveFile) : Ctx := (exec (processListed env file) c).2

theorem forM_grows (hdry : env.dryRun = false) (files : List DriveFile) :
    Within (Grows fun x => ∃ file ∈ files, Turns file x) (files.forM (processListed env)) :=
  Within.forM fun file hfile => (processListed_grows hdry file).mono fun _ _ h =>
    ⟨h.kept, fun x hx => (h.new x hx).imp_right fun hturn => ⟨file, hfile, hturn⟩, h.nodup⟩

/-- Among files with distinct ids whose keys are not recorded yet, those that are exported in their
turn are those whose keys are recorded in the end. -/
theorem exports_iff_mem_keys (hdry : env.dryRun = false) (P : DriveFile → Prop) :
    ∀ (files : List DriveFile) (c c' : Ctx), (files.map (·.id)).Nodup →
      exec (files.forM (processListed env)) c = (.ok (), c') →
      (∀ file ∈ files, .file file.id ∉ c.newState.keys) →
      (Run.Along (turn env) (fun c file => P file → Exports env c file) c files ↔
        ∀ file ∈ files, P file → .file file.id ∈ c'.newState.keys) := by
  intro files
  induction files with
  | nil => intro c c' _ _ _; simp [Run.Along]
  | cons file files ih =>
    intro c c' hnodup hrun hnew
    obtain ⟨hfresh, hnodup⟩ := List.nodup_cons.mp hnodup
    obtain ⟨c₁, hturn, hrun⟩ := exec_forM_ok hrun
    have hgrows := processListed_grows hdry file c
    have hrest := forM_grows hdry files c₁
    rw [hturn] at hgrows
    rw [hrun] at hrest
    have hnew₁ : ∀ f ∈ files, .file f.id ∉ c₁.newState.keys := by
      intro f hf hmem
      rcases hgrows.new _ hmem with hold | hkey
      · exact hnew f (List.mem_cons_of_mem _ hf) hold
      · exact hfresh (List.mem_map.mpr ⟨f, hf, hkey.file_eq.2⟩)
    have hsame : .file file.id ∈ c'.newState.keys ↔ .file file.id ∈ c₁.newState.keys := by
      refine ⟨fun hmem => (hrest.new _ hmem).resolve_right ?_, hrest.kept _⟩
      rintro ⟨f, hf, hkey⟩
      exact hfresh (List.mem_map.mpr ⟨f, hf, hkey.file_eq.2.symm⟩)
    have hfile := mem_keys_turn hdry hturn (hnew file List.mem_cons_self)
    have hstep : turn env c file = c₁ := by rw [turn, hturn]
    rw [Run.Along, hstep, ih c₁ c' hnodup hrun hnew₁, List.forall_mem_cons, hsame, hfile]

def archivedCtx (env : Env ν δ π) (files : List DriveFile) (tree : FileTree Content) : Ctx :=
  (exec (handleArchived env files) (Ctx.start tree)).2

/-- What the saved state keeps of the loaded one: every key, and of a file that fails the entry. -/
structure Remembered (env : Env ν δ π) (files : List DriveFile) (tree : FileTree Content)
    (saved : Dict SourceId StateEntry) : Prop where
  keys : ∀ x ∈ env.state.keys, x ∈ saved.keys
  failed : Run.Along (turn env)
    (fun c file => file.mime ≠ .sheet → Failing env c file →
      ∀ e, env.state.get? (.file file.id) = some e → saved.get? (.file file.id) = some e)
    (archivedCtx env files tree) files

theorem runSync_eq_ok {dryRun : Bool} {world' : World} (hlisting : drive.listing = .ok files) :
    let env : Env ν δ π := ⟨deps, drive, world.state, dryRun, root⟩
    runSync deps root dryRun drive world = (world', .ok counts) ↔
      ∃ c₁ c₂, exec (handleArchived env (sortFiles files)) (Ctx.start world.tree) = (.ok (), c₁) ∧
        exec ((sortFiles files).forM (processListed env)) c₁ = (.ok (), c₂) ∧
        ⟨c₂.tree, if dryRun then world.state else saveState c₂.newState⟩ = world' ∧
        c₂.counts = counts := by
  intro env
  rw [runSync, hlisting]
  dsimp only
  rw [syncFiles, exec_bind]
  generalize (sortFiles files).forM (processListed env) = loop
  rcases exec (handleArchived env (sortFiles files)) (Ctx.start world.tree) with ⟨e | a, c₁⟩
  · simp
  · rcases hloop : exec loop c₁ with ⟨e | b, c₂⟩ <;> simp [hloop]

theorem runSync_ok (hlisting : drive.listing = .ok files)
    (hdone : (runSync deps root false drive world).2 = .ok counts) :
    ∃ c₁ c₂, exec (handleArchived ⟨deps, drive, world.state, false, root⟩ (sortFiles files))
        (Ctx.start world.tree) = (.ok (), c₁) ∧
      exec ((sortFiles files).forM (processListed ⟨deps, drive, world.state, false, root⟩)) c₁ =
        (.ok (), c₂) ∧
      (runSync deps root false drive world).1.state = saveState c₂.newState := by
  obtain ⟨c₁, c₂, harchive, hloop, hworld, -⟩ := (runSync_eq_ok hlisting).1 (Prod.ext rfl hdone)
  exact ⟨c₁, c₂, harchive, hloop, (congrArg World.state hworld).symm⟩

theorem mem_keys_saveState {state : Dict SourceId StateEntry} {x : SourceId} :
    x ∈ (saveState state).keys ↔ x ∈ state.keys := by
  simp only [Dict.keys, List.mem_map, saveState, List.mem_insertionSort]

/-- A completed run remembers the loaded state exactly when every file with an entry is exported in
its turn. -/
theorem keys_kept_iff (deps : Deps ν δ π) (root : Path) (drive : Drive δ π) (world : World)
    (files : List DriveFile) (hlisting : drive.listing = .ok files)
    (hdistinct : (files.map (·.id)).Nodup) (counts : SummaryCounts)
    (hdone : (runSync deps root false drive world).2 = .ok counts) :
    let env : Env ν δ π := ⟨deps, drive, world.state, false, root⟩
    Remembered env (sortFiles files) world.tree (runSync deps root false drive world).1.state ↔
      Run.Along (turn env)
        (fun c file => .file file.id ∈ world.state.keys → Exports env c file)
        (archivedCtx env (sortFiles files) world.tree) (sortFiles files) := by
  intro env
  obtain ⟨c₁, c₂, harchive, hloop, hsaved⟩ := runSync_ok hlisting hdone
  have hstart : archivedCtx env (sortFiles files) world.tree = c₁ := by rw [archivedCtx, harchive]
  have hperm : (sortFiles files).Perm files := List.perm_insertionSort _ files
  have hnodup : ((sortFiles files).map (·.id)).Nodup := (hperm.map _).nodup_iff.mpr hdistinct
  have harchived := @handleArchived_keys ν δ π env (sortFiles files) (Ctx.start world.tree) rfl
  rw [harchive] at harchived
  have hnew : ∀ file ∈ sortFiles files, .file file.id ∉ c₁.newState.keys := by
    intro file hfile hmem
    exact ((harchived _).mp hmem).2 ⟨file, hfile, rfl⟩
  have hiff := @exports_iff_mem_keys ν δ π env rfl (fun file => .file file.id ∈ world.state.keys)
    (sortFiles files) c₁ c₂ hnodup hloop hnew
  have hgrows := @forM_grows ν δ π env rfl (sortFiles files) c₁
  rw [hloop] at hgrows
  rw [hstart]
  constructor
  · intro h
    refine hiff.mpr fun file _ htracked => ?_
    have hkey := h.keys _ htracked
    rwa [hsaved, mem_keys_saveState] at hkey
  · intro h
    refine ⟨fun x hx => ?_, hstart ▸ h.mono fun c file hexports hmime hfails e he => ?_⟩
    · rw [hsaved, mem_keys_saveState]
      by_cases hlisted : Listed (sortFiles files) x
      · obtain ⟨file, hfile, rfl⟩ := hlisted
        exact hiff.mp h file hfile hx
      · exact hgrows.kept x ((harchived x).mpr ⟨hx, hlisted⟩)
    · exact absurd hfails (hexports (Dict.mem_keys_of_get? he)).2

end

def loreWorld : World :=
  (runSync plainDeps loreRoot false (loreDrive "alpha".toList (.ok "body".toList))
    firstLocal.world).1

def loreFile : DriveFile := ⟨loreId, .doc, "alpha".toList, [], none⟩

def loreEnv (document : Except Exn Text) : Env Text Text Text :=
  ⟨plainDeps, loreDrive "alpha".toList document, loreWorld.state, false, loreRoot⟩

theorem keys_kept_iff_loreWorld :
    let env := loreEnv (.ok "new body".toList)
    .file loreId ∈ loreWorld.state.keys ∧
      (Remembered env (sortFiles [loreFile]) loreWorld.tree
          (runSync plainDeps loreRoot false env.drive loreWorld).1.state ↔
        Run.Along (turn env)
          (fun c file => .file file.id ∈ loreWorld.state.keys → Exports env c file)
          (archivedCtx env (sortFiles [loreFile]) loreWorld.tree) (sortFiles [loreFile])) :=
  ⟨by decide +kernel, keys_kept_iff plainDeps loreRoot
    (loreDrive "alpha".toList (.ok "new body".toList)) loreWorld [loreFile] rfl (by decide)
    { SummaryCounts.zero with total := 1, updated := 1 } (by decide +kernel)⟩

/-- Drive fails on the document: the run completes, and its entry is gone. -/
theorem failed_file_forgotten :
    let env := loreEnv (.error .driveApi)
    (runSync plainDeps loreRoot false env.drive loreWorld).2 =
        .ok { SummaryCounts.zero with total := 1, errors := 1 } ∧
      ¬ Remembered env (sortFiles [loreFile]) loreWorld.tree
        (runSync plainDeps loreRoot false env.drive loreWorld).1.state := by
  refine ⟨by decide +kernel, fun h => ?_⟩
  have hkept := h.keys (.file loreId) (by decide +kernel)
  exact absurd hkept (by decide +kernel)

end Archiviste.Sync
