import Archiviste.Sync.Entries

/-!
# Archiviste.Sync.SavedPaths

The paths of the saved entries. A run gives a path to every source it exports: to a file one that no
source before it was given, to a tab one that nothing checks. The sources it records without an
export keep the path they had: those that left Drive, tabs that failed or whose workbook did, and
images whose checksum is the recorded one.

* `Gives`, `Retains`         — what the turn of a file records, and where.
* `loop_path_iff`            — the path of a source after a run is the one it was given or kept.
* `saved_paths_distinct_iff` — when no two saved entries have the same path.
* `paths_distinct`           — a condition under which this holds over any number of runs.
-/

namespace Archiviste.Sync

open Prog

/-! ## Paths of a state -/

def pathOf (state : Dict SourceId StateEntry) (x : SourceId) : Option Path :=
  (state.get? x).map (·.localPath)

variable {p : Path}

theorem pathOf_eq_some {state : Dict SourceId StateEntry} {x : SourceId} :
    pathOf state x = some p ↔ ∃ e, state.get? x = some e ∧ e.localPath = p :=
  Option.map_eq_some_iff

theorem pathOf_set (state : Dict SourceId StateEntry) (x y : SourceId) (e : StateEntry) :
    pathOf (state.set x e) y = if y = x then some e.localPath else pathOf state y := by
  rw [pathOf, Dict.get?_set]
  split <;> rfl

/-- The second state has the paths in `R`, and otherwise those of the first. -/
structure Overrides (R : SourceId → Path → Prop) (s s' : Dict SourceId StateEntry) : Prop where
  new : ∀ x p, R x p → pathOf s' x = some p
  old : ∀ x, (∀ p, ¬ R x p) → pathOf s' x = pathOf s x

namespace Overrides
variable {R R' : SourceId → Path → Prop} {s s' s'' : Dict SourceId StateEntry}

theorem congr (h : Overrides R s s') (hR : ∀ x p, R' x p ↔ R x p) : Overrides R' s s' :=
  ⟨fun x p hx => h.new x p ((hR x p).mp hx), fun x hx => h.old x fun p => mt (hR x p).mpr (hx p)⟩

theorem trans (h : Overrides R s s') (h' : Overrides R' s' s'')
    (hapart : ∀ x p q, R x p → ¬ R' x q) : Overrides (fun x p => R x p ∨ R' x p) s s'' := by
  refine ⟨fun x p hx => ?_, fun x hx => ?_⟩
  · rcases hx with hx | hx
    · rw [h'.old x fun q => hapart x p q hx]
      exact h.new x p hx
    · exact h'.new x p hx
  · rw [h'.old x fun p hp => hx p (.inr hp)]
    exact h.old x fun p hp => hx p (.inl hp)

theorem path_iff (h : Overrides R s s') {x : SourceId} {p : Path} :
    pathOf s' x = some p ↔ R x p ∨ ((∀ q, ¬ R x q) ∧ pathOf s x = some p) := by
  constructor
  · intro hp
    by_cases hR : ∃ q, R x q
    · obtain ⟨q, hq⟩ := hR
      cases (h.new x q hq).symm.trans hp
      exact .inl hq
    · have hnone : ∀ q, ¬ R x q := not_exists.mp hR
      exact .inr ⟨hnone, (h.old x hnone).symm.trans hp⟩
  · rintro (hR | ⟨hnone, hp⟩)
    · exact h.new x p hR
    · exact (h.old x hnone).trans hp

end Overrides

theorem Unrecorded.overrides {c c' : Ctx} (h : Unrecorded c c') :
    Overrides (fun _ _ => False) c.newState c'.newState :=
  ⟨fun _ _ h => h.elim, fun _ _ => by rw [h.1]⟩

theorem Recorded.overrides {key : SourceId} {c c' : Ctx} (h : Recorded key p c c') :
    Overrides (fun x q => x = key ∧ q = p) c.newState c'.newState := by
  obtain ⟨e, heq, rfl, -⟩ := h
  refine ⟨?_, fun x hx => ?_⟩
  · rintro x q ⟨rfl, rfl⟩
    rw [heq, pathOf_set, if_pos rfl]
  · rw [heq, pathOf_set, if_neg fun hkey => hx _ ⟨hkey, rfl⟩]

section
variable {ν δ π : Type} {env : Env ν δ π}

/-! ## The turn of a file -/

def GivesTab (env : Env ν δ π) (file : DriveFile) (slugged : List (Tab × Text)) (x : SourceId)
    (p : Path) : Prop :=
  ∃ s ∈ slugged, ¬ TabFails env file s.1 ∧ tabAllocation env file s = (x, p)

def KeepsEntry (env : Env ν δ π) (file : DriveFile) : Prop :=
  file.mime = .png ∧ (unchangedPng env file (env.state.get? (.file file.id))).isSome

def Gives (env : Env ν δ π) (c : Ctx) (file : DriveFile) (x : SourceId) (p : Path) : Prop :=
  if file.mime = .sheet then
    ∃ tabs, env.drive.tabs file.id = .ok tabs ∧
      GivesTab env file (resolveTabCollisions env.deps.unicode tabs) x p
  else
    x = .file file.id ∧ Exports env c file ∧ ¬ KeepsEntry env file ∧
      allocate env file c.takenPaths = some p

def Retains (env : Env ν δ π) (c : Ctx) (file : DriveFile) (x : SourceId) : Prop :=
  x = .file file.id ∧ Exports env c file ∧ KeepsEntry env file

/-- What the turn of a file records, and where. -/
def Records (env : Env ν δ π) (c : Ctx) (file : DriveFile) (x : SourceId) (p : Path) : Prop :=
  Gives env c file x p ∨ (Retains env c file x ∧ pathOf env.state x = some p)

variable {file : DriveFile} {x : SourceId} {p : Path} {c c' : Ctx} {files : List DriveFile}
  {state : Dict SourceId StateEntry}

theorem GivesTab.turns {slugged : List (Tab × Text)} (h : GivesTab env file slugged x p) :
    ∃ s ∈ slugged, x = .tab file.id s.1.sheetId := by
  obtain ⟨s, hs, -, halloc⟩ := h
  exact ⟨s, hs, (congrArg Prod.fst halloc).symm⟩

theorem Records.turns (h : Records env c file x p) : Turns file x := by
  rcases h with hgives | ⟨⟨rfl, hexports, -⟩, -⟩
  · unfold Gives at hgives
    unfold Turns
    split at hgives
    · next hmime =>
      obtain ⟨tabs, -, htab⟩ := hgives
      obtain ⟨s, -, rfl⟩ := htab.turns
      rw [if_pos hmime]
      exact ⟨_, rfl⟩
    · next hmime => rw [if_neg hmime, hgives.1]
  · rw [Turns, if_neg hexports.1]

theorem Turns.id_eq {file' : DriveFile} (h : Turns file x) (h' : Turns file' x) :
    file.id = file'.id := by
  unfold Turns at h h'
  split at h <;> split at h'
  · obtain ⟨gid, rfl⟩ := h
    obtain ⟨gid', heq⟩ := h'
    exact (SourceId.tab.inj heq).1
  · obtain ⟨gid, rfl⟩ := h
    cases h'
  · obtain ⟨gid, rfl⟩ := h'
    cases h
  · exact SourceId.file.inj (h.symm.trans h')

theorem unchangedPng_eq_some {existing : Option StateEntry} {e : StateEntry}
    (h : unchangedPng env file existing = some e) : existing = some e := by
  unfold unchangedPng knownPng at h
  split at h
  · obtain ⟨_, -, hknown⟩ := Option.bind_eq_some_iff.1 h
    exact filter_eq_some hknown
  · exact filter_eq_some h
  · cases h

theorem landing_eq_iff {q : Path} :
    q = landing env file p (env.state.get? (.file file.id)) ↔
      (¬ KeepsEntry env file ∧ q = p) ∨
        (KeepsEntry env file ∧ pathOf env.state (.file file.id) = some q) := by
  unfold landing KeepsEntry
  by_cases hmime : file.mime = .png
  · rw [if_pos hmime]
    cases hunchanged : unchangedPng env file (env.state.get? (.file file.id)) with
    | none => simp
    | some e =>
      have hpath : pathOf env.state (.file file.id) = some e.localPath := by
        rw [pathOf, unchangedPng_eq_some hunchanged]
        rfl
      simp [hmime, hpath, eq_comm]
  · simp [hmime]

theorem processTab_overrides (hdry : env.dryRun = false) {s : Tab × Text}
    (h : exec (processTab env file s) c = (.ok (), c')) :
    Overrides (GivesTab env file [s]) c.newState c'.newState ∧ c.takenPaths ⊆ c'.takenPaths := by
  have htake : exec (processTab env file s) c = exec (exportTab env file s.1 (tabPath env file s.2))
      { c with takenPaths := tabPath env file s.2 :: c.takenPaths } := rfl
  have hexport := @exportTab_recorded ν δ π env (tabPath env file s.2) hdry file s.1
    { c with takenPaths := tabPath env file s.2 :: c.takenPaths } _ (Std.Refl.refl _)
  rw [← htake, h] at hexport
  rcases hexport with ⟨hfails, hun⟩ | ⟨hok, hrec⟩
  · refine ⟨hun.overrides.congr fun x p => iff_of_false ?_ id, ?_⟩
    · rintro ⟨s', hs', hok, -⟩
      cases List.mem_singleton.mp hs'
      exact hok hfails
    · rw [hun.2]
      exact List.subset_cons_self _ _
  · refine ⟨hrec.overrides.congr fun x p => ?_, ?_⟩
    · simp [GivesTab, hok, tabAllocation, eq_comm]
    · obtain ⟨_, -, -, htaken⟩ := hrec
      rw [htaken]
      exact List.subset_cons_self _ _

theorem forM_processTab_overrides (hdry : env.dryRun = false) :
    ∀ {slugged : List (Tab × Text)} {c c' : Ctx}, (slugged.map (·.1.sheetId)).Nodup →
      exec (slugged.forM (processTab env file)) c = (.ok (), c') →
      Overrides (GivesTab env file slugged) c.newState c'.newState ∧
        c.takenPaths ⊆ c'.takenPaths := by
  intro slugged
  induction slugged with
  | nil =>
    intro c c' _ h
    cases h
    exact ⟨(Unrecorded.of_eq rfl).overrides.congr fun x p => by simp [GivesTab], fun _ h => h⟩
  | cons s slugged ih =>
    intro c c' hnodup h
    obtain ⟨hfresh, hnodup⟩ := List.nodup_cons.mp hnodup
    obtain ⟨c₁, hs, hrest⟩ := exec_forM_ok h
    obtain ⟨hone, htaken⟩ := processTab_overrides hdry hs
    obtain ⟨hmany, htaken'⟩ := ih hnodup hrest
    refine ⟨(hone.trans hmany fun x p q hx hx' => ?_).congr fun x p => ?_,
      List.Subset.trans htaken htaken'⟩
    · obtain ⟨s₁, hs₁, rfl⟩ := hx.turns
      obtain ⟨s₂, hs₂, heq⟩ := hx'.turns
      cases List.mem_singleton.mp hs₁
      exact hfresh (List.mem_map.mpr ⟨s₂, hs₂, (SourceId.tab.inj heq).2.symm⟩)
    · simp [GivesTab]

/-- The turn of a file records what `Records` says, and no path becomes free again. -/
theorem processListed_overrides (hdry : env.dryRun = false)
    (hgids : ∀ tabs, env.drive.tabs file.id = .ok tabs → (tabs.map (·.sheetId)).Nodup)
    (h : exec (processListed env file) c = (.ok (), c')) :
    Overrides (Records env c file) c.newState c'.newState ∧ c.takenPaths ⊆ c'.takenPaths := by
  by_cases hmime : file.mime = .sheet
  · have hretains : ∀ x, ¬ Retains env c file x := fun x hx => hx.2.1.1 hmime
    rw [processListed, if_pos hmime, processGsheet] at h
    cases htabs : env.drive.tabs file.id with
    | error e =>
      have hnone : ∀ x p, Records env c file x p ↔ False := by
        simp [Records, Gives, hmime, htabs, hretains]
      rw [htabs] at h
      cases e with
      | driveApi | os =>
        cases h
        exact ⟨(Unrecorded.of_eq rfl).overrides.congr hnone, fun _ h => h⟩
      | value | other => cases h
    | ok tabs =>
      rw [htabs] at h
      obtain ⟨hgiven, htaken⟩ := forM_processTab_overrides hdry
        (resolveTabCollisions_nodup _ (hgids tabs htabs)) h
      refine ⟨hgiven.congr fun x p => ?_, htaken⟩
      simp [Records, Gives, hmime, htabs, hretains]
  · have htaken : ∀ p, c.takenPaths ⊆ (c.turn p).takenPaths := fun p => List.subset_cons_self _ _
    rcases processListed_file hdry hmime h with ⟨hexports, p, hp, hrec⟩ | ⟨hfails, p, hp, hun⟩
    · refine ⟨(Recorded.overrides hrec).congr fun x q => ?_, ?_⟩
      · by_cases hx : x = .file file.id
        · subst hx
          simp [Records, Gives, Retains, hmime, hexports, hp, landing_eq_iff, eq_comm]
        · simp [Records, Gives, Retains, hmime, hx]
      · obtain ⟨_, -, -, hsame⟩ := hrec
        rw [hsame]
        exact htaken p
    · refine ⟨hun.overrides.congr fun x q => ?_, hun.2 ▸ htaken p⟩
      simp [Records, Gives, Retains, hmime, hfails]

theorem Gives.taken (hdry : env.dryRun = false) {id : FileId}
    (hgives : Gives env c file (.file id) p) (h : exec (processListed env file) c = (.ok (), c')) :
    id = file.id ∧ p ∉ c.takenPaths ∧ p ∈ c'.takenPaths := by
  have hmime : file.mime ≠ .sheet := (Records.turns (.inl hgives)).file_eq.1
  rw [Gives, if_neg hmime] at hgives
  obtain ⟨hid, -, -, hp⟩ := hgives
  refine ⟨SourceId.file.inj hid, allocate_fresh hp, ?_⟩
  have hturn : ∃ q, allocate env file c.takenPaths = some q ∧
      c'.takenPaths = (c.turn q).takenPaths := by
    rcases processListed_file hdry hmime h with ⟨-, q, hq, _, -, -, hsame⟩ | ⟨-, q, hq, hun⟩
    · exact ⟨q, hq, hsame⟩
    · exact ⟨q, hq, hun.2⟩
  obtain ⟨q, hq, hsame⟩ := hturn
  cases hp.symm.trans hq
  rw [hsame]
  exact List.mem_cons_self

/-! ## The loop -/

def Given (env : Env ν δ π) (c : Ctx) (files : List DriveFile) (x : SourceId) (p : Path) : Prop :=
  Run.Sometime (turn env) (fun c file => Gives env c file x p) c files

def Retained (env : Env ν δ π) (c : Ctx) (files : List DriveFile) (x : SourceId) : Prop :=
  Run.Sometime (turn env) (fun c file => Retains env c file x) c files

def LoopRecords (env : Env ν δ π) (c : Ctx) (files : List DriveFile) (x : SourceId) (p : Path) :
    Prop :=
  Given env c files x p ∨ (Retained env c files x ∧ pathOf env.state x = some p)

theorem loopRecords_cons : LoopRecords env c (file :: files) x p ↔
      Records env c file x p ∨ LoopRecords env (turn env c file) files x p := by
  simp only [LoopRecords, Given, Retained, Run.Sometime, Records, or_and_right]
  exact or_or_or_comm

theorem LoopRecords.turns (h : LoopRecords env c files x p) : ∃ file ∈ files, Turns file x := by
  rcases h with hgiven | ⟨hretained, hp⟩
  · obtain ⟨_, file, hfile, hgives⟩ := hgiven.exists
    exact ⟨file, hfile, Records.turns (.inl hgives)⟩
  · obtain ⟨_, file, hfile, hretains⟩ := hretained.exists
    exact ⟨file, hfile, Records.turns (.inr ⟨hretains, hp⟩)⟩

section
variable (hdry : env.dryRun = false)
  (hgids : ∀ id tabs, env.drive.tabs id = .ok tabs → (tabs.map (·.sheetId)).Nodup)
include hdry hgids

variable {files : List DriveFile} {p : Path}

theorem forM_overrides : ∀ {c c' : Ctx}, (files.map (·.id)).Nodup →
    exec (files.forM (processListed env)) c = (.ok (), c') →
    Overrides (LoopRecords env c files) c.newState c'.newState := by
  induction files with
  | nil =>
    intro c c' _ h
    cases h
    exact (Unrecorded.of_eq rfl).overrides.congr fun x p => by
      simp [LoopRecords, Given, Retained, Run.Sometime]
  | cons file files ih =>
    intro c c' hnodup h
    obtain ⟨hfresh, hnodup⟩ := List.nodup_cons.mp hnodup
    obtain ⟨c₁, hfile, hrest⟩ := exec_forM_ok h
    have hturn : turn env c file = c₁ := by rw [turn, hfile]
    have hone := (processListed_overrides hdry (hgids file.id) hfile).1
    refine (hone.trans (ih hnodup hrest) fun x p q hx hx' => ?_).congr fun x p => ?_
    · obtain ⟨file', hfile', hturns⟩ := hx'.turns
      exact hfresh (List.mem_map.mpr ⟨file', hfile', hturns.id_eq hx.turns⟩)
    · rw [loopRecords_cons, hturn]

theorem Given.fresh {id : FileId} : ∀ {c c' : Ctx},
    exec (files.forM (processListed env)) c = (.ok (), c') → Given env c files (.file id) p →
    p ∉ c.takenPaths := by
  induction files with
  | nil => intro c c' _ hgiven; exact hgiven.elim
  | cons file files ih =>
    intro c c' h hgiven
    obtain ⟨c₁, hfile, hrest⟩ := exec_forM_ok h
    have hturn : turn env c file = c₁ := by rw [turn, hfile]
    rcases hgiven with hgives | hgiven
    · exact (hgives.taken hdry hfile).2.1
    · rw [hturn] at hgiven
      intro hp
      exact ih hrest hgiven ((processListed_overrides hdry (hgids file.id) hfile).2 hp)

theorem Given.file_inj {id id' : FileId} : ∀ {c c' : Ctx},
    exec (files.forM (processListed env)) c = (.ok (), c') → Given env c files (.file id) p →
    Given env c files (.file id') p → id = id' := by
  induction files with
  | nil => intro c c' _ hgiven; exact hgiven.elim
  | cons file files ih =>
    intro c c' h hgiven hgiven'
    obtain ⟨c₁, hfile, hrest⟩ := exec_forM_ok h
    have hturn : turn env c file = c₁ := by rw [turn, hfile]
    have hlater : ∀ {id₁ id₂ : FileId}, Gives env c file (.file id₁) p →
        ¬ Given env c₁ files (.file id₂) p := fun hgives hgiven =>
      hgiven.fresh hdry hgids hrest (hgives.taken hdry hfile).2.2
    rw [Given, Run.Sometime, hturn] at hgiven hgiven'
    rcases hgiven with hgives | hgiven <;> rcases hgiven' with hgives' | hgiven'
    · exact (hgives.taken hdry hfile).1.trans (hgives'.taken hdry hfile).1.symm
    · exact absurd hgiven' (hlater hgives)
    · exact absurd hgiven (hlater hgives')
    · exact ih hrest hgiven hgiven'

end

/-! ## The archive pass -/

structure ArchivePaths (env : Env ν δ π) (files : List DriveFile)
    (rest : Dict SourceId StateEntry) (c : Ctx) : Prop where
  nodup : rest.keys.Nodup
  keys : c.newState.keys.Nodup
  listed : ∀ x, Listed files x → pathOf c.newState x = none
  done : ∀ x, ¬ Listed files x → x ∉ rest.keys → pathOf c.newState x = pathOf env.state x

theorem handleArchivedKey_paths (hkeys : env.state.keys.Nodup) {a : SourceId × StateEntry}
    (ha : a ∈ env.state) (rest : Dict SourceId StateEntry) (gids : TabGids) :
    Triple (ArchivePaths env files (a :: rest)) (handleArchivedKey env files gids a)
      (fun _ => ArchivePaths env files rest) (fun _ _ => True) := by
  obtain ⟨key, entry⟩ := a
  intro c hc
  obtain ⟨hfresh, hnodup⟩ := List.nodup_cons.mp hc.nodup
  have hstate : pathOf env.state key = some entry.localPath := by
    rw [pathOf, Dict.get?_of_mem hkeys ha]
    rfl
  refine (handleArchivedKey_recorded c).conseq (fun _ h => h) (fun _ c' h => ?_)
    (fun _ _ _ => trivial) c (Std.Refl.refl c)
  rcases h with ⟨hlisted, hun⟩ | ⟨hnot, hrec⟩
  · refine ⟨hnodup, hun.1 ▸ hc.keys, fun x hx => hun.1 ▸ hc.listed x hx, fun x hx hrest => ?_⟩
    rw [hun.1]
    refine hc.done x hx fun hmem => ?_
    rcases List.mem_cons.mp hmem with rfl | hmem
    · exact hx hlisted
    · exact hrest hmem
  · refine ⟨hnodup, hrec.nodup hc.keys, fun x hx => ?_, fun x hx hrest => ?_⟩
    · rw [hrec.overrides.old x fun p hp => hnot (hp.1 ▸ hx)]
      exact hc.listed x hx
    · by_cases hkey : x = key
      · subst hkey
        rw [hrec.overrides.new x _ ⟨rfl, rfl⟩, hstate]
      · rw [hrec.overrides.old x fun p hp => hkey hp.1]
        exact hc.done x hx fun hmem => (List.mem_cons.mp hmem).elim hkey hrest

theorem handleArchived_paths (hkeys : env.state.keys.Nodup) (files : List DriveFile) :
    Triple (fun c => c.newState = []) (handleArchived env files)
      (fun _ => ArchivePaths env files []) (fun _ _ => True) := by
  have hloop := Triple.foldlM (I := fun rest _ => ArchivePaths env files rest)
    (fun a ha rest gids => handleArchivedKey_paths hkeys ha rest gids) ([] : TabGids)
  refine Triple.bind (hloop.conseq (fun c hc => ?_) (fun _ _ h => h) fun _ _ h => h)
    fun _ => Triple.pure fun _ h => h
  refine ⟨hkeys, ?_, fun x _ => ?_, fun x _ hx => ?_⟩ <;> rw [hc]
  · exact List.nodup_nil
  · rfl
  · rw [pathOf, pathOf, Dict.get?_eq_none hx]
    rfl

/-! ## The paths of a run -/

def Kept (env : Env ν δ π) (c : Ctx) (files : List DriveFile) (x : SourceId) (p : Path) : Prop :=
  pathOf env.state x = some p ∧
    (Retained env c files x ∨ (¬ Listed files x ∧ ∀ q, ¬ Given env c files x q))

theorem loop_path_iff (hdry : env.dryRun = false)
    (hgids : ∀ id tabs, env.drive.tabs id = .ok tabs → (tabs.map (·.sheetId)).Nodup)
    (hids : (files.map (·.id)).Nodup) (hc : ArchivePaths env files [] c)
    (h : exec (files.forM (processListed env)) c = (.ok (), c')) :
    pathOf c'.newState x = some p ↔ Given env c files x p ∨ Kept env c files x p := by
  rw [(forM_overrides hdry hgids hids h).path_iff]
  constructor
  · rintro ((hgiven | ⟨hretained, hp⟩) | ⟨hnone, hp⟩)
    · exact .inl hgiven
    · exact .inr ⟨hp, .inl hretained⟩
    · have hlisted : ¬ Listed files x := fun hx => by
        rw [hc.listed x hx] at hp
        cases hp
      rw [hc.done x hlisted List.not_mem_nil] at hp
      exact .inr ⟨hp, .inr ⟨hlisted, fun q hq => hnone q (.inl hq)⟩⟩
  · rintro (hgiven | ⟨hp, hretained | ⟨hlisted, hnone⟩⟩)
    · exact .inl (.inl hgiven)
    · exact .inl (.inr ⟨hretained, hp⟩)
    · by_cases hretained : Retained env c files x
      · exact .inl (.inr ⟨hretained, hp⟩)
      · refine .inr ⟨fun q hq => ?_, (hc.done x hlisted List.not_mem_nil).trans hp⟩
        exact hq.elim (hnone q) fun hq => hretained hq.1

def PathsDistinct (state : Dict SourceId StateEntry) : Prop :=
  ∀ a ∈ state, ∀ b ∈ state, a.2.localPath = b.2.localPath → a.1 = b.1

theorem pathsDistinct_saveState : PathsDistinct (saveState state) ↔ PathsDistinct state := by
  simp only [PathsDistinct, saveState, List.mem_insertionSort]

theorem pathsDistinct_iff (h : state.keys.Nodup) :
    PathsDistinct state ↔
      ∀ x y p, pathOf state x = some p → pathOf state y = some p → x = y := by
  constructor
  · intro hdistinct x y p hx hy
    obtain ⟨e, he, hp⟩ := pathOf_eq_some.mp hx
    obtain ⟨e', he', hp'⟩ := pathOf_eq_some.mp hy
    exact hdistinct (x, e) (Dict.mem_of_get? he) (y, e') (Dict.mem_of_get? he') (hp.trans hp'.symm)
  · rintro hpaths ⟨x, e⟩ ha ⟨y, e'⟩ hb heq
    have hx := pathOf_eq_some.mpr ⟨e, Dict.get?_of_mem h ha, rfl⟩
    have hy := pathOf_eq_some.mpr ⟨e', Dict.get?_of_mem h hb, rfl⟩
    exact hpaths x y _ hx (hy.trans (congrArg some heq.symm))

/-- The paths that nothing in the code keeps apart are apart: those of the kept entries, from each
other and from the paths given, and those given to tabs from all others given. -/
structure Separate (env : Env ν δ π) (c : Ctx) (files : List DriveFile) : Prop where
  kept : ∀ x y p, Kept env c files x p → Kept env c files y p → x = y
  unclaimed : ∀ x y p, Kept env c files x p → Given env c files y p → x = y
  tabs : ∀ id gid y p, Given env c files (.tab id gid) p → Given env c files y p → .tab id gid = y

/-- The entries a completed run saves have distinct paths exactly when, from the archive pass on,
its kept entries and its tabs are separate. -/
theorem saved_paths_distinct_iff (deps : Deps ν δ π) (root : Path) (drive : Drive δ π)
    (world : World) (hkeys : world.state.keys.Nodup) (files : List DriveFile)
    (hlisting : drive.listing = .ok files) (hids : (files.map (·.id)).Nodup)
    (hgids : ∀ id tabs, drive.tabs id = .ok tabs → (tabs.map (·.sheetId)).Nodup)
    (counts : SummaryCounts) (hdone : (runSync deps root false drive world).2 = .ok counts) :
    let env : Env ν δ π := ⟨deps, drive, world.state, false, root⟩
    PathsDistinct (runSync deps root false drive world).1.state ↔
      Separate env (archivedCtx env (sortFiles files) world.tree) (sortFiles files) := by
  intro env
  obtain ⟨c₁, c₂, harchive, hloop, hsaved⟩ := runSync_ok hlisting hdone
  have hstart : archivedCtx env (sortFiles files) world.tree = c₁ := by rw [archivedCtx, harchive]
  have hperm : (sortFiles files).Perm files := List.perm_insertionSort _ files
  have hids : ((sortFiles files).map (·.id)).Nodup := (hperm.map _).nodup_iff.mpr hids
  have harchived := @handleArchived_paths ν δ π env hkeys (sortFiles files) (Ctx.start world.tree) rfl
  rw [harchive] at harchived
  have hgrows := @forM_grows ν δ π env rfl (sortFiles files) c₁
  rw [hloop] at hgrows
  have hpath : ∀ {x p}, pathOf c₂.newState x = some p ↔
      Given env c₁ (sortFiles files) x p ∨ Kept env c₁ (sortFiles files) x p :=
    loop_path_iff rfl hgids hids harchived hloop
  rw [hsaved, pathsDistinct_saveState, pathsDistinct_iff (hgrows.nodup harchived.keys), hstart]
  constructor
  · intro h
    exact
      { kept := fun x y p hx hy => h x y p (hpath.mpr (.inr hx)) (hpath.mpr (.inr hy))
        unclaimed := fun x y p hx hy => h x y p (hpath.mpr (.inr hx)) (hpath.mpr (.inl hy))
        tabs := fun id gid y p hx hy => h _ y p (hpath.mpr (.inl hx)) (hpath.mpr (.inl hy)) }
  · intro h x y p hx hy
    rcases hpath.mp hx with hx | hx <;> rcases hpath.mp hy with hy | hy
    · cases x with
      | tab id gid => exact h.tabs id gid y p hx hy
      | file id =>
        cases y with
        | tab id' gid => exact (h.tabs id' gid _ p hy hx).symm
        -- the one pair of allocations the code checks
        | file id' => rw [hx.file_inj rfl hgids hloop hy]
    · exact (h.unclaimed y x p hy hx).symm
    · exact h.unclaimed x y p hx hy
    · exact h.kept x y p hx hy

end

instance (state : Dict SourceId StateEntry) : Decidable (PathsDistinct state) :=
  inferInstanceAs (Decidable (∀ a ∈ state, ∀ b ∈ state, a.2.localPath = b.2.localPath → a.1 = b.1))

def atlasFile : DriveFile :=
  ⟨⟨"1b".toList, List.all_eq_true.1 (by decide)⟩, .sheet, "atlas".toList, [], none⟩

def atlasDrive : Drive Text Text :=
  plainDrive [atlasFile] (.ok [⟨"map".toList, 0, 0⟩]) fun _ => .error .driveApi

/-- The document has left Drive and its entry keeps its path; the tab of a new workbook gets one. -/
theorem saved_paths_distinct_iff_atlas :
    let env : Env Text Text Text := ⟨plainDeps, atlasDrive, loreWorld.state, false, loreRoot⟩
    let state := (runSync plainDeps loreRoot false atlasDrive loreWorld).1.state
    state.map (fun e => (e.1, e.2.localPath)) = [(.file loreId, alphaPath),
        (.tab atlasFile.id 0, loreRoot ++ ["atlas--map.md".toList])] ∧
      PathsDistinct state ∧
      Separate env (archivedCtx env (sortFiles [atlasFile]) loreWorld.tree) (sortFiles [atlasFile]) := by
  intro env state
  have hdistinct : PathsDistinct state := by decide +kernel
  refine ⟨by decide +kernel, hdistinct, ?_⟩
  exact (saved_paths_distinct_iff plainDeps loreRoot atlasDrive loreWorld (by decide +kernel)
    [atlasFile] rfl (by decide) (fun _ tabs htabs => by cases htabs; decide)
    { SummaryCounts.zero with total := 2, created := 1, archived := 1 } (by decide +kernel)).1 hdistinct

def twins : List DriveFile :=
  [⟨loreId, .sheet, "atlas".toList, [], none⟩, atlasFile]

def twinDrive : Drive Text Text :=
  plainDrive twins (.ok [⟨"map".toList, 0, 0⟩]) fun _ => .error .driveApi

/-- Both tabs are exported to the same file. -/
theorem tabs_share_path :
    (twins.map (·.id)).Nodup ∧
      (runSync plainDeps loreRoot false twinDrive firstLocal.world).2 =
        .ok { SummaryCounts.zero with total := 2, created := 2 } ∧
      ¬ PathsDistinct (runSync plainDeps loreRoot false twinDrive firstLocal.world).1.state := by
  decide +kernel

/-! ## Any number of runs -/

section
variable {ν δ π : Type} {env : Env ν δ π} {alloc : List (SourceId × Path)}

/-- Every entry has a path its key had in the loaded state, or one the run allocates to it. -/
def Sourced (env : Env ν δ π) (alloc : List (SourceId × Path)) (state : Dict SourceId StateEntry) :
    Prop :=
  ∀ a ∈ state, (∃ e, (a.1, e) ∈ env.state ∧ e.localPath = a.2.localPath) ∨
    (a.1, a.2.localPath) ∈ alloc

theorem Unrecorded.sourced {c c' : Ctx} (h : Unrecorded c c') (hc : Sourced env alloc c.newState) :
    Sourced env alloc c'.newState :=
  h.1 ▸ hc

variable {p : Path}

theorem Recorded.sourced {key : SourceId} {c c' : Ctx} (h : Recorded key p c c')
    (hc : Sourced env alloc c.newState)
    (hp : (∃ e, (key, e) ∈ env.state ∧ e.localPath = p) ∨ (key, p) ∈ alloc) :
    Sourced env alloc c'.newState := by
  obtain ⟨e, heq, rfl, -⟩ := h
  intro a ha
  rw [heq] at ha
  rcases Dict.mem_set ha with rfl | ha
  · exact hp
  · exact hc a ha

theorem handleArchived_sourced (files : List DriveFile) :
    Triple (fun c => Sourced env alloc c.newState ∧ c.takenPaths = []) (handleArchived env files)
      (fun _ c => Sourced env alloc c.newState ∧ c.takenPaths = []) (fun _ _ => True) := by
  refine Triple.bind (Triple.foldlM (I := fun _ _ (c : Ctx) =>
    Sourced env alloc c.newState ∧ c.takenPaths = []) (fun ⟨key, entry⟩ hentry _ gids c hc => ?_) [])
    fun _ => Triple.pure fun _ h => h
  refine (handleArchivedKey_recorded c).conseq (fun _ h => h) (fun _ c' h => ?_)
    (fun _ _ _ => trivial) c (Std.Refl.refl c)
  rcases h with ⟨-, hun⟩ | ⟨-, hrec⟩
  · exact ⟨hun.sourced hc.1, hun.2.trans hc.2⟩
  · refine ⟨hrec.sourced hc.1 (.inl ⟨entry, hentry, rfl⟩), ?_⟩
    obtain ⟨_, -, -, htaken⟩ := hrec
    exact htaken.trans hc.2

theorem takes_of_recorded {x : SourceId} {handler : SyncM Unit}
    (h : ∀ c, Triple (Unrecorded c) handler
      (fun _ c' => Unrecorded c c' ∨
        ∃ q, Recorded x q c c' ∧ (q = p ∨ pathOf env.state x = some q))
      (fun _ _ => True)) :
    Takes (fun pending c => Sourced env alloc c.newState ∧ ∀ a ∈ pending, a ∈ alloc)
      (fun _ => True) x p handler := by
  rintro rest c ⟨hsourced, hsub⟩
  have hrest : ∀ a ∈ rest, a ∈ alloc := fun a ha => hsub a (List.mem_cons_of_mem _ ha)
  refine (h { c with takenPaths := p :: c.takenPaths }).conseq (fun _ hs => .of_eq hs)
    (fun _ c' hs => ?_) fun _ _ hs => hs
  rcases hs with hun | ⟨q, hrec, hq⟩
  · exact ⟨⟨hun.sourced hsourced, hrest⟩, hun.2⟩
  · have hallowed : (∃ e, (x, e) ∈ env.state ∧ e.localPath = q) ∨ (x, q) ∈ alloc := by
      rcases hq with rfl | hq
      · exact .inr (hsub _ List.mem_cons_self)
      · obtain ⟨e, he, hpath⟩ := pathOf_eq_some.mp hq
        exact .inl ⟨e, Dict.mem_of_get? he, hpath⟩
    refine ⟨⟨hrec.sourced hsourced hallowed, hrest⟩, ?_⟩
    obtain ⟨_, -, -, htaken⟩ := hrec
    exact htaken

theorem loopRule_sourced (hdry : env.dryRun = false) :
    LoopRule env (fun pending c => Sourced env alloc c.newState ∧ ∀ a ∈ pending, a ∈ alloc)
      (fun _ => True) where
  counted _ _ _ h := h
  raised _ _ _ := trivial
  tab _ _ _ := takes_of_recorded fun c => (exportTab_recorded hdry c).conseq (fun _ h => h)
    (fun _ _ h => h.imp And.right fun h => ⟨_, h.2, .inl rfl⟩) fun _ _ _ => trivial
  file _ p _ hmime _ := takes_of_recorded fun c =>
    (processFile_recorded hdry hmime p _ c).conseq (fun _ h => h)
      (fun _ _ h => h.imp_right fun h =>
        ⟨_, h, (landing_eq_iff.mp rfl).imp And.right And.right⟩) fun _ _ _ => trivial

theorem syncFiles_sourced (hdry : env.dryRun = false) (files : List DriveFile) :
    Triple (fun c => c.newState = [] ∧ c.takenPaths = []) (syncFiles env files)
      (fun _ c => Sourced env (allocations env [] files) c.newState) (fun _ _ => True) := by
  have harchive : Triple _ (handleArchived env files)
      (fun _ c => Sourced env (allocations env [] files) c.newState ∧ c.takenPaths = [])
      (fun _ _ => True) := handleArchived_sourced files
  refine Triple.bind (harchive.conseq (fun c hc => ⟨?_, hc.2⟩) (fun _ _ h => h) fun _ _ h => h)
    fun _ => ((loopRule_sourced hdry).run files).conseq (fun c hc => ?_) (fun _ _ h => h.1)
      fun _ _ h => h
  · rw [hc.1]
    intro a ha
    cases ha
  · rw [hc.2]
    exact ⟨hc.1, fun _ ha => ha⟩

/-- The run allocates no path to two sources, and none that the state records for another source. -/
structure Apart (deps : Deps ν δ π) (root : Path) (world : World) (drive : Drive δ π) : Prop where
  oneSource : ∀ x y p, (x, p) ∈ runAllocations deps root drive world.state →
    (y, p) ∈ runAllocations deps root drive world.state → x = y
  unclaimed : ∀ x p, (x, p) ∈ runAllocations deps root drive world.state →
    ∀ a ∈ world.state, a.2.localPath = p → a.1 = x

theorem Sourced.pathsDistinct {state : Dict SourceId StateEntry} (h : Sourced env alloc state)
    (hold : PathsDistinct env.state)
    (hone : ∀ x y p, (x, p) ∈ alloc → (y, p) ∈ alloc → x = y)
    (hunclaimed : ∀ x p, (x, p) ∈ alloc → ∀ a ∈ env.state, a.2.localPath = p → a.1 = x) :
    PathsDistinct state := by
  intro a ha b hb heq
  rcases h a ha with ⟨e, he, hpath⟩ | ha <;> rcases h b hb with ⟨e', he', hpath'⟩ | hb
  · exact hold (a.1, e) he (b.1, e') he' (hpath.trans (heq.trans hpath'.symm))
  · exact hunclaimed b.1 _ hb (a.1, e) he (hpath.trans heq)
  · exact (hunclaimed a.1 _ ha (b.1, e') he' (hpath'.trans heq.symm)).symm
  · exact hone a.1 b.1 _ ha (heq ▸ hb)

def syncStep (deps : Deps ν δ π) (root : Path) (world : World) (run : Bool × Drive δ π) : World :=
  (runSync deps root run.1 run.2 world).1

theorem syncStep_pathsDistinct {deps : Deps ν δ π} {root : Path} {world : World}
    {run : Bool × Drive δ π} (h : PathsDistinct world.state)
    (hapart : run.1 = false → Apart deps root world run.2) :
    PathsDistinct (syncStep deps root world run).state := by
  obtain ⟨dry, drive⟩ := run
  unfold syncStep runSync
  dsimp only at hapart ⊢
  cases hlisting : drive.listing with
  | error e => exact h
  | ok files =>
    dsimp only
    generalize hrun : (syncFiles ⟨deps, drive, world.state, dry, root⟩ (sortFiles files)).exec
      (Ctx.start world.tree) = result
    obtain ⟨e | a, c⟩ := result
    · exact h
    · cases dry with
      | true => exact h
      | false =>
        obtain ⟨hone, hunclaimed⟩ := hapart rfl
        rw [runAllocations, hlisting] at hone hunclaimed
        have hsourced := @syncFiles_sourced ν δ π ⟨deps, drive, world.state, false, root⟩ rfl
          (sortFiles files) (Ctx.start world.tree) ⟨rfl, rfl⟩
        rw [hrun] at hsourced
        exact pathsDistinct_saveState.mpr (hsourced.pathsDistinct h hone hunclaimed)

/-- Over any number of runs, whatever fails in them: when each allocates apart, no two entries of
the state ever have the same path. -/
theorem paths_distinct (deps : Deps ν δ π) (root : Path) (world : World)
    (hstart : PathsDistinct world.state) (runs : List (Bool × Drive δ π))
    (hapart : Run.Along (syncStep deps root)
      (fun world run => run.1 = false → Apart deps root world run.2) world runs) :
    Run.Always (syncStep deps root) (fun world => PathsDistinct world.state) world runs := by
  refine Run.always_of_along (P := fun world => PathsDistinct world.state) ?_ runs world hstart
    hapart
  intro world run h hrun
  exact syncStep_pathsDistinct h hrun

end

end Archiviste.Sync
