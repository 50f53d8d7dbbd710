import Archiviste.Base.Prog
import Archiviste.Sync.Model

/-!
# Archiviste.Sync.Allocations

The paths a run gives to the sources of its listing, and the rule by which an invariant of the loop
is proved: an invariant indexed by the allocations still to come is kept by the loop when each
handler, started with its path taken, uses up one allocation.

* `allocations`, `runAllocations` — the paths, in the order of the loop.
* `allocations_placed`            — each of them is a placed path.
* `LoopRule.run`                  — the rule.
-/

namespace Archiviste.Sync

open Prog

section
variable {ν δ π : Type}

/-! ## The paths of a run -/

def tabAllocation (env : Env ν δ π) (file : DriveFile) (slugged : Tab × Text) : SourceId × Path :=
  (.tab file.id slugged.1.sheetId, tabPath env file slugged.2)

def allocations (env : Env ν δ π) : List Path → List DriveFile → List (SourceId × Path)
  | _, [] => []
  | taken, file :: files =>
    if file.mime = .sheet then
      match env.drive.tabs file.id with
      | .error _ => allocations env taken files
      | .ok tabs =>
        let given := (resolveTabCollisions env.deps.unicode tabs).map (tabAllocation env file)
        given ++ allocations env ((given.map (·.2)).reverse ++ taken) files
    else
      match allocate env file taken with
      | none => []
      | some p => (.file file.id, p) :: allocations env (p :: taken) files

def WellPlaced (root p : Path) : Prop := Placed root mdExt p ∨ Placed root pngExt p

variable {file : DriveFile} {taken : List Path} {p : Path}

theorem allocate_placed {env : Env ν δ π} (h : allocate env file taken = some p) :
    Placed env.loreRoot file.mime.ext p := by
  refine resolveLocalPath_placed ?_ h
  unfold Mime.ext
  split <;> decide

theorem allocate_parent {env : Env ν δ π} (h : allocate env file taken = some p) :
    p.parent = env.loreRoot ++
      file.components.map fun part => slugify env.deps.unicode part file.id.text := by
  obtain ⟨stem, -, rfl⟩ := resolveLocalPath_eq (by unfold Mime.ext; split <;> decide) h
  exact List.dropLast_concat

theorem allocate_fresh {env : Env ν δ π} (h : allocate env file taken = some p) : p ∉ taken :=
  resolveLocalPath_fresh h

theorem tabAllocation_placed (env : Env ν δ π) (file : DriveFile) {slugged : Tab × Text}
    (h : Plain slugged.2) : Placed env.loreRoot mdExt (tabAllocation env file slugged).2 := by
  simp only [tabAllocation, tabPath]
  exact tabLocalPath_placed file.components file.name file.id env.loreRoot h

theorem allocations_placed {env : Env ν δ π} {files : List DriveFile} {a : SourceId × Path} :
    ∀ {taken : List Path}, a ∈ allocations env taken files → WellPlaced env.loreRoot a.2 := by
  induction files with
  | nil => intro _ h; cases h
  | cons file files ih =>
    intro taken h
    unfold allocations at h
    split at h
    · split at h
      · exact ih h
      · rcases List.mem_append.1 h with h | h
        · obtain ⟨slugged, hs, rfl⟩ := List.mem_map.1 h
          exact .inl (tabAllocation_placed env file (assignTabSlugs_plain hs))
        · exact ih h
    · split at h
      · cases h
      · rename_i p hp
        rcases List.mem_cons.1 h with rfl | h
        · have := allocate_placed hp
          unfold Mime.ext at this
          split at this
          · exact .inr this
          · exact .inl this
        · exact ih h

theorem WellPlaced.of_suffix {root : Path} (h : WellPlaced root p) :
    (p.suffix = mdExt → Placed root mdExt p) ∧ (p.suffix = pngExt → Placed root pngExt p) := by
  rcases h with h | h
  · exact ⟨fun _ => h, fun hs => absurd (h.suffix_md.symm.trans hs) (by decide)⟩
  · exact ⟨fun hs => absurd (h.suffix_png.symm.trans hs) (by decide), fun _ => h⟩

def tabsPending (env : Env ν δ π) (file : DriveFile) (slugged : List (Tab × Text))
    (files : List DriveFile) (taken : List Path) : List (SourceId × Path) :=
  let given := slugged.map (tabAllocation env file)
  given ++ allocations env ((given.map (·.2)).reverse ++ taken) files

theorem tabsPending_cons (env : Env ν δ π) (file : DriveFile) (s : Tab × Text)
    (slugged : List (Tab × Text)) (files : List DriveFile) (taken : List Path) :
    tabsPending env file (s :: slugged) files taken =
      tabAllocation env file s ::
        tabsPending env file slugged files ((tabAllocation env file s).2 :: taken) := by
  simp [tabsPending]

def runAllocations (deps : Deps ν δ π) (root : Path) (drive : Drive δ π)
    (state : Dict SourceId StateEntry) : List (SourceId × Path) :=
  match drive.listing with
  | .error _ => []
  | .ok files => allocations ⟨deps, drive, state, false, root⟩ [] (sortFiles files)

/-! ## The loop -/

/-- The handler of a source, started with its path taken, uses up the first allocation. -/
def Takes (J : List (SourceId × Path) → Ctx → Prop) (E : Ctx → Prop) (x : SourceId) (p : Path)
    (handler : SyncM Unit) : Prop :=
  ∀ rest c, J ((x, p) :: rest) c →
    Triple (· = { c with takenPaths := p :: c.takenPaths }) handler
      (fun _ c' => J rest c' ∧ c'.takenPaths = p :: c.takenPaths) (fun _ => E)

/-- What the loop needs of an invariant `J` and of what is left of it, `E`, when an exception ends
the run. -/
structure LoopRule (env : Env ν δ π) (J : List (SourceId × Path) → Ctx → Prop) (E : Ctx → Prop) :
    Prop where
  counted : ∀ pending c (f : SummaryCounts → SummaryCounts), J pending c →
    J pending { c with counts := f c.counts }
  raised : ∀ pending c, J pending c → E c
  tab : ∀ (file : DriveFile) (s : Tab × Text), Plain s.2 →
    Takes J E (.tab file.id s.1.sheetId) (tabPath env file s.2)
      (exportTab env file s.1 (tabPath env file s.2))
  file : ∀ (file : DriveFile) (p : Path) (taken : List Path), file.mime ≠ .sheet →
    allocate env file taken = some p →
    Takes J E (.file file.id) p (processFile env file p (env.state.get? (.file file.id)))

variable {env : Env ν δ π} {J : List (SourceId × Path) → Ctx → Prop} {E : Ctx → Prop}

theorem Takes.take {x : SourceId} {handler : SyncM Unit} (h : Takes J E x p handler)
    (pending : List Path → List (SourceId × Path)) :
    Triple (fun c => J ((x, p) :: pending (p :: c.takenPaths)) c) (takePath p >>= fun _ => handler)
      (fun _ c => J (pending c.takenPaths) c) (fun _ => E) := by
  intro c hc
  have htake : exec (takePath p >>= fun _ => handler) c =
      exec handler { c with takenPaths := p :: c.takenPaths } := rfl
  rw [htake]
  exact (h _ c hc).conseq (fun _ hs => hs) (fun _ c' hs => hs.2.symm ▸ hs.1) (fun _ _ hs => hs) _ rfl

theorem processGsheet_takes {tabs : List Tab} (hmime : file.mime = .sheet)
    (htabs : env.drive.tabs file.id = .ok tabs)
    (h : ∀ s ∈ resolveTabCollisions env.deps.unicode tabs, Takes J E (.tab file.id s.1.sheetId)
      (tabPath env file s.2) (exportTab env file s.1 (tabPath env file s.2)))
    (files : List DriveFile) :
    Triple (fun c => J (allocations env c.takenPaths (file :: files)) c) (processGsheet env file)
      (fun _ c => J (allocations env c.takenPaths files) c) (fun _ => E) := by
  have halloc : ∀ taken, allocations env taken (file :: files) =
      tabsPending env file (resolveTabCollisions env.deps.unicode tabs) files taken := by
    intro taken
    rw [allocations, if_pos hmime, htabs]
    rfl
  simp only [processGsheet, htabs, halloc]
  refine Triple.forM (I := fun slugged c => J (tabsPending env file slugged files c.takenPaths) c)
    fun s hs rest => ?_
  simp only [tabsPending_cons]
  exact (h s hs).take (tabsPending env file rest files)

theorem LoopRule.gsheet (h : LoopRule env J E) (hmime : file.mime = .sheet)
    (files : List DriveFile) :
    Triple (fun c => J (allocations env c.takenPaths (file :: files)) c) (processGsheet env file)
      (fun _ c => J (allocations env c.takenPaths files) c) (fun _ => E) := by
  cases htabs : env.drive.tabs file.id with
  | error e =>
    have halloc : ∀ taken, allocations env taken (file :: files) = allocations env taken files := by
      intro taken
      rw [allocations, if_pos hmime, htabs]
    simp only [processGsheet, htabs, halloc]
    have hcount : Triple (fun c => J (allocations env c.takenPaths files) c) countError
        (fun _ c => J (allocations env c.takenPaths files) c) (fun _ => E) :=
      Triple.modify fun c hc =>
        h.counted _ c (fun n => { n with total := n.total + 1, errors := n.errors + 1 }) hc
    have hthrow : ∀ e : Exn, Triple (fun c => J (allocations env c.takenPaths files) c)
        (throw e : SyncM Unit) (fun _ c => J (allocations env c.takenPaths files) c) (fun _ => E) :=
      fun e => Triple.throw fun c hc => h.raised _ c hc
    cases e with
    | driveApi => exact hcount
    | os => exact hcount
    | value => exact hthrow .value
    | other => exact hthrow .other
  | ok tabs =>
    exact processGsheet_takes hmime htabs (fun s hs => h.tab file s (assignTabSlugs_plain hs)) files

theorem LoopRule.listed (h : LoopRule env J E) (file : DriveFile) (files : List DriveFile) :
    Triple (fun c => J (allocations env c.takenPaths (file :: files)) c) (processListed env file)
      (fun _ c => J (allocations env c.takenPaths files) c) (fun _ => E) := by
  unfold processListed
  split
  · next hmime => exact h.gsheet hmime files
  · next hmime =>
    refine Triple.get_bind fun c hc => ?_
    split
    · exact Triple.throw fun _ hs => hs ▸ h.raised _ c hc
    · next p hp =>
      rw [allocations, if_neg hmime, hp] at hc
      refine ((h.file file p _ hmime hp).take fun taken => allocations env taken files).conseq
        (fun _ hs => ?_) (fun _ _ hs => hs) fun _ _ hs => hs
      subst hs
      exact hc

theorem LoopRule.run (h : LoopRule env J E) (files : List DriveFile) :
    Triple (fun c => J (allocations env c.takenPaths files) c) (files.forM (processListed env))
      (fun _ => J []) (fun _ => E) :=
  Triple.forM (I := fun files c => J (allocations env c.takenPaths files) c)
    fun file _ rest => h.listed file rest

end
end Archiviste.Sync
