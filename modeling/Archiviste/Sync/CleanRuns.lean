import Archiviste.Sync.Containment
import Archiviste.Sync.SavedPaths

/-!
# Archiviste.Sync.CleanRuns

A run that completes and counts no error has exported every source Drive lists, so the state it
saves is known entry by entry: of a source of the listing it is the entry its export is filed as,
and of every other key what the archive pass made of the entry it had.

* `SourceOf`, `Prepares`   — the sources of a listed file, and what its turn prepares for each.
* `Steady`, `ArchivedAs`   — when the archive pass sees the tabs the loop sees, and what it records.
* `forM_clean`, `handleArchived_archivedAs`, `clean_run` — the loop, the pass and the run.
-/

namespace Archiviste.Sync

open Prog

variable {state : Dict SourceId StateEntry}

theorem get?_saveState (h : state.keys.Nodup) (x : SourceId) :
    (saveState state).get? x = state.get? x :=
  Dict.get?_perm h (List.perm_insertionSort _ state) x

theorem saveState_congr {state' : Dict SourceId StateEntry} (h : state.Perm state')
    (hkeys : state.keys.Nodup) : saveState state = saveState state' := by
  let le : SourceId × StateEntry → SourceId × StateEntry → Prop := fun a b => a.1.text ≤ b.1.text
  have htotal : Std.Total le := ⟨fun a b => le_total a.1.text b.1.text⟩
  have htrans : IsTrans _ le := ⟨fun a b c => le_trans (a := a.1.text)⟩
  have hperm : (saveState state).Perm (saveState state') :=
    (List.perm_insertionSort _ state).trans (h.trans (List.perm_insertionSort _ state').symm)
  refine List.Perm.eq_of_pairwise (fun a b ha hb hab hba => ?_) (List.pairwise_insertionSort le state)
    (List.pairwise_insertionSort le state') hperm
  have hkey : a.1 = b.1 := SourceId.text_injective (le_antisymm hab hba)
  have hmem : a ∈ state := (List.perm_insertionSort _ state).mem_iff.1 ha
  have hmem' : b ∈ state := h.mem_iff.2 ((List.perm_insertionSort _ state').mem_iff.1 hb)
  exact List.inj_on_of_nodup_map hkeys hmem hmem' hkey

section
variable {ν δ π : Type} {env : Env ν δ π}

/-! ## The turn of a file -/

def SourceOf (env : Env ν δ π) (file : DriveFile) : SourceId → Prop
  | .file id => file.mime ≠ .sheet ∧ id = file.id
  | .tab id gid => file.mime = .sheet ∧ id = file.id ∧
      ∃ tabs, env.drive.tabs file.id = .ok tabs ∧ gid ∈ tabs.map (·.sheetId)

/-- The turn of a file comes to an export of a source, for the path given to it. -/
inductive Prepares (env : Env ν δ π) (c : Ctx) (file : DriveFile) :
    SourceId → Path → Export → Prop where
  | file {p : Path} {x : Export} : file.mime ≠ .sheet → allocate env file c.takenPaths = some p →
      judged env file p (env.state.get? (.file file.id)) (c.turn p) = .ok (some x) →
      Prepares env c file (.file file.id) p x
  | tab {tabs : List Tab} {s : Tab × Text} {x : Export} : file.mime = .sheet →
      env.drive.tabs file.id = .ok tabs → s ∈ resolveTabCollisions env.deps.unicode tabs →
      judgedTab env file s.1 (tabPath env file s.2) = .ok (some x) →
      Prepares env c file (.tab file.id s.1.sheetId) (tabPath env file s.2) x

variable {c c' : Ctx} {file : DriveFile} {p root : Path} {x : Export} {deps : Deps ν δ π}
  {drive : Drive δ π} {world world' : World} {counts : SummaryCounts}

theorem Prepares.file_inv {id : FileId} (h : Prepares env c file (.file id) p x) :
    allocate env file c.takenPaths = some p ∧
      judged env file p (env.state.get? (.file file.id)) (c.turn p) = .ok (some x) := by
  cases h with
  | file _ hp hx => exact ⟨hp, hx⟩

theorem Prepares.tab_inv {id : FileId} {gid : Nat} (h : Prepares env c file (.tab id gid) p x) :
    ∃ tabs s, env.drive.tabs file.id = .ok tabs ∧ s ∈ resolveTabCollisions env.deps.unicode tabs ∧
      s.1.sheetId = gid ∧ tabPath env file s.2 = p ∧
      judgedTab env file s.1 (tabPath env file s.2) = .ok (some x) := by
  cases h with
  | @tab tabs s _ _ htabs hs hx => exact ⟨tabs, s, htabs, hs, rfl, rfl, hx⟩

/-- The entry a source has in a state is the one its export is filed as. -/
def FiledIn (env : Env ν δ π) (c : Ctx) (file : DriveFile) (saved : Dict SourceId StateEntry)
    (key : SourceId) : Prop :=
  ∃ p x, Prepares env c file key p x ∧ saved.get? key = some (x.filed false (env.state.get? key))

theorem SourceOf.turns {key : SourceId} (h : SourceOf env file key) : Turns file key := by
  cases key with
  | file id =>
    obtain ⟨hmime, rfl⟩ := h
    rw [Turns, if_neg hmime]
  | tab id gid =>
    obtain ⟨hmime, rfl, -⟩ := h
    rw [Turns, if_pos hmime]
    exact ⟨gid, rfl⟩

theorem processTab_frame {s : Tab × Text} (h : exec (processTab env file s) c = (.ok (), c'))
    {key : SourceId} (hkey : key ≠ .tab file.id s.1.sheetId) :
    c'.newState.get? key = c.newState.get? key := by
  have hsettles := processTab_settles h
  rcases hj : judgedTab env file s.1 (tabPath env file s.2) with e | (_ | x) <;> rw [hj] at hsettles
  · exact congrArg (Dict.get? · key) hsettles.1.1
  · exact congrArg (Dict.get? · key) hsettles.1.1
  · exact (congrArg (Dict.get? · key) (Filed.state hsettles)).trans (Dict.get?_set_ne _ _ hkey)

theorem forM_processTab_frame {slugged : List (Tab × Text)} {key : SourceId}
    (hkey : ∀ s ∈ slugged, key ≠ .tab file.id s.1.sheetId) : ∀ {c c' : Ctx},
    exec (slugged.forM (processTab env file)) c = (.ok (), c') →
    c'.newState.get? key = c.newState.get? key := by
  induction slugged with
  | nil => intro c c' h; cases h; rfl
  | cons s slugged ih =>
    intro c c' h
    obtain ⟨c₁, hs, hrest⟩ := exec_forM_ok h
    rw [ih (fun s' hs' => hkey s' (List.mem_cons_of_mem s hs')) hrest,
      processTab_frame hs (hkey s List.mem_cons_self)]

theorem processListed_frame {key : SourceId} (hkey : ¬ SourceOf env file key)
    (h : exec (processListed env file) c = (.ok (), c')) :
    c'.newState.get? key = c.newState.get? key := by
  by_cases hmime : file.mime = .sheet
  · rw [processListed, if_pos hmime, processGsheet] at h
    rcases htabs : env.drive.tabs file.id with (_ | _ | _ | _) | tabs <;> rw [htabs] at h
    · cases h; rfl
    · cases h; rfl
    · cases h
    · cases h
    · refine forM_processTab_frame (fun s hs heq => hkey ?_) h
      have hmem := (resolveTabCollisions_perm env.deps.unicode tabs).mem_iff.1
        (List.mem_map_of_mem hs)
      rw [heq]
      exact ⟨hmime, rfl, tabs, htabs, List.mem_map_of_mem hmem⟩
  · obtain ⟨p, -, hturn⟩ := processListed_turn hmime h
    have hne : key ≠ .file file.id := fun heq => hkey (heq ▸ ⟨hmime, rfl⟩)
    rcases hturn with ⟨e, c₁, -, -, hraised, rfl⟩ | ⟨-, hsettles⟩
    · exact congrArg (Dict.get? · key) hraised.1.1
    · rcases hj : judged env file p (env.state.get? (.file file.id)) (c.turn p) with e | (_ | x) <;>
        rw [hj] at hsettles
      · exact hsettles.elim
      · exact congrArg (Dict.get? · key) hsettles.1.1
      · exact (congrArg (Dict.get? · key) (Filed.state hsettles)).trans (Dict.get?_set_ne _ _ hne)

section
variable (hdry : env.dryRun = false)
include hdry

variable {file : DriveFile}

theorem forM_processTab_clean {slugged : List (Tab × Text)} :
    ∀ {c c' : Ctx}, (slugged.map (·.1.sheetId)).Nodup →
      (∀ s ∈ slugged, ¬ TabFails env file s.1) →
      exec (slugged.forM (processTab env file)) c = (.ok (), c') →
      ∀ s ∈ slugged, ∃ x, judgedTab env file s.1 (tabPath env file s.2) = .ok (some x) ∧
        c'.newState.get? (.tab file.id s.1.sheetId) =
          some (x.filed false (env.state.get? (.tab file.id s.1.sheetId))) := by
  induction slugged with
  | nil => intro c c' _ _ _ s hs; cases hs
  | cons s slugged ih =>
    intro c c' hnodup hok h s' hs'
    obtain ⟨hfresh, hnodup⟩ := List.nodup_cons.1 hnodup
    obtain ⟨c₁, hs, hrest⟩ := exec_forM_ok h
    rcases List.mem_cons.1 hs' with rfl | hs'
    · obtain ⟨x, hx⟩ : ∃ x, judgedTab env file s'.1 (tabPath env file s'.2) = .ok (some x) := by
        by_contra hnone
        exact hok s' List.mem_cons_self (tabFails_iff.2 (not_exists.1 hnone))
      have hsettles := processTab_settles hs
      rw [hx] at hsettles
      have hlater : ∀ s ∈ slugged, SourceId.tab file.id s'.1.sheetId ≠ .tab file.id s.1.sheetId :=
        fun s hs heq => hfresh (List.mem_map.2 ⟨s, hs, (SourceId.tab.inj heq).2.symm⟩)
      refine ⟨x, hx, ?_⟩
      rw [forM_processTab_frame hlater hrest, Filed.state hsettles, hdry, Dict.get?_set_self]
    · exact ih hnodup (fun s hs => hok s (List.mem_cons_of_mem _ hs)) hrest s' hs'

/-- A turn without errors: the tabs of a workbook are known, and every source of the file is filed. -/
theorem processListed_clean
    (hgids : ∀ tabs, env.drive.tabs file.id = .ok tabs → (tabs.map (·.sheetId)).Nodup)
    {c c' : Ctx} (h : exec (processListed env file) c = (.ok (), c'))
    (herrors : c'.counts.errors = c.counts.errors) :
    (file.mime = .sheet → ∃ tabs, env.drive.tabs file.id = .ok tabs) ∧
      ∀ key, SourceOf env file key → FiledIn env c file c'.newState key := by
  by_cases hmime : file.mime = .sheet
  · rw [processListed, if_pos hmime, processGsheet] at h
    rcases htabs : env.drive.tabs file.id with (_ | _ | _ | _) | tabs <;> rw [htabs] at h
    · cases h
      exact absurd herrors (Nat.succ_ne_self _)
    · cases h
      exact absurd herrors (Nat.succ_ne_self _)
    · cases h
    · cases h
    refine ⟨fun _ => ⟨tabs, rfl⟩, fun key hkey => ?_⟩
    cases key with
    | file id => exact absurd hmime hkey.1
    | tab id gid =>
      obtain ⟨-, rfl, tabs', htabs', hgid⟩ := hkey
      cases htabs.symm.trans htabs'
      classical
      have hcount := forM_processTab_errors h
      rw [herrors, Nat.left_eq_add, List.countP_eq_zero] at hcount
      have hok : ∀ s ∈ resolveTabCollisions env.deps.unicode tabs, ¬ TabFails env file s.1 :=
        fun s hs hfails => hcount s.1 (List.mem_map_of_mem hs) (decide_eq_true hfails)
      obtain ⟨tab, htab, rfl⟩ := List.mem_map.1 hgid
      obtain ⟨s, hs, rfl⟩ := List.mem_map.1
        ((resolveTabCollisions_perm env.deps.unicode tabs).mem_iff.2 htab)
      obtain ⟨x, hx, hsaved⟩ := forM_processTab_clean hdry
        (resolveTabCollisions_nodup _ (hgids tabs htabs)) hok h s hs
      exact ⟨_, x, .tab hmime htabs hs hx, hsaved⟩
  · refine ⟨fun h => absurd h hmime, fun key hkey => ?_⟩
    cases key with
    | tab id gid => exact absurd hkey.1 hmime
    | file id =>
      obtain ⟨-, rfl⟩ := hkey
      obtain ⟨p, hp, hturn⟩ := processListed_turn hmime h
      rcases hturn with ⟨e, c₁, -, -, hraised, rfl⟩ | ⟨-, hsettles⟩
      · have hcount : c₁.counts.errors = (c.turn p).counts.errors := hraised.2
        exact absurd (herrors.trans hcount.symm) (Nat.succ_ne_self _)
      rcases hj : judged env file p (env.state.get? (.file file.id)) (c.turn p) with e | (_ | x)
      · rw [hj] at hsettles
        exact hsettles.elim
      · rw [hj] at hsettles
        exact absurd ((Counted.errors hsettles).symm.trans herrors) (Nat.succ_ne_self _)
      · rw [hj] at hsettles
        refine ⟨p, x, .file hmime hp hj, ?_⟩
        rw [Filed.state hsettles, hdry, Dict.get?_set_self]

end

/-! ## The loop -/

theorem forM_frame {files : List DriveFile} {key : SourceId}
    (hkey : ∀ file ∈ files, ¬ SourceOf env file key) : ∀ {c c' : Ctx},
    exec (files.forM (processListed env)) c = (.ok (), c') →
    c'.newState.get? key = c.newState.get? key := by
  induction files with
  | nil => intro c c' h; cases h; rfl
  | cons file files ih =>
    intro c c' h
    obtain ⟨c₁, hfile, hrest⟩ := exec_forM_ok h
    rw [ih (fun f hf => hkey f (List.mem_cons_of_mem file hf)) hrest,
      processListed_frame (hkey file List.mem_cons_self) hfile]

theorem forM_clean (hdry : env.dryRun = false)
    (hgids : ∀ id tabs, env.drive.tabs id = .ok tabs → (tabs.map (·.sheetId)).Nodup)
    {files : List DriveFile} : ∀ {c c' : Ctx}, (files.map (·.id)).Nodup →
      exec (files.forM (processListed env)) c = (.ok (), c') →
      c'.counts.errors = c.counts.errors →
      (∀ file ∈ files, file.mime = .sheet → ∃ tabs, env.drive.tabs file.id = .ok tabs) ∧
        Run.Along (turn env)
          (fun c file => ∀ key, SourceOf env file key → FiledIn env c file c'.newState key)
          c files := by
  induction files with
  | nil => intro c c' _ _ _; exact ⟨fun _ h => absurd h List.not_mem_nil, trivial⟩
  | cons file files ih =>
    intro c c' hnodup h herrors
    obtain ⟨hfresh, hnodup⟩ := List.nodup_cons.1 hnodup
    obtain ⟨c₁, hfile, hrest⟩ := exec_forM_ok h
    have hturn : turn env c file = c₁ := by rw [turn, hfile]
    -- errors only grow, so none is counted in this turn or later
    have hfirst := processListed_errors hfile
    have hlater := forM_errors hrest
    obtain ⟨htabs, hfiled⟩ := processListed_clean hdry (hgids file.id) hfile (by omega)
    obtain ⟨htabs', hfiled'⟩ := ih hnodup hrest (by omega)
    refine ⟨List.forall_mem_cons.2 ⟨htabs, htabs'⟩, fun key hkey => ?_, hturn ▸ hfiled'⟩
    obtain ⟨p, x, hx, hsaved⟩ := hfiled key hkey
    refine ⟨p, x, hx, (forM_frame (fun f hf hf' => hfresh ?_) hrest).trans hsaved⟩
    exact List.mem_map.2 ⟨f, hf, hf'.turns.id_eq hkey.turns⟩

/-! ## The archive pass -/

/-- The archive pass is told the same tabs as the loop. -/
def Steady (drive : Drive δ π) : Prop :=
  ∀ id gid, drive.archiveTabs (.tab id gid) = drive.tabs id

/-- A key is of no file of the listing, or of a tab that its workbook does not have. -/
def Absent (env : Env ν δ π) (files : List DriveFile) : SourceId → Prop
  | .file id => id ∉ files.map (·.id)
  | .tab id gid => id ∉ files.map (·.id) ∨
      (id ∈ (files.filter (·.mime = .sheet)).map (·.id) ∧
        ∃ tabs, env.drive.tabs id = .ok tabs ∧ gid ∉ tabs.map (·.sheetId))

/-- What the archive pass makes of a key of the state. -/
structure ArchivedAs (env : Env ν δ π) (files : List DriveFile) (key : SourceId)
    (found : Option StateEntry) : Prop where
  listed : Listed files key → found = none
  absent : Absent env files key → found = (env.state.get? key).map (archivedNow env key)
  present : ¬ Listed files key → ¬ Absent env files key → found = env.state.get? key

theorem ArchivedAs.perm {files files' : List DriveFile} {key : SourceId}
    {found : Option StateEntry} (hperm : files'.Perm files)
    (h : ArchivedAs env files' key found) : ArchivedAs env files key found := by
  have hlisted : Listed files' key ↔ Listed files key := by simp only [Listed, hperm.mem_iff]
  have habsent : Absent env files' key ↔ Absent env files key := by
    cases key <;> simp only [Absent, List.mem_map, List.mem_filter, hperm.mem_iff]
  exact ⟨fun hl => h.listed (hlisted.2 hl), fun ha => h.absent (habsent.2 ha),
    fun hl ha => h.present (mt hlisted.1 hl) (mt habsent.1 ha)⟩

theorem archivedNow_isSome (hdry : env.dryRun = false) (key : SourceId) (e : StateEntry) :
    (archivedNow env key e).archivedAt.isSome = true := by
  unfold archivedNow
  split
  · next h => exact h.resolve_right (by simp [hdry])
  · rfl

def KnownTabs (env : Env ν δ π) (gids : TabGids) : Prop :=
  ∀ id known, gids.get? id = some known →
    ∃ tabs, env.drive.tabs id = .ok tabs ∧ known = tabs.map (·.sheetId)

variable {files : List DriveFile} {gids gids' : TabGids} {key : SourceId}

theorem knownGids_eq (hsteady : Steady env.drive) (hknown : KnownTabs env gids) (id : FileId)
    (gid : Nat) : knownGids env gids (.tab id gid) id =
      (env.drive.tabs id).map fun tabs => tabs.map (·.sheetId) := by
  unfold knownGids
  split
  · next known hget =>
    obtain ⟨tabs, htabs, rfl⟩ := hknown id known hget
    rw [htabs]
    rfl
  · rw [hsteady]

theorem gone_iff_absent (hsteady : Steady env.drive) (hknown : KnownTabs env gids) :
    Gone env files gids key ↔ Absent env files key := by
  cases key with
  | file id => exact Iff.rfl
  | tab id gid =>
    simp only [Gone, Absent, knownGids_eq hsteady hknown]
    cases env.drive.tabs id <;> simp [Except.map]

theorem Learned.knownTabs (hsteady : Steady env.drive) (h : Learned env gids key gids')
    (hknown : KnownTabs env gids) : KnownTabs env gids' := by
  cases h with
  | nothing => exact hknown
  | @tabs id gid tabs htabs =>
    intro id' known hget
    rw [Dict.get?_set] at hget
    split at hget
    · next heq =>
      cases hget
      exact ⟨tabs, heq ▸ (hsteady id gid).symm.trans htabs, rfl⟩
    · exact hknown id' known hget

theorem Absent.not_listed (h : Absent env files key) : ¬ Listed files key := by
  rintro ⟨file, hfile, rfl⟩
  exact h (List.mem_map_of_mem hfile)

theorem Absent.not_source (h : Absent env files key) (hfile : file ∈ files) :
    ¬ SourceOf env file key := by
  intro hsource
  cases key with
  | file id => exact h (hsource.2 ▸ List.mem_map_of_mem hfile)
  | tab id gid =>
    obtain ⟨-, rfl, tabs, htabs, hgid⟩ := hsource
    rcases h with h | ⟨-, tabs', htabs', hgid'⟩
    · exact h (List.mem_map_of_mem hfile)
    · cases htabs.symm.trans htabs'
      exact hgid' hgid

structure ArchivePass (env : Env ν δ π) (files : List DriveFile) (rest : Dict SourceId StateEntry)
    (gids : TabGids) (c : Ctx) : Prop where
  nodup : rest.keys.Nodup
  known : KnownTabs env gids
  left : ∀ key ∈ rest.keys, c.newState.get? key = none
  done : ∀ key, key ∉ rest.keys → ArchivedAs env files key (c.newState.get? key)

theorem ArchivePass.next {entry : StateEntry} {rest : Dict SourceId StateEntry}
    (h : ArchivePass env files ((key, entry) :: rest) gids c) (hknown : KnownTabs env gids')
    (hkey : ArchivedAs env files key (c'.newState.get? key))
    (hframe : ∀ x, x ≠ key → c'.newState.get? x = c.newState.get? x) :
    ArchivePass env files rest gids' c' := by
  obtain ⟨hfresh, hnodup⟩ := List.nodup_cons.1 h.nodup
  refine ⟨hnodup, hknown, fun x hx => ?_, fun x hx => ?_⟩
  · have hne : x ≠ key := fun heq => hfresh (heq ▸ hx)
    rw [hframe x hne]
    exact h.left x (List.mem_cons_of_mem _ hx)
  · by_cases hxkey : x = key
    · exact hxkey ▸ hkey
    · rw [hframe x hxkey]
      exact h.done x fun hmem => (List.mem_cons.1 hmem).elim hxkey hx

theorem handleArchivedKey_archivedAs (hsteady : Steady env.drive) (hkeys : env.state.keys.Nodup)
    {a : SourceId × StateEntry} (ha : a ∈ env.state) (rest : Dict SourceId StateEntry) :
    Triple (ArchivePass env files (a :: rest) gids) (handleArchivedKey env files gids a)
      (fun gids' => ArchivePass env files rest gids') (fun _ _ => True) := by
  obtain ⟨key, entry⟩ := a
  have hentry : env.state.get? key = some entry := Dict.get?_of_mem hkeys ha
  intro c hc
  have hgone : Gone env files gids key ↔ Absent env files key := gone_iff_absent hsteady hc.known
  have hstep := handleArchivedKey_step env files gids key entry
  generalize handleArchivedKey env files gids (key, entry) = step at hstep ⊢
  cases hstep with
  | raises _ _ => trivial
  | gone hlearned habsent =>
    rw [hgone] at habsent
    refine Triple.bind ((archiveEntry_filed env key entry c).conseq (fun _ h => h)
      (fun _ _ h => h) fun _ _ _ => trivial) (fun _ => Triple.pure fun c' h => ?_) c
      (Std.Refl.refl c)
    refine hc.next (hlearned.knownTabs hsteady hc.known) ⟨fun h => absurd h habsent.not_listed,
      fun _ => ?_, fun _ h => absurd habsent h⟩ fun x hx => ?_
    · rw [h.state, Dict.get?_set_self, hentry]
      rfl
    · rw [h.state, Dict.get?_set_ne _ _ hx]
  | present hlearned hkey hpresent _ =>
    rw [hgone] at hpresent
    refine hc.next (hlearned.knownTabs hsteady hc.known) ⟨?_, fun h => absurd h hpresent,
      fun _ _ => ?_⟩ fun x hx => Dict.get?_set_ne _ _ hx
    · rintro ⟨file, -, heq⟩
      cases hkey.symm.trans heq
    · exact (Dict.get?_set_self _ _ _).trans hentry.symm
  | listed hfile hkey =>
    have hlisted : Listed files key := ⟨_, hfile, hkey⟩
    refine hc.next hc.known ⟨fun _ => hc.left key List.mem_cons_self,
      fun h => absurd hlisted h.not_listed, fun h => absurd hlisted h⟩ fun _ _ => rfl

theorem handleArchived_archivedAs (hsteady : Steady env.drive) (hkeys : env.state.keys.Nodup)
    (files : List DriveFile) :
    Triple (fun c => c.newState = []) (handleArchived env files)
      (fun _ c => ∀ key, ArchivedAs env files key (c.newState.get? key)) (fun _ _ => True) := by
  have hloop := Triple.foldlM (I := fun rest gids => ArchivePass env files rest gids)
    (fun a ha rest gids => handleArchivedKey_archivedAs hsteady hkeys ha rest) ([] : TabGids)
  refine Triple.bind (hloop.conseq (fun c hc => ⟨hkeys, by simp [KnownTabs], fun key _ => ?_,
    fun key hkey => ?_⟩) (fun _ _ h => h) fun _ _ h => h) fun _ => Triple.pure fun _ h key =>
      h.done key List.not_mem_nil
  · rw [hc]
    rfl
  · rw [hc]
    have hnone := Dict.get?_eq_none hkey
    exact ⟨fun _ => rfl, fun _ => by rw [hnone]; rfl, fun _ _ => hnone.symm⟩

/-! ## The run -/

theorem saved_keys_nodup {files : List DriveFile} (hkeys : world.state.keys.Nodup)
    (hlisting : drive.listing = .ok files)
    (hrun : runSync deps root false drive world = (world', .ok counts)) :
    world'.state.keys.Nodup := by
  obtain ⟨c₁, c₂, harchive, hloop, rfl, -⟩ := (runSync_eq_ok hlisting).1 hrun
  have hpaths := @handleArchived_paths ν δ π ⟨deps, drive, world.state, false, root⟩ hkeys
    (sortFiles files) (Ctx.start world.tree) rfl
  have hgrows := @forM_grows ν δ π ⟨deps, drive, world.state, false, root⟩ rfl (sortFiles files) c₁
  rw [harchive] at hpaths
  rw [hloop] at hgrows
  exact ((List.perm_insertionSort _ c₂.newState).map _).nodup_iff.2 (hgrows.nodup hpaths.keys)

/-- A run that completes without an error: what its turns prepare is filed in the state it saves,
and every other key is as the archive pass left it. -/
theorem clean_run {files : List DriveFile} (hkeys : world.state.keys.Nodup)
    (hlisting : drive.listing = .ok files) (hids : (files.map (·.id)).Nodup)
    (hgids : ∀ id tabs, drive.tabs id = .ok tabs → (tabs.map (·.sheetId)).Nodup)
    (hsteady : Steady drive) (hrun : runSync deps root false drive world = (world', .ok counts))
    (herrors : counts.errors = 0) : let env : Env ν δ π := ⟨deps, drive, world.state, false, root⟩
    world'.state.keys.Nodup ∧
      (∀ file ∈ files, file.mime = .sheet → ∃ tabs, drive.tabs file.id = .ok tabs) ∧
      Run.Along (turn env)
        (fun c file => ∀ key, SourceOf env file key → FiledIn env c file world'.state key)
        (archivedCtx env (sortFiles files) world.tree) (sortFiles files) ∧
      ∀ key, (∀ file ∈ files, ¬ SourceOf env file key) →
        ArchivedAs env files key (world'.state.get? key) := by
  intro env
  have hsaved := saved_keys_nodup hkeys hlisting hrun
  obtain ⟨c₁, c₂, harchive, hloop, rfl, rfl⟩ := (runSync_eq_ok hlisting).1 hrun
  have hperm : (sortFiles files).Perm files := List.perm_insertionSort _ files
  have hids' : ((sortFiles files).map (·.id)).Nodup := (hperm.map _).nodup_iff.2 hids
  have hpass := @handleArchived_archivedAs ν δ π env hsteady hkeys (sortFiles files)
    (Ctx.start world.tree) rfl
  rw [harchive] at hpass
  have hnodup : c₂.newState.keys.Nodup :=
    ((List.perm_insertionSort _ c₂.newState).map _).nodup_iff.1 hsaved
  have hstart : archivedCtx env (sortFiles files) world.tree = c₁ := by rw [archivedCtx, harchive]
  have herrors₁ : c₁.counts.errors = 0 := handleArchived_errors harchive
  obtain ⟨htabs, hfiled⟩ := forM_clean rfl hgids hids' hloop (herrors.trans herrors₁.symm)
  have hget : ∀ key, (saveState c₂.newState).get? key = c₂.newState.get? key := get?_saveState hnodup
  refine ⟨hsaved, fun file hfile => htabs file (hperm.mem_iff.2 hfile), hstart ▸ hfiled.mono ?_, ?_⟩
  · rintro c file h key hkey
    obtain ⟨p, x, hx, hsaved⟩ := h key hkey
    exact ⟨p, x, hx, (hget key).trans hsaved⟩
  · intro key hkey
    have hframe : (saveState c₂.newState).get? key = c₁.newState.get? key := (hget key).trans
      (forM_frame (fun file hfile => hkey file (hperm.mem_iff.1 hfile)) hloop)
    exact hframe ▸ (hpass key).perm hperm

end
end Archiviste.Sync
