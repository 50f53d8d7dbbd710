import Archiviste.Sync.Verdicts

/-!
# Archiviste.Sync.Places

Where a source can be exported to. Its file is moved from the path the state has for it, if that is
another one, and then written; both raise for what stands in the way. What the tree has to be like
is said here once (`Fits`), for the file that is moved or overwritten as well as for the path.

* `Fits`, `Spoiled` — the export can be written; it is merged with a file it must not be.
* `Touches`         — what the write does to the rest of the tree.
* `settle_ends`     — an export that is due is written exactly when it fits.
-/

namespace Archiviste.Sync

open Prog

/-- No file stands where a directory of the path has to be. -/
def Clear (t : FileTree Content) (p : Path) : Prop := ∀ d, d <+: p.parent → t.file? d = none

def movedFrom (p : Path) (existing : Option StateEntry) : Option Path :=
  (existing.map (·.localPath)).filter (· ≠ p)

/-- The file of a source can be brought to `p`, and `P` holds of what is there then. -/
def Lands (P : Option Content → Prop) (t : FileTree Content) (p : Path)
    (existing : Option StateEntry) : Prop :=
  match movedFrom p existing with
  | none => P (t.file? p)
  | some old => Clear t p ∧ t.exists? p = false ∧ ∃ content, t.file? old = some content ∧
      P (some content)

/-- The export of a source can be written to `p`, as `good` holds of the file it is merged with: the
file at `p`, or the one that is moved there. -/
def Fits (good : Content → Prop) (t : FileTree Content) (p : Path) (existing : Option StateEntry) :
    Prop :=
  Clear t p ∧ t.isDir p = false ∧ Lands (∀ content ∈ ·, good content) t p existing

/-- The export reaches its path, and meets a file there of which `bad` holds. -/
def Spoiled (bad : Content → Prop) (t : FileTree Content) (p : Path) (existing : Option StateEntry) :
    Prop :=
  Lands (∃ content ∈ ·, bad content) t p existing

/-- All that writing an export changes: the file at its path, the file that was moved, and the
directories that were made for it. -/
structure Touches (p : Path) (existing : Option StateEntry) (t t' : FileTree Content) : Prop where
  files : ∀ q, q ≠ p → movedFrom p existing ≠ some q → t'.file? q = t.file? q
  dirs : ∀ q, t'.isDir q = true → t.isDir q = true ∨ q <+: p.parent

section
variable {ν δ π : Type} {env : Env ν δ π} {p old : Path} {existing : Option StateEntry} {c : Ctx}

theorem not_prefix_parent (hp : p ≠ []) : ¬ p <+: p.parent := by
  intro h
  have hlength := h.length_le
  rw [Path.parent, List.length_dropLast] at hlength
  have hpos := List.length_pos_iff.2 hp
  omega

variable {t : FileTree Content} {e : StateEntry} {good bad : Content → Prop} {c₁ : Ctx}
  {P : Option Content → Prop} {yaml : Option Text} {key : SourceId} {x : Export}
  {dryEnd write : SyncM Unit} {root : Path}

theorem ne_nil_of_not_exists (h : t.exists? p = false) : p ≠ [] := by
  rintro rfl
  simp [FileTree.exists?, FileTree.isDir] at h

theorem movedFrom_eq (h : e.localPath ≠ p) : movedFrom p (some e) = some e.localPath :=
  Option.filter_some_pos (by simpa using h)

theorem movedFrom_self (h : e.localPath = p) : movedFrom p (some e) = none :=
  Option.filter_some_neg (by simpa using h)

theorem Fits.mono {good' : Content → Prop} (h : Fits good t p existing)
    (hgood : ∀ content, good content → good' content) : Fits good' t p existing := by
  refine ⟨h.1, h.2.1, ?_⟩
  have hlands := h.2.2
  unfold Lands at hlands ⊢
  split at hlands
  · exact fun content hcontent => hgood content (hlands content hcontent)
  · obtain ⟨hclear, hfree, content, hcontent, hall⟩ := hlands
    exact ⟨hclear, hfree, content, hcontent, fun c hc => hgood c (hall c hc)⟩

/-! ## The move -/

theorem statusAndRename_stays (env : Env ν δ π) (h : movedFrom p existing = none) (c : Ctx) :
    ∃ c₁, exec (statusAndRename env p existing) c = (.ok (), c₁) ∧ c₁.tree = c.tree := by
  unfold statusAndRename
  cases existing with
  | none => exact ⟨_, rfl, rfl⟩
  | some e =>
    dsimp only
    rw [if_neg fun hne => by simp [movedFrom_eq hne] at h]
    exact ⟨_, rfl, rfl⟩

theorem exec_statusAndRename_moved (hdry : env.dryRun = false)
    (h : movedFrom p existing = some old) : exec (statusAndRename env p existing) c = (.ok (), c₁) ↔
      c.tree.exists? old = true ∧ c.tree.exists? p = false ∧
        ∃ t t', c.tree.mkdirs p.parent = .ok t ∧ t.rename old p = .ok t' ∧
          c₁ = { c with
            tree := t'
            counts := { c.counts with renamed := c.counts.renamed + 1 } } := by
  obtain ⟨hmap, hne⟩ := Option.filter_eq_some_iff.1 h
  obtain ⟨e, rfl, rfl⟩ := Option.map_eq_some_iff.1 hmap
  have hprog : statusAndRename env p (some e) =
      bump (fun c => { c with renamed := c.renamed + 1 }) >>= fun _ =>
        renameLocalFile e.localPath p := by
    rw [statusAndRename, if_pos (of_decide_eq_true hne), hdry]
    rfl
  rw [hprog, exec_bind, exec_bump]
  dsimp only
  rw [renameLocalFile, exec_bind, exec_get]
  dsimp only
  by_cases hold : c.tree.exists? e.localPath = true
  · rw [if_neg (not_not.2 hold), exec_bind, exec_get]
    dsimp only
    by_cases hnew : c.tree.exists? p = true
    · rw [if_pos hnew]
      simp [hnew]
    · rw [if_neg hnew, exec_bind_ok]
      constructor
      · rintro ⟨⟨⟩, _, hmkdirs, hrename⟩
        obtain ⟨t, ht, rfl⟩ := exec_onTree_ok.1 hmkdirs
        obtain ⟨t', ht', rfl⟩ := exec_onTree_ok.1 hrename
        exact ⟨hold, eq_false_of_ne_true hnew, t, t', ht, ht', rfl⟩
      · rintro ⟨-, -, t, t', ht, ht', rfl⟩
        exact ⟨(), _, exec_onTree_ok.2 ⟨t, ht, rfl⟩, exec_onTree_ok.2 ⟨t', ht', rfl⟩⟩
  · rw [if_pos hold]
    simp [hold]

theorem statusAndRename_moves (hdry : env.dryRun = false) (h : movedFrom p existing = some old)
    {content : Content} (hclear : Clear c.tree p) (hfree : c.tree.exists? p = false)
    (hfile : c.tree.file? old = some content) :
    ∃ c₁, exec (statusAndRename env p existing) c = (.ok (), c₁) ∧
      c₁.tree.file? p = some content ∧ c₁.tree.isDir p = false ∧ Clear c₁.tree p ∧
      Touches p existing c.tree c₁.tree := by
  have hp := ne_nil_of_not_exists hfree
  obtain ⟨hnone, hdir⟩ : c.tree.file? p = none ∧ c.tree.isDir p = false := by
    simpa [FileTree.exists?] using hfree
  obtain ⟨t, ht⟩ : ∃ t, c.tree.mkdirs p.parent = .ok t := ⟨_, FileTree.mkdirs_eq_ok.2 ⟨hclear, rfl⟩⟩
  have hfiles : ∀ q, t.file? q = c.tree.file? q := fun q => FileTree.mkdirs_files ht
  have hdirs : ∀ q, t.isDir q = true ↔ c.tree.isDir q = true ∨ q <+: p.parent :=
    fun q => FileTree.mkdirs_isDir ht
  have hdir' : t.isDir p = false := by
    rw [Bool.eq_false_iff, Ne, hdirs]
    exact not_or.2 ⟨by simp [hdir], not_prefix_parent hp⟩
  have hmoved := FileTree.rename_file ((hfiles old).trans hfile) |>.2
    ⟨hdir', (hdirs _).2 (.inr List.prefix_rfl), rfl⟩
  refine ⟨_, (exec_statusAndRename_moved hdry h).2 ⟨?_, hfree, t, _, ht, hmoved, rfl⟩,
    Dict.get?_set_self _ _ _, hdir', fun d hd => ?_, fun q hq hne => ?_, fun q => (hdirs q).1⟩
  · simp [FileTree.exists?, hfile]
  · have hne : d ≠ p := fun he => not_prefix_parent hp (he ▸ hd)
    have hget : t.file? d = none := (hfiles d).trans (hclear d hd)
    rw [FileTree.file?, Dict.get?_set_ne _ _ hne, Dict.get?_erase]
    split
    · rfl
    · exact hget
  · have hold : q ≠ old := fun he => hne (he ▸ h)
    rw [FileTree.file?, Dict.get?_set_ne _ _ hq, Dict.get?_erase, if_neg hold]
    exact hfiles q

theorem moved_of_statusAndRename (hdry : env.dryRun = false) (h : movedFrom p existing = some old)
    (hexec : exec (statusAndRename env p existing) c = (.ok (), c₁)) :
    Clear c.tree p ∧ c.tree.exists? p = false ∧
      ((∃ content, c.tree.file? old = some content ∧ c₁.tree.file? p = some content) ∨
        (c₁.tree.isDir p = true ∧ c₁.tree.file? p = none)) := by
  obtain ⟨-, hfree, t, t', ht, ht', rfl⟩ := (exec_statusAndRename_moved hdry h).1 hexec
  have hne : old ≠ p := of_decide_eq_true (Option.filter_eq_some_iff.1 h).2
  refine ⟨(FileTree.mkdirs_eq_ok.1 ht).1, hfree, ?_⟩
  cases hfile : c.tree.file? old with
  | some content =>
    obtain ⟨-, -, rfl⟩ := (FileTree.rename_file ((FileTree.mkdirs_files ht).trans hfile)).1 ht'
    exact .inl ⟨content, rfl, Dict.get?_set_self _ _ _⟩
  | none => exact .inr (FileTree.rename_dir ((FileTree.mkdirs_files ht).trans hfile) hne ht')

theorem Touches.refl (p : Path) (existing : Option StateEntry) (t : FileTree Content) :
    Touches p existing t t :=
  ⟨fun _ _ _ => rfl, fun _ h => .inl h⟩

theorem Touches.trans {t' t'' : FileTree Content} (h : Touches p existing t t')
    (h' : Touches p existing t' t'') : Touches p existing t t'' :=
  ⟨fun q hq hne => (h'.files q hq hne).trans (h.files q hq hne),
    fun q hq => (h'.dirs q hq).elim (h.dirs q) .inr⟩

theorem Lands.exec {env : Env ν δ π} (hdry : env.dryRun = false) (h : Lands P c.tree p existing) :
    ∃ c₁, exec (statusAndRename env p existing) c = (.ok (), c₁) ∧ P (c₁.tree.file? p) ∧
      (Clear c.tree p → Clear c₁.tree p) ∧ (c.tree.isDir p = false → c₁.tree.isDir p = false) ∧
      Touches p existing c.tree c₁.tree := by
  unfold Lands at h
  cases hmoved : movedFrom p existing with
  | none =>
    obtain ⟨c₁, hc₁, htree⟩ := statusAndRename_stays env hmoved c
    rw [hmoved] at h
    rw [← htree] at h ⊢
    exact ⟨c₁, hc₁, h, id, id, .refl p existing c₁.tree⟩
  | some old =>
    rw [hmoved] at h
    obtain ⟨hclear, hfree, content, hfile, hP⟩ := h
    obtain ⟨c₁, hc₁, hthere, hdir, hclear₁, htouches⟩ :=
      statusAndRename_moves hdry hmoved hclear hfree hfile
    exact ⟨c₁, hc₁, hthere.symm ▸ hP, fun _ => hclear₁, fun _ => hdir, htouches⟩

theorem lands_of_exec (hdry : env.dryRun = false)
    (hexec : exec (statusAndRename env p existing) c = (.ok (), c₁)) (h : P (c₁.tree.file? p))
    (hfile : c₁.tree.isDir p = false ∨ ¬ P none) :
    Lands P c.tree p existing ∧ (Clear c₁.tree p → Clear c.tree p) ∧
      (c₁.tree.isDir p = false → c.tree.isDir p = false) := by
  unfold Lands
  cases hmoved : movedFrom p existing with
  | none =>
    obtain ⟨c₂, hc₂, htree⟩ := statusAndRename_stays env hmoved c
    cases hexec.symm.trans hc₂
    rw [← htree]
    exact ⟨h, id, id⟩
  | some old =>
    obtain ⟨hclear, hfree, hthere⟩ := moved_of_statusAndRename hdry hmoved hexec
    have hdir : c.tree.isDir p = false := by
      simp only [FileTree.exists?, Bool.or_eq_false_iff] at hfree
      exact hfree.2
    refine ⟨⟨hclear, hfree, ?_⟩, fun _ => hclear, fun _ => hdir⟩
    rcases hthere with ⟨content, hold, hthere⟩ | ⟨hdir', hnone⟩
    · exact ⟨content, hold, hthere ▸ h⟩
    · rcases hfile with hdir'' | hnot
      · cases hdir'.symm.trans hdir''
      · exact absurd (hnone ▸ h) hnot

theorem Fits.exec (hdry : env.dryRun = false) (h : Fits good c.tree p existing) :
    ∃ c₁, exec (statusAndRename env p existing) c = (.ok (), c₁) ∧ Fits good c₁.tree p none ∧
      Touches p existing c.tree c₁.tree := by
  obtain ⟨c₁, hc₁, hgood, hclear, hdir, htouches⟩ := h.2.2.exec hdry
  exact ⟨c₁, hc₁, ⟨hclear h.1, hdir h.2.1, hgood⟩, htouches⟩

theorem fits_of_exec (hdry : env.dryRun = false)
    (hexec : exec (statusAndRename env p existing) c = (.ok (), c₁))
    (h : Fits good c₁.tree p none) : Fits good c.tree p existing := by
  obtain ⟨hlands, hclear, hdir⟩ := lands_of_exec hdry hexec (P := (∀ content ∈ ·, good content)) h.2.2
    (.inl h.2.1)
  exact ⟨hclear h.1, hdir h.2.1, hlands⟩

theorem spoiled_of_exec (hdry : env.dryRun = false)
    (hexec : exec (statusAndRename env p existing) c = (.ok (), c₁))
    (h : Spoiled bad c₁.tree p none) : Spoiled bad c.tree p existing :=
  (lands_of_exec hdry hexec (P := (∃ content ∈ ·, bad content)) h (.inr (by simp))).1

theorem statusAndRename_raises {e : Exn}
    (h : exec (statusAndRename env p existing) c = (.error e, c₁)) : e = .os := by
  have hrename : ∀ old, Triple (fun _ => True) (renameLocalFile old p) (fun _ _ => True)
      (fun e _ => e = .os) := by
    intro old
    refine Triple.get_bind fun c _ => ?_
    split
    · exact Triple.throw fun _ _ => rfl
    refine Triple.get_bind fun c _ => ?_
    split
    · exact Triple.throw fun _ _ => rfl
    · exact Triple.bind (onTree_triple (Q := fun _ => True) (fun _ _ _ _ => trivial) fun _ _ => rfl)
        fun _ => onTree_triple (fun _ _ _ _ => trivial) fun _ _ => rfl
  have hstatus : Triple (fun _ => True) (statusAndRename env p existing) (fun _ _ => True)
      (fun e _ => e = .os) := by
    unfold statusAndRename
    split
    · exact Triple.modify fun _ _ => trivial
    split
    · refine Triple.bind (Triple.modify (Q := fun _ _ => True) fun _ _ => trivial) fun _ => ?_
      split
      · exact Triple.pure fun _ _ => trivial
      · exact hrename _
    · exact Triple.modify fun _ _ => trivial
  have hend := hstatus c trivial
  rw [h] at hend
  exact hend

/-! ## The write -/

/-- A file whose text can be read, with frontmatter that is YAML if it has any. -/
def Mergeable (deps : Deps ν δ π) (content : Content) : Prop :=
  ∃ text, content.decode deps = some text ∧
    existingMapping deps.codec ((splitContent text).map (·.1)) ≠ none

/-- A file whose text can be read, with frontmatter that is no YAML. -/
def Unloadable (deps : Deps ν δ π) (content : Content) : Prop :=
  ∃ text, content.decode deps = some text ∧
    existingMapping deps.codec ((splitContent text).map (·.1)) = none

theorem exec_writeAt (p : Path) (existing : Option StateEntry) (content : Content) (c : Ctx) :
    let write : SyncM Unit := onTree (·.mkdirs p.parent) >>= fun _ => onTree (·.write p content)
    (Clear c.tree p ∧ c.tree.isDir p = false ∧ ∃ c₁, exec write c = (.ok (), c₁) ∧
        Touches p existing c.tree c₁.tree) ∨
      (¬ (Clear c.tree p ∧ c.tree.isDir p = false) ∧ ∃ c₁, exec write c = (.error .os, c₁)) := by
  intro write
  rw [exec_bind, exec_onTree]
  cases hmkdirs : c.tree.mkdirs p.parent with
  | error e =>
    refine .inr ⟨fun h => ?_, _, rfl⟩
    rw [FileTree.mkdirs_eq_ok.2 ⟨h.1, rfl⟩] at hmkdirs
    cases hmkdirs
  | ok t =>
    have hdirs : ∀ q, t.isDir q = true ↔ c.tree.isDir q = true ∨ q <+: p.parent :=
      fun q => FileTree.mkdirs_isDir hmkdirs
    have hself : t.isDir p = c.tree.isDir p := by
      by_cases hp : p = []
      · simp [hp, FileTree.isDir]
      · rw [Bool.eq_iff_iff, hdirs]
        simp [not_prefix_parent hp]
    dsimp only
    rw [exec_onTree]
    cases hwrite : t.write p content with
    | error e =>
      refine .inr ⟨fun h => ?_, _, rfl⟩
      rw [FileTree.write_eq_ok.2 ⟨hself.trans h.2, (hdirs _).2 (.inr List.prefix_rfl), rfl⟩] at hwrite
      cases hwrite
    | ok t' =>
      refine .inl ⟨(FileTree.mkdirs_eq_ok.1 hmkdirs).1,
        hself.symm.trans (FileTree.write_eq_ok.1 hwrite).1, _, rfl, fun q hq _ => ?_, fun q hq => ?_⟩
      · rw [FileTree.write_files hwrite, if_neg hq, FileTree.mkdirs_files hmkdirs]
      · obtain ⟨-, -, rfl⟩ := FileTree.write_eq_ok.1 hwrite
        exact (hdirs q).1 hq

/-- What `_read_existing_frontmatter` finds at a path. -/
def readFrontmatter (deps : Deps ν δ π) (t : FileTree Content) (p : Path) :
    Except Exn (Option Text) :=
  match t.file? p with
  | some content =>
    match content.decode deps with
    | some text => .ok ((splitContent text).map (·.1))
    | none => .error .value
  | none => if t.isDir p then .error .os else .ok none

theorem exec_readExistingFrontmatter (env : Env ν δ π) (p : Path) (c : Ctx) :
    exec (readExistingFrontmatter env p) c = (readFrontmatter env.deps c.tree p, c) := by
  rw [readExistingFrontmatter, exec_bind, exec_get, readFrontmatter]
  dsimp only
  cases hfile : c.tree.file? p with
  | some content =>
    have hread : c.tree.read p = .ok content := by simp [FileTree.read, hfile]
    rw [if_pos (by simp [FileTree.exists?, hfile]), exec_bind, exec_readText, hread]
    dsimp only
    cases content.decode env.deps <;> rfl
  | none =>
    cases hdir : c.tree.isDir p with
    | true =>
      have hread : c.tree.read p = .error .isADirectory := by simp [FileTree.read, hfile, hdir]
      rw [if_pos (by simp [FileTree.exists?, hdir]), exec_bind, exec_readText, hread]
      rfl
    | false =>
      rw [if_neg (by simp [FileTree.exists?, hfile, hdir])]
      rfl

theorem unloadable_of_readFrontmatter {deps : Deps ν δ π}
    (hread : readFrontmatter deps t p = .ok yaml) (h : existingMapping deps.codec yaml = none) :
    ∃ content ∈ t.file? p, Unloadable deps content := by
  unfold readFrontmatter at hread
  split at hread
  · next content hcontent =>
    split at hread
    · next text htext =>
      cases hread
      exact ⟨content, hcontent, text, htext, h⟩
    · cases hread
  · split at hread
    · cases hread
    · cases hread
      cases h

/-- How a write at `p` ends: it succeeds where the export fits, and raises otherwise; what
`_process_file` does not catch is raised for a file of which `bad` holds. -/
def WritesTo (p : Path) (existing : Option StateEntry) (good bad : Content → Prop)
    (write : SyncM Unit) : Prop :=
  ∀ c, (Fits good c.tree p none ∧ ¬ Spoiled bad c.tree p none ∧
      ∃ c₁, exec write c = (.ok (), c₁) ∧ Touches p existing c.tree c₁.tree) ∨
    (¬ Fits good c.tree p none ∧ ∃ e c₁, exec write c = (.error e, c₁) ∧
      (e = .other ↔ Spoiled bad c.tree p none))

theorem writeText_writesTo (env : Env ν δ π) (p : Path) (existing : Option StateEntry) (title : Text)
    (key : SourceId) (drivePath now body : Text) :
    WritesTo p existing (Mergeable env.deps) (Unloadable env.deps)
      (readExistingFrontmatter env p >>= fun yaml =>
        writeGdoc env p title key drivePath now body yaml) := by
  intro c
  have hfits : Fits (Mergeable env.deps) c.tree p none ↔ Clear c.tree p ∧ c.tree.isDir p = false ∧
      ∀ content ∈ c.tree.file? p, Mergeable env.deps content := Iff.rfl
  have hspoiled : Spoiled (Unloadable env.deps) c.tree p none ↔
      ∃ content ∈ c.tree.file? p, Unloadable env.deps content := Iff.rfl
  have hwrites : ∀ yaml m, existingMapping env.deps.codec yaml = some m →
      writeGdoc env p title key drivePath now body yaml = onTree (·.mkdirs p.parent) >>= fun _ =>
        onTree (·.write p (.text (fileText env.deps.codec (orderedFrontmatter env.deps.codec m
          (scriptManaged env.deps.codec title key.text drivePath now)) body))) := by
    intro yaml m hm
    rw [writeGdoc, buildOrderedFrontmatter, hm]
    rfl
  rw [hfits, hspoiled, exec_bind, exec_readExistingFrontmatter, readFrontmatter]
  cases hfile : c.tree.file? p with
  | none =>
    cases hdir : c.tree.isDir p with
    | true => exact .inr ⟨by simp, _, _, rfl, by simp⟩
    | false =>
      rw [if_neg (by simp)]
      dsimp only
      rw [hwrites none [] rfl]
      rcases exec_writeAt p existing _ c with ⟨hclear, -, hend⟩ | ⟨hnot, c₁, hc₁⟩
      · exact .inl ⟨⟨hclear, rfl, by simp⟩, by simp, hend⟩
      · exact .inr ⟨fun h => hnot ⟨h.1, hdir⟩, _, c₁, hc₁, by simp⟩
  | some content =>
    have hone : (∃ content' ∈ some content, Unloadable env.deps content') ↔
        Unloadable env.deps content := by simp
    rw [hone]
    dsimp only
    cases htext : content.decode env.deps with
    | none => exact .inr ⟨fun h => by simpa [Mergeable, htext] using h.2.2 content rfl, _, _, rfl,
        by simp [Unloadable, htext]⟩
    | some text =>
      dsimp only
      cases hm : existingMapping env.deps.codec ((splitContent text).map (·.1)) with
      | none =>
        have hthrow : writeGdoc env p title key drivePath now body ((splitContent text).map (·.1)) =
            throw .other := by
          rw [writeGdoc, buildOrderedFrontmatter, hm]
          rfl
        rw [hthrow]
        exact .inr ⟨fun h => by simpa [Mergeable, htext, hm] using h.2.2 content rfl, _, _, rfl,
          by simp [Unloadable, htext, hm]⟩
      | some m =>
        rw [hwrites _ m hm]
        have hgood : ∀ content' ∈ some content, Mergeable env.deps content' := by
          rintro content' ⟨⟩
          exact ⟨text, htext, by simp [hm]⟩
        rcases exec_writeAt p existing _ c with ⟨hclear, hdir, hend⟩ | ⟨hnot, c₁, hc₁⟩
        · exact .inl ⟨⟨hclear, hdir, hgood⟩, by simp [Unloadable, htext, hm], hend⟩
        · exact .inr ⟨fun h => hnot ⟨h.1, h.2.1⟩, _, c₁, hc₁, by simp [Unloadable, htext, hm]⟩

/-! ## The export of a source -/

theorem writePng_writesTo (p : Path) (existing : Option StateEntry) (bytes : Bytes) :
    WritesTo p existing (fun _ => True) (fun _ => False) (writePng p bytes) := by
  intro c
  rcases exec_writeAt p existing (.bytes bytes) c with ⟨hclear, hdir, hend⟩ | ⟨hnot, hend⟩
  · exact .inl ⟨⟨hclear, hdir, fun _ _ => trivial⟩, by simp [Spoiled, Lands, movedFrom], hend⟩
  · obtain ⟨c₁, hc₁⟩ := hend
    exact .inr ⟨fun h => hnot ⟨h.1, h.2.1⟩, _, c₁, hc₁, by simp [Spoiled, Lands, movedFrom]⟩

def Due (env : Env ν δ π) (x : Export) (existing : Option StateEntry) : Prop :=
  env.dryRun = false ∧ x.kept existing = none

theorem settle_due (h : Due env x existing) (hp : x.entry.localPath = p)
    (write dryEnd : SyncM Unit) :
    settle env key existing x write dryEnd = statusAndRename env p existing >>= fun _ =>
      write >>= fun _ => record key x.entry := by
  rw [settle, h.2, h.1, hp]
  rfl

theorem exec_settle_kept (h : x.kept existing = some e) (write dryEnd : SyncM Unit) (c : Ctx) :
    exec (settle env key existing x write dryEnd) c =
      (.ok (), { c with
        newState := c.newState.set key e
        counts := { c.counts with unchanged := c.counts.unchanged + 1 } }) := by
  rw [settle, h]
  rfl

theorem succeeds_settle (h : ¬ Due env x existing) (write : SyncM Unit) (hend : Harmless dryEnd)
    (c : Ctx) : Succeeds (settle env key existing x write dryEnd) c := by
  cases hkept : x.kept existing with
  | some e => exact ⟨(), _, exec_settle_kept hkept write dryEnd c⟩
  | none =>
    have hdry : env.dryRun = true := by simpa [Due, hkept] using h
    have hstatus : Succeeds (statusAndRename env x.entry.localPath existing) c := by
      unfold statusAndRename
      split
      · exact succeeds_modify _ _
      · rw [hdry]
        split
        · exact ⟨(), _, rfl⟩
        · exact succeeds_modify _ _
    rw [settle, hkept, hdry]
    obtain ⟨⟨⟩, c₁, hc₁⟩ := hstatus
    refine (succeeds_bind_of_ok hc₁).2 ?_
    obtain ⟨c₂, hc₂, -⟩ := hend { c₁ with newState := c₁.newState.set key (existing.getD x.entry) }
    exact ⟨(), c₂, hc₂⟩

theorem settle_fits (hdue : Due env x existing) (hp : x.entry.localPath = p)
    (hfits : Fits good c.tree p existing)
    (hwrite : ∀ c₁, Touches p existing c.tree c₁.tree → Fits good c₁.tree p none →
      ∃ c₂, exec write c₁ = (.ok (), c₂) ∧ Touches p existing c₁.tree c₂.tree) :
    ∃ c₁, exec (settle env key existing x write dryEnd) c = (.ok (), c₁) ∧
      Touches p existing c.tree c₁.tree := by
  obtain ⟨c₁, hc₁, hfits₁, htouches⟩ := hfits.exec hdue.1
  obtain ⟨c₂, hc₂, htouches'⟩ := hwrite c₁ htouches hfits₁
  rw [settle_due hdue hp]
  exact ⟨_, exec_bind_ok.2 ⟨(), c₁, hc₁, exec_bind_ok.2 ⟨(), c₂, hc₂, rfl⟩⟩,
    htouches.trans htouches'⟩

/-- A program raises what `_process_file` does not catch. -/
def Breaks (x : SyncM Unit) (c : Ctx) : Prop := ∃ c₁, exec x c = (.error .other, c₁)

theorem Breaks.bind {α : Type} {x : SyncM α} {f : α → SyncM Unit} {a : α}
    (hx : exec x c = (.ok a, c₁)) (h : Breaks (f a) c₁) : Breaks (x >>= f) c := by
  obtain ⟨c₂, hc₂⟩ := h
  exact ⟨c₂, exec_bind_error.2 (.inr ⟨a, c₁, hx, hc₂⟩)⟩

theorem Succeeds.not_breaks {x : SyncM Unit} (h : Succeeds x c) : ¬ Breaks x c := by
  rintro ⟨c₁, hc₁⟩
  obtain ⟨a, c₂, hc₂⟩ := h
  cases hc₁.symm.trans hc₂

theorem settle_breaks (hdue : Due env x existing) (hp : x.entry.localPath = p)
    (hspoiled : Spoiled bad c.tree p existing)
    (hwrite : ∀ c₁, Touches p existing c.tree c₁.tree → Spoiled bad c₁.tree p none →
      Breaks write c₁) : Breaks (settle env key existing x write dryEnd) c := by
  obtain ⟨c₁, hc₁, hbad, -, -, htouches⟩ := Lands.exec hdue.1 hspoiled
  obtain ⟨c₂, hc₂⟩ := hwrite c₁ htouches hbad
  rw [settle_due hdue hp]
  exact Breaks.bind hc₁ ⟨c₂, exec_bind_error.2 (.inl hc₂)⟩

theorem settle_ends (key : SourceId) (dryEnd : SyncM Unit) (hdue : Due env x existing)
    (hp : x.entry.localPath = p) (hwrite : WritesTo p existing good bad write) (c : Ctx) :
    (Fits good c.tree p existing ∧ ¬ Spoiled bad c.tree p existing ∧
        Succeeds (settle env key existing x write dryEnd) c) ∨
      (¬ Fits good c.tree p existing ∧ ∃ e c₁, exec (settle env key existing x write dryEnd) c =
        (.error e, c₁) ∧ (e = .other ↔ Spoiled bad c.tree p existing)) := by
  rw [settle_due hdue hp]
  -- the move is the one step of which nothing is known yet
  rcases hstatus : exec (statusAndRename env p existing) c with ⟨e | ⟨⟩, c₁⟩
  · obtain rfl := statusAndRename_raises hstatus
    have hstuck : ∀ c₂, exec (statusAndRename env p existing) c ≠ (.ok (), c₂) := by
      intro c₂ hc₂
      cases hstatus.symm.trans hc₂
    refine .inr ⟨fun h => ?_, _, c₁, exec_bind_error.2 (.inl hstatus),
      iff_of_false (by simp) fun h => ?_⟩
    · obtain ⟨c₂, hc₂, -⟩ := h.exec hdue.1
      exact hstuck c₂ hc₂
    · obtain ⟨c₂, hc₂, -⟩ := Lands.exec hdue.1 h
      exact hstuck c₂ hc₂
  · have hspoiled : Spoiled bad c.tree p existing → Spoiled bad c₁.tree p none := by
      intro h
      obtain ⟨c₂, hc₂, hbad, -⟩ := Lands.exec hdue.1 h
      cases hstatus.symm.trans hc₂
      exact hbad
    rcases hwrite c₁ with ⟨hfits, hnot, c₂, hc₂, -⟩ | ⟨hnot, e, c₂, hc₂, hother⟩
    · exact .inl ⟨fits_of_exec hdue.1 hstatus hfits, fun h => hnot (hspoiled h), (), _,
        exec_bind_ok.2 ⟨(), c₁, hstatus, exec_bind_ok.2 ⟨(), c₂, hc₂, rfl⟩⟩⟩
    · refine .inr ⟨fun h => ?_, e, c₂,
        exec_bind_error.2 (.inr ⟨(), c₁, hstatus, exec_bind_error.2 (.inl hc₂)⟩),
        hother.trans ⟨spoiled_of_exec hdue.1 hstatus, hspoiled⟩⟩
      obtain ⟨c₃, hc₃, hfits, -⟩ := h.exec hdue.1
      cases hstatus.symm.trans hc₃
      exact hnot hfits

theorem succeeds_settle_iff (hp : x.entry.localPath = p)
    (hwrite : WritesTo p existing good bad write) (hend : Harmless dryEnd) :
    Succeeds (settle env key existing x write dryEnd) c ↔
      (Due env x existing → Fits good c.tree p existing) := by
  by_cases hdue : Due env x existing
  · rcases settle_ends key dryEnd hdue hp hwrite c with
      ⟨hfits, -, hok⟩ | ⟨hnot, e, c₁, hc₁, -⟩
    · exact iff_of_true hok fun _ => hfits
    · refine iff_of_false ?_ fun h => hnot (h hdue)
      rintro ⟨a, c₂, hc₂⟩
      cases hc₁.symm.trans hc₂
  · exact iff_of_true (succeeds_settle hdue write hend c) fun h => absurd h hdue

theorem settle_breaks_iff (hp : x.entry.localPath = p)
    (hwrite : WritesTo p existing good bad write) (hend : Harmless dryEnd) :
    Breaks (settle env key existing x write dryEnd) c ↔
      Due env x existing ∧ Spoiled bad c.tree p existing := by
  by_cases hdue : Due env x existing
  · rw [and_iff_right hdue]
    rcases settle_ends key dryEnd hdue hp hwrite c with
      ⟨-, hnot, hok⟩ | ⟨-, e, c₁, hc₁, hother⟩
    · exact iff_of_false (Succeeds.not_breaks hok) hnot
    · rw [← hother, Breaks, hc₁]
      simp
  · exact iff_of_false (Succeeds.not_breaks (succeeds_settle hdue write hend c)) fun h => hdue h.1

/-! ## Documents without a sidecar directory -/

/-- No sidecar directory is there to follow the document or to be cleaned up. -/
def Bare (t : FileTree Content) (p : Path) (existing : Option StateEntry) : Prop :=
  t.exists? (sidecarDir p) = false ∧
    ∀ old ∈ movedFrom p existing, t.exists? (sidecarDir old) = false

theorem Placed.underRoot_sidecar (hp : Placed root mdExt p) :
    underRoot root (sidecarDir p) = true := by
  obtain ⟨dirs, stem, rfl, hdirs, hstem⟩ := hp
  have hnames : ∀ part ∈ dirs ++ [stem ++ ".images".toList], part ≠ ['.', '.'] := by
    intro part hpart he
    rcases List.mem_append.1 hpart with hdir | hname
    · exact (hdirs part hdir).not_mem (c := '.') (by decide) (by simp [he])
    · rw [List.mem_singleton.1 hname] at he
      have hlength := congrArg List.length he
      simp at hlength
  rw [sidecarDir_placed hstem, List.append_assoc, underRoot, Path.resolve_append hnames,
    Path.isRelativeTo, List.isPrefixOf_iff_prefix]
  exact List.prefix_append _ _

theorem exec_checkLocalDrift (hread : readFrontmatter env.deps c.tree p = .ok yaml)
    (key : SourceId) (existing : Option StateEntry) (hash : Text) :
    ∃ c₁, exec (checkLocalDriftBeforeWrite env key p existing hash) c = (.ok (), c₁) ∧
      c₁.tree = c.tree := by
  unfold checkLocalDriftBeforeWrite
  split
  · exact ⟨c, rfl, rfl⟩
  rw [exec_bind, exec_get]
  dsimp only
  split
  · exact ⟨c, rfl, rfl⟩
  next hthere =>
  have htext : ∃ text, exec (readText env p) c = (.ok text, c) := by
    rw [exec_readText]
    unfold readFrontmatter at hread
    cases hfile : c.tree.file? p with
    | some content =>
      have hok : c.tree.read p = .ok content := by simp [FileTree.read, hfile]
      rw [hfile] at hread
      dsimp only at hread
      rw [hok]
      cases htext : content.decode env.deps with
      | some text => exact ⟨text, by simp [htext]⟩
      | none => rw [htext] at hread; cases hread
    | none =>
      rw [hfile] at hread
      simp [FileTree.exists?, hfile] at hthere
      simp [hthere.1] at hread
  obtain ⟨text, htext⟩ := htext
  rw [exec_bind, htext]
  dsimp only
  split <;> exact ⟨_, rfl, rfl⟩

theorem exec_writeDoc_absent (hp : Placed env.loreRoot mdExt p)
    (habsent : c.tree.exists? (sidecarDir p) = false)
    (hread : readFrontmatter env.deps c.tree p = .ok yaml) (file : DriveFile)
    (existing : Option StateEntry) (r : Text × Dict Text Text) :
    ∃ c₁, c₁.tree = c.tree ∧ exec (writeDoc env file p existing r) c =
      exec (readExistingFrontmatter env p >>= fun yaml => writeGdoc env p file.name (.file file.id)
        (joinDrivePath file.components file.name) (env.drive.clock (.file file.id)) r.1 yaml) c₁ := by
  have hclean : exec (cleanupOrphans env.loreRoot (sidecarDir p) r.2.keys) c = (.ok 0, c) := by
    rw [cleanupOrphans, if_neg (by simp [hp.underRoot_sidecar]), exec_bind, exec_get]
    dsimp only
    rw [if_pos (by simp [habsent])]
    rfl
  obtain ⟨c₁, hc₁, htree⟩ := exec_checkLocalDrift (c := { c with counts := { c.counts with
    orphansRemoved := c.counts.orphansRemoved + 0 } }) hread (.file file.id) existing
    (env.deps.sha256 r.1)
  refine ⟨c₁, htree, ?_⟩
  rw [writeDoc, exec_bind, hclean]
  dsimp only
  rw [exec_bind, exec_bump]
  dsimp only
  rw [exec_bind, exec_readExistingFrontmatter, hread]
  dsimp only
  rw [exec_bind, hc₁, exec_bind, exec_readExistingFrontmatter, htree, hread]

theorem exec_renderGdoc_bare {doc : δ} {file : DriveFile} (hdoc : env.drive.document file.id = .ok doc)
    (himages : env.deps.extractInlineObjects doc = []) (hbare : Bare c.tree p existing) :
    exec (renderGdoc env file p existing) c =
      (.ok (normalizeBody env.deps.unicode (env.deps.renderDocMarkdown doc [] file.id), []), c) := by
  have hfollow : exec (followSidecar env p existing) c = (.ok (), c) := by
    unfold followSidecar
    split
    · rfl
    next e =>
    split
    · next hmoves =>
      have hold := hbare.2 e.localPath (movedFrom_eq hmoves.1)
      rw [renameSidecar, exec_bind, exec_get]
      dsimp only
      rw [if_neg (by simp [hold])]
      rfl
    · rfl
  exact exec_renderGdoc_ok.2 ⟨doc, c, ⟨[], [], []⟩, hdoc, hfollow, by rw [himages]; rfl, rfl⟩

theorem Bare.absent (hp : Placed root mdExt p) {t' : FileTree Content} (hbare : Bare t p existing)
    (hlands : Lands P t p existing) (h : Touches p existing t t') :
    t'.exists? (sidecarDir p) = false := by
  obtain ⟨hfile, hdir⟩ : t.file? (sidecarDir p) = none ∧ t.isDir (sidecarDir p) = false := by
    simpa [FileTree.exists?] using hbare.1
  have hne : sidecarDir p ≠ p := fun he => hp.not_under_sidecar hp ⟨[], by simp [he]⟩
  have hmoved : movedFrom p existing ≠ some (sidecarDir p) := by
    intro hmoved
    rw [Lands, hmoved] at hlands
    obtain ⟨-, -, content, hcontent, -⟩ := hlands
    cases hfile.symm.trans hcontent
  have hfile' : t'.file? (sidecarDir p) = none := (h.files _ hne hmoved).trans hfile
  have hdir' : t'.isDir (sidecarDir p) = false := by
    rw [Bool.eq_false_iff]
    intro hd
    rcases h.dirs _ hd with hd | hd
    · simp [hdir] at hd
    · exact hp.not_under_sidecar hp (hd.trans (List.dropLast_prefix p))
  simp [FileTree.exists?, hfile', hdir']

end
end Archiviste.Sync
