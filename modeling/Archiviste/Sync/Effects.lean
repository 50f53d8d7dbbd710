import Archiviste.Sync.Model

/-!
# Archiviste.Sync.Effects

What handling one source in a run that is not dry can do to the placed Markdown files and to the
state under construction, said once: `Handled`. Renaming sidecars, writing images and removing
orphans is `Quiet`; what is left is at most one move of the source's file to its allocated path,
one write there, and one entry of the new state.

* `processFile_ends`, `exportTab_ends` — every way a file or a tab can end is `Handled`.
* `archiveEntry_ends` — an archived source has its frontmatter marked and keeps its path.
-/

namespace Archiviste.Sync

open Prog

/-! ## Quiet programs -/

def SameDocs (root : Path) (t t' : FileTree Content) : Prop :=
  ∀ q, Placed root mdExt q → t'.file? q = t.file? q

/-- Neither a placed Markdown file nor the new state nor the taken paths change. -/
structure Quiet (root : Path) (c c' : Ctx) : Prop where
  docs : SameDocs root c.tree c'.tree
  state : c'.newState = c.newState
  taken : c'.takenPaths = c.takenPaths

theorem SameDocs.refl (root : Path) (t : FileTree Content) : SameDocs root t t := fun _ _ => rfl

variable {root : Path} {f : FileTree Content → Except FsError (FileTree Content)} {c : Ctx}

theorem SameDocs.trans {t t' t'' : FileTree Content} (h : SameDocs root t t')
    (h' : SameDocs root t' t'') : SameDocs root t t'' := fun q hq => (h' q hq).trans (h q hq)

instance (root : Path) : Std.Refl (Quiet root) := ⟨fun c => ⟨.refl root c.tree, rfl, rfl⟩⟩

instance (root : Path) : IsTrans Ctx (Quiet root) :=
  ⟨fun _ _ _ h h' => ⟨h.docs.trans h'.docs, h'.state.trans h.state, h'.taken.trans h.taken⟩⟩

theorem exec_bump (f : SummaryCounts → SummaryCounts) (c : Ctx) :
    exec (bump f) c = (.ok (), { c with counts := f c.counts }) := rfl

theorem exec_takePath (p : Path) (c : Ctx) :
    exec (takePath p) c = (.ok (), { c with takenPaths := p :: c.takenPaths }) := rfl

theorem exec_onTree (f : FileTree Content → Except FsError (FileTree Content)) (c : Ctx) :
    exec (onTree f) c =
      match f c.tree with
      | .ok tree => (.ok (), { c with tree := tree })
      | .error _ => (.error .os, c) := by
  rw [onTree, exec_bind, exec_get]
  dsimp only
  cases f c.tree <;> rfl

theorem exec_onTree_ok {c₁ : Ctx} :
    exec (onTree f) c = (.ok (), c₁) ↔ ∃ t, f c.tree = .ok t ∧ c₁ = { c with tree := t } := by
  rw [exec_onTree]
  cases f c.tree <;> simp [eq_comm]

theorem onTree_triple {P Q : Ctx → Prop} {E : Exn → Ctx → Prop}
    (hok : ∀ c t', P c → f c.tree = .ok t' → Q { c with tree := t' }) (herr : ∀ c, P c → E .os c) :
    Triple P (onTree f) (fun _ => Q) E := by
  intro c hc
  rw [exec_onTree]
  cases h : f c.tree with
  | ok t' => exact hok c t' hc h
  | error e => exact herr c hc

theorem succeeds_onTree : Succeeds (onTree f) c ↔ ∃ t', f c.tree = .ok t' := by
  unfold Succeeds
  rw [exec_onTree]
  cases f c.tree <;> simp

theorem exec_readText {ν δ π : Type} (env : Env ν δ π) (p : Path) (c : Ctx) :
    exec (readText env p) c =
      match c.tree.read p with
      | .error _ => (.error .os, c)
      | .ok content =>
        match content.decode env.deps with
        | none => (.error .value, c)
        | some text => (.ok text, c) := by
  rw [readText, exec_bind, exec_get]
  dsimp only
  cases c.tree.read p with
  | error e => rfl
  | ok content =>
    dsimp only
    cases content.decode env.deps <;> rfl

/-! ## Programs built from tree operations

Whatever reflexive and transitive relation the tree operations stay within, the programs built from
them stay within it. -/

section
variable {ν δ π : Type} {R : Ctx → Ctx → Prop} [Std.Refl R]

theorem lift_within {α : Type} (r : Except Exn α) : Within R (lift r) := by
  cases r
  · exact Within.throw
  · exact Within.pure

variable {env : Env ν δ π} {p : Path} {existing : Option StateEntry}

theorem followSidecar_within (h : ∀ e ∈ existing, Within R (renameSidecar e.localPath p)) :
    Within R (followSidecar env p existing) := by
  unfold followSidecar
  split
  · exact Within.pure
  · split
    · exact h _ rfl
    · exact Within.pure

variable [IsTrans Ctx R]

theorem renameLocalFile_within {old new : Path} (hmkdirs : Within R (onTree (·.mkdirs new.parent)))
    (hrename : Within R (onTree (·.rename old new))) : Within R (renameLocalFile old new) := by
  refine Within.bind Within.get fun c => ?_
  split
  · exact Within.throw
  refine Within.bind Within.get fun c => ?_
  split
  · exact Within.throw
  · exact Within.bind hmkdirs fun _ => hrename

theorem renameSidecar_within {old new : Path}
    (hmkdirs : Within R (onTree (·.mkdirs (sidecarDir new).parent)))
    (hrename : Within R (onTree (·.rename (sidecarDir old) (sidecarDir new)))) :
    Within R (renameSidecar old new) := by
  refine Within.bind Within.get fun c => ?_
  split
  · exact Within.bind hmkdirs fun _ => hrename
  · exact Within.pure

theorem statusAndRename_within (hbump : ∀ f, Within R (bump f))
    (h : ∀ e ∈ existing, Within R (renameLocalFile e.localPath p)) :
    Within R (statusAndRename env p existing) := by
  unfold statusAndRename
  split
  · exact hbump _
  · split
    · refine Within.bind (hbump _) fun _ => ?_
      split
      · exact Within.pure
      · exact h _ rfl
    · exact hbump _

theorem cleanupOrphans_within {root sidecar : Path} {kept : List Text}
    (hunlink : ∀ child : Path, child.parent = sidecar →
      (Text.splitOn '.' child.name).headD [] ∉ kept → Within R (onTree (·.unlink child)))
    (hrmdir : Within R (onTree (·.rmdir sidecar))) :
    Within R (cleanupOrphans root sidecar kept) := by
  unfold cleanupOrphans
  split
  · exact Within.throw
  refine Within.bind Within.get fun c => ?_
  split
  · exact Within.pure
  refine Within.bind Within.get fun c => ?_
  split
  · exact Within.throw
  refine Within.bind Within.get fun c => Within.bind (Within.forM fun child hchild => ?_) fun _ => ?_
  · obtain ⟨hmem, horphan⟩ := List.mem_filter.1 hchild
    exact hunlink child (of_decide_eq_true (List.mem_filter.1 hmem).2).2 (of_decide_eq_true horphan)
  · refine Within.bind Within.get fun c => ?_
    dsimp only
    split
    · exact Within.bind hrmdir fun _ => Within.pure
    · exact Within.pure

theorem readText_within (env : Env ν δ π) (p : Path) : Within R (readText env p) := by
  refine Within.bind Within.get fun c => ?_
  repeat' split
  all_goals first | exact Within.throw | exact Within.pure

theorem readExistingFrontmatter_within (env : Env ν δ π) (p : Path) :
    Within R (readExistingFrontmatter env p) := by
  refine Within.bind Within.get fun c => ?_
  split
  · exact Within.bind (readText_within env p) fun _ => Within.pure
  · exact Within.pure

theorem checkLocalDriftBeforeWrite_within {key : SourceId} (hlog : Within R (logDrift key))
    (env : Env ν δ π) (p : Path) (existing : Option StateEntry) (hash : Text) :
    Within R (checkLocalDriftBeforeWrite env key p existing hash) := by
  unfold checkLocalDriftBeforeWrite
  split
  · exact Within.pure
  · refine Within.bind Within.get fun c => ?_
    split
    · exact Within.pure
    · refine Within.bind (readText_within env p) fun content => ?_
      dsimp only
      split
      · exact hlog
      · exact Within.pure

theorem writeGdoc_within (hmkdirs : Within R (onTree (·.mkdirs p.parent)))
    (hwrite : ∀ content, Within R (onTree (·.write p content))) (title : Text) (key : SourceId)
    (drivePath exportedAt body : Text) (yaml : Option Text) :
    Within R (writeGdoc env p title key drivePath exportedAt body yaml) := by
  unfold writeGdoc
  dsimp only
  split
  · exact Within.throw
  · exact Within.bind hmkdirs fun _ => hwrite _

theorem setArchivedFrontmatter_within (hwrite : ∀ content, Within R (onTree (·.write p content)))
    (archivedAt : Text) : Within R (setArchivedFrontmatter env p archivedAt) := by
  unfold setArchivedFrontmatter
  refine Within.bind (readText_within env p) fun content => ?_
  repeat' split
  all_goals first | exact Within.pure | exact Within.throw | exact hwrite _

theorem writeImage_within (hmkdirs : Within R (onTree (·.mkdirs p.parent)))
    (hwrite : ∀ content, Within R (onTree (·.write p content))) (bytes : Bytes) :
    Within R (writeImage p bytes) := by
  refine Within.tryCatch ?_ fun e => ?_
  · exact Within.bind hmkdirs fun _ => Within.bind (hwrite _) fun _ => Within.pure
  · cases e
    all_goals first | exact Within.pure | exact Within.throw

theorem processDocImages_within {components : List Text} {docSlug : Text}
    (hfailed : Within R (bump fun c => { c with imagesFailed := c.imagesFailed + 1 }))
    (hwritten : Within R (bump fun c => { c with imagesWritten := c.imagesWritten + 1 }))
    (hwrite : ∀ md5 ext path bytes, computeImagePath env components docSlug md5 ext = some path →
      Within R (writeImage path.resolve bytes)) (uris : Dict Text Text) :
    Within R (processDocImages env components docSlug uris) := by
  have himageFailed : ∀ acc objId kind, Within R (imageFailed acc objId kind) :=
    fun acc objId kind => Within.bind hfailed fun _ => Within.pure
  refine Within.foldlM (fun acc image => ?_) _ _
  unfold resolveOneImage
  dsimp only
  split
  · exact Within.pure
  split
  · exact himageFailed _ _ _
  · exact himageFailed _ _ _
  · exact Within.throw
  unfold compressAndRegister
  split
  · exact himageFailed _ _ _
  · exact himageFailed _ _ _
  · exact Within.throw
  dsimp only
  split
  · exact Within.pure
  split
  · exact himageFailed _ _ _
  next hpath =>
  refine Within.bind (hwrite _ _ _ _ hpath) fun ok => ?_
  split
  · split
    · exact Within.throw
    · exact Within.bind hwritten fun _ => Within.pure
  · exact himageFailed _ _ _

end

/-! ## Quiet steps -/

section
variable {ν δ π : Type} {root : Path}

theorem onTree_quiet {f : FileTree Content → Except FsError (FileTree Content)}
    (h : ∀ t t', f t = .ok t' → SameDocs root t t') : Within (Quiet root) (onTree f) := by
  intro c
  rw [exec_onTree]
  cases hf : f c.tree with
  | ok t' => exact ⟨h _ _ hf, rfl, rfl⟩
  | error e => exact Std.Refl.refl c

theorem bump_quiet (f : SummaryCounts → SummaryCounts) : Within (Quiet root) (bump f) :=
  Within.modify fun c => ⟨.refl root c.tree, rfl, rfl⟩

theorem logDrift_quiet (key : SourceId) : Within (Quiet root) (logDrift key) :=
  Within.modify fun c => ⟨.refl root c.tree, rfl, rfl⟩

theorem mkdirs_quiet (p : Path) : Within (Quiet root) (onTree (·.mkdirs p)) :=
  onTree_quiet fun _ _ h _ _ => FileTree.mkdirs_files h

/-! ## Sidecars and images -/

theorem renameSidecar_quiet {old new : Path} (hold : Placed root mdExt old)
    (hnew : Placed root mdExt new) : Within (Quiet root) (renameSidecar old new) := by
  refine renameSidecar_within (mkdirs_quiet _) (onTree_quiet fun t t' h q hq => ?_)
  have hnot := hold.not_under_sidecar hq
  have hnot' := hnew.not_under_sidecar hq
  rw [FileTree.rename_files h (absurd · hnot) (absurd · hnot'), if_neg, if_neg]
  · exact fun he => hnot (he ▸ List.prefix_rfl)
  · exact fun he => hnot' (he ▸ List.prefix_rfl)

variable {env : Env ν δ π} {p : Path} {md5 : Text} {components : List Text} {ext : ImageExt}

theorem followSidecar_quiet {existing : Option StateEntry} (hp : Placed root mdExt p)
    (he : ∀ e ∈ existing, Placed root mdExt e.localPath) :
    Within (Quiet root) (followSidecar env p existing) :=
  followSidecar_within fun e hmem => renameSidecar_quiet (he e hmem) hp

theorem cleanupOrphans_quiet (hp : Placed root mdExt p) (kept : List Text) :
    Within (Quiet root) (cleanupOrphans root (sidecarDir p) kept) := by
  refine cleanupOrphans_within (fun child hparent _ => onTree_quiet fun t t' h q hq => ?_)
    (onTree_quiet fun _ _ h _ _ => FileTree.rmdir_files h)
  -- a child of the sidecar directory is no placed file
  rw [FileTree.unlink_files h, if_neg]
  exact fun he => hp.not_under_sidecar hq (hparent ▸ he ▸ List.dropLast_prefix child)

def imageDir (env : Env ν δ π) (components : List Text) (docSlug : Text) : Path :=
  ((env.loreRoot.joinpath components).join (docSlug ++ ".images".toList)).resolve

theorem isMd5Hex12_length (h : isMd5Hex12 md5 = true) : md5.length = 12 := by
  simp only [isMd5Hex12, Bool.and_eq_true, decide_eq_true_eq] at h
  exact h.1

theorem isMd5Hex12_not_mem (h : isMd5Hex12 md5 = true) : '/' ∉ md5 ∧ '.' ∉ md5 := by
  simp only [isMd5Hex12, Bool.and_eq_true, decide_eq_true_eq, List.all_eq_true] at h
  exact ⟨fun hm => absurd (h.2 _ hm) (by decide), fun hm => absurd (h.2 _ hm) (by decide)⟩

theorem imageName_part (h : isMd5Hex12 md5 = true) (ext : ImageExt) :
    '/' ∉ md5 ++ '.' :: ext.text ∧
      ∀ t : Text, t.length < 12 → md5 ++ '.' :: ext.text ≠ t := by
  constructor
  · intro hmem
    rcases List.mem_append.1 hmem with hm | hm
    · exact (isMd5Hex12_not_mem h).1 hm
    · revert hm
      cases ext <;> decide
  · rintro t ht rfl
    have hlength := isMd5Hex12_length h
    rw [List.length_append] at ht
    omega

theorem computeImagePath_resolve {docSlug : Text}
    (h : computeImagePath env components docSlug md5 ext = some p) :
    isMd5Hex12 md5 = true ∧
      p.resolve = imageDir env components docSlug ++ [md5 ++ '.' :: ext.text] := by
  unfold computeImagePath at h
  dsimp only at h
  split at h
  · rename_i hcond
    obtain ⟨hslash, hne⟩ := imageName_part hcond.1 ext
    rw [Path.join_name (hne [] (by decide)) hslash (hne ['.'] (by decide))] at h
    rw [← Option.some.inj h, Path.resolve_concat (hne ['.', '.'] (by decide))]
    exact ⟨hcond.1, rfl⟩
  · cases h

/-- The path of an image ends with its own name, so it is no Markdown file. -/
theorem computeImagePath_not_placed {docSlug : Text}
    (h : computeImagePath env components docSlug md5 ext = some p) :
    ¬ Placed root mdExt p.resolve := by
  rintro ⟨dirs, stem, hp, _, _⟩
  rw [(computeImagePath_resolve h).2] at hp
  have hname := congrArg List.getLast? (List.singleton_inj.1 (List.append_inj' hp rfl).2)
  rw [List.getLast?_append_of_ne_nil _ (by simp),
    List.getLast?_append_of_ne_nil _ (by decide : mdExt ≠ [])] at hname
  revert hname
  cases ext <;> decide

theorem exec_writeImage (p : Path) (bytes : Bytes) (c : Ctx) :
    exec (writeImage p bytes) c =
      match c.tree.mkdirs p.parent with
      | .error _ => (.ok false, c)
      | .ok t =>
        match t.write p (.bytes bytes) with
        | .error _ => (.ok false, { c with tree := t })
        | .ok t' => (.ok true, { c with tree := t' }) := by
  rw [writeImage, exec_tryCatch, exec_bind, exec_onTree]
  cases c.tree.mkdirs p.parent with
  | error e => rfl
  | ok t =>
    dsimp only
    rw [exec_bind, exec_onTree]
    dsimp only
    cases t.write p (.bytes bytes) <;> rfl

theorem writeImage_files (p : Path) (bytes : Bytes) {P : FileTree Content → Prop}
    (hP : ∀ t t', (∀ q, t'.file? q = t.file? q) → P t → P t') :
    Triple (fun c => P c.tree) (writeImage p bytes)
      (fun ok c => ∃ t, P t ∧ ∀ q, c.tree.file? q =
        if ok = true ∧ q = p then some (.bytes bytes) else t.file? q) (fun _ _ => False) := by
  intro c hc
  rw [exec_writeImage]
  cases hmkdirs : c.tree.mkdirs p.parent with
  | error e => exact ⟨c.tree, hc, by simp⟩
  | ok t =>
    have ht : P t := hP c.tree t (fun q => FileTree.mkdirs_files hmkdirs) hc
    dsimp only
    cases hwrite : t.write p (.bytes bytes) with
    | error e => exact ⟨t, ht, by simp⟩
    | ok t' => exact ⟨t, ht, fun q => by simp [FileTree.write_files hwrite]⟩

theorem writeImage_quiet (hp : ¬ Placed root mdExt p) (bytes : Bytes) :
    Within (Quiet root) (writeImage p bytes) := by
  refine writeImage_within (mkdirs_quiet _) (fun content => onTree_quiet fun t t' h q hq => ?_) bytes
  rw [FileTree.write_files h, if_neg]
  exact fun he => hp (he ▸ hq)

theorem processDocImages_quiet (env : Env ν δ π) (components : List Text) (docSlug : Text)
    (uris : Dict Text Text) :
    Within (Quiet root) (processDocImages env components docSlug uris) :=
  processDocImages_within (bump_quiet _) (bump_quiet _)
    (fun _ _ _ bytes hpath => writeImage_quiet (computeImagePath_not_placed hpath) bytes) uris

end

/-! ## One source -/

/-- From `t`, the source's file has been brought to its allocated path, if it had another one. -/
inductive Positioned (root p : Path) :
    Option StateEntry → FileTree Content → FileTree Content → Prop where
  | fresh {t t' : FileTree Content} : SameDocs root t t' → Positioned root p none t t'
  | inPlace {e : StateEntry} {t t' : FileTree Content} :
      e.localPath = p → SameDocs root t t' → Positioned root p (some e) t t'
  | moved {e : StateEntry} {t t' : FileTree Content} :
      e.localPath ≠ p → Placed root mdExt e.localPath → t.file? p = none →
      (∀ q, Placed root mdExt q → t'.file? q =
        if q = p then t.file? e.localPath else if q = e.localPath then none else t.file? q) →
      Positioned root p (some e) t t'

theorem Positioned.sameDocs {p : Path} {existing : Option StateEntry}
    {t t' t'' : FileTree Content} (h : Positioned root p existing t t')
    (h' : SameDocs root t' t'') : Positioned root p existing t t'' := by
  cases h with
  | fresh hs => exact .fresh (hs.trans h')
  | inPlace he hs => exact .inPlace he (hs.trans h')
  | moved hne hold hnone hmove =>
    exact .moved hne hold hnone fun q hq => (h' q hq).trans (hmove q hq)

section
variable {ν δ π : Type}

def FrontmatterAt (deps : Deps ν δ π) (t : FileTree Content) (p : Path) (yaml : Option Text) :
    Prop :=
  (t.file? p = none ∧ yaml = none) ∨
    ∃ content text, t.file? p = some content ∧ content.decode deps = some text ∧
      yaml = (splitContent text).map (·.1)

/-- All that handling a source can do to the placed Markdown files and the new state: nothing; the
move alone, when something raised after it; an entry alone; or the move, the write of the merged
frontmatter, and the entry. -/
inductive Handled (env : Env ν δ π) (key : SourceId) (p : Path) (existing : Option StateEntry)
    (t : FileTree Content) (ns : Dict SourceId StateEntry) (t' : FileTree Content)
    (ns' : Dict SourceId StateEntry) : Prop where
  | untouched : SameDocs env.loreRoot t t' → ns' = ns → Handled env key p existing t ns t' ns'
  | moved : Placed env.loreRoot mdExt p → Positioned env.loreRoot p existing t t' → ns' = ns →
      Handled env key p existing t ns t' ns'
  | recorded (e : StateEntry) : SameDocs env.loreRoot t t' → ns' = ns.set key e →
      (existing = some e ∨ Placed env.loreRoot pngExt p ∧ e.localPath = p) →
      Handled env key p existing t ns t' ns'
  | written {t₁ : FileTree Content} {yaml : Option Text} {m : Dict Text ν}
      (title drivePath now : Text) {body : Text} {entry : StateEntry} :
      Placed env.loreRoot mdExt p → Positioned env.loreRoot p existing t t₁ →
      FrontmatterAt env.deps t₁ p yaml → existingMapping env.deps.codec yaml = some m →
      '\r' ∉ body →
      (∀ q, Placed env.loreRoot mdExt q → t'.file? q =
        if q = p then some (.text (fileText env.deps.codec (orderedFrontmatter env.deps.codec m
          (scriptManaged env.deps.codec title key.text drivePath now)) body))
        else t₁.file? q) →
      entry.localPath = p → ns' = ns.set key entry → Handled env key p existing t ns t' ns'

/-- `Handled` between two states of a run; allocating paths is not part of handling. -/
def Ends (env : Env ν δ π) (key : SourceId) (p : Path) (existing : Option StateEntry)
    (c c' : Ctx) : Prop :=
  Handled env key p existing c.tree c.newState c'.tree c'.newState ∧ c'.takenPaths = c.takenPaths

/-- However the program ends after quiet steps, the source is handled. -/
def Handles (env : Env ν δ π) (key : SourceId) (p : Path) (existing : Option StateEntry)
    (x : SyncM Unit) : Prop :=
  After (Quiet env.loreRoot) x (Ends env key p existing) (Ends env key p existing)

/-- The file is in position and nothing is recorded yet. -/
structure Ready (root p : Path) (existing : Option StateEntry) (c c' : Ctx) : Prop where
  placed : Placed root mdExt p
  docs : Positioned root p existing c.tree c'.tree
  state : c'.newState = c.newState
  taken : c'.takenPaths = c.takenPaths

variable {root : Path} {c c' : Ctx} {e : StateEntry} {body : Text} {yaml : Option Text}
  {file : DriveFile}

theorem Ready.quiet {p : Path} {existing : Option StateEntry} {c'' : Ctx}
    (h : Ready root p existing c c') (hq : Quiet root c' c'') : Ready root p existing c c'' :=
  ⟨h.placed, h.docs.sameDocs hq.docs, hq.state.trans h.state, hq.taken.trans h.taken⟩

variable {env : Env ν δ π} {key : SourceId} {p : Path} {existing : Option StateEntry}

theorem Quiet.ends (h : Quiet env.loreRoot c c') : Ends env key p existing c c' :=
  ⟨.untouched h.docs h.state, h.taken⟩

theorem Ready.ends (h : Ready env.loreRoot p existing c c') : Ends env key p existing c c' :=
  ⟨.moved h.placed h.docs h.state, h.taken⟩

theorem file?_eq_none_of_not_exists {t : FileTree Content} (h : ¬ t.exists? p = true) :
    t.file? p = none := by
  simp only [FileTree.exists?, Bool.or_eq_true, not_or] at h
  simpa using h.1

theorem renameLocalFile_ready (hp : Placed root mdExt p) (he : Placed root mdExt e.localPath)
    (hne : e.localPath ≠ p) :
    After (Quiet root) (renameLocalFile e.localPath p) (Ready root p (some e)) (Quiet root) := by
  refine fun c₀ => Triple.get_bind fun c hc => ?_
  split
  · exact Triple.throw fun _ h => h ▸ hc
  refine Triple.get_bind fun c' hc' => ?_
  subst hc'
  split
  · exact Triple.throw fun _ h => h ▸ hc
  rename_i hfree
  have hnone : c'.tree.file? p = none := file?_eq_none_of_not_exists hfree
  have hmkdirs : Triple (· = c') (onTree (·.mkdirs p.parent))
      (fun _ c => Quiet root c₀ c ∧ c.tree.file? p = none) (fun _ => Quiet root c₀) :=
    onTree_triple
      (fun c t' h hm => by
        subst h
        have hq : Quiet root c { c with tree := t' } :=
          ⟨fun _ _ => FileTree.mkdirs_files hm, rfl, rfl⟩
        exact ⟨IsTrans.trans _ _ _ hc hq, (FileTree.mkdirs_files hm).trans hnone⟩)
      (fun _ h => h ▸ hc)
  refine Triple.bind hmkdirs fun _ => onTree_triple (fun c t' h hr => ?_) fun _ h => h.1
  obtain ⟨hq, hfree⟩ := h
  refine ⟨hp, .moved hne he ((hq.docs p hp).symm.trans hfree) fun q hqp => ?_, hq.state, hq.taken⟩
  rw [FileTree.rename_files hr (fun h => he.md_eq_of_prefix hqp h) (fun h => hp.md_eq_of_prefix hqp h),
    hq.docs _ he, hq.docs q hqp]

theorem statusAndRename_ready (hdry : env.dryRun = false) (hp : Placed env.loreRoot mdExt p)
    (he : ∀ e ∈ existing, Placed env.loreRoot mdExt e.localPath) :
    After (Quiet env.loreRoot) (statusAndRename env p existing) (Ready env.loreRoot p existing)
      (Quiet env.loreRoot) := by
  unfold statusAndRename
  split
  · exact fun _ => Triple.modify fun c h => ⟨hp, .fresh h.docs, h.state, h.taken⟩
  · rename_i e
    split
    · rename_i hne
      refine (bump_quiet _).after.bind (fun _ _ h => h) fun _ => ?_
      rw [hdry]
      exact renameLocalFile_ready hp (he e rfl) hne
    · rename_i heq
      exact fun _ => Triple.modify fun c h =>
        ⟨hp, .inPlace (not_not.1 heq) h.docs, h.state, h.taken⟩

/-! ## Writing a Markdown file -/

theorem not_mem_normalizeBody (u : Unicode) (t : Text) : '\r' ∉ normalizeBody u t := by
  intro h
  exact absurd (List.mem_filter.1 h).2 (by decide)

def WrittenAt (c : Ctx) (p : Path) (raw : Text) : Prop :=
  c.tree.file? p = some (.text raw) ∧ c.tree.isDir p = false ∧ c.tree.isDir p.parent = true

theorem writeGdoc_writes {title drivePath now : Text} {c₁ : Ctx}
    (h : exec (writeGdoc env p title key drivePath now body yaml) c = (.ok (), c₁)) :
    ∃ existing, existingMapping env.deps.codec yaml = some existing ∧
      WrittenAt c₁ p (fileText env.deps.codec (orderedFrontmatter env.deps.codec existing
        (scriptManaged env.deps.codec title key.text drivePath now)) body) := by
  unfold writeGdoc at h
  dsimp only at h
  split at h
  · cases h
  · rename_i merged hmerged
    obtain ⟨existing, hexisting, rfl⟩ := Option.map_eq_some_iff.1 hmerged
    obtain ⟨_, c', -, hwrite⟩ := exec_bind_ok.1 h
    obtain ⟨t, ht, rfl⟩ := exec_onTree_ok.1 hwrite
    obtain ⟨hdir, hparent, rfl⟩ := FileTree.write_eq_ok.1 ht
    exact ⟨existing, hexisting, Dict.get?_set_self _ _ _, hdir, hparent⟩

theorem readText_spec (env : Env ν δ π) (p : Path) (P : Ctx → Prop) :
    Triple P (readText env p)
      (fun text c => P c ∧ ∃ content, c.tree.file? p = some content ∧
        content.decode env.deps = some text)
      (fun _ => P) := by
  refine Triple.get_bind fun c hc => ?_
  split
  · exact Triple.throw fun _ h => h ▸ hc
  · rename_i content hread
    split
    · exact Triple.throw fun _ h => h ▸ hc
    · rename_i text htext
      exact Triple.pure fun _ h =>
        ⟨h ▸ hc, content, h ▸ FileTree.read_eq_ok hread, htext⟩

theorem readExistingFrontmatter_spec (env : Env ν δ π) (p : Path) (P : Ctx → Prop) :
    Triple P (readExistingFrontmatter env p)
      (fun yaml c => P c ∧ FrontmatterAt env.deps c.tree p yaml) (fun _ => P) := by
  refine Triple.get_bind fun c hc => ?_
  split
  · refine Triple.bind (Triple.conseq (readText_spec env p P) (fun _ h => h ▸ hc)
      (fun _ _ h => h) (fun _ _ h => h)) fun text => Triple.pure fun _ h => ?_
    obtain ⟨hP, content, hfile, htext⟩ := h
    exact ⟨hP, .inr ⟨content, text, hfile, htext, rfl⟩⟩
  · rename_i hnot
    exact Triple.pure fun _ h =>
      ⟨h ▸ hc, .inl ⟨h ▸ file?_eq_none_of_not_exists hnot, rfl⟩⟩

theorem FrontmatterAt.quiet (hp : Placed env.loreRoot mdExt p)
    (h : FrontmatterAt env.deps c.tree p yaml) (hq : Quiet env.loreRoot c c') :
    FrontmatterAt env.deps c'.tree p yaml := by
  rw [FrontmatterAt, hq.docs p hp]
  exact h

/-- From a file in position, the write and the entry are `Handled`. -/
theorem writeGdoc_record (hp : Placed env.loreRoot mdExt p) (title drivePath now : Text)
    (hbody : '\r' ∉ body) {entry : StateEntry} (hentry : entry.localPath = p) (c₀ : Ctx) :
    Triple
      (fun c => Ready env.loreRoot p existing c₀ c ∧ FrontmatterAt env.deps c.tree p yaml)
      (writeGdoc env p title key drivePath now body yaml >>= fun _ => record key entry)
      (fun _ => Ends env key p existing c₀) (fun _ => Ends env key p existing c₀) := by
  unfold writeGdoc
  dsimp only
  split
  · exact Triple.bind (Triple.throw fun _ h => h.1.ends) fun _ => Triple.modify fun _ h => h
  · rename_i merged hmerged
    obtain ⟨m, hm, rfl⟩ := Option.map_eq_some_iff.1 hmerged
    refine Triple.bind (mkdirs_quiet p.parent |>.keeps_bind
      (fun _ _ h hq => ⟨h.1.quiet hq, h.2.quiet hp hq⟩) (fun _ _ h => h.1.ends) fun _ => ?_)
      fun _ => Triple.modify fun _ h => h
    refine onTree_triple (fun c t' h hw => ?_) fun _ h => h.1.ends
    refine ⟨.written title drivePath now hp h.1.docs h.2 hm hbody (fun q _ => ?_) hentry ?_, h.1.taken⟩
    · rw [FileTree.write_files hw]
    · exact congrArg (Dict.set · key entry) h.1.state

theorem record_unchanged (he : existing = some e) (f : SummaryCounts → SummaryCounts) :
    Handles env key p existing (record key e >>= fun _ => bump f) := fun _ =>
  Triple.bind
    (Triple.modify fun _ h =>
      ⟨.recorded e h.docs (congrArg (Dict.set · key e) h.state) (.inl he), h.taken⟩)
    fun _ => Triple.modify fun _ h => h

theorem filter_eq_some {q : StateEntry → Bool} (h : existing.filter q = some e) :
    existing = some e :=
  (Option.filter_eq_some_iff.1 h).1

theorem Handles.after_quiet {α : Type} {x : SyncM α} {f : α → SyncM Unit}
    (hx : Within (Quiet env.loreRoot) x) (hf : ∀ a, Handles env key p existing (f a)) :
    Handles env key p existing (x >>= f) :=
  hx.after.bind (fun _ _ h => h.ends) hf

theorem bump_ends (f : SummaryCounts → SummaryCounts) : Handles env key p existing (bump f) :=
  fun _ => Triple.modify fun _ h => ⟨.untouched h.docs h.state, h.taken⟩

section
variable (hdry : env.dryRun = false) (hp : Placed env.loreRoot mdExt p)
  (he : ∀ e ∈ existing, Placed env.loreRoot mdExt e.localPath)
include hdry hp he

theorem applyState_ends (title drivePath : Text) (hbody : '\r' ∉ body) :
    Handles env key p existing (applyState env key p title drivePath body existing) := by
  unfold applyState
  simp only [keyStatusAndRename_eq]
  split
  · rename_i e heq
    exact record_unchanged (filter_eq_some heq) _
  · refine (statusAndRename_ready hdry hp he).bind (fun _ _ h => h.ends) fun _ c₀ => ?_
    rw [hdry]
    refine Triple.bind (Triple.conseq (readExistingFrontmatter_spec env p _) (fun _ h => h)
      (fun _ _ h => h) fun _ _ h => h.ends) fun yaml => ?_
    exact writeGdoc_record hp title drivePath _ hbody rfl c₀

theorem exportGdoc_ends (hbody : '\r' ∉ body) (images : Dict Text Text) :
    Handles env (.file file.id) p existing (exportGdoc env file p existing body images) := by
  unfold exportGdoc
  dsimp only
  refine (statusAndRename_ready hdry hp he).bind (fun _ _ h => h.ends) fun _ c₀ => ?_
  rw [hdry]
  have hready : ∀ c c', Ready env.loreRoot p existing c₀ c → Quiet env.loreRoot c c' →
      Ready env.loreRoot p existing c₀ c' := fun _ _ h hq => h.quiet hq
  refine (cleanupOrphans_quiet hp _).keeps_bind hready (fun _ _ h => h.ends) fun orphans => ?_
  refine (bump_quiet _).keeps_bind hready (fun _ _ h => h.ends) fun _ => ?_
  refine Triple.bind (Triple.conseq (readExistingFrontmatter_spec env p _) (fun _ h => h)
    (fun _ _ h => h) fun _ _ h => h.ends) fun yaml => ?_
  refine (checkLocalDriftBeforeWrite_within (logDrift_quiet _) env p existing _).keeps_bind
    (fun _ _ h hq => ⟨h.1.quiet hq, h.2.quiet hp hq⟩) (fun _ _ h => h.1.ends) fun _ => ?_
  exact writeGdoc_record hp _ _ _ hbody rfl c₀

theorem processGdoc_ends :
    Handles env (.file file.id) p existing (processGdoc env file p existing) := by
  refine Handles.after_quiet (lift_within _) fun doc => ?_
  refine Handles.after_quiet (followSidecar_quiet hp he) fun _ => ?_
  refine Handles.after_quiet (processDocImages_quiet env _ _ _) fun images => ?_
  dsimp only
  split
  · exact bump_ends _
  · split
    · rename_i e heq
      exact record_unchanged (filter_eq_some heq) _
    · exact exportGdoc_ends hdry hp he (not_mem_normalizeBody _ _) _

theorem processGslide_ends :
    Handles env (.file file.id) p existing (processGslide env file p existing) := by
  refine Handles.after_quiet (lift_within _) fun presentation => ?_
  dsimp only
  split
  · exact bump_ends _
  · exact applyState_ends hdry hp he _ _ (not_mem_normalizeBody _ _)

end

/-! ## Images of the listing -/

theorem renameLocalFile_png_quiet {old new : Path} (hold : Placed root pngExt old)
    (hnew : Placed root pngExt new) : Within (Quiet root) (renameLocalFile old new) := by
  refine renameLocalFile_within (mkdirs_quiet _) (onTree_quiet fun t t' h q hq => ?_)
  have hnot := hold.png_not_prefix hq
  have hnot' := hnew.png_not_prefix hq
  rw [FileTree.rename_files h (absurd · hnot) (absurd · hnot'), if_neg, if_neg]
  · exact fun he => hnot (he ▸ List.prefix_rfl)
  · exact fun he => hnot' (he ▸ List.prefix_rfl)

theorem statusAndRename_png_quiet (hp : Placed env.loreRoot pngExt p)
    (he : ∀ e ∈ existing, Placed env.loreRoot pngExt e.localPath) :
    Within (Quiet env.loreRoot) (statusAndRename env p existing) :=
  statusAndRename_within bump_quiet fun e hmem => renameLocalFile_png_quiet (he e hmem) hp

theorem exportPng_ends (hdry : env.dryRun = false) (hp : Placed env.loreRoot pngExt p)
    (he : ∀ e ∈ existing, Placed env.loreRoot pngExt e.localPath) (bytes : Bytes)
    (signature : Text) :
    Handles env key p existing (exportPng env key p existing bytes signature) := by
  refine Handles.after_quiet (statusAndRename_png_quiet hp he) fun _ => ?_
  rw [hdry]
  refine Handles.after_quiet (mkdirs_quiet _) fun _ => ?_
  refine Handles.after_quiet (onTree_quiet fun t t' h q hq => ?_) fun _ _ => ?_
  · rw [FileTree.write_files h, if_neg]
    exact fun heq => hp.png_not_prefix hq (heq ▸ List.prefix_rfl)
  · exact Triple.modify fun _ h =>
      ⟨.recorded _ h.docs (congrArg (Dict.set · key _) h.state) (.inr ⟨hp, rfl⟩), h.taken⟩

theorem processPng_ends (hdry : env.dryRun = false) (hp : Placed env.loreRoot pngExt p)
    (he : ∀ e ∈ existing, Placed env.loreRoot pngExt e.localPath) :
    Handles env (.file file.id) p existing (processPng env file p existing) := by
  unfold processPng
  dsimp only
  split
  · rename_i e heq
    obtain ⟨_, _, hknown⟩ := Option.bind_eq_some_iff.1 heq
    exact record_unchanged (filter_eq_some hknown) _
  · refine Handles.after_quiet (lift_within _) fun bytes => ?_
    split
    · exact bump_ends _
    · split
      · rename_i e heq
        split at heq
        · exact record_unchanged (filter_eq_some heq) _
        · cases heq
      · exact exportPng_ends hdry hp he bytes _

/-! ## A file or a tab -/

/-- However the handling of a file ends, counted errors included, it is `Handled`. -/
theorem processFile_ends (hdry : env.dryRun = false) (hmime : file.mime ≠ .sheet)
    (hp : Placed env.loreRoot file.mime.ext p)
    (he : ∀ e ∈ existing, Placed env.loreRoot file.mime.ext e.localPath) :
    Handles env (.file file.id) p existing (processFile env file p existing) := by
  have hkind : Handles env (.file file.id) p existing (processKind env file p existing) := by
    unfold processKind
    cases hm : file.mime with
    | doc =>
      rw [hm] at hp he
      exact processGdoc_ends hdry hp he
    | slides =>
      rw [hm] at hp he
      exact processGslide_ends hdry hp he
    | png =>
      rw [hm] at hp he
      exact processPng_ends hdry hp he
    | sheet => exact absurd hm hmime
  intro c₀
  refine Triple.tryCatch (Handles.after_quiet (bump_quiet _) (fun _ => hkind) c₀) fun e => ?_
  split
  · exact Triple.modify fun _ h => h
  · exact Triple.throw fun _ h => h

theorem exportTab_ends {tab : Tab} (hdry : env.dryRun = false)
    (hp : Placed env.loreRoot mdExt p)
    (he : ∀ e ∈ env.state.get? (.tab file.id tab.sheetId), Placed env.loreRoot mdExt e.localPath) :
    Handles env (.tab file.id tab.sheetId) p (env.state.get? (.tab file.id tab.sheetId))
      (exportTab env file tab p) := by
  unfold exportTab
  split
  · exact bump_ends _
  · exact bump_ends _
  · exact fun _ => Triple.throw fun _ h => h.ends
  · dsimp only
    split
    · exact bump_ends _
    · exact Handles.after_quiet (bump_quiet _) fun _ =>
        applyState_ends hdry hp he _ _ (not_mem_normalizeBody _ _)

/-! ## Archiving -/

def markArchived (codec : Codec ν) (m : Dict Text ν) (archivedAt : Text) : Dict Text ν :=
  (m.set "archived".toList (codec.bool true)).set "archived_at".toList (codec.str archivedAt)

theorem get?_markArchived {codec : Codec ν} (m : Dict Text ν) (archivedAt : Text) {k : Text}
    (hk : k ≠ "archived".toList) (hk' : k ≠ "archived_at".toList) :
    (markArchived codec m archivedAt).get? k = m.get? k := by
  rw [markArchived, Dict.get?_set_ne _ _ hk', Dict.get?_set_ne _ _ hk]

/-- The frontmatter of the file at `p` is marked, and no other placed Markdown file changes. -/
def Marked (env : Env ν δ π) (p : Path) (t t' : FileTree Content) : Prop :=
  ∃ content text yaml body m archivedAt,
    t.file? p = some content ∧ content.decode env.deps = some text ∧
    splitContent text = some (yaml, body) ∧
    (∀ m', env.deps.codec.safeLoad yaml = some (.mapping m') → m = m') ∧
    ∀ q, Placed env.loreRoot mdExt q → t'.file? q =
      if q = p then
        some (.text (fileText env.deps.codec (markArchived env.deps.codec m archivedAt) body))
      else t.file? q

/-- All that the archive pass does for one entry of the state: nothing, or a new entry with the
same path, the file marked or not. -/
inductive Archives (env : Env ν δ π) (key : SourceId) (entry : StateEntry) (t : FileTree Content)
    (ns : Dict SourceId StateEntry) (t' : FileTree Content) (ns' : Dict SourceId StateEntry) :
    Prop where
  | untouched : SameDocs env.loreRoot t t' → ns' = ns → Archives env key entry t ns t' ns'
  | marked (e : StateEntry) : SameDocs env.loreRoot t t' ∨ Marked env entry.localPath t t' →
      e.localPath = entry.localPath → ns' = ns.set key e → Archives env key entry t ns t' ns'

def ArchiveEnds (env : Env ν δ π) (key : SourceId) (entry : StateEntry) (c c' : Ctx) : Prop :=
  Archives env key entry c.tree c.newState c'.tree c'.newState ∧ c'.takenPaths = c.takenPaths

/-- A program for which this holds however it ends, after quiet steps. -/
def Archiving (env : Env ν δ π) (key : SourceId) (entry : StateEntry) {α : Type} (x : SyncM α) :
    Prop :=
  After (Quiet env.loreRoot) x (ArchiveEnds env key entry) (ArchiveEnds env key entry)

/-- The file at `p` is marked or as before, and nothing is recorded. -/
structure MarkedOnly (env : Env ν δ π) (p : Path) (c c' : Ctx) : Prop where
  docs : SameDocs env.loreRoot c.tree c'.tree ∨ Marked env p c.tree c'.tree
  state : c'.newState = c.newState
  taken : c'.takenPaths = c.takenPaths

theorem Quiet.markedOnly (h : Quiet env.loreRoot c c') : MarkedOnly env p c c' :=
  ⟨.inl h.docs, h.state, h.taken⟩

theorem setArchivedFrontmatter_marked (hp : Placed env.loreRoot mdExt p) (archivedAt : Text) :
    After (Quiet env.loreRoot) (setArchivedFrontmatter env p archivedAt) (MarkedOnly env p)
      (Quiet env.loreRoot) := by
  refine fun c₀ => Triple.bind (readText_spec env p _) fun text => ?_
  have hwrite : ∀ {yaml body rest : Text} {m : Dict Text ν}, afterOpening text = some rest →
      cutClosing rest = some (yaml, body) →
      (∀ m', env.deps.codec.safeLoad yaml = some (.mapping m') → m = m') →
      Triple
        (fun c => Quiet env.loreRoot c₀ c ∧ ∃ content, c.tree.file? p = some content ∧
          content.decode env.deps = some text)
        (onTree (·.write p
          (.text (fileText env.deps.codec (markArchived env.deps.codec m archivedAt) body))))
        (fun _ => MarkedOnly env p c₀) (fun _ => Quiet env.loreRoot c₀) := by
    intro yaml body rest m hopen hcut hm
    refine onTree_triple (fun c t' h hw => ?_) fun _ h => h.1
    obtain ⟨hq, content, hfile, htext⟩ := h
    refine ⟨.inr ⟨content, text, yaml, body, m, archivedAt, (hq.docs p hp).symm.trans hfile, htext,
      by simp [splitContent, hopen, hcut], hm, fun q hqp => ?_⟩, hq.state, hq.taken⟩
    rw [FileTree.write_files hw, hq.docs q hqp]
  dsimp only
  split
  · exact Triple.pure fun _ h => h.1.markedOnly
  · rename_i rest hopen
    split
    · exact Triple.throw fun _ h => h.1
    · rename_i yaml body hcut
      split
      · rename_i m hload
        exact hwrite hopen hcut fun m' h => by rw [hload] at h; cases h; rfl
      · rename_i hload
        exact hwrite hopen hcut fun m' h => by rw [hload] at h; cases h
      · exact Triple.throw fun _ h => h.1
      · exact Triple.throw fun _ h => h.1

variable {entry : StateEntry}

theorem Quiet.archiveEnds (h : Quiet env.loreRoot c c') : ArchiveEnds env key entry c c' :=
  ⟨.untouched h.docs h.state, h.taken⟩

theorem record_archives (he : e.localPath = entry.localPath) :
    After (MarkedOnly env entry.localPath) (record key e) (ArchiveEnds env key entry)
      (ArchiveEnds env key entry) :=
  fun _ => Triple.modify fun _ h =>
    ⟨.marked e h.docs he (congrArg (Dict.set · key e) h.state), h.taken⟩

theorem record_archiveEnds : Archiving env key entry (record key entry) := fun c₀ =>
  (record_archives rfl c₀).conseq (fun _ h => h.markedOnly) (fun _ _ h => h) fun _ _ h => h

theorem archiveEntry_ends (key : SourceId)
    (he : Placed env.loreRoot mdExt entry.localPath ∨ Placed env.loreRoot pngExt entry.localPath) :
    Archiving env key entry (archiveEntry env key entry) := by
  have hbump : ∀ f, After (ArchiveEnds env key entry) (bump f) (ArchiveEnds env key entry)
      (ArchiveEnds env key entry) := fun f _ => Triple.modify fun _ h => h
  refine (bump_quiet _).after.bind (fun _ _ h => h.archiveEnds) fun _ => ?_
  split
  · exact record_archiveEnds.bind (fun _ _ h => h) fun _ => hbump _
  split
  · exact record_archiveEnds.bind (fun _ _ h => h) fun _ => hbump _
  refine fun c₀ => Triple.get_bind fun c hc => ?_
  dsimp only
  split
  · rename_i hcond
    have hmd : Placed env.loreRoot mdExt entry.localPath := by
      refine he.resolve_right fun hpng => ?_
      rw [hpng.suffix_png] at hcond
      exact absurd hcond.1 (by decide)
    refine ((setArchivedFrontmatter_marked hmd _).bind (fun _ _ h => h.archiveEnds) (fun _ =>
      (record_archives (by rfl)).bind (fun _ _ h => h) fun _ => hbump _) c₀).conseq
      (fun _ h => h ▸ hc) (fun _ _ h => h) fun _ _ h => h
  · exact ((record_archives (by rfl)).bind (fun _ _ h => h) (fun _ => hbump _) c₀).conseq
      (fun _ h => h ▸ hc.markedOnly) (fun _ _ h => h) fun _ _ h => h

/-- However the archive pass ends for one entry of the state, it is `Archives`. -/
theorem handleArchivedKey_ends {files : List DriveFile} {gids : TabGids}
    (he : Placed env.loreRoot mdExt entry.localPath ∨ Placed env.loreRoot pngExt entry.localPath) :
    Archiving env key entry (handleArchivedKey env files gids (key, entry)) := by
  have hthen : ∀ {x : SyncM Unit} (g : TabGids), Archiving env key entry x →
      Archiving env key entry (x >>= fun _ => pure g) := fun g hx =>
    hx.bind (fun _ _ h => h) fun _ _ => Triple.pure fun _ h => h
  have harchive := archiveEntry_ends key he
  have htab : ∀ gid gids, Archiving env key entry (archiveTab env key gid entry gids) := by
    intro gid gids
    unfold archiveTab
    split
    · exact harchive
    · exact record_archiveEnds
  cases key with
  | file fileId =>
    unfold handleArchivedKey
    dsimp only
    split
    · exact fun _ => Triple.pure fun _ h => h.archiveEnds
    · exact hthen _ harchive
  | tab fileId gid =>
    unfold handleArchivedKey handleArchivedTab
    dsimp only
    split
    · exact hthen _ harchive
    split
    · exact hthen _ record_archiveEnds
    split
    · exact hthen _ (htab gid _)
    split
    · exact hthen _ (htab gid _)
    · exact hthen _ record_archiveEnds
    · exact fun _ => Triple.throw fun _ h => h.archiveEnds

end
end Archiviste.Sync
