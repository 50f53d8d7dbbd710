import Archiviste.Sync.Allocations
import Archiviste.Sync.DocsRenderer
import Archiviste.Sync.DryRun

/-!
# Archiviste.Sync.Sidecars

The images of a document. They are referenced from the Markdown file, moved with it and cleaned up
in its sidecar directory, whose folders are slugs; they are written to a directory made of the
folder names as Drive has them. The two are one directory only when the folder names, taken under
the root, lead to the folder of their slugs (`SameFolder`).

* `imageDir_eq_sidecarDir_iff` — when the two directories are one.
* `processDocImages_shelved`   — what the loop over the images has written when it ends.
* `Held`                       — the references the Markdown file has find the bytes of their images.
* `ok_images_in_place_iff`     — they do when the two directories are one, or the bytes were there.
-/

namespace Archiviste.Sync

open Prog

section
variable {ν δ π : Type} {env : Env ν δ π}

/-! ## The two directories -/

/-- The folder names of a file, taken under the root, lead to the folder of their slugs. -/
def SameFolder (env : Env ν δ π) (file : DriveFile) : Prop :=
  (env.loreRoot.joinpath file.components).resolve =
    env.loreRoot ++ file.components.map fun part => slugify env.deps.unicode part file.id.text

variable {p : Path} {file : DriveFile} {taken : List Path} {objId relPath : Text}
  {image : CompressedImage} {components : List Text}

theorem Placed.stem_plain {root : Path} (h : Placed root mdExt p) : Plain p.stem := by
  obtain ⟨dirs, stem, rfl, -, hstem⟩ := h
  have hsplit : Path.splitName (Path.name (root ++ dirs ++ [stem ++ mdExt])) = (stem, mdExt) :=
    splitName_placed hstem (by decide) (by decide)
  rw [Path.stem, hsplit]
  exact hstem

theorem allocate_doc_placed (hmime : file.mime = .doc) (hp : allocate env file taken = some p) :
    Placed env.loreRoot mdExt p := by
  have hplaced := allocate_placed hp
  rwa [hmime] at hplaced

theorem sidecarName_part {stem : Text} (h : Plain stem) :
    stem ++ ".images".toList ≠ [] ∧ '/' ∉ stem ++ ".images".toList ∧
      ∀ t : Text, t.length < 3 → stem ++ ".images".toList ≠ t := by
  refine ⟨by simp, ?_, ?_⟩
  · rw [List.mem_append, not_or]
    exact ⟨h.not_mem (by decide), by decide⟩
  · rintro t ht rfl
    have hlength : ".images".toList.length = 7 := rfl
    rw [List.length_append, hlength] at ht
    omega

theorem imageDir_eq_sidecarDir_iff (hmime : file.mime = .doc)
    (hp : allocate env file taken = some p) :
    imageDir env file.components p.stem = sidecarDir p ↔ SameFolder env file := by
  obtain ⟨hne, hslash, hshort⟩ := sidecarName_part (allocate_doc_placed hmime hp).stem_plain
  rw [imageDir, sidecarDir, Path.join_name hne hslash (hshort ['.'] (by decide)),
    Path.resolve_concat (hshort ['.', '.'] (by decide)), List.append_left_inj, allocate_parent hp,
    SameFolder]

theorem sameFolder_of_slugs (hroot : env.loreRoot.resolve = env.loreRoot)
    (h : ∀ part ∈ file.components, slugify env.deps.unicode part file.id.text = part) :
    SameFolder env file := by
  have hplain : ∀ part ∈ file.components, Plain part := fun part hpart =>
    h part hpart ▸ slugify_plain env.deps.unicode part file.id.alphabet
  have hslugs : (file.components.map fun part => slugify env.deps.unicode part file.id.text) =
      file.components := (List.map_congr_left h).trans (List.map_id' _)
  have hnames : ∀ part ∈ file.components, part ≠ ['.', '.'] := by
    rintro part hpart rfl
    exact (hplain ['.', '.'] hpart).not_mem (c := '.') (by decide) (by simp)
  rw [SameFolder, joinpath_plain hplain, Path.resolve_append hnames, hroot, hslugs]

/-! ## The loop over the images -/

def ImageOf (env : Env ν δ π) (doc : δ) (objId : Text) (image : CompressedImage) : Prop :=
  ∃ uri raw contentType, (objId, uri) ∈ env.deps.extractInlineObjects doc ∧
    env.drive.image uri = .ok (raw, contentType) ∧
    env.deps.compressImage raw contentType = .ok image

/-- What has been written of the images: each relative path stands for a file of the directory with
the bytes of an image, which is in the manifest, and the images resolved as `ok` have such paths. -/
structure Shelved (images : Text → CompressedImage → Prop) (docSlug : Text) (dir : Path)
    (acc : DocImages) (t : FileTree Content) : Prop where
  stored : ∀ md5 relPath, acc.md5ToRelPath.get? md5 = some relPath →
    isMd5Hex12 md5 = true ∧ md5 ∈ acc.manifest.keys ∧
      ∃ objId image, images objId image ∧ image.md5Hex12 = md5 ∧
        relPath = docSlug ++ ".images/".toList ++ md5 ++ '.' :: image.extFinal.text ∧
        t.file? (dir ++ [md5 ++ '.' :: image.extFinal.text]) = some (.bytes image.bytesFinal)
  resolved : ∀ objId r, acc.resolutions.get? objId = some r → r.kind = .ok →
    ∃ image relPath, images objId image ∧
      acc.md5ToRelPath.get? image.md5Hex12 = some relPath ∧ r.relPath = some relPath

variable {images : Text → CompressedImage → Prop} {docSlug : Text} {dir : Path} {acc : DocImages}
  {t t' : FileTree Content}

theorem Shelved.files (h : Shelved images docSlug dir acc t) (hsame : ∀ q, t'.file? q = t.file? q) :
    Shelved images docSlug dir acc t' := by
  refine ⟨fun md5 relPath hmd5 => ?_, h.resolved⟩
  simp only [hsame]
  exact h.stored md5 relPath hmd5

theorem Shelved.unresolved (h : Shelved images docSlug dir acc t) (objId : Text)
    {kind : ResolutionKind} (hkind : kind ≠ .ok) :
    Shelved images docSlug dir (acc.resolve objId kind none) t := by
  refine ⟨h.stored, fun objId' r hr hok => ?_⟩
  rw [DocImages.resolve, Dict.get?_set] at hr
  split at hr
  · cases hr
    exact absurd hok hkind
  · exact h.resolved objId' r hr hok

theorem Shelved.found (h : Shelved images docSlug dir acc t) (himage : images objId image)
    (hknown : acc.md5ToRelPath.get? image.md5Hex12 = some relPath) :
    Shelved images docSlug dir (acc.resolve objId .ok (some relPath)) t := by
  refine ⟨h.stored, fun objId' r hr hok => ?_⟩
  rw [DocImages.resolve, Dict.get?_set] at hr
  split at hr
  · next heq =>
    cases hr
    exact ⟨image, relPath, heq ▸ himage, hknown, rfl⟩
  · exact h.resolved objId' r hr hok

theorem Shelved.store (h : Shelved images docSlug dir acc t) {rel : Text}
    (himage : images objId image) (hhex : isMd5Hex12 image.md5Hex12 = true)
    (hnew : acc.md5ToRelPath.get? image.md5Hex12 = none)
    (hwrite : ∀ q, t'.file? q = if q = dir ++ [image.md5Hex12 ++ '.' :: image.extFinal.text] then
      some (.bytes image.bytesFinal) else t.file? q) :
    let relPath := docSlug ++ ".images/".toList ++ image.md5Hex12 ++ '.' :: image.extFinal.text
    Shelved images docSlug dir
      ({ acc with
        md5ToRelPath := acc.md5ToRelPath.set image.md5Hex12 relPath
        manifest := acc.manifest.set image.md5Hex12 rel }.resolve objId .ok (some relPath)) t' := by
  intro relPath
  have hstored : (acc.md5ToRelPath.set image.md5Hex12 relPath).get? image.md5Hex12 = some relPath :=
    Dict.get?_set_self _ _ _
  refine Shelved.found ⟨fun md5 relPath' hmd5 => ?_, fun objId' r hr hok => ?_⟩ himage hstored
  · rw [Dict.get?_set] at hmd5
    split at hmd5
    · next heq =>
      cases hmd5
      subst heq
      exact ⟨hhex, Dict.mem_keys_set.2 (.inl rfl), objId, image, himage, rfl, rfl,
        (hwrite _).trans (if_pos rfl)⟩
    · next hne =>
      obtain ⟨hhex', hkey, objId', image', himage', rfl, hrel, hfile⟩ := h.stored md5 relPath' hmd5
      refine ⟨hhex', Dict.mem_keys_set.2 (.inr hkey), objId', image', himage', rfl, hrel, ?_⟩
      rw [hwrite, if_neg, hfile]
      intro heq
      have hnames := List.singleton_inj.1 (List.append_inj' heq rfl).2
      refine hne (List.append_inj hnames ?_).1
      rw [isMd5Hex12_length hhex, isMd5Hex12_length hhex']
  · obtain ⟨image', relPath', himage', hknown, hr'⟩ := h.resolved objId' r hr hok
    refine ⟨image', relPath', himage', ?_, hr'⟩
    rw [Dict.get?_set_ne _ _ fun heq => ?_, hknown]
    rw [heq, hnew] at hknown
    cases hknown

theorem imageFailed_shelved (objId : Text) {kind : ResolutionKind} (hkind : kind ≠ .ok) :
    Triple (fun c : Ctx => Shelved images docSlug dir acc c.tree) (imageFailed acc objId kind)
      (fun acc' c => Shelved images docSlug dir acc' c.tree) (fun _ _ => True) :=
  fun _ h => h.unresolved objId hkind

theorem resolveOneImage_shelved (hdry : env.dryRun = false) {image : (Text × Text) × Nat}
    (himages : ∀ raw contentType compressed, env.drive.image image.1.2 = .ok (raw, contentType) →
      env.deps.compressImage raw contentType = .ok compressed → images image.1.1 compressed) :
    Triple (fun c => Shelved images docSlug (imageDir env components docSlug) acc c.tree)
      (resolveOneImage env components docSlug acc image)
      (fun acc' c => Shelved images docSlug (imageDir env components docSlug) acc' c.tree)
      (fun _ _ => True) := by
  have hfailed := @imageFailed_shelved images docSlug (imageDir env components docSlug) acc image.1.1
  unfold resolveOneImage
  simp only [hdry, Bool.false_eq_true, if_false]
  split
  · exact hfailed (by decide)
  · exact hfailed (by decide)
  · exact Triple.throw fun _ _ => trivial
  next raw contentType hfetched =>
  unfold compressAndRegister
  split
  · exact hfailed (by decide)
  · exact hfailed (by decide)
  · exact Triple.throw fun _ _ => trivial
  next compressed hcompressed =>
  have himage := himages raw contentType compressed hfetched hcompressed
  dsimp only
  split
  · next relPath hknown => exact Triple.pure fun _ h => h.found himage hknown
  next hnew =>
  split
  · exact hfailed (by decide)
  next path hpath =>
  obtain ⟨hhex, hresolve⟩ := computeImagePath_resolve hpath
  rw [hresolve]
  refine Triple.bind ((writeImage_files _ _ fun _ _ hsame h => h.files hsame).conseq
    (fun _ h => h) (fun _ _ h => h) fun _ _ h => h.elim) fun ok => ?_
  split
  · next hok =>
    split
    · exact Triple.throw fun _ _ => trivial
    · refine Triple.bind (Triple.modify fun c hc => ?_) fun _ => Triple.pure fun _ h => h
      obtain ⟨t, ht, hwrite⟩ := hc
      simp only [hok, true_and] at hwrite
      exact ht.store himage hhex hnew hwrite
  · next hok =>
    refine Triple.conseq (@hfailed .failed (by decide)) (fun c hc => ?_) (fun _ _ h => h)
      fun _ _ h => h
    obtain ⟨t, ht, hwrite⟩ := hc
    exact ht.files fun q => (hwrite q).trans (if_neg fun h => hok h.1)

theorem processDocImages_shelved (hdry : env.dryRun = false) (components : List Text)
    (docSlug : Text) (doc : δ) :
    Triple (fun _ => True)
      (processDocImages env components docSlug (env.deps.extractInlineObjects doc))
      (fun acc c => Shelved (ImageOf env doc) docSlug (imageDir env components docSlug) acc c.tree)
      (fun _ _ => True) := by
  refine (Triple.foldlM (I := fun _ acc (c : Ctx) => Shelved (ImageOf env doc) docSlug
    (imageDir env components docSlug) acc c.tree) (fun image himage _ acc => ?_) _).conseq
    (fun c _ => ⟨by simp, by simp⟩) (fun _ _ h => h) fun _ _ h => h
  refine resolveOneImage_shelved hdry fun raw contentType compressed hfetched hcompressed => ?_
  exact ⟨image.1.2, raw, contentType, List.fst_mem_of_mem_zipIdx himage, hfetched, hcompressed⟩

/-! ## What follows the loop -/

def Keeps (q : Path) (c c' : Ctx) : Prop := c'.tree.file? q = c.tree.file? q

instance (q : Path) : Std.Refl (Keeps q) := ⟨fun _ => rfl⟩

instance (q : Path) : IsTrans Ctx (Keeps q) := ⟨fun _ _ _ h h' => h'.trans h⟩

theorem onTree_keeps {q : Path} {f : FileTree Content → Except FsError (FileTree Content)}
    (h : ∀ t t', f t = .ok t' → t'.file? q = t.file? q) : Within (Keeps q) (onTree f) := by
  intro c
  rw [exec_onTree]
  cases hf : f c.tree with
  | ok t' => exact h c.tree t' hf
  | error e => rfl

theorem bump_keeps (q : Path) (f : SummaryCounts → SummaryCounts) : Within (Keeps q) (bump f) :=
  Within.modify fun _ => rfl

theorem logDrift_keeps (q : Path) (key : SourceId) : Within (Keeps q) (logDrift key) :=
  Within.modify fun _ => rfl

section
variable {p : Path} {existing : Option StateEntry}

theorem statusAndRename_keeps (env : Env ν δ π) (hp : Placed env.loreRoot mdExt p)
    (hold : ∀ e ∈ existing, ¬ sidecarDir p <+: e.localPath) (name : Text) :
    Within (Keeps (sidecarDir p ++ [name])) (statusAndRename env p existing) := by
  refine statusAndRename_within (bump_keeps _) fun e he => ?_
  refine renameLocalFile_within (onTree_keeps fun _ _ h => FileTree.mkdirs_files h)
    (onTree_keeps fun t t' h => FileTree.rename_keeps h (fun hpre => ?_) (hp.not_prefix_sidecar _))
  have hnot := hold e he
  refine ⟨fun heq => hnot (heq ▸ List.prefix_append _ _), ?_⟩
  -- the old path leads to the directory of the new one
  rcases List.prefix_or_prefix_of_prefix hpre (List.prefix_append (sidecarDir p) [name]) with h | h
  · rcases List.prefix_concat_iff.1 h with h | h
    · exact absurd (h ▸ List.prefix_rfl) hnot
    · exact h.trans (List.dropLast_prefix p)
  · exact absurd h hnot

variable {md5 : Text}

theorem cleanupOrphans_keeps (hhex : isMd5Hex12 md5 = true) {kept : List Text}
    (hkept : md5 ∈ kept) (root dir : Path) (ext : ImageExt) :
    Within (Keeps (dir ++ [md5 ++ '.' :: ext.text])) (cleanupOrphans root dir kept) := by
  refine cleanupOrphans_within (fun child _ horphan => onTree_keeps fun t t' h => ?_)
    (onTree_keeps fun _ _ h => FileTree.rmdir_files h)
  rw [FileTree.unlink_files h, if_neg]
  rintro rfl
  rw [Path.name, List.getLast?_concat, Option.getD_some,
    Text.splitOn_append (isMd5Hex12_not_mem hhex).2, List.headD_cons] at horphan
  exact horphan hkept

theorem writeDoc_keeps (env : Env ν δ π) (hp : Placed env.loreRoot mdExt p)
    (hhex : isMd5Hex12 md5 = true) (file : DriveFile) (existing : Option StateEntry)
    {r : Text × Dict Text Text} (hkept : md5 ∈ r.2.keys) (ext : ImageExt) :
    Within (Keeps (sidecarDir p ++ [md5 ++ '.' :: ext.text])) (writeDoc env file p existing r) := by
  refine Within.bind (cleanupOrphans_keeps hhex hkept _ _ ext) fun orphans => ?_
  refine Within.bind (bump_keeps _ _) fun _ => ?_
  refine Within.bind (readExistingFrontmatter_within env p) fun yaml => ?_
  refine Within.bind (checkLocalDriftBeforeWrite_within (logDrift_keeps _ _) env p existing _)
    fun _ => ?_
  refine writeGdoc_within (onTree_keeps fun _ _ h => FileTree.mkdirs_files h)
    (fun content => onTree_keeps fun t t' h => ?_) _ _ _ _ _ _
  rw [FileTree.write_files h, if_neg]
  intro heq
  have hnot := hp.not_prefix_sidecar [md5 ++ '.' :: ext.text]
  rw [heq] at hnot
  exact hnot List.prefix_rfl

/-- A document that is counted neither as unchanged nor as an error has been written: from the
images on, its file was moved into place, the sidecar directory cleaned up and the file written. -/
theorem processGdoc_written (hdry : env.dryRun = false) {file : DriveFile} {c c' : Ctx}
    (h : exec (processGdoc env file p existing) c = (.ok (), c'))
    (hunchanged : c'.counts.unchanged = c.counts.unchanged)
    (herrors : c'.counts.errors = c.counts.errors) :
    ∃ r c₁ c₂ c₃, exec (renderGdoc env file p existing) c = (.ok r, c₁) ∧
      exec (statusAndRename env p existing) c₁ = (.ok (), c₂) ∧
      exec (writeDoc env file p existing r) c₂ = (.ok (), c₃) ∧ c'.tree = c₃.tree := by
  rw [processGdoc_eq] at h
  obtain ⟨r, c₁, hrender, hfinish⟩ := exec_bind_ok.1 h
  have htally : c₁.counts.tally = c.counts.tally := by
    have hsilent := renderGdoc_silent env file p existing c
    rw [hrender] at hsilent
    exact hsilent.tally
  rw [finishGdoc_eq] at hfinish
  split at hfinish
  · cases hfinish
    have hcount : c₁.counts.errors + 1 = c.counts.errors := herrors
    have hsame : c₁.counts.errors = c.counts.errors := congrArg Tally.errors htally
    omega
  rw [settle] at hfinish
  split at hfinish
  · cases hfinish
    have hcount : c₁.counts.unchanged + 1 = c.counts.unchanged := hunchanged
    have hsame : c₁.counts.unchanged = c.counts.unchanged := congrArg Tally.unchanged htally
    omega
  · obtain ⟨⟨⟩, c₂, hstatus, hrest⟩ := exec_bind_ok.1 hfinish
    rw [if_neg (by simp [hdry])] at hrest
    obtain ⟨⟨⟩, c₃, hwrite, hrecord⟩ := exec_bind_ok.1 hrest
    cases hrecord
    exact ⟨r, c₁, c₂, c₃, hrender, hstatus, hwrite, rfl⟩

end

theorem join_relPath (hstem : Plain p.stem) {md5 : Text} (hhex : isMd5Hex12 md5 = true)
    (ext : ImageExt) :
    p.parent.join (p.stem ++ ".images/".toList ++ md5 ++ '.' :: ext.text) =
      sidecarDir p ++ [md5 ++ '.' :: ext.text] := by
  obtain ⟨hne, hslash, hshort⟩ := sidecarName_part hstem
  obtain ⟨hslash', hshort'⟩ := imageName_part hhex ext
  have hsplit : p.stem ++ ".images/".toList ++ md5 ++ '.' :: ext.text =
      p.stem ++ ".images".toList ++ '/' :: (md5 ++ '.' :: ext.text) := by
    rw [show ".images/".toList = ".images".toList ++ ['/'] from rfl]
    simp only [List.append_assoc, List.cons_append, List.nil_append]
  rw [hsplit, Path.join_two ⟨hne, hslash, hshort _ (by decide)⟩
    ⟨hshort' _ (by decide), hslash', hshort' _ (by decide)⟩, sidecarDir, List.append_assoc]
  rfl

theorem writeDoc_file {existing : Option StateEntry} {r : Text × Dict Text Text} {c c' : Ctx}
    (h : exec (writeDoc env file p existing r) c = (.ok (), c')) : ∃ frontmatter,
    c'.tree.file? p = some (.text (fileText env.deps.codec frontmatter r.1)) := by
  simp only [writeDoc, exec_bind_ok] at h
  obtain ⟨_, _, -, _, _, -, _, _, -, _, _, -, hgdoc⟩ := h
  obtain ⟨_, -, hwritten⟩ := writeGdoc_writes hgdoc
  exact ⟨_, hwritten.1⟩

theorem processDocImages_keeps {docSlug : Text} {dir : Path}
    (hdir : imageDir env components docSlug ≠ dir) (name : Text) (uris : Dict Text Text) :
    Within (Keeps (dir ++ [name])) (processDocImages env components docSlug uris) := by
  refine processDocImages_within (bump_keeps _ _) (bump_keeps _ _) (fun md5 ext path bytes hpath => ?_)
    uris
  refine writeImage_within (onTree_keeps fun _ _ h => FileTree.mkdirs_files h)
    (fun content => onTree_keeps fun t t' h => ?_) bytes
  rw [FileTree.write_files h, if_neg]
  rw [(computeImagePath_resolve hpath).2]
  exact fun heq => hdir (List.append_inj' heq rfl).1.symm

/-! ## The references of the Markdown file -/

/-- A resolution as the renderer gets it; `sync.py` never gives one an `alt`. -/
def ImageResolution.docs (r : ImageResolution) : DocsRenderer.Resolution := ⟨r.kind, r.relPath, none⟩

def docsResolutions (resolutions : Dict Text ImageResolution) : DocsRenderer.Resolutions :=
  resolutions.map fun e => (e.1, e.2.docs)

/-- `render_doc_markdown`. -/
def docsMarkdown (doc : DocsRenderer.Document) (resolutions : Dict Text ImageResolution)
    (_ : FileId) : Text :=
  DocsRenderer.renderDocMarkdown (docsResolutions resolutions) doc

theorem imageRef_ok {resolutions : Dict Text ImageResolution} {r : ImageResolution}
    (hr : resolutions.get? objId = some r) (hok : r.kind = .ok) (hrel : r.relPath = some relPath) :
    DocsRenderer.imageRef (docsResolutions resolutions) objId =
      "![](".toList ++ relPath ++ ")".toList := by
  have hget : (docsResolutions resolutions).get? objId = some ⟨.ok, some relPath, none⟩ := by
    rw [docsResolutions, Dict.get?_map, hr, ← hok, ← hrel]
    rfl
  rw [DocsRenderer.imageRef, hget]
  rfl

end

section
variable {ν π : Type}

/-- In the tree, every image that is resolved as `ok` and has a tag in the Markdown of the document
is at the path its tag gives, relative to the Markdown file, with its bytes. -/
def Held (env : Env ν DocsRenderer.Document π) (doc : DocsRenderer.Document)
    (resolutions : Dict Text ImageResolution) (p : Path) (t : FileTree Content) : Prop :=
  ∀ objId r, .part (.image objId) ∈ DocsRenderer.pieces (docsResolutions resolutions) doc →
    resolutions.get? objId = some r → r.kind = .ok →
    ∃ relPath image, ImageOf env doc objId image ∧
      DocsRenderer.imageRef (docsResolutions resolutions) objId =
        "![](".toList ++ relPath ++ ")".toList ∧
      t.file? (p.parent.join relPath) = some (.bytes image.bytesFinal)

theorem held_congr {env : Env ν DocsRenderer.Document π} {doc : DocsRenderer.Document}
    {resolutions : Dict Text ImageResolution} {p : Path} {t t' : FileTree Content}
    (h : ∀ objId r relPath, resolutions.get? objId = some r → r.kind = .ok →
      DocsRenderer.imageRef (docsResolutions resolutions) objId =
        "![](".toList ++ relPath ++ ")".toList →
      t.file? (p.parent.join relPath) = t'.file? (p.parent.join relPath)) :
    Held env doc resolutions p t ↔ Held env doc resolutions p t' := by
  refine forall₅_congr fun objId r _ hr hok => exists₂_congr fun relPath image => ?_
  refine and_congr_right fun _ => and_congr_right fun href => ?_
  rw [h objId r relPath hr hok href]

/-- A document has been written whose images have different checksums when they have different
bytes. The images its Markdown refers to are in place exactly when its folder names lead to the
folder of their slugs, so that they have been written to the sidecar directory, or when that
directory had followed the document and they were in place already. -/
theorem ok_images_in_place_iff (env : Env ν DocsRenderer.Document π) (hdry : env.dryRun = false)
    (hrenderer : env.deps.renderDocMarkdown = docsMarkdown) {file : DriveFile}
    (hmime : file.mime = .doc) {taken : List Path} {p : Path}
    (hp : allocate env file taken = some p) {existing : Option StateEntry}
    (hold : ∀ e ∈ existing, ¬ sidecarDir p <+: e.localPath)
    (hmd5 : ∀ doc objId objId' image image', env.drive.document file.id = .ok doc →
      ImageOf env doc objId image → ImageOf env doc objId' image' →
      image.md5Hex12 = image'.md5Hex12 → image.bytesFinal = image'.bytesFinal)
    {c c' : Ctx} (h : exec (processGdoc env file p existing) c = (.ok (), c'))
    (hunchanged : c'.counts.unchanged = c.counts.unchanged)
    (herrors : c'.counts.errors = c.counts.errors) :
    (imageDir env file.components p.stem = sidecarDir p ↔ SameFolder env file) ∧
      ∃ doc resolutions frontmatter c₁, env.drive.document file.id = .ok doc ∧
        c'.tree.file? p = some (.text (fileText env.deps.codec frontmatter
          (normalizeBody env.deps.unicode (docsMarkdown doc resolutions file.id)))) ∧
        (∀ objId, .part (.image objId) ∈ DocsRenderer.pieces (docsResolutions resolutions) doc →
          DocsRenderer.nonSpace (DocsRenderer.imageRef (docsResolutions resolutions) objId) <:+:
            DocsRenderer.nonSpace (docsMarkdown doc resolutions file.id)) ∧
        exec (followSidecar env p existing) c = (.ok (), c₁) ∧
        (Held env doc resolutions p c'.tree ↔
          SameFolder env file ∨ Held env doc resolutions p c₁.tree) := by
  have hplaced := allocate_doc_placed hmime hp
  have hdir := imageDir_eq_sidecarDir_iff hmime hp
  obtain ⟨r, c₂, c₃, c₄, hrender, hstatus, hwrite, htree⟩ :=
    processGdoc_written hdry h hunchanged herrors
  obtain ⟨doc, c₁, images, hdoc, hfollow, himages, rfl⟩ := exec_renderGdoc_ok.1 hrender
  have hshelved := processDocImages_shelved hdry file.components p.stem doc c₁ trivial
  rw [himages] at hshelved
  rw [hrenderer] at hwrite
  obtain ⟨frontmatter, hfile⟩ := writeDoc_file hwrite
  -- from the end of the loop over the images on, nothing takes an image away
  have hplace : ∀ objId r, images.resolutions.get? objId = some r → r.kind = .ok →
      ∃ image image' objId', ImageOf env doc objId image ∧ ImageOf env doc objId' image' ∧
        image'.md5Hex12 = image.md5Hex12 ∧ ∃ name relPath, p.parent.join relPath = sidecarDir p ++ [name] ∧
          DocsRenderer.imageRef (docsResolutions images.resolutions) objId =
            "![](".toList ++ relPath ++ ")".toList ∧
          c'.tree.file? (sidecarDir p ++ [name]) = c₂.tree.file? (sidecarDir p ++ [name]) ∧
          c₂.tree.file? (imageDir env file.components p.stem ++ [name]) =
            some (.bytes image'.bytesFinal) := by
    intro objId r hr hok
    obtain ⟨image, relPath, himage, hknown, hrel⟩ := hshelved.resolved objId r hr hok
    obtain ⟨hhex, hkey, objId', image', himage', hsame, rfl, hstored⟩ :=
      hshelved.stored _ relPath hknown
    have hkept := (statusAndRename_keeps env hplaced hold
      (image.md5Hex12 ++ '.' :: image'.extFinal.text)).of_exec hstatus
    have hkept' := (writeDoc_keeps env hplaced hhex file existing hkey image'.extFinal).of_exec hwrite
    exact ⟨image, image', objId', himage, himage', hsame, _, _, join_relPath hplaced.stem_plain hhex _,
      imageRef_ok hr hok hrel, (congrArg (FileTree.file? · _) htree).trans (hkept'.trans hkept), hstored⟩
  refine ⟨hdir, doc, images.resolutions, frontmatter, c₁, hdoc, htree ▸ hfile,
    fun objId hpiece => DocsRenderer.shown_infix _ hpiece, hfollow, ?_⟩
  by_cases hfolder : SameFolder env file
  · refine iff_of_true (fun objId r _ hr hok => ?_) (.inl hfolder)
    obtain ⟨image, image', objId', himage, himage', hsame, name, relPath, hjoin, href, hkept, hstored⟩ :=
      hplace objId r hr hok
    refine ⟨relPath, image, himage, href, ?_⟩
    rw [hjoin, hkept, ← hdir.2 hfolder, hstored,
      hmd5 doc objId objId' image image' hdoc himage himage' hsame.symm]
  · -- the images have been written elsewhere
    rw [or_iff_right hfolder]
    refine held_congr fun objId r relPath hr hok href => ?_
    obtain ⟨-, -, -, -, -, -, name, relPath', hjoin, href', hkept, -⟩ := hplace objId r hr hok
    obtain rfl : relPath = relPath' := by simpa using href.symm.trans href'
    rw [hjoin, hkept]
    exact (processDocImages_keeps (mt hdir.1 hfolder) name _).of_exec himages

end

def pictureDeps : Deps Text DocsRenderer.Document Text :=
  { plainDeps with
    unicode := { plainUnicode with lower := List.map Char.toLower }
    extractInlineObjects := fun _ => [("i1".toList, "uri".toList)]
    renderDocMarkdown := docsMarkdown
    compressImage := imageDeps.compressImage }

def pictureDrive (files : List DriveFile) : Drive DocsRenderer.Document Text :=
  { imageDrive with
    listing := .ok files
    document := fun _ =>
      .ok ⟨[.paragraph ⟨"NORMAL_TEXT".toList, false, [.inlineObject "i1".toList]⟩], []⟩ }

def pictureFile (folder : Text) : DriveFile := ⟨loreId, .doc, "alpha".toList, [folder], none⟩

def pictureEnv (folder : Text) : Env Text DocsRenderer.Document Text :=
  ⟨pictureDeps, pictureDrive [pictureFile folder], [], false, loreRoot⟩

def picturePath (folder : Text) : Path := loreRoot ++ [folder, "alpha.md".toList]

/-- A folder whose name is its own slug: the image is where its tag says. -/
theorem ok_images_in_place_mondes :
    let env := pictureEnv "mondes".toList
    let file := pictureFile "mondes".toList
    let p := picturePath "mondes".toList
    let c' := (exec (processGdoc env file p none) (Ctx.start firstLocal.world.tree)).2
    (∃ doc resolutions, env.drive.document file.id = .ok doc ∧ SameFolder env file ∧
        Held env doc resolutions p c'.tree) ∧
      c'.tree.file? (p.parent.join "alpha.images/0123456789ab.png".toList) = some (.bytes [1]) := by
  intro env file p c'
  have hp : allocate env file [] = some p := by decide +kernel
  have hfolder : SameFolder env file := sameFolder_of_slugs (by decide) (by decide +kernel)
  have hmd5 : ∀ doc objId objId' image image', env.drive.document file.id = .ok doc →
      ImageOf env doc objId image → ImageOf env doc objId' image' →
      image.md5Hex12 = image'.md5Hex12 → image.bytesFinal = image'.bytesFinal := by
    rintro doc objId objId' image image' - ⟨_, _, _, -, ⟨⟩, ⟨⟩⟩ ⟨_, _, _, -, ⟨⟩, ⟨⟩⟩ -
    rfl
  have hrun : exec (processGdoc env file p none) (Ctx.start firstLocal.world.tree) = (.ok (), c') := by
    decide +kernel
  obtain ⟨-, doc, resolutions, _, _, hdoc, -, -, -, hiff⟩ := ok_images_in_place_iff env rfl rfl rfl hp
    (by simp) hmd5 hrun (by decide +kernel) (by decide +kernel)
  exact ⟨⟨doc, resolutions, hdoc, hfolder, hiff.2 (.inl hfolder)⟩, by decide +kernel⟩

/-- A folder whose name is not: the image is written under the name, and the Markdown file, under
the slug, refers to a file that does not exist. -/
theorem image_outside_sidecar :
    let env := pictureEnv "Mondes perdus".toList
    let run := runSync env.deps loreRoot false env.drive firstLocal.world
    let p := picturePath "mondes-perdus".toList
    let relPath := "alpha.images/0123456789ab.png".toList
    run.2 = .ok { SummaryCounts.zero with total := 1, created := 1, imagesWritten := 1 } ∧
      ((run.1.tree.file? p).any fun
        | .text t => ("![](".toList ++ relPath ++ ")".toList).isSuffixOf t
        | .bytes _ => false) = true ∧
      run.1.tree.file? (p.parent.join relPath) = none ∧
      run.1.tree.file? (loreRoot ++ ["Mondes perdus".toList, "alpha.images".toList,
        "0123456789ab.png".toList]) = some (.bytes [1]) := by
  decide +kernel

end Archiviste.Sync
