import Archiviste.Sync.Effects

/-!
# Archiviste.Sync.Tracking

Which local file belongs to which source, and which values of the user it carries. A Markdown file
belongs to the source its frontmatter names. `RunInv` is what holds at every point of a run, given
the sources still to be handled and their paths; it is kept by each thing the run can do
(`RunInv.handled`, `RunInv.archived`), so long as the paths are claimed by one source each
(`Claims`).
-/

namespace Archiviste.Sync

/-! ## Keys as texts -/

theorem not_mem_fileId (id : FileId) : '#' ∉ id.text :=
  fun h => absurd (id.alphabet '#' h) (by decide)

theorem decimal_injective : Function.Injective decimal :=
  Function.LeftInverse.injective fun _ => Nat.ofDigitChars_ten_toDigits

theorem FileId.text_injective : Function.Injective FileId.text := by
  rintro ⟨a, _⟩ ⟨b, _⟩ rfl
  rfl

theorem takeWhile_fileId (id : FileId) (rest : Text) :
    (id.text ++ '#' :: rest).takeWhile (· ≠ '#') = id.text := by
  rw [List.takeWhile_append_of_pos]
  · simp
  · exact fun c hc => by simpa using fun he : c = '#' => not_mem_fileId id (he ▸ hc)

/-- The key of a file is not that of a tab, and a key tells its id and its gid. -/
theorem SourceId.text_injective : Function.Injective SourceId.text := by
  have hne : ∀ (x y : FileId) (gid : Nat), x.text ≠ y.text ++ '#' :: decimal gid :=
    fun x y gid h => not_mem_fileId x (h ▸ by simp)
  rintro (x | ⟨x, gid⟩) (y | ⟨y, gid'⟩) h
  · rw [FileId.text_injective h]
  · exact absurd h (hne x y gid')
  · exact absurd h.symm (hne y x gid)
  · have hid := congrArg (List.takeWhile (· ≠ '#')) h
    simp only [SourceId.text, takeWhile_fileId] at hid
    obtain rfl := FileId.text_injective hid
    simp only [SourceId.text, List.append_cancel_left_eq, List.cons.injEq, true_and] at h
    rw [decimal_injective h]

/-! ## Whose file it is, and what it carries -/

section
variable {ν δ π : Type}

/-- The values a user has set for each source; `none` when the user never did. -/
abbrev UserValues (ν : Type) := SourceId → Option (Text → Option ν)

/-- The value a key of the user has for a source: what was last set, else the default. -/
def expected (codec : Codec ν) (user : UserValues ν) (source : SourceId) (k : Text) : Option ν :=
  match user source with
  | some values => values k
  | none => fmDefault codec k

def Content.mapping (deps : Deps ν δ π) (content : Content) : Option (Dict Text ν) :=
  (content.decode deps).bind (contentFrontmatter deps.codec)

def Names (deps : Deps ν δ π) (content : Content) (source : SourceId) : Prop :=
  ∃ m, content.mapping deps = some m ∧
    m.get? "source_id".toList = some (deps.codec.str source.text)

def Carries (deps : Deps ν δ π) (user : UserValues ν) (content : Content) (source : SourceId) :
    Prop :=
  ∃ m, content.mapping deps = some m ∧
    ∀ k, userKey k → m.get? k = expected deps.codec user source k

def FileOf (deps : Deps ν δ π) (root : Path) (t : FileTree Content) (q : Path)
    (source : SourceId) : Prop :=
  Placed root mdExt q ∧ ∃ content, t.file? q = some content ∧ Names deps content source

variable {deps : Deps ν δ π} {content : Content} {x : SourceId} {e : StateEntry} {p : Path}
  {k body : Text} {yaml : Option Text} {m : Dict Text ν} {ns' : Dict SourceId StateEntry}

theorem Names.unique (law : deps.codec.Lawful) {y : SourceId} (hx : Names deps content x)
    (hy : Names deps content y) : x = y := by
  obtain ⟨m, hm, hx⟩ := hx
  obtain ⟨m', hm', hy⟩ := hy
  obtain rfl := Option.some.inj (hm.symm.trans hm')
  exact SourceId.text_injective (law.str_injective (Option.some.inj (hx.symm.trans hy)))

/-- The placed Markdown files: each names a source and carries its values, a source has one file
at most, and a source the user has set values for has one. -/
structure DocsInv (deps : Deps ν δ π) (root : Path) (user : UserValues ν) (t : FileTree Content) :
    Prop where
  named : ∀ q content, Placed root mdExt q → t.file? q = some content →
    ∃ x, Names deps content x ∧ Carries deps user content x
  unique : ∀ q q' x, FileOf deps root t q x → FileOf deps root t q' x → q = q'
  kept : ∀ x, (user x).isSome → ∃ q, FileOf deps root t q x

/-- What the user has set has both keys that otherwise get a default. -/
def Filled (user : UserValues ν) : Prop :=
  ∀ x values, user x = some values →
    (values "tags".toList).isSome ∧ (values "access_tier".toList).isSome

def OwnedBy (deps : Deps ν δ π) (root : Path) (t : FileTree Content) (p : Path)
    (source : SourceId) : Prop :=
  ∀ x, FileOf deps root t p x → x = source

/-- What holds during a run, for the allocations `alloc` of the run and those still `pending`. -/
structure RunInv (env : Env ν δ π) (user : UserValues ν) (alloc pending : List (SourceId × Path))
    (t : FileTree Content) (ns : Dict SourceId StateEntry) : Prop where
  docs : DocsInv env.deps env.loreRoot user t
  old : ∀ x e, (x, e) ∈ env.state → OwnedBy env.deps env.loreRoot t e.localPath x
  new : ∀ x e, (x, e) ∈ ns → (∃ e₀, (x, e₀) ∈ env.state ∧ e₀.localPath = e.localPath) ∨
    (x, e.localPath) ∈ alloc ∧ OwnedBy env.deps env.loreRoot t e.localPath x
  free : ∀ x p, (x, p) ∈ pending → OwnedBy env.deps env.loreRoot t p x
  found : ∀ x p, (x, p) ∈ pending → ∀ q, FileOf env.deps env.loreRoot t q x →
    q = p ∨ ∃ e, env.state.get? x = some e ∧ e.localPath = q

/-- One path for each source of the run and one source for each path, among those allocated and
those the state records. -/
structure Claims (env : Env ν δ π) (alloc : List (SourceId × Path)) : Prop where
  onePath : ∀ x p p', (x, p) ∈ alloc → (x, p') ∈ alloc → p = p'
  oneSource : ∀ x y p, (x, p) ∈ alloc → (y, p) ∈ alloc → x = y
  unclaimed : ∀ x y p e, (x, p) ∈ alloc → (y, e) ∈ env.state → e.localPath = p → y = x

variable {env : Env ν δ π} {user : UserValues ν} {alloc pending rest : List (SourceId × Path)}
  {t t' : FileTree Content} {ns : Dict SourceId StateEntry}

theorem FileOf.sameDocs {root q : Path} (h : SameDocs root t t') :
    FileOf deps root t' q x ↔ FileOf deps root t q x := by
  constructor
  · rintro ⟨hq, content, hfile, hnames⟩
    exact ⟨hq, content, (h q hq).symm.trans hfile, hnames⟩
  · rintro ⟨hq, content, hfile, hnames⟩
    exact ⟨hq, content, (h q hq).trans hfile, hnames⟩

theorem RunInv.sameDocs (hinv : RunInv env user alloc pending t ns)
    (h : SameDocs env.loreRoot t t') : RunInv env user alloc pending t' ns where
  docs :=
    { named := fun q content hq hfile => hinv.docs.named q content hq ((h q hq).symm.trans hfile)
      unique := fun q q' x hx hx' =>
        hinv.docs.unique q q' x ((FileOf.sameDocs h).1 hx) ((FileOf.sameDocs h).1 hx')
      kept := fun x hx => (hinv.docs.kept x hx).imp fun _ => (FileOf.sameDocs h).2 }
  old := fun x e he y hy => hinv.old x e he y ((FileOf.sameDocs h).1 hy)
  new := fun x e he => (hinv.new x e he).imp_right fun ⟨ha, ho⟩ =>
    ⟨ha, fun y hy => ho y ((FileOf.sameDocs h).1 hy)⟩
  free := fun x p hp y hy => hinv.free x p hp y ((FileOf.sameDocs h).1 hy)
  found := fun x p hp q hq => hinv.found x p hp q ((FileOf.sameDocs h).1 hq)

theorem RunInv.tail {a : SourceId × Path} (hinv : RunInv env user alloc (a :: rest) t ns) :
    RunInv env user alloc rest t ns where
  docs := hinv.docs
  old := hinv.old
  new := hinv.new
  free := fun x p hp => hinv.free x p (List.mem_cons_of_mem a hp)
  found := fun x p hp => hinv.found x p (List.mem_cons_of_mem a hp)

theorem RunInv.record (hinv : RunInv env user alloc pending t ns)
    (he : (∃ e₀, (x, e₀) ∈ env.state ∧ e₀.localPath = e.localPath) ∨
      (x, e.localPath) ∈ alloc ∧ OwnedBy env.deps env.loreRoot t e.localPath x) :
    RunInv env user alloc pending t (ns.set x e) where
  docs := hinv.docs
  old := hinv.old
  new := by
    intro y e' hmem
    rcases Dict.mem_set hmem with heq | hmem
    · cases heq; exact he
    · exact hinv.new y e' hmem
  free := hinv.free
  found := hinv.found

/-- The file at `p` becomes the one file of `x`. Nobody else may have a claim on `p`, unless the
file of `x` was there already. -/
theorem RunInv.place (hinv : RunInv env user alloc pending t ns) (hsub : ∀ a ∈ pending, a ∈ alloc)
    (hfile : FileOf env.deps env.loreRoot t' p x)
    (hback : ∀ q y, FileOf env.deps env.loreRoot t' q y →
      (q = p ∧ y = x) ∨ FileOf env.deps env.loreRoot t q y)
    (hkeep : ∀ q y, y ≠ x → FileOf env.deps env.loreRoot t q y →
      FileOf env.deps env.loreRoot t' q y)
    (hone : ∀ q, FileOf env.deps env.loreRoot t' q x → q = p)
    (hnamed : ∀ q content, Placed env.loreRoot mdExt q → t'.file? q = some content →
      ∃ y, Names env.deps content y ∧ Carries env.deps user content y)
    (hclaim : FileOf env.deps env.loreRoot t p x ∨
      (∀ y e, (y, e) ∈ env.state → e.localPath = p → y = x) ∧ (∀ y, (y, p) ∈ alloc → y = x) ∧
        ∀ p', (x, p') ∈ pending → p' = p) : RunInv env user alloc pending t' ns where
  docs :=
    { named := hnamed
      unique := by
        intro q q' y hy hy'
        by_cases hyx : y = x
        · subst hyx
          rw [hone q hy, hone q' hy']
        · exact hinv.docs.unique q q' y ((hback q y hy).resolve_left fun h => hyx h.2)
            ((hback q' y hy').resolve_left fun h => hyx h.2)
      kept := by
        intro y hy
        by_cases hyx : y = x
        · exact ⟨p, hyx ▸ hfile⟩
        · obtain ⟨q, hq⟩ := hinv.docs.kept y hy
          exact ⟨q, hkeep q y hyx hq⟩ }
  old := by
    intro y e he z hz
    rcases hback _ z hz with ⟨hp, rfl⟩ | hz
    · rcases hclaim with hx | hx
      · exact hinv.old y e he z (hp ▸ hx)
      · exact (hx.1 y e he hp).symm
    · exact hinv.old y e he z hz
  new := by
    intro y e he
    refine (hinv.new y e he).imp_right fun ⟨ha, ho⟩ => ⟨ha, fun z hz => ?_⟩
    rcases hback _ z hz with ⟨hp, rfl⟩ | hz
    · rcases hclaim with hx | hx
      · exact ho z (hp ▸ hx)
      · exact (hx.2.1 y (hp ▸ ha)).symm
    · exact ho z hz
  free := by
    intro y p' hp' z hz
    rcases hback _ z hz with ⟨hp, rfl⟩ | hz
    · rcases hclaim with hx | hx
      · exact hinv.free y p' hp' z (hp ▸ hx)
      · exact (hx.2.1 y (hp ▸ hsub _ hp')).symm
    · exact hinv.free y p' hp' z hz
  found := by
    intro y p' hp' q hq
    rcases hback _ y hq with ⟨rfl, rfl⟩ | hq
    · rcases hclaim with hx | hx
      · exact hinv.found y p' hp' q hx
      · exact .inl (hx.2.2 p' hp').symm
    · exact hinv.found y p' hp' q hq

/-! ## Moving the file of a source -/

theorem Claims.of_pending (hclaims : Claims env alloc) (hsub : ∀ a ∈ pending, a ∈ alloc)
    (hx : (x, p) ∈ pending) :
    (∀ y e, (y, e) ∈ env.state → e.localPath = p → y = x) ∧ (∀ y, (y, p) ∈ alloc → y = x) ∧
      ∀ p', (x, p') ∈ pending → p' = p :=
  ⟨fun y e he hp => hclaims.unclaimed x y p e (hsub _ hx) he hp,
    fun y hy => hclaims.oneSource y x p hy (hsub _ hx),
    fun p' hp' => hclaims.onePath x p' p (hsub _ hp') (hsub _ hx)⟩

theorem RunInv.move (law : env.deps.codec.Lawful) (hclaims : Claims env alloc)
    (hsub : ∀ a ∈ pending, a ∈ alloc) (hx : (x, p) ∈ pending)
    (hinv : RunInv env user alloc pending t ns) (hp : Placed env.loreRoot mdExt p)
    (he : env.state.get? x = some e) (hold : Placed env.loreRoot mdExt e.localPath)
    (hnone : t.file? p = none) (hmove : ∀ q, Placed env.loreRoot mdExt q → t'.file? q =
      if q = p then t.file? e.localPath else if q = e.localPath then none else t.file? q) :
    RunInv env user alloc pending t' ns ∧ ∀ q, FileOf env.deps env.loreRoot t' q x → q = p := by
  have hat : ∀ q, FileOf env.deps env.loreRoot t q x → q = p ∨ q = e.localPath := by
    intro q hq
    refine (hinv.found x p hx q hq).imp_right ?_
    rintro ⟨e', he', rfl⟩
    rw [Option.some.inj (he'.symm.trans he)]
  have hback : ∀ q y, FileOf env.deps env.loreRoot t' q y → q ≠ p →
      q ≠ e.localPath ∧ FileOf env.deps env.loreRoot t q y := by
    rintro q y ⟨hq, content, hfile, hnames⟩ hqp
    rw [hmove q hq, if_neg hqp] at hfile
    split at hfile
    · cases hfile
    · exact ⟨‹_›, hq, content, hfile, hnames⟩
  have hone : ∀ q, FileOf env.deps env.loreRoot t' q x → q = p := by
    intro q hq
    by_contra hqp
    obtain ⟨hqe, hq⟩ := hback q x hq hqp
    exact (hat q hq).elim hqp hqe
  refine ⟨?_, hone⟩
  cases hcontent : t.file? e.localPath with
  | none =>
    -- the state names a path without a file, so nothing was moved
    refine hinv.sameDocs fun q hq => ?_
    rw [hmove q hq]
    split
    · subst q; rw [hcontent, hnone]
    · split
      · subst q; exact hcontent.symm
      · rfl
  | some content =>
    obtain ⟨y, hnames, hcarries⟩ := hinv.docs.named _ content hold hcontent
    obtain rfl : y = x :=
      hinv.old x e (Dict.mem_of_get? he) y ⟨hold, content, hcontent, hnames⟩
    have hnew : t'.file? p = some content := by rw [hmove p hp, if_pos rfl, hcontent]
    refine hinv.place hsub ⟨hp, content, hnew, hnames⟩ (fun q z hz => ?_) (fun q z hzx hz => ?_) hone
      (fun q c hq hfile => ?_) (.inr (hclaims.of_pending hsub hx))
    · by_cases hqp : q = p
      · subst hqp
        obtain ⟨_, c, hfile, hz⟩ := hz
        obtain rfl := Option.some.inj (hfile.symm.trans hnew)
        exact .inl ⟨rfl, hz.unique law hnames⟩
      · exact .inr (hback q z hz hqp).2
    · obtain ⟨hq, c, hfile, hz⟩ := hz
      have hqp : q ≠ p := by rintro rfl; simp [hnone] at hfile
      have hqe : q ≠ e.localPath := by
        rintro rfl
        obtain rfl := Option.some.inj (hfile.symm.trans hcontent)
        exact hzx (hz.unique law hnames)
      exact ⟨hq, c, by rw [hmove q hq, if_neg hqp, if_neg hqe, hfile], hz⟩
    · by_cases hqp : q = p
      · subst hqp
        obtain rfl := Option.some.inj (hfile.symm.trans hnew)
        exact ⟨y, hnames, hcarries⟩
      · rw [hmove q hq, if_neg hqp] at hfile
        split at hfile
        · cases hfile
        · exact hinv.docs.named q c hq hfile

theorem RunInv.position (law : env.deps.codec.Lawful) (hclaims : Claims env alloc)
    (hsub : ∀ a ∈ (x, p) :: rest, a ∈ alloc) (hinv : RunInv env user alloc ((x, p) :: rest) t ns)
    (hp : Placed env.loreRoot mdExt p) (hpos : Positioned env.loreRoot p (env.state.get? x) t t') :
    RunInv env user alloc ((x, p) :: rest) t' ns ∧
      ∀ q, FileOf env.deps env.loreRoot t' q x → q = p := by
  have hfound := hinv.found x p List.mem_cons_self
  generalize hexisting : env.state.get? x = existing at hpos
  cases hpos with
  | fresh hsame =>
    refine ⟨hinv.sameDocs hsame, fun q hq => ?_⟩
    refine (hfound q ((FileOf.sameDocs hsame).1 hq)).resolve_right ?_
    rintro ⟨e, he, _⟩
    exact absurd (hexisting.symm.trans he) (by simp)
  | @inPlace e _ _ hpath hsame =>
    refine ⟨hinv.sameDocs hsame, fun q hq => ?_⟩
    rcases hfound q ((FileOf.sameDocs hsame).1 hq) with h | ⟨e', he', rfl⟩
    · exact h
    · obtain rfl := Option.some.inj (hexisting.symm.trans he')
      exact hpath
  | moved _ hold hnone hmove =>
    exact hinv.move law hclaims hsub List.mem_cons_self hp hexisting hold hnone hmove

/-! ## Writing the file of a source -/

theorem RunInv.rewrite (law : env.deps.codec.Lawful) (hsub : ∀ a ∈ pending, a ∈ alloc)
    (hinv : RunInv env user alloc pending t ns) (hp : Placed env.loreRoot mdExt p)
    (hnames : Names env.deps content x) (hcarries : Carries env.deps user content x)
    (howned : OwnedBy env.deps env.loreRoot t p x)
    (hone : ∀ q, FileOf env.deps env.loreRoot t q x → q = p)
    (hwrite : ∀ q, Placed env.loreRoot mdExt q →
      t'.file? q = if q = p then some content else t.file? q)
    (hclaim : FileOf env.deps env.loreRoot t p x ∨
      (∀ y e, (y, e) ∈ env.state → e.localPath = p → y = x) ∧ (∀ y, (y, p) ∈ alloc → y = x) ∧
        ∀ p', (x, p') ∈ pending → p' = p) : RunInv env user alloc pending t' ns := by
  have hnew : t'.file? p = some content := by rw [hwrite p hp, if_pos rfl]
  have hback : ∀ q y, FileOf env.deps env.loreRoot t' q y →
      (q = p ∧ y = x) ∨ q ≠ p ∧ FileOf env.deps env.loreRoot t q y := by
    rintro q y ⟨hq, c, hfile, hy⟩
    by_cases hqp : q = p
    · subst hqp
      obtain rfl := Option.some.inj (hfile.symm.trans hnew)
      exact .inl ⟨rfl, hy.unique law hnames⟩
    · rw [hwrite q hq, if_neg hqp] at hfile
      exact .inr ⟨hqp, hq, c, hfile, hy⟩
  refine hinv.place hsub ⟨hp, content, hnew, hnames⟩ (fun q y hy => (hback q y hy).imp_right And.right)
    (fun q y hyx hy => ?_) (fun q hq => ?_) (fun q c hq hfile => ?_) hclaim
  · have hqp : q ≠ p := by rintro rfl; exact hyx (howned y hy)
    obtain ⟨hq, c, hfile, hy⟩ := hy
    exact ⟨hq, c, by rw [hwrite q hq, if_neg hqp, hfile], hy⟩
  · exact (hback q x hq).elim And.left fun h => hone q h.2
  · by_cases hqp : q = p
    · subst hqp
      obtain rfl := Option.some.inj (hfile.symm.trans hnew)
      exact ⟨x, hnames, hcarries⟩
    · rw [hwrite q hq, if_neg hqp] at hfile
      exact hinv.docs.named q c hq hfile

theorem fmDefault_eq_none (codec : Codec ν) (hk : userKey k) (ht : k ≠ "tags".toList)
    (ha : k ≠ "access_tier".toList) : fmDefault codec k = none := by
  have harchived : k ≠ "archived".toList := hk.ne (by decide)
  have harchivedAt : k ≠ "archived_at".toList := hk.ne (by decide)
  rw [fmDefault, if_neg ht, if_neg ha, if_neg harchived, if_neg harchivedAt]

theorem expected_orElse_default {codec : Codec ν} (hfilled : Filled user) (x : SourceId)
    (hk : userKey k) :
    (expected codec user x k <|> fmDefault codec k) = expected codec user x k := by
  unfold expected
  split
  · rename_i values hvalues
    obtain ⟨htags, htier⟩ := hfilled x values hvalues
    cases hv : values k with
    | some v => rfl
    | none =>
      refine fmDefault_eq_none codec hk ?_ ?_ <;> rintro rfl
      · rw [hv] at htags; cases htags
      · rw [hv] at htier; cases htier
  · cases fmDefault codec k <;> rfl

theorem existingMapping_of_file (hat : FrontmatterAt deps t p yaml)
    (hfile : t.file? p = some content) (hm : content.mapping deps = some m) :
    existingMapping deps.codec yaml = some m := by
  rcases hat with ⟨hnone, _⟩ | ⟨c, text, hc, htext, rfl⟩
  · exact absurd (hnone.symm.trans hfile) (by simp)
  · obtain rfl := Option.some.inj (hc.symm.trans hfile)
    rw [Content.mapping, htext, Option.bind_some] at hm
    obtain ⟨yaml, body, hsplit, hne, hload⟩ := contentFrontmatter_eq_some hm
    rw [hsplit, Option.map_some]
    cases yaml with
    | nil => exact absurd rfl hne
    | cons => simp only [existingMapping, hload]

theorem mapping_fileText (law : deps.codec.Lawful) (fm : Dict Text ν) (hbody : '\r' ∉ body) :
    ∃ m, (Content.text (fileText deps.codec fm body)).mapping deps = some m ∧
      ∀ k, m.get? k = fm.get? k :=
  contentFrontmatter_fileText law fm hbody

/-- The written file names its source and carries its values: those of the file that was there, or
the defaults, since the user has set nothing for a source without a file. -/
theorem merged_carries (law : env.deps.codec.Lawful) (hfilled : Filled user)
    (hdocs : DocsInv env.deps env.loreRoot user t) (hp : Placed env.loreRoot mdExt p)
    (howned : OwnedBy env.deps env.loreRoot t p x)
    (hone : ∀ q, FileOf env.deps env.loreRoot t q x → q = p)
    (hat : FrontmatterAt env.deps t p yaml) (hm : existingMapping env.deps.codec yaml = some m)
    (hbody : '\r' ∉ body) (title drivePath now : Text) :
    let content := Content.text (fileText env.deps.codec (orderedFrontmatter env.deps.codec m
      (scriptManaged env.deps.codec title x.text drivePath now)) body)
    Names env.deps content x ∧ Carries env.deps user content x := by
  obtain ⟨m', hmapping, hget⟩ := mapping_fileText law (orderedFrontmatter env.deps.codec m
    (scriptManaged env.deps.codec title x.text drivePath now)) hbody
  refine ⟨⟨m', hmapping, ?_⟩, m', hmapping, fun k hk => ?_⟩
  · rw [hget]
    exact get?_orderedFrontmatter_script m (by simp [scriptManaged, Dict.get?_cons]) (by decide)
  rw [hget, get?_orderedFrontmatter m title x.text drivePath now hk, withDefaults]
  cases hfile : t.file? p with
  | some content =>
    obtain ⟨y, hnames, m₀, hm₀, hvalues⟩ := hdocs.named p content hp hfile
    obtain rfl := howned y ⟨hp, content, hfile, hnames⟩
    obtain rfl := Option.some.inj (hm.symm.trans (existingMapping_of_file hat hfile hm₀))
    rw [hvalues k hk, expected_orElse_default hfilled y hk]
  | none =>
    have huser : user x = none := by
      refine Option.not_isSome_iff_eq_none.1 fun hset => ?_
      obtain ⟨q, hq⟩ := hdocs.kept x hset
      obtain rfl := hone q hq
      obtain ⟨_, content, hcontent, _⟩ := hq
      exact absurd (hfile.symm.trans hcontent) (by simp)
    rcases hat with ⟨_, rfl⟩ | ⟨content, _, hcontent, _⟩
    · cases hm
      simp [expected, huser]
    · exact absurd (hfile.symm.trans hcontent) (by simp)

/-- Handling a pending source keeps the invariant for the rest. -/
theorem RunInv.handled (law : env.deps.codec.Lawful) (hfilled : Filled user)
    (hclaims : Claims env alloc) (hsub : ∀ a ∈ (x, p) :: rest, a ∈ alloc)
    (hinv : RunInv env user alloc ((x, p) :: rest) t ns)
    (h : Handled env x p (env.state.get? x) t ns t' ns') : RunInv env user alloc rest t' ns' := by
  have hmem : (x, p) ∈ (x, p) :: rest := List.mem_cons_self
  cases h with
  | untouched hsame hns => exact hns ▸ (hinv.sameDocs hsame).tail
  | moved hp hpos hns => exact hns ▸ (hinv.position law hclaims hsub hp hpos).1.tail
  | recorded e hsame hns hentry =>
    subst hns
    refine ((hinv.sameDocs hsame).record ?_).tail
    rcases hentry with he | ⟨hpng, hpath⟩
    · exact .inl ⟨e, Dict.mem_of_get? he, rfl⟩
    · refine .inr ⟨hpath ▸ hsub _ hmem, fun y hy => ?_⟩
      exact absurd List.prefix_rfl (hpng.png_not_prefix (hpath ▸ hy.1))
  | written title drivePath now hp hpos hat hm hbody hwrite hpath hns =>
    subst hns
    obtain ⟨hinv₁, hone⟩ := hinv.position law hclaims hsub hp hpos
    have howned := hinv₁.free x p hmem
    obtain ⟨hnames, hcarries⟩ := merged_carries law hfilled hinv₁.docs hp howned hone hat hm hbody
      title drivePath now
    have hinv₂ := hinv₁.rewrite law hsub hp hnames hcarries howned hone hwrite
      (.inr (hclaims.of_pending hsub hmem))
    exact (hinv₂.record (.inr ⟨hpath ▸ hsub _ hmem, hpath ▸ hinv₂.free x p hmem⟩)).tail

/-! ## Archiving -/

theorem not_mem_decode {text : Text} (h : content.decode deps = some text) : '\r' ∉ text := by
  cases content with
  | text t => cases h; exact not_mem_universalNewlines t
  | bytes b =>
    obtain ⟨t, _, rfl⟩ := Option.map_eq_some_iff.1 h
    exact not_mem_universalNewlines t

theorem RunInv.mark (law : env.deps.codec.Lawful) (hsub : ∀ a ∈ pending, a ∈ alloc)
    (hinv : RunInv env user alloc pending t ns) (he : (x, e) ∈ env.state)
    (hp : Placed env.loreRoot mdExt e.localPath) (h : Marked env e.localPath t t') :
    RunInv env user alloc pending t' ns := by
  obtain ⟨content, text, yaml, body, m, archivedAt, hfile, htext, hsplit, hload, hwrite⟩ := h
  obtain ⟨y, ⟨m₀, hm₀, hid⟩, m₁, hm₁, hvalues⟩ := hinv.docs.named _ content hp hfile
  obtain rfl := Option.some.inj (hm₀.symm.trans hm₁)
  have howned := hinv.old x e he
  have hfileOf : FileOf env.deps env.loreRoot t e.localPath y := ⟨hp, content, hfile, m₀, hm₀, hid⟩
  obtain rfl := howned y hfileOf
  obtain rfl : m = m₀ := by
    rw [Content.mapping, htext, Option.bind_some] at hm₀
    obtain ⟨yaml', body', hsplit', _, hload'⟩ := contentFrontmatter_eq_some hm₀
    obtain ⟨rfl, rfl⟩ := Prod.mk.inj (Option.some.inj (hsplit.symm.trans hsplit'))
    exact hload m₀ hload'
  have hbody : '\r' ∉ body := fun hc => not_mem_decode htext (mem_of_splitContent hsplit hc)
  obtain ⟨m', hmapping, hget⟩ := mapping_fileText law (markArchived env.deps.codec m archivedAt) hbody
  refine hinv.rewrite law hsub hp ⟨m', hmapping, ?_⟩ ⟨m', hmapping, fun k hk => ?_⟩ howned
    (fun q hq => hinv.docs.unique q _ y hq hfileOf) hwrite (.inl hfileOf)
  · rw [hget, get?_markArchived m archivedAt (by decide) (by decide), hid]
  · rw [hget, get?_markArchived m archivedAt (hk.ne (by decide)) (hk.ne (by decide)),
      hvalues k hk]

theorem RunInv.archived (law : env.deps.codec.Lawful) (hsub : ∀ a ∈ pending, a ∈ alloc)
    (hinv : RunInv env user alloc pending t ns) (he : (x, e) ∈ env.state)
    (hp : Placed env.loreRoot mdExt e.localPath ∨ Placed env.loreRoot pngExt e.localPath)
    (h : Archives env x e t ns t' ns') : RunInv env user alloc pending t' ns' := by
  cases h with
  | untouched hsame hns => exact hns ▸ hinv.sameDocs hsame
  | marked e' hdocs hpath hns =>
    subst hns
    refine RunInv.record ?_ (.inl ⟨e, he, hpath.symm⟩)
    rcases hdocs with hsame | hmarked
    · exact hinv.sameDocs hsame
    rcases hp with hmd | hpng
    · exact hinv.mark law hsub he hmd hmarked
    · obtain ⟨_, _, _, _, _, _, _, _, _, _, hwrite⟩ := hmarked
      refine hinv.sameDocs fun q hq => ?_
      rw [hwrite q hq, if_neg]
      exact fun hqe => hpng.png_not_prefix hq (hqe ▸ List.prefix_rfl)

end
end Archiviste.Sync
