import Archiviste.Base.Dict
import Archiviste.Base.Text
import Mathlib.Data.List.Infix

/-!
# Archiviste.Sync.Frontmatter

The frontmatter the exporter writes: which keys it owns, how it merges them with the mapping a
local file already has, and how it cuts a file into frontmatter and body. `yaml.safe_load` and
`yaml.safe_dump` are parameters (`Codec`) over any type of values.

* `userKey`                      — the keys the exporter leaves to the user.
* `get?_orderedFrontmatter` — on those keys the merge keeps what is there and only fills in
  the two defaults.
* `splitContent_fileText`        — a written file is cut where it was put together.
-/

namespace Archiviste.Sync

/-- What `yaml.safe_load` returns: a mapping, another value that is false, or another value. -/
inductive Loaded (ν : Type) where
  | mapping (m : Dict Text ν)
  | falsy
  | other

structure Codec (ν : Type) where
  str : Text → ν
  bool : Bool → ν
  null : ν
  emptyList : ν
  isNull : ν → Bool
  /-- `none` is a `YAMLError`. -/
  safeLoad : Text → Option (Loaded ν)
  safeDump : Dict Text ν → Text

/-! ## Keys -/

def scriptManagedKeys : List Text :=
  ["title", "source", "source_id", "drive_path", "exported_at", "archived", "archived_at"].map
    String.toList

def fmKeyOrder : List Text := scriptManagedKeys ++ ["tags".toList, "access_tier".toList]

def userKey (k : Text) : Prop := k ∉ scriptManagedKeys

theorem userKey.ne {k k' : Text} (hk : userKey k) (h : k' ∈ scriptManagedKeys) : k ≠ k' :=
  fun he => hk (he ▸ h)

/-! ## Merging -/

section
variable {ν : Type} (codec : Codec ν)

/-- `script_managed` of `_write_gdoc`. -/
def scriptManaged (title sourceId drivePath exportedAt : Text) : Dict Text ν :=
  [("title".toList, codec.str title), ("source".toList, codec.str "gdrive".toList),
   ("source_id".toList, codec.str sourceId), ("drive_path".toList, codec.str drivePath),
   ("exported_at".toList, codec.str exportedAt), ("archived".toList, codec.bool false),
   ("archived_at".toList, codec.null)]

/-- The mapping in a frontmatter text: empty when the text holds no mapping, `none` on a
`YAMLError`. -/
def existingMapping : Option Text → Option (Dict Text ν)
  | none => some []
  | some [] => some []
  | some yaml =>
    match codec.safeLoad yaml with
    | none => none
    | some (.mapping m) => some m
    | some _ => some []

/-- The defaults of the keys in `_FM_KEY_ORDER` that may be absent. -/
def fmDefault (key : Text) : Option ν :=
  if key = "tags".toList then some codec.emptyList
  else if key = "access_tier".toList then some (codec.str "public".toList)
  else if key = "archived".toList then some (codec.bool false)
  else if key = "archived_at".toList then some codec.null
  else none

def orderKey (existing script ordered : Dict Text ν) (key : Text) : Dict Text ν :=
  match (script.get? key <|> existing.get? key) <|> fmDefault codec key with
  | some v => ordered.set key v
  | none => ordered

/-- A key of the existing mapping that the strict order does not have. -/
def keepCustom (script ordered : Dict Text ν) (e : Text × ν) : Dict Text ν :=
  if e.1 ∉ ordered.keys ∧ e.1 ∉ script.keys then ordered.set e.1 e.2 else ordered

def orderedFrontmatter (existing script : Dict Text ν) : Dict Text ν :=
  let ordered := fmKeyOrder.foldl (orderKey codec existing script) []
  let ordered := existing.foldl (keepCustom script) ordered
  if (ordered.get? "archived_at".toList).all codec.isNull then ordered.erase "archived_at".toList
  else ordered

/-- `_build_ordered_frontmatter`; `none` on a `YAMLError`. -/
def buildOrderedFrontmatter (existingYaml : Option Text) (script : Dict Text ν) :
    Option (Dict Text ν) :=
  (existingMapping codec existingYaml).map fun existing => orderedFrontmatter codec existing script

def fileText (fm : Dict Text ν) (body : Text) : Text :=
  "---\n".toList ++ codec.safeDump fm ++ "---\n".toList ++ body

/-! ## Cutting -/

/-- The line ends `read_text` sees. -/
def universalNewlines : Text → Text
  | [] => []
  | '\r' :: '\n' :: cs => '\n' :: universalNewlines cs
  | '\r' :: cs => '\n' :: universalNewlines cs
  | c :: cs => c :: universalNewlines cs

/-- What follows `---\n` at the head of a file. -/
def afterOpening (content : Text) : Option Text := Text.dropPrefix? "---\n".toList content

/-- `content.index("\n---\n", 4)`, as the two pieces around the closing line. -/
def cutClosing (rest : Text) : Option (Text × Text) := Text.cutAt "\n---\n".toList rest

def splitContent (content : Text) : Option (Text × Text) := (afterOpening content).bind cutClosing

/-- The body the drift check hashes: the whole file when it has no complete frontmatter. -/
def bodyPart (content : Text) : Text := ((splitContent content).map (·.2)).getD content

def contentFrontmatter (content : Text) : Option (Dict Text ν) :=
  (splitContent content).bind fun r =>
    if r.1 = [] then none
    else
      match codec.safeLoad r.1 with
      | some (.mapping m) => some m
      | _ => none

end

/-! ## What the merge keeps -/

section
variable {ν : Type} {codec : Codec ν}

def withDefaults (codec : Codec ν) (existing : Dict Text ν) (k : Text) : Option ν :=
  existing.get? k <|> fmDefault codec k

variable {k : Text} {v : ν}

theorem get?_keepCustom (script : Dict Text ν) (hk : k ∉ script.keys) (existing : Dict Text ν) :
    ∀ ordered : Dict Text ν,
      (existing.foldl (keepCustom script) ordered).get? k = (ordered.get? k <|> existing.get? k) := by
  induction existing with
  | nil => intro ordered; simp
  | cons e existing ih =>
    intro ordered
    rw [List.foldl_cons, ih, Dict.get?_cons]
    unfold keepCustom
    split
    · rename_i hnew
      rw [Dict.get?_set]
      by_cases he : e.1 = k
      · subst he
        simp [Dict.get?_eq_none hnew.1]
      · simp [he, Ne.symm he]
    · rename_i hnew
      by_cases he : e.1 = k
      · subst he
        obtain ⟨v, hv⟩ := Dict.get?_of_mem_keys (by simpa [hk] using hnew)
        simp [hv]
      · simp [he]

theorem get?_keepCustom_of_some (script : Dict Text ν) (existing : Dict Text ν) :
    ∀ ordered : Dict Text ν, ordered.get? k = some v →
      (existing.foldl (keepCustom script) ordered).get? k = some v := by
  induction existing with
  | nil => intro ordered h; exact h
  | cons e existing ih =>
    intro ordered h
    refine ih _ ?_
    unfold keepCustom
    split
    · rename_i hnew
      rw [Dict.get?_set_ne _ _ fun he => ?_]
      · exact h
      · exact hnew.1 (he ▸ Dict.mem_keys_of_get? h)
    · exact h

theorem foldl_scriptManagedKeys (existing : Dict Text ν) (title sourceId drivePath now : Text) :
    scriptManagedKeys.foldl
        (orderKey codec existing (scriptManaged codec title sourceId drivePath now)) [] =
      scriptManaged codec title sourceId drivePath now := rfl

theorem orderKey_default (existing : Dict Text ν) {script ordered : Dict Text ν} {key : Text}
    (hscript : key ∉ script.keys) (hordered : key ∉ ordered.keys)
    (hdefault : fmDefault codec key = some v) :
    orderKey codec existing script ordered key =
      ordered ++ [(key, (existing.get? key).getD v)] := by
  unfold orderKey
  rw [Dict.get?_eq_none hscript, hdefault]
  cases existing.get? key with
  | none => exact Dict.set_of_not_mem _ hordered
  | some w => exact Dict.set_of_not_mem _ hordered

/-- The strict order: the seven keys of the exporter, then the two defaults or what is there. -/
theorem foldl_orderKey (existing : Dict Text ν) (title sourceId drivePath now : Text) :
    fmKeyOrder.foldl
        (orderKey codec existing (scriptManaged codec title sourceId drivePath now)) [] =
      scriptManaged codec title sourceId drivePath now ++
        [("tags".toList, (existing.get? "tags".toList).getD codec.emptyList),
         ("access_tier".toList,
          (existing.get? "access_tier".toList).getD (codec.str "public".toList))] := by
  have hkeys : (scriptManaged codec title sourceId drivePath now).keys = scriptManagedKeys := rfl
  unfold fmKeyOrder
  rw [List.foldl_append, foldl_scriptManagedKeys, List.foldl_cons, List.foldl_cons, List.foldl_nil]
  generalize scriptManaged codec title sourceId drivePath now = script at hkeys ⊢
  have htags : "tags".toList ∉ script.keys := by rw [hkeys]; decide
  have htier : "access_tier".toList ∉ script.keys := by rw [hkeys]; decide
  rw [orderKey_default existing htags htags rfl, orderKey_default existing htier ?_ rfl,
    List.append_assoc]
  · rfl
  · unfold Dict.keys at htier ⊢
    rw [List.map_append, List.mem_append, not_or]
    exact ⟨htier, (by decide : "access_tier".toList ∉ ["tags".toList])⟩

theorem get?_orderedFrontmatter_ne (existing script : Dict Text ν) (hk : k ≠ "archived_at".toList) :
    (orderedFrontmatter codec existing script).get? k =
      (existing.foldl (keepCustom script)
        (fmKeyOrder.foldl (orderKey codec existing script) [])).get? k := by
  unfold orderedFrontmatter
  dsimp only
  split
  · rw [Dict.get?_erase, if_neg hk]
  · rfl

/-- On the user's keys the merge keeps what is there and fills in the defaults. -/
theorem get?_orderedFrontmatter (existing : Dict Text ν) (title sourceId drivePath now : Text)
    (hk : userKey k) :
    (orderedFrontmatter codec existing (scriptManaged codec title sourceId drivePath now)).get? k =
      withDefaults codec existing k := by
  have hkeys : k ∉ (scriptManaged codec title sourceId drivePath now).keys := hk
  have harchived : k ≠ "archived".toList := hk.ne (by decide)
  have harchivedAt : k ≠ "archived_at".toList := hk.ne (by decide)
  rw [get?_orderedFrontmatter_ne _ _ harchivedAt, get?_keepCustom _ hkeys, foldl_orderKey,
    Dict.get?_append, Dict.get?_eq_none hkeys, Dict.get?_two]
  unfold withDefaults fmDefault
  by_cases ht : k = "tags".toList
  · rw [if_pos ht, if_pos ht, ← ht]
    cases existing.get? k <;> rfl
  · rw [if_neg ht, if_neg ht]
    by_cases ha : k = "access_tier".toList
    · rw [if_pos ha, if_pos ha, ← ha]
      cases existing.get? k <;> rfl
    · rw [if_neg ha, if_neg ha, if_neg harchived, if_neg harchivedAt]
      cases existing.get? k <;> rfl

theorem get?_orderedFrontmatter_script (existing : Dict Text ν)
    {title sourceId drivePath now : Text}
    (h : (scriptManaged codec title sourceId drivePath now).get? k = some v)
    (hk : k ≠ "archived_at".toList) :
    (orderedFrontmatter codec existing (scriptManaged codec title sourceId drivePath now)).get? k =
      some v := by
  rw [get?_orderedFrontmatter_ne _ _ hk]
  refine get?_keepCustom_of_some _ existing _ ?_
  rw [foldl_orderKey, Dict.get?_append, h]
  rfl

end

/-! ## A written file is cut where it was put together -/

variable {t body : Text} {c : Char}

theorem universalNewlines_of_not_mem (h : '\r' ∉ t) : universalNewlines t = t := by
  fun_induction universalNewlines t with
  | case1 => rfl
  | case2 => simp at h
  | case3 => simp at h
  | case4 c cs _ _ ih => rw [ih fun hc => h (List.mem_cons_of_mem c hc)]

theorem universalNewlines_append {s : Text} (h : '\r' ∉ s) (t : Text) :
    universalNewlines (s ++ t) = s ++ universalNewlines t := by
  induction s with
  | nil => rfl
  | cons c s ih =>
    have hc : c ≠ '\r' := fun hc => h (hc ▸ List.mem_cons_self)
    rw [List.cons_append, List.cons_append, ← ih fun hs => h (List.mem_cons_of_mem c hs)]
    simp [universalNewlines, hc]

theorem closing_within {rest : Text}
    (h : c :: t ++ "\n---\n".toList ++ body = "\n---\n".toList ++ rest) :
    "\n---\n".toList <:+: c :: t ++ ['\n'] := by
  rcases t with _ | ⟨a, _ | ⟨b, _ | ⟨d, _ | ⟨e, t⟩⟩⟩⟩ <;> simp at h
  · obtain ⟨rfl, rfl, rfl, rfl, _⟩ := h
    exact List.infix_rfl
  · obtain ⟨rfl, rfl, rfl, rfl, rfl, _⟩ := h
    exact (List.prefix_append _ (t ++ ['\n'])).isInfix

theorem cutClosing_append (h : ¬ "\n---\n".toList <:+: t ++ ['\n']) :
    cutClosing (t ++ "\n---\n".toList ++ body) = some (t, body) := by
  induction t with
  | nil => rfl
  | cons c t ih =>
    have hnone : Text.dropPrefix? "\n---\n".toList (c :: t ++ "\n---\n".toList ++ body) = none := by
      cases hr : Text.dropPrefix? "\n---\n".toList (c :: t ++ "\n---\n".toList ++ body) with
      | none => rfl
      | some rest => exact absurd (closing_within (Text.dropPrefix?_eq_some.1 hr)) h
    have htail := ih fun hi => h (hi.trans (List.suffix_cons c _).isInfix)
    simp only [cutClosing, List.cons_append] at hnone htail ⊢
    rw [Text.cutAt, hnone]
    simp only [htail, Option.map_some]

theorem not_mem_universalNewlines (t : Text) : '\r' ∉ universalNewlines t := by
  fun_induction universalNewlines t with
  | case1 => simp
  | case2 _ ih => simpa using ih
  | case3 _ _ ih => simpa using ih
  | case4 c _ _ hc ih => simpa [ih] using fun he : '\r' = c => hc he.symm

theorem mem_of_splitContent {content fm : Text} (h : splitContent content = some (fm, body))
    (hc : c ∈ body) : c ∈ content := by
  obtain ⟨rest, hrest, hcut⟩ := Option.bind_eq_some_iff.1 h
  rw [Text.dropPrefix?_eq_some.1 hrest, Text.cutAt_eq_append hcut]
  simp [hc]

section
variable {ν : Type}

/-- What is used of `yaml`: `str` values tell their texts apart, and what `safe_dump` writes ends
with a line end, has no carriage return and no rule line, and loads as the mapping it came from.
PyYAML does not do this for a text with U+0085, so such texts are not among the values here. -/
structure Codec.Lawful (codec : Codec ν) : Prop where
  str_injective : Function.Injective codec.str
  load_dump : ∀ m : Dict Text ν, ∃ t m',
    codec.safeDump m = t ++ ['\n'] ∧ t ≠ [] ∧ '\r' ∉ t ∧ ¬ "\n---\n".toList <:+: t ++ ['\n'] ∧
      codec.safeLoad t = some (.mapping m') ∧ ∀ k, m'.get? k = m.get? k

variable {codec : Codec ν}

variable {m : Dict Text ν} {t body : Text}

theorem fileText_eq (hdump : codec.safeDump m = t ++ ['\n']) (body : Text) :
    fileText codec m body = "---\n".toList ++ (t ++ "\n---\n".toList ++ body) := by
  show "---\n".toList ++ codec.safeDump m ++ "---\n".toList ++ body = _
  rw [hdump]
  simp only [List.append_assoc]
  rfl

theorem splitContent_append (hcr : '\r' ∉ t) (hrule : ¬ "\n---\n".toList <:+: t ++ ['\n'])
    (body : Text) :
    splitContent (universalNewlines ("---\n".toList ++ (t ++ "\n---\n".toList ++ body))) =
      some (t, universalNewlines body) := by
  have hnewlines : universalNewlines ("---\n".toList ++ (t ++ "\n---\n".toList ++ body)) =
      "---\n".toList ++ (t ++ "\n---\n".toList ++ universalNewlines body) := by
    rw [universalNewlines_append (by decide), universalNewlines_append]
    rw [List.mem_append, not_or]
    exact ⟨hcr, by decide⟩
  rw [hnewlines, splitContent, afterOpening, Text.dropPrefix?_eq_some.2 rfl]
  exact cutClosing_append hrule

theorem splitContent_fileText (law : codec.Lawful) (m : Dict Text ν) (hbody : '\r' ∉ body) :
    ∃ t m', splitContent (universalNewlines (fileText codec m body)) = some (t, body) ∧ t ≠ [] ∧
      codec.safeLoad t = some (.mapping m') ∧ ∀ k, m'.get? k = m.get? k := by
  obtain ⟨t, m', hdump, hne, hcr, hrule, hload, hget⟩ := law.load_dump m
  refine ⟨t, m', ?_, hne, hload, hget⟩
  rw [fileText_eq hdump, splitContent_append hcr hrule, universalNewlines_of_not_mem hbody]

theorem contentFrontmatter_fileText (law : codec.Lawful) (m : Dict Text ν) (hbody : '\r' ∉ body) :
    ∃ m', contentFrontmatter codec (universalNewlines (fileText codec m body)) = some m' ∧
      ∀ k, m'.get? k = m.get? k := by
  obtain ⟨t, m', hsplit, hne, hload, hget⟩ := splitContent_fileText law m hbody
  exact ⟨m', by simp [contentFrontmatter, hsplit, hne, hload], hget⟩

theorem contentFrontmatter_eq_some {content : Text}
    (h : contentFrontmatter codec content = some m) :
    ∃ t body, splitContent content = some (t, body) ∧ t ≠ [] ∧
      codec.safeLoad t = some (.mapping m) := by
  obtain ⟨⟨t, body⟩, hsplit, h⟩ := Option.bind_eq_some_iff.1 h
  dsimp only at h
  repeat' split at h
  all_goals cases h
  exact ⟨t, body, hsplit, ‹_›, ‹_›⟩

end

/-! ## A codec that meets the assumptions

Values are texts. A mapping is dumped as its keys and values in turn, two characters for each
character and two at the end of each text. -/

def encodeChar (c : Char) : Text :=
  if c = '\r' then ['b', 'b'] else if c = '-' then ['d', 'd'] else ['a', c]

def encodeTexts (ts : List Text) : Text := ts.flatMap fun t => t.flatMap encodeChar ++ ['e', 'e']

def decodeTexts : Text → Text → List Text
  | t, 'a' :: c :: cs => decodeTexts (t ++ [c]) cs
  | t, 'b' :: _ :: cs => decodeTexts (t ++ ['\r']) cs
  | t, 'd' :: _ :: cs => decodeTexts (t ++ ['-']) cs
  | t, 'e' :: _ :: cs => t :: decodeTexts [] cs
  | _, _ => []

def pairUp : List Text → Dict Text Text
  | k :: v :: ts => (k, v) :: pairUp ts
  | _ => []

def tokenCodec : Codec Text where
  str t := 's' :: t
  bool b := if b then ['t'] else ['f']
  null := ['n']
  emptyList := ['l']
  isNull v := v = ['n']
  safeLoad t :=
    match decodeTexts [] t with
    | [] => some .falsy
    | _ :: ts => some (.mapping (pairUp ts))
  safeDump m := encodeTexts ([] :: m.flatMap fun e => [e.1, e.2]) ++ ['\n']

theorem decodeTexts_encodeChar (t rest : Text) (c : Char) :
    decodeTexts t (encodeChar c ++ rest) = decodeTexts (t ++ [c]) rest := by
  unfold encodeChar
  split
  · subst c; rfl
  · split
    · subst c; rfl
    · rfl

theorem decodeTexts_flatMap (t rest : Text) :
    ∀ acc, decodeTexts acc (t.flatMap encodeChar ++ rest) = decodeTexts (acc ++ t) rest := by
  induction t with
  | nil => intro acc; simp
  | cons c t ih =>
    intro acc
    rw [List.flatMap_cons, List.append_assoc, decodeTexts_encodeChar, ih, List.append_assoc]
    rfl

theorem decodeTexts_encodeTexts (ts : List Text) : decodeTexts [] (encodeTexts ts) = ts := by
  induction ts with
  | nil => rfl
  | cons t ts ih =>
    rw [encodeTexts, List.flatMap_cons, List.append_assoc, decodeTexts_flatMap]
    exact congrArg (t :: ·) ih

theorem pairUp_flatMap (m : Dict Text Text) : pairUp (m.flatMap fun e => [e.1, e.2]) = m := by
  induction m with
  | nil => rfl
  | cons e m ih => simp [pairUp, ih]

theorem not_mem_encodeTexts (ts : List Text) : '\r' ∉ encodeTexts ts ∧ '-' ∉ encodeTexts ts := by
  have hchar : ∀ c, '\r' ∉ encodeChar c ∧ '-' ∉ encodeChar c := by
    intro c
    unfold encodeChar
    split
    · decide
    · split
      · decide
      · simp_all [eq_comm]
  simp [encodeTexts, hchar]

theorem tokenCodec_dump (m : Dict Text Text) :
    ∃ t, tokenCodec.safeDump m = t ++ ['\n'] ∧ t ≠ [] ∧ '\r' ∉ t ∧ '-' ∉ t ∧
      tokenCodec.safeLoad t = some (.mapping m) := by
  obtain ⟨hcr, hdash⟩ := not_mem_encodeTexts ([] :: m.flatMap fun e => [e.1, e.2])
  refine ⟨_, rfl, by simp [encodeTexts], hcr, hdash, ?_⟩
  simp [tokenCodec, decodeTexts_encodeTexts, pairUp_flatMap]

theorem not_rule_of_not_mem (h : '-' ∉ t) : ¬ "\n---\n".toList <:+: t ++ ['\n'] := by
  intro hrule
  have hmem := hrule.subset (a := '-') (by decide)
  simp [h] at hmem

theorem tokenCodec_lawful : tokenCodec.Lawful where
  str_injective := List.cons_injective
  load_dump m := by
    obtain ⟨t, hdump, hne, hcr, hdash, hload⟩ := tokenCodec_dump m
    exact ⟨t, m, hdump, hne, hcr, not_rule_of_not_mem hdash, hload, fun _ => rfl⟩

end Archiviste.Sync
