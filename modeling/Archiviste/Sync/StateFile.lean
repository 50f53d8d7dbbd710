import Archiviste.Base.Run
import Archiviste.Base.JsonText
import Archiviste.Sync.CleanRuns

/-!
# Archiviste.Sync.StateFile

The state file of the exporter as text: `save_state` writes the entries as JSON with sorted keys to a
file beside it and then moves that file over it; `load_state` reads them back. A file is here its
text; one that is not UTF-8 does not come to `json.loads`.

* `content`         — the text that is written.
* `load_content`    — what is read back from it.
* `saveStep`        — a save that ends, or one whose process dies on the way.
* `state_file_survives` — after any saves the file holds the last one that was moved into place.
-/

namespace Archiviste.Sync
namespace StateFile

open JsonText

/-! ## Reading -/

/-- `StateEntry` as `load_state` builds it: the values are whatever the file has. An object stands
for its dictionary. -/
structure RawEntry where
  localPath : Doc
  contentSignature : Doc
  lastExportedAt : Doc
  bodyHash : Doc
  archivedAt : Doc
  images : Doc

/-- The dictionary of an object: a repeated key keeps its place and takes the last value. -/
def dictOf (members : List (Text × Doc)) : Dict Text Doc :=
  members.foldl (fun d m => d.set m.1 m.2) []

section
variable (path : Text)

def notJson : Text := "State file is not valid JSON: ".toList ++ path

def rootNotObject : Text := "State file root must be a JSON object: ".toList ++ path

def entryNotObject (fileId : Text) : Text :=
  "State entry for '".toList ++ fileId ++ "' must be a JSON object: ".toList ++ path

def missingField (fileId field : Text) : Text :=
  "State entry for '".toList ++ fileId ++ "' missing field '".toList ++ field ++ "': ".toList ++ path

/-- `entry[field]`. -/
def required (fileId : Text) (entry : Dict Text Doc) (field : Text) : Except Text Doc :=
  match entry.get? field with
  | some value => .ok value
  | none => .error (missingField path fileId field)

def loadEntry (fileId : Text) : Doc → Except Text RawEntry
  | .obj members => do
    let entry := dictOf members
    let localPath ← required path fileId entry "local_path".toList
    let contentSignature ← required path fileId entry "content_signature".toList
    let lastExportedAt ← required path fileId entry "last_exported_at".toList
    let bodyHash ← required path fileId entry "body_hash".toList
    return ⟨localPath, contentSignature, lastExportedAt, bodyHash,
      (entry.get? "archived_at".toList).getD .null, (entry.get? "images".toList).getD (.obj [])⟩
  | _ => .error (entryNotObject path fileId)

def loadMember (result : Dict Text RawEntry) (m : Text × Doc) : Except Text (Dict Text RawEntry) := do
  let entry ← loadEntry path m.1 m.2
  return result.set m.1 entry

/-- `load_state`: the entries, or the message of the `StateCorruptedError`. -/
def loadState : Option Text → Except Text (Dict Text RawEntry)
  | none => .ok []
  | some file =>
    match loads (universalNewlines file) with
    | none => .error (notJson path)
    | some (.obj members) => (dictOf members).foldlM (loadMember path) []
    | some _ => .error (rootNotObject path)

end

/-! ## Writing -/

/-- `StateEntry` as the exporter fills it, with the path as text. -/
structure FileEntry where
  localPath : Text
  contentSignature : Text
  lastExportedAt : Text
  bodyHash : Text
  archivedAt : Option Text
  images : Dict Text Text

def imagesDoc (images : Dict Text Text) : Doc := .obj (images.map fun p => (p.1, .str p.2))

def asdict (e : FileEntry) : Doc :=
  .obj [("local_path".toList, .str e.localPath), ("content_signature".toList, .str e.contentSignature),
    ("last_exported_at".toList, .str e.lastExportedAt), ("body_hash".toList, .str e.bodyHash),
    ("archived_at".toList, e.archivedAt.elim .null .str), ("images".toList, imagesDoc e.images)]

def serializable (state : Dict Text FileEntry) : Doc :=
  .obj (state.map fun p => (p.1, asdict p.2))

def content (state : Dict Text FileEntry) : Text := dumps (sortKeys (serializable state)) ++ ['\n']

/-! ## What is read back -/

def byKey {ν : Type} (a b : Text × ν) : Prop := ¬ b.1.map Char.toNat < a.1.map Char.toNat

instance {ν : Type} : DecidableRel (byKey (ν := ν)) := fun _ _ => inferInstanceAs (Decidable (¬ _))

def FileEntry.raw (e : FileEntry) : RawEntry where
  localPath := .str e.localPath
  contentSignature := .str e.contentSignature
  lastExportedAt := .str e.lastExportedAt
  bodyHash := .str e.bodyHash
  archivedAt := e.archivedAt.elim .null .str
  images := imagesDoc (e.images.insertionSort byKey)

def entryDoc (e : FileEntry) : Doc :=
  .obj [("archived_at".toList, e.archivedAt.elim .null .str), ("body_hash".toList, .str e.bodyHash),
    ("content_signature".toList, .str e.contentSignature),
    ("images".toList, imagesDoc (e.images.insertionSort byKey)),
    ("last_exported_at".toList, .str e.lastExportedAt), ("local_path".toList, .str e.localPath)]

variable {ν : Type} {state : Dict Text FileEntry} {path : Text}

theorem sortMembers_map (f : ν → Doc) (d : List (Text × ν)) :
    sortMembers (d.map fun p => (p.1, f p.2)) = d.map fun p => (p.1, sortKeys (f p.2)) := by
  induction d with
  | nil => rfl
  | cons p d ih => rw [List.map_cons, List.map_cons, sortMembers, ih]

theorem sortKeys_map (f : ν → Doc) (d : List (Text × ν)) :
    sortKeys (.obj (d.map fun p => (p.1, f p.2))) =
      .obj ((d.insertionSort byKey).map fun p => (p.1, sortKeys (f p.2))) := by
  rw [sortKeys, sortMembers_map]
  congr 1
  exact (List.map_insertionSort byKey keyLe _ d fun a _ b _ => Iff.rfl).symm

theorem sortKeys_imagesDoc (images : Dict Text Text) :
    sortKeys (imagesDoc images) = imagesDoc (images.insertionSort byKey) :=
  sortKeys_map (fun v => .str v) images

theorem sortKeys_asdict (e : FileEntry) : sortKeys (asdict e) = entryDoc e := by
  have harchived : sortKeys (e.archivedAt.elim .null .str) = e.archivedAt.elim .null .str := by
    cases e.archivedAt <;> rfl
  have hsort : sortKeys (asdict e) = .obj [("archived_at".toList, sortKeys (e.archivedAt.elim .null .str)),
      ("body_hash".toList, .str e.bodyHash), ("content_signature".toList, .str e.contentSignature),
      ("images".toList, sortKeys (imagesDoc e.images)),
      ("last_exported_at".toList, .str e.lastExportedAt), ("local_path".toList, .str e.localPath)] := rfl
  rw [hsort, harchived, sortKeys_imagesDoc]
  rfl

theorem sortKeys_serializable (state : Dict Text FileEntry) :
    sortKeys (serializable state) =
      .obj ((state.insertionSort byKey).map fun p => (p.1, entryDoc p.2)) := by
  rw [serializable, sortKeys_map]
  simp only [sortKeys_asdict]

theorem membersFinite_map (f : ν → Doc) (hf : ∀ v, (f v).finite = true) (d : List (Text × ν)) :
    membersFinite (d.map fun p => (p.1, f p.2)) = true := by
  induction d with
  | nil => rfl
  | cons p d ih => rw [List.map_cons, membersFinite, hf, ih]; rfl

theorem entryDoc_finite (e : FileEntry) : (entryDoc e).finite = true := by
  have himages : (imagesDoc (e.images.insertionSort byKey)).finite = true := by
    rw [imagesDoc, Doc.finite]
    exact membersFinite_map (fun v => .str v) (fun _ => rfl) _
  have harchived : (e.archivedAt.elim .null .str : Doc).finite = true := by
    cases e.archivedAt <;> rfl
  simp [entryDoc, Doc.finite, membersFinite, himages, harchived]

theorem loads_content (state : Dict Text FileEntry) :
    loads (universalNewlines (content state)) =
      some (.obj ((state.insertionSort byKey).map fun p => (p.1, entryDoc p.2))) := by
  have hreturn : '\r' ∉ content state := by
    rw [content, List.mem_append]
    rintro (h | h)
    · exact return_not_mem_text 0 _ h
    · exact absurd h (by decide)
  rw [universalNewlines_of_not_mem hreturn, content, sortKeys_serializable, loads_dumps_newline]
  rw [Doc.finite]
  exact membersFinite_map entryDoc entryDoc_finite _

theorem foldl_set_of_nodup (d : Dict Text ν) : ∀ (acc : Dict Text ν),
    (acc.keys ++ d.keys).Nodup → d.foldl (fun d m => d.set m.1 m.2) acc = acc ++ d := by
  induction d with
  | nil => exact fun acc _ => (List.append_nil acc).symm
  | cons m d ih =>
    intro acc h
    have hm : m.1 ∉ acc.keys := fun hmem =>
      (List.nodup_append.1 h).2.2 m.1 hmem m.1 (List.mem_cons_self ..) rfl
    rw [List.foldl_cons, Dict.set_of_not_mem m.2 hm, ih]
    · rw [List.append_assoc]
      rfl
    · simpa [Dict.keys, List.append_assoc] using h

theorem dictOf_of_nodup {members : List (Text × Doc)} (h : (members.map (·.1)).Nodup) :
    dictOf members = members :=
  foldl_set_of_nodup members [] h

theorem foldlM_loadMember (path : Text) (d : Dict Text FileEntry) : ∀ (acc : Dict Text RawEntry),
    (acc.keys ++ d.keys).Nodup →
    (d.map fun p => (p.1, entryDoc p.2)).foldlM (loadMember path) acc =
      .ok (acc ++ d.map fun p => (p.1, p.2.raw)) := by
  induction d with
  | nil => exact fun acc _ => congrArg Except.ok (List.append_nil acc).symm
  | cons p d ih =>
    intro acc h
    have hp : p.1 ∉ acc.keys := fun hmem =>
      (List.nodup_append.1 h).2.2 p.1 hmem p.1 (List.mem_cons_self ..) rfl
    have hload : loadMember path acc (p.1, entryDoc p.2) = .ok (acc ++ [(p.1, p.2.raw)]) :=
      congrArg Except.ok (Dict.set_of_not_mem p.2.raw hp)
    rw [List.map_cons, List.foldlM_cons, hload]
    show (d.map fun p => (p.1, entryDoc p.2)).foldlM (loadMember path) _ = _
    rw [ih]
    · rw [List.append_assoc]
      rfl
    · simpa [Dict.keys, List.append_assoc] using h

theorem load_content (path : Text) (h : state.keys.Nodup) :
    loadState path (some (content state)) =
      .ok ((state.insertionSort byKey).map fun p => (p.1, p.2.raw)) := by
  have hperm := List.perm_insertionSort byKey state
  have hkeys : (Dict.keys (state.insertionSort byKey)).Nodup := (hperm.map Prod.fst).nodup_iff.2 h
  have hmembers : dictOf ((state.insertionSort byKey).map fun p => (p.1, entryDoc p.2)) =
      (state.insertionSort byKey).map fun p => (p.1, entryDoc p.2) := by
    refine dictOf_of_nodup ?_
    rw [List.map_map]
    exact hkeys
  rw [loadState, loads_content]
  dsimp only
  rw [hmembers]
  exact foldlM_loadMember path _ [] hkeys

theorem get?_loaded (h : state.keys.Nodup) (fileId : Text) :
    Dict.get? ((state.insertionSort byKey).map fun p => (p.1, p.2.raw)) fileId =
      (state.get? fileId).map FileEntry.raw := by
  have hmap : ∀ d : Dict Text FileEntry,
      Dict.get? (d.map fun p => (p.1, p.2.raw)) fileId = (d.get? fileId).map FileEntry.raw := by
    intro d
    induction d with
    | nil => rfl
    | cons p d ih =>
      rw [List.map_cons, Dict.get?_cons, Dict.get?_cons, ih]
      split <;> rfl
  rw [hmap, Dict.get?_perm h (List.perm_insertionSort byKey state)]

/-! ## Saves that may be cut short -/

abbrev Disk := Text → Option Text

/-- `path.with_suffix(path.suffix + ".tmp")`. -/
def tmpPath (path : Text) : Text := path ++ ".tmp".toList

/-- How far a save comes before its process dies, if it does: nowhere, as far as to have written a
part of the file beside, or over the move. -/
inductive Outcome where
  | untouched
  | written (chars : Nat)
  | replaced
  deriving DecidableEq

structure Save where
  state : Dict Text FileEntry
  outcome : Outcome

/-- `save_state`. The move replaces the file in one step. -/
def saveStep (path : Text) (disk : Disk) (save : Save) : Disk :=
  match save.outcome with
  | .untouched => disk
  | .written chars => Function.update disk (tmpPath path) (some ((content save.state).take chars))
  | .replaced => Function.update (Function.update disk path (some (content save.state)))
      (tmpPath path) none

def after (state : Option (Dict Text FileEntry)) (save : Save) : Option (Dict Text FileEntry) :=
  if save.outcome = .replaced then some save.state else state

theorem tmpPath_ne (path : Text) : path ≠ tmpPath path := by
  intro h
  have hlength := congrArg List.length h
  rw [tmpPath, List.length_append] at hlength
  have hpos : 0 < ".tmp".toList.length := by decide
  omega

/-- The state file is absent, or holds a whole state. -/
def Holds (path : Text) (disk : Disk) (state : Option (Dict Text FileEntry)) : Prop :=
  disk path = state.map content

theorem Holds.step {disk : Disk} {state : Option (Dict Text FileEntry)}
    (h : Holds path disk state) (save : Save) :
    Holds path (saveStep path disk save) (after state save) := by
  unfold Holds saveStep after
  cases save.outcome with
  | untouched => exact h
  | written chars => exact (Function.update_of_ne (tmpPath_ne path) ..).trans h
  | replaced =>
    exact (Function.update_of_ne (tmpPath_ne path) ..).trans (Function.update_self ..)

theorem Holds.exec (saves : List Save) : ∀ {disk : Disk}
    {state : Option (Dict Text FileEntry)}, Holds path disk state →
      Holds path (Run.exec (saveStep path) disk saves) (saves.foldl after state) := by
  induction saves with
  | nil => exact fun h => h
  | cons save saves ih => exact fun h => ih (h.step save)

theorem nodup_after {saves : List Save} (hsaves : ∀ save ∈ saves, save.state.keys.Nodup) :
    ∀ {state : Option (Dict Text FileEntry)}, (∀ s, state = some s → s.keys.Nodup) →
      ∀ s, saves.foldl after state = some s → s.keys.Nodup := by
  induction saves with
  | nil => exact fun h => h
  | cons save saves ih =>
    intro state hstate
    refine ih (fun save' hsave' => hsaves save' (List.mem_cons_of_mem _ hsave')) ?_
    intro s hs
    unfold after at hs
    split at hs
    · cases hs
      exact hsaves save List.mem_cons_self
    · exact hstate s hs

/-- Whatever lies beside the state file, and wherever the processes of a sequence of saves die: the
next `load_state` raises nothing and returns the state of the last save whose move was made, or the
one from before. So a run that dies has saved its state or changed nothing. -/
theorem state_file_survives (path : Text) (disk : Disk) (first : Option (Dict Text FileEntry))
    (hfirst : Holds path disk first) (hkeys : ∀ s, first = some s → s.keys.Nodup)
    (saves : List Save) (hsaves : ∀ save ∈ saves, save.state.keys.Nodup) :
    ∃ loaded, loadState path (Run.exec (saveStep path) disk saves path) = .ok loaded ∧
      ∀ fileId, loaded.get? fileId =
        (((saves.foldl after first).getD []).get? fileId).map FileEntry.raw := by
  have hholds := hfirst.exec saves
  have hnodup := nodup_after hsaves hkeys
  unfold Holds at hholds
  rw [hholds]
  cases hlast : saves.foldl after first with
  | none => exact ⟨[], rfl, fun fileId => rfl⟩
  | some state =>
    exact ⟨_, load_content path (hnodup state hlast), get?_loaded (hnodup state hlast)⟩

/-- A state of one file, saved twice, the second time with a process that dies while it writes. -/
theorem state_file_survives_crash :
    let entry : FileEntry := ⟨"/lore/a.md".toList, "s".toList, "t".toList, "h".toList, none,
      [("k\r".toList, "img.png".toList)]⟩
    let saves : List Save := [⟨[("1a".toList, entry)], .replaced⟩, ⟨[], .written 1⟩]
    ∃ loaded, loadState [] (Run.exec (saveStep []) (fun _ => none) saves []) = .ok loaded ∧
      ∀ fileId, loaded.get? fileId = (Dict.get? [("1a".toList, entry)] fileId).map FileEntry.raw :=
  state_file_survives [] (fun _ => none) none rfl (fun _ h => by cases h) _
    (by simp [Dict.keys])

/-! ## The state of a run -/

/-- `str(path)` of an absolute path. -/
def pathText (p : Path) : Text := p.flatMap fun part => '/' :: part

def fileEntry (e : StateEntry) : FileEntry where
  localPath := pathText e.localPath
  contentSignature := e.contentSignature
  lastExportedAt := e.lastExportedAt
  bodyHash := e.bodyHash
  archivedAt := e.archivedAt
  images := e.images

def fileState (state : Dict SourceId StateEntry) : Dict Text FileEntry :=
  state.map fun p => (p.1.text, fileEntry p.2)

theorem lt_iff_codes {s t : Text} : s < t ↔ s.map Char.toNat < t.map Char.toNat := by
  induction s generalizing t with
  | nil => cases t <;> simp
  | cons c s ih =>
    cases t with
    | nil => simp
    | cons d t =>
      rw [List.map_cons, List.map_cons, List.cons_lt_cons_iff, List.cons_lt_cons_iff, ih,
        Char.toNat_inj]
      exact Iff.rfl

theorem fileState_saveState (state : Dict SourceId StateEntry) :
    fileState (saveState state) = (fileState state).insertionSort byKey := by
  refine List.map_insertionSort _ byKey _ state fun a _ b _ => ?_
  rw [← not_lt, lt_iff_codes]
  exact Iff.rfl

/-- What the next run loads is what this one saved. -/
theorem load_saveState (path : Text) {state : Dict SourceId StateEntry} (h : state.keys.Nodup) :
    loadState path (some (content (fileState state))) =
      .ok ((fileState (saveState state)).map fun p => (p.1, p.2.raw)) := by
  have hkeys : (fileState state).keys.Nodup := by
    have hmap : (fileState state).keys = state.keys.map SourceId.text := by
      simp [fileState, Dict.keys, Function.comp_def]
    rw [hmap]
    exact h.map SourceId.text_injective
  rw [load_content path hkeys, fileState_saveState]

end StateFile
end Archiviste.Sync
