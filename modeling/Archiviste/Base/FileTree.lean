import Archiviste.Base.Dict
import Archiviste.Base.Text
import Mathlib.Data.List.Infix

/-!
# Archiviste.Base.FileTree

Absolute paths as the list of their parts, with the operations of `pathlib` on them, and a file
tree with the operations of a POSIX file system that need no open file. An operation either fails
with the kind of its `OSError` and changes nothing, or returns the tree it leaves.

The lemmas say what each operation does to the files of the tree (`FileTree.file?`): which paths
it changes, and that every other file is the one it was.
-/

namespace Archiviste

abbrev Path := List Text

instance : LawfulBEq Path := inferInstance

namespace Path

def parent (p : Path) : Path := p.dropLast

def name (p : Path) : Text := p.getLast?.getD []

/-- A name cut at its last dot, unless the dot is its first or last character. -/
def splitName (n : Text) : Text × Text :=
  match n.reverse.dropWhile (· ≠ '.') with
  | '.' :: c :: stem =>
    if n.getLast? = some '.' then (n, [])
    else ((c :: stem).reverse, '.' :: (n.reverse.takeWhile (· ≠ '.')).reverse)
  | _ => (n, [])

def stem (p : Path) : Text := (splitName p.name).1

def suffix (p : Path) : Text := (splitName p.name).2

/-- The parts of a text: the separators are runs of `/`, and a part `.` is dropped. -/
def parts (t : Text) : Path := (Text.splitOn '/' t).filter fun p => p ≠ [] ∧ p ≠ ['.']

/-- `base / t`: an absolute text replaces the base. -/
def join (base : Path) (t : Text) : Path :=
  if t.head? = some '/' then parts t else base ++ parts t

/-- `base.joinpath(*ts)`. -/
def joinpath (base : Path) (ts : List Text) : Path := ts.foldl join base

/-- The path with its `..` parts taken, from the parts already passed in reverse order. -/
def resolveFrom : Path → Path → Path
  | before, [] => before.reverse
  | before, p :: ps =>
    if p = ['.', '.'] then resolveFrom before.tail ps else resolveFrom (p :: before) ps

/-- `p.resolve()` in a tree without symbolic links. -/
def resolve (p : Path) : Path := resolveFrom [] p

/-- `p.is_relative_to(root)`. -/
def isRelativeTo (p root : Path) : Bool := root.isPrefixOf p

example : splitName "a.b.md".toList = ("a.b".toList, ".md".toList) := by decide
example : splitName ".md".toList = (".md".toList, []) := by decide
example : resolve ["a".toList, "..".toList, "b".toList] = ["b".toList] := by decide

theorem splitName_dot {stem ext : Text} (hstem : stem ≠ []) (hext : ext ≠ []) (hdot : '.' ∉ ext) :
    splitName (stem ++ '.' :: ext) = (stem, '.' :: ext) := by
  have hrev : ∀ d ∈ ext.reverse, decide (d ≠ '.') = true := by
    intro d hd
    simpa using fun he : d = '.' => hdot (by simpa [he] using hd)
  have hlast : (stem ++ '.' :: ext).getLast? ≠ some '.' := by
    rw [List.getLast?_append_cons, List.getLast?_cons_of_ne_nil hext]
    exact fun h => hdot (List.mem_of_getLast? h)
  have hsplit : (stem ++ '.' :: ext).reverse = ext.reverse ++ '.' :: stem.reverse := by simp
  obtain ⟨c, rest, hcons⟩ := List.exists_cons_of_ne_nil (List.reverse_ne_nil_iff.2 hstem)
  have hdrop : (stem ++ '.' :: ext).reverse.dropWhile (· ≠ '.') = '.' :: c :: rest := by
    rw [hsplit, List.dropWhile_append_of_pos hrev, hcons]; simp
  have htake : (stem ++ '.' :: ext).reverse.takeWhile (· ≠ '.') = ext.reverse := by
    rw [hsplit, List.takeWhile_append_of_pos hrev]; simp
  unfold splitName
  rw [hdrop, htake]
  refine (if_neg hlast).trans ?_
  rw [← hcons, List.reverse_reverse, List.reverse_reverse]

variable {base : Path} {t n : Text}

theorem join_name (hne : t ≠ []) (hslash : '/' ∉ t) (hdot : t ≠ ['.']) :
    base.join t = base ++ [t] := by
  have hhead : t.head? ≠ some '/' := fun h => hslash (List.mem_of_head? h)
  simp [join, hhead, parts, Text.splitOn_of_not_mem hslash, hne, hdot]

theorem join_two {s : Text} (hs : s ≠ [] ∧ '/' ∉ s ∧ s ≠ ['.'])
    (ht : t ≠ [] ∧ '/' ∉ t ∧ t ≠ ['.']) : base.join (s ++ '/' :: t) = base ++ [s, t] := by
  have hhead : (s ++ '/' :: t).head? ≠ some '/' := by
    rw [List.head?_append_of_ne_nil s hs.1]
    exact fun h => hs.2.1 (List.mem_of_head? h)
  rw [join, if_neg hhead, parts, Text.splitOn_append hs.2.1, Text.splitOn_of_not_mem ht.2.1]
  simp [hs.1, hs.2.2, ht.1, ht.2.2]

theorem joinpath_names {ts : List Text} :
    ∀ {base : Path}, (∀ t ∈ ts, t ≠ [] ∧ '/' ∉ t ∧ t ≠ ['.']) →
      base.joinpath ts = base ++ ts := by
  induction ts with
  | nil => intro base _; simp [joinpath]
  | cons t ts ih =>
    intro base h
    obtain ⟨hne, hslash, hdot⟩ := h t List.mem_cons_self
    have htail : (base.join t).joinpath ts = base.join t ++ ts :=
      ih fun t' ht' => h t' (List.mem_cons_of_mem t ht')
    rw [join_name hne hslash hdot] at htail
    simpa [joinpath, join_name hne hslash hdot] using htail

theorem resolveFrom_concat (hn : n ≠ ['.', '.']) (ps : Path) :
    ∀ before : Path, resolveFrom before (ps ++ [n]) = resolveFrom before ps ++ [n] := by
  induction ps with
  | nil => intro before; simp [resolveFrom, hn]
  | cons p ps ih =>
    intro before
    simp only [List.cons_append, resolveFrom]
    split <;> exact ih _

theorem resolve_append {p ps : Path} (h : ∀ n ∈ ps, n ≠ ['.', '.']) :
    resolve (p ++ ps) = resolve p ++ ps := by
  induction ps using List.reverseRecOn with
  | nil => simp
  | append_singleton ps n ih =>
    rw [← List.append_assoc, resolve, resolveFrom_concat (h n (by simp)), ← resolve,
      ih fun m hm => h m (List.mem_append_left _ hm), List.append_assoc]

theorem resolve_concat (hn : n ≠ ['.', '.']) (p : Path) : resolve (p ++ [n]) = resolve p ++ [n] :=
  resolve_append (by simpa using hn)

end Path

inductive FsError where
  | fileNotFound
  | fileExists
  | isADirectory
  | notADirectory
  | notEmpty
  | invalid
  deriving DecidableEq, Repr

/-- The files and the directories of a tree; the root `[]` is always a directory. -/
structure FileTree (β : Type) where
  files : Dict Path β
  dirs : List Path
  deriving DecidableEq

namespace FileTree

variable {β : Type} {t t' : FileTree β} {p q : Path}

def file? (t : FileTree β) (p : Path) : Option β := t.files.get? p

def isDir (t : FileTree β) (p : Path) : Bool := p = [] ∨ p ∈ t.dirs

def exists? (t : FileTree β) (p : Path) : Bool := (t.file? p).isSome || t.isDir p

/-- `p.iterdir()`. -/
def children (t : FileTree β) (p : Path) : List Path :=
  (t.files.keys ++ t.dirs).filter fun q => q ≠ [] ∧ q.parent = p

def read (t : FileTree β) (p : Path) : Except FsError β :=
  match t.file? p with
  | some c => .ok c
  | none => .error (if t.isDir p then .isADirectory else .fileNotFound)

/-- `p.mkdir(parents=True, exist_ok=True)`. -/
def mkdirs (t : FileTree β) (p : Path) : Except FsError (FileTree β) :=
  if p.inits.any fun q => (t.file? q).isSome then .error .notADirectory
  else .ok { t with dirs := t.dirs ++ p.inits.filter fun q => q ≠ [] ∧ q ∉ t.dirs }

def write (t : FileTree β) (p : Path) (c : β) : Except FsError (FileTree β) :=
  if t.isDir p then .error .isADirectory
  else if t.isDir p.parent then .ok { t with files := t.files.set p c }
  else .error .fileNotFound

def unlink (t : FileTree β) (p : Path) : Except FsError (FileTree β) :=
  if (t.file? p).isSome then .ok { t with files := t.files.erase p }
  else .error (if t.isDir p then .isADirectory else .fileNotFound)

def rmdir (t : FileTree β) (p : Path) : Except FsError (FileTree β) :=
  if p ∈ t.dirs then
    if t.children p = [] then .ok { t with dirs := t.dirs.filter (· ≠ p) } else .error .notEmpty
  else .error .fileNotFound

/-- Where a path goes when the directory `old` becomes `new`. -/
def relocate (old new p : Path) : Path :=
  if old <+: p then new ++ p.drop old.length else p

/-- `old.rename(new)`. A file replaces a file; a directory replaces an empty directory. -/
def rename (t : FileTree β) (old new : Path) : Except FsError (FileTree β) :=
  match t.file? old with
  | some c =>
    if t.isDir new then .error .isADirectory
    else if t.isDir new.parent then .ok { t with files := (t.files.erase old).set new c }
    else .error .fileNotFound
  | none =>
    if ¬ old ∈ t.dirs then .error .fileNotFound
    else if old = new then .ok t
    else if old <+: new then .error .invalid
    else if (t.file? new).isSome then .error .notADirectory
    else if t.isDir new ∧ t.children new ≠ [] then .error .notEmpty
    else if t.isDir new.parent then
      .ok ⟨t.files.map fun e => (relocate old new e.1, e.2),
        (t.dirs.filter (· ≠ new)).map (relocate old new)⟩
    else .error .fileNotFound

/-! ## What an operation does to the files -/

variable {c : β} {old new : Path}

theorem read_eq_ok (h : t.read p = .ok c) : t.file? p = some c := by
  unfold read at h
  split at h
  · cases h; assumption
  · cases h

theorem mkdirs_files (h : t.mkdirs p = .ok t') : t'.file? q = t.file? q := by
  unfold mkdirs at h
  split at h
  · cases h
  · cases h; rfl

theorem mkdirs_eq_ok : t.mkdirs p = .ok t' ↔ (∀ q, q <+: p → t.file? q = none) ∧
    t' = { t with dirs := t.dirs ++ p.inits.filter fun q => q ≠ [] ∧ q ∉ t.dirs } := by
  have hclear : (p.inits.any fun q => (t.file? q).isSome) = false ↔
      ∀ q, q <+: p → t.file? q = none := by
    simp
  unfold mkdirs
  split
  · next h =>
    rw [← hclear, h]
    simp
  · next h =>
    rw [← hclear, eq_false_of_ne_true h]
    simp [eq_comm]

theorem mkdirs_isDir (h : t.mkdirs p = .ok t') :
    t'.isDir q = true ↔ t.isDir q = true ∨ q <+: p := by
  obtain ⟨-, rfl⟩ := mkdirs_eq_ok.1 h
  simp only [isDir, decide_eq_true_eq, List.mem_append, List.mem_filter, List.mem_inits]
  by_cases hnil : q = []
  · simp [hnil]
  · by_cases hmem : q ∈ t.dirs <;> simp [hnil, hmem]

theorem rmdir_files (h : t.rmdir p = .ok t') : t'.file? q = t.file? q := by
  unfold rmdir at h
  repeat' split at h
  all_goals cases h
  rfl

theorem write_eq_ok : t.write p c = .ok t' ↔
    t.isDir p = false ∧ t.isDir p.parent = true ∧ t' = { t with files := t.files.set p c } := by
  unfold write
  cases t.isDir p <;> cases t.isDir p.parent <;> simp [eq_comm]

theorem write_files (h : t.write p c = .ok t') :
    t'.file? q = if q = p then some c else t.file? q := by
  obtain ⟨-, -, rfl⟩ := write_eq_ok.1 h
  exact Dict.get?_set ..

theorem unlink_files (h : t.unlink p = .ok t') :
    t'.file? q = if q = p then none else t.file? q := by
  unfold unlink at h
  split at h
  · cases h; exact Dict.get?_erase ..
  · cases h

theorem get?_relocate (hold : ¬ old <+: q) (hnew : ¬ new <+: q) (d : Dict Path β) :
    Dict.get? (d.map fun e => (relocate old new e.1, e.2)) q = d.get? q := by
  induction d with
  | nil => rfl
  | cons e d ih =>
    have hkey : relocate old new e.1 = q ↔ e.1 = q := by
      unfold relocate
      split
      · rename_i hpre
        exact ⟨fun h => absurd (h ▸ List.prefix_append ..) hnew, fun h => absurd (h ▸ hpre) hold⟩
      · exact Iff.rfl
    simp only [List.map_cons, Dict.get?_cons, ih, hkey]

theorem relocate_eq_new (h : relocate old new p = new) : p = old ∨ p = new := by
  unfold relocate at h
  split at h
  · rename_i hpre
    obtain ⟨rest, rfl⟩ := hpre
    simp_all
  · exact .inr h

theorem relocate_eq_old (h : relocate old new p = old) : new <+: old := by
  unfold relocate at h
  split at h
  · exact h ▸ List.prefix_append ..
  · rename_i hpre
    exact absurd (h ▸ List.prefix_rfl) hpre

/-- What a rename does to a file that is not below the old or the new place: the file at the old
place is at the new one. -/
theorem rename_files (h : t.rename old new = .ok t') (hold : old <+: q → q = old)
    (hnew : new <+: q → q = new) :
    t'.file? q = if q = new then t.file? old else if q = old then none else t.file? q := by
  unfold rename at h
  split at h
  · rename_i c hc
    repeat' split at h
    all_goals cases h
    simp only [file?, Dict.get?_set, Dict.get?_erase, ← hc]
  · rename_i hc
    split at h
    · cases h
    split at h
    · rename_i he
      cases h
      subst he
      split
      · subst q; rfl
      · rfl
    repeat' split at h
    all_goals cases h
    rename_i _ hne _ hfree _ _
    have hmoved : ∀ {v}, Dict.get? (t.files.map fun e => (relocate old new e.1, e.2)) q = some v →
        ∃ k, k ∈ t.files.keys ∧ relocate old new k = q := by
      intro v hv
      obtain ⟨e, he, heq⟩ := List.mem_map.1 (Dict.mem_of_get? hv)
      exact ⟨e.1, List.mem_map_of_mem (f := (·.1)) he, congrArg Prod.fst heq⟩
    split
    · subst q
      rw [hc]
      refine Option.eq_none_iff_forall_ne_some.2 fun v hv => ?_
      obtain ⟨k, hk, hkq⟩ := hmoved hv
      obtain ⟨w, hw⟩ := Dict.get?_of_mem_keys hk
      rcases relocate_eq_new hkq with rfl | rfl
      · exact absurd (hw.symm.trans hc) (by simp)
      · exact hfree (by simp [file?, hw])
    · rename_i hqnew
      split
      · subst q
        refine Option.eq_none_iff_forall_ne_some.2 fun v hv => ?_
        obtain ⟨k, _, hkq⟩ := hmoved hv
        exact hqnew (hnew (relocate_eq_old hkq))
      · rename_i hqold
        exact get?_relocate (fun hp => hqold (hold hp)) (fun hp => hqnew (hnew hp)) t.files

theorem rename_file (hc : t.file? old = some c) :
    t.rename old new = .ok t' ↔ t.isDir new = false ∧ t.isDir new.parent = true ∧
      t' = { t with files := (t.files.erase old).set new c } := by
  rw [rename, hc]
  cases t.isDir new <;> cases t.isDir new.parent <;> simp [eq_comm]

theorem rename_dir (hc : t.file? old = none) (hne : old ≠ new) (h : t.rename old new = .ok t') :
    t'.isDir new = true ∧ t'.file? new = none := by
  have hfile := rename_files (q := new) h (fun hpre => ?_) fun _ => rfl
  · rw [if_pos rfl, hc] at hfile
    refine ⟨?_, hfile⟩
    unfold rename at h
    simp only [hc, if_neg hne] at h
    repeat' split at h
    all_goals cases h
    rename_i hold _ _ _ _
    simp only [isDir, decide_eq_true_eq]
    refine .inr (List.mem_map.2 ⟨old, List.mem_filter.2 ⟨not_not.1 hold, by simpa using hne⟩, ?_⟩)
    simp [relocate]
  · -- a directory does not go below itself
    unfold rename at h
    simp only [hc, hne, hpre] at h
    split at h
    all_goals cases h

theorem rename_keeps (h : t.rename old new = .ok t') (hold : old <+: q → q ≠ old ∧ old <+: new)
    (hnew : ¬ new <+: q) : t'.file? q = t.file? q := by
  have hqold : q ≠ old := fun hq => (hold (hq ▸ List.prefix_rfl)).1 hq
  have hqnew : q ≠ new := fun hq => hnew (hq ▸ List.prefix_rfl)
  unfold rename at h
  split at h
  · repeat' split at h
    all_goals cases h
    simp only [file?, Dict.get?_set_ne _ _ hqnew, Dict.get?_erase, if_neg hqold]
  · split at h
    · cases h
    split at h
    · cases h
      rfl
    split at h
    · cases h
    rename_i hinside
    repeat' split at h
    all_goals cases h
    exact get?_relocate (fun hp => hinside (hold hp).2) hnew t.files

end FileTree
end Archiviste
