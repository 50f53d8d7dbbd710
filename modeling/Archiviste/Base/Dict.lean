import Mathlib.Data.List.Nodup

/-!
# Archiviste.Base.Dict

Python dictionaries as association lists in insertion order. Assigning to a present key keeps
its place; assigning to an absent key appends.
-/

namespace Archiviste

abbrev Dict (κ ν : Type) := List (κ × ν)

namespace Dict

variable {κ ν : Type} [DecidableEq κ]

def get? (d : Dict κ ν) (k : κ) : Option ν := List.lookup k d

def keys (d : Dict κ ν) : List κ := d.map (·.1)

/-- `d[k] = v`. -/
def set (d : Dict κ ν) (k : κ) (v : ν) : Dict κ ν :=
  match d with
  | [] => [(k, v)]
  | (k', v') :: rest => if k' = k then (k, v) :: rest else (k', v') :: set rest k v

/-- `del d[k]` on a present key, nothing on an absent one. -/
def erase (d : Dict κ ν) (k : κ) : Dict κ ν := d.filter fun p => p.1 ≠ k

@[simp] theorem get?_nil (k : κ) : get? ([] : Dict κ ν) k = none := rfl

theorem get?_cons (p : κ × ν) (d : Dict κ ν) (k : κ) :
    get? (p :: d) k = if p.1 = k then some p.2 else get? d k := by
  obtain ⟨k', v⟩ := p
  by_cases h : k' = k
  · subst h; simp [get?]
  · have : (k == k') = false := by simpa using fun e => h e.symm
    simp [get?, List.lookup_cons, this, h]

@[simp] theorem get?_set_self (d : Dict κ ν) (k : κ) (v : ν) : get? (set d k v) k = some v := by
  induction d with
  | nil => simp [set, get?_cons]
  | cons p d ih =>
    obtain ⟨k', v'⟩ := p
    by_cases h : k' = k
    · simp [set, h, get?_cons]
    · simp [set, h, get?_cons, ih]

variable {k : κ} {d : Dict κ ν} {v : ν}

@[simp] theorem get?_set_ne (d : Dict κ ν) {k' : κ} (v : ν) (h : k' ≠ k) :
    get? (set d k v) k' = get? d k' := by
  induction d with
  | nil => simp [set, get?_cons, Ne.symm h]
  | cons p d ih =>
    obtain ⟨k'', v'⟩ := p
    by_cases h' : k'' = k
    · subst h'; simp [set, get?_cons, Ne.symm h]
    · simp [set, h', get?_cons, ih]

theorem get?_set (d : Dict κ ν) (k k' : κ) (v : ν) :
    get? (set d k v) k' = if k' = k then some v else get? d k' := by
  split
  · subst k'; exact get?_set_self d k v
  · exact get?_set_ne d v ‹_›

theorem get?_erase (d : Dict κ ν) (k k' : κ) :
    get? (erase d k) k' = if k' = k then none else get? d k' := by
  induction d with
  | nil => simp [erase]
  | cons p d ih =>
    simp only [erase] at ih
    by_cases hp : p.1 = k
    · rw [erase, List.filter_cons_of_neg (by simpa using hp), ih, get?_cons]
      split
      · rfl
      · rw [if_neg fun h => ‹¬ k' = k› (h.symm.trans hp)]
    · rw [erase, List.filter_cons_of_pos (by simpa using hp), get?_cons, ih, get?_cons]
      by_cases h : p.1 = k'
      · rw [if_pos h, if_neg fun h' => hp (h.trans h'), if_pos h]
      · simp only [if_neg h]

theorem mem_of_get? (h : get? d k = some v) : (k, v) ∈ d := by
  induction d with
  | nil => cases h
  | cons p d ih =>
    rw [get?_cons] at h
    split at h
    · rename_i hp; cases h; subst hp; exact List.mem_cons_self
    · exact List.mem_cons_of_mem p (ih h)

theorem mem_keys_of_get? (h : get? d k = some v) : k ∈ d.keys :=
  List.mem_map_of_mem (f := (·.1)) (mem_of_get? h)

theorem get?_eq_none (h : k ∉ d.keys) : get? d k = none := by
  cases hv : get? d k with
  | none => rfl
  | some v => exact absurd (mem_keys_of_get? hv) h

theorem get?_of_mem_keys (h : k ∈ d.keys) : ∃ v, get? d k = some v := by
  induction d with
  | nil => cases h
  | cons p d ih =>
    by_cases hp : p.1 = k
    · exact ⟨p.2, by rw [get?_cons, if_pos hp]⟩
    · rw [get?_cons, if_neg hp]
      exact ih ((List.mem_cons.1 h).resolve_left fun he => hp he.symm)

theorem get?_append (d d' : Dict κ ν) (k : κ) :
    get? (d ++ d') k = (get? d k <|> get? d' k) := by
  induction d with
  | nil => simp
  | cons p d ih =>
    rw [List.cons_append, get?_cons, get?_cons, ih]
    split <;> simp

theorem get?_two (a b k : κ) (x y : ν) :
    get? [(a, x), (b, y)] k = if k = a then some x else if k = b then some y else none := by
  simp only [get?_cons, get?_nil, eq_comm (b := k)]

theorem set_of_not_mem (v : ν) (h : k ∉ d.keys) : set d k v = d ++ [(k, v)] := by
  induction d with
  | nil => rfl
  | cons p d ih =>
    obtain ⟨k', v'⟩ := p
    have hne : k' ≠ k := fun he => h (he ▸ List.mem_cons_self)
    rw [set, if_neg hne, ih fun hk => h (List.mem_cons_of_mem _ hk), List.cons_append]

theorem mem_set {e : κ × ν} (h : e ∈ set d k v) : e = (k, v) ∨ e ∈ d := by
  induction d with
  | nil => exact .inl (by simpa [set] using h)
  | cons p d ih =>
    unfold set at h
    split at h
    · exact (List.mem_cons.1 h).imp_right (List.mem_cons_of_mem p)
    · rcases List.mem_cons.1 h with rfl | h
      · exact .inr List.mem_cons_self
      · exact (ih h).imp_right (List.mem_cons_of_mem p)

theorem mem_keys_set {k' : κ} : k' ∈ (set d k v).keys ↔ k' = k ∨ k' ∈ d.keys := by
  induction d with
  | nil => simp [set, keys]
  | cons p d ih =>
    obtain ⟨k₁, v₁⟩ := p
    simp only [keys, List.map_cons, List.mem_cons] at ih ⊢
    unfold set
    split
    · next heq => simp [heq]
    · rw [List.map_cons, List.mem_cons, ih]
      exact or_left_comm

theorem nodup_keys_set (hd : d.keys.Nodup) : (set d k v).keys.Nodup := by
  induction d with
  | nil => simp [set, keys]
  | cons p d ih =>
    obtain ⟨hp, hd⟩ := List.nodup_cons.1 hd
    unfold set
    split
    · next heq => exact List.nodup_cons.2 ⟨heq ▸ hp, hd⟩
    · next hne =>
      refine List.nodup_cons.2 ⟨fun hmem => ?_, ih hd⟩
      exact (mem_keys_set.1 hmem).elim hne hp

theorem get?_of_mem (hd : d.keys.Nodup) (h : (k, v) ∈ d) : get? d k = some v := by
  induction d with
  | nil => cases h
  | cons p d ih =>
    obtain ⟨hp, hd⟩ := List.nodup_cons.1 hd
    rw [get?_cons]
    rcases List.mem_cons.1 h with rfl | h
    · exact if_pos rfl
    · have hne : p.1 ≠ k := by
        rintro rfl
        exact hp (List.mem_map.2 ⟨_, h, rfl⟩)
      rw [if_neg hne]
      exact ih hd h

theorem get?_eq_some_iff (hd : d.keys.Nodup) : get? d k = some v ↔ (k, v) ∈ d :=
  ⟨mem_of_get?, get?_of_mem hd⟩

theorem get?_perm {d' : Dict κ ν} (hd : d.keys.Nodup) (h : d'.Perm d) (k : κ) :
    get? d' k = get? d k := by
  have hd' : d'.keys.Nodup := (h.map Prod.fst).nodup_iff.2 hd
  ext v
  rw [get?_eq_some_iff hd, get?_eq_some_iff hd', h.mem_iff]

theorem perm_of_get? {d' : Dict κ ν} (hd : d.keys.Nodup) (hd' : d'.keys.Nodup)
    (h : ∀ k, get? d k = get? d' k) : d.Perm d' := by
  refine (List.perm_ext_iff_of_nodup (List.Nodup.of_map _ hd) (List.Nodup.of_map _ hd')).2
    fun ⟨k, v⟩ => ?_
  rw [← get?_eq_some_iff hd, ← get?_eq_some_iff hd', h]

theorem get?_map {μ : Type} (f : ν → μ) (d : Dict κ ν) (k : κ) :
    get? (d.map fun e => (e.1, f e.2)) k = (get? d k).map f := by
  induction d with
  | nil => rfl
  | cons p d ih =>
    rw [List.map_cons, get?_cons, get?_cons, ih]
    split <;> rfl

end Dict
end Archiviste
