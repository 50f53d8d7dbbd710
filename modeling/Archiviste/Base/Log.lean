import Mathlib.Data.List.Nodup

/-!
# Archiviste.Base.Log

Logs that only grow at their end, and the order in which two entries were written.

* `Before l a b`  — an entry `a` of the log stands before an entry `b`.
* `Before.lt`     — in a log without repetitions it is the order of the positions.
-/

namespace Archiviste.Log

variable {α : Type*}

def Before (l : List α) (a b : α) : Prop := [a, b].Sublist l

instance [DecidableEq α] (l : List α) (a b : α) : Decidable (Before l a b) :=
  inferInstanceAs (Decidable ([a, b].Sublist l))

variable {l : List α} {a b : α}

theorem Before.mem_left (h : Before l a b) : a ∈ l :=
  List.Sublist.subset h (by simp)

theorem Before.mem_right (h : Before l a b) : b ∈ l :=
  List.Sublist.subset h (by simp)

theorem before_concat {c : α} : Before (l ++ [c]) a b ↔ Before l a b ∨ a ∈ l ∧ b = c := by
  constructor
  · intro h
    obtain ⟨l₁, l₂, heq, h₁, h₂⟩ := List.sublist_append_iff.mp h
    rcases l₂ with _ | ⟨x, _ | ⟨y, l₂⟩⟩
    · rw [List.append_nil] at heq
      subst heq
      exact .inl h₁
    · -- the last entry is the later one of the two
      obtain ⟨rfl, hb⟩ : [a] = l₁ ∧ b = x := by
        rcases l₁ with _ | ⟨z, _ | ⟨w, l₁⟩⟩ <;> simp at heq ⊢
        exact ⟨heq.1, heq.2⟩
      rw [List.singleton_sublist] at h₁
      rw [List.singleton_sublist, List.mem_singleton] at h₂
      exact .inr ⟨h₁, hb.trans h₂⟩
    · have := h₂.length_le
      simp at this
  · rintro (h | ⟨ha, rfl⟩)
    · exact h.trans (List.sublist_append_left l [c])
    · exact (List.singleton_sublist.mpr ha).append (List.Sublist.refl [b])

theorem Before.filter (h : Before l a b) {p : α → Bool} (ha : p a) (hb : p b) :
    Before (l.filter p) a b := by
  have hfilter : ([a, b].filter p).Sublist (l.filter p) := List.Sublist.filter p h
  rwa [List.filter_cons_of_pos ha, List.filter_cons_of_pos hb] at hfilter

theorem Before.lt (hl : l.Nodup) (h : Before l a b) {i j : Nat} (hi : l[i]? = some a)
    (hj : l[j]? = some b) : i < j := by
  have hpos : l.Pairwise fun x y => ∀ i j : Nat, l[i]? = some x → l[j]? = some y → i < j := by
    rw [List.pairwise_iff_getElem]
    intro m n hm hn hmn i j hi hj
    obtain ⟨hi', hi⟩ := List.getElem?_eq_some_iff.mp hi
    obtain ⟨hj', hj⟩ := List.getElem?_eq_some_iff.mp hj
    rw [(List.Nodup.getElem_inj_iff hl).mp hi, (List.Nodup.getElem_inj_iff hl).mp hj]
    exact hmn
  exact List.pairwise_iff_forall_sublist.mp hpos h i j hi hj

theorem before_of_lt {i j : Nat} (hij : i < j) (hi : l[i]? = some a) (hj : l[j]? = some b) :
    Before l a b := by
  obtain ⟨hi', rfl⟩ := List.getElem?_eq_some_iff.mp hi
  obtain ⟨hj', rfl⟩ := List.getElem?_eq_some_iff.mp hj
  have hpairs : l.Pairwise (Before l) := List.pairwise_iff_forall_sublist.mpr id
  exact List.pairwise_iff_getElem.mp hpairs i j hi' hj' hij

theorem before_or_before (ha : a ∈ l) (hb : b ∈ l) (hne : a ≠ b) : Before l a b ∨ Before l b a := by
  obtain ⟨i, hi⟩ := List.getElem?_of_mem ha
  obtain ⟨j, hj⟩ := List.getElem?_of_mem hb
  rcases Nat.lt_trichotomy i j with hij | rfl | hij
  · exact .inl (before_of_lt hij hi hj)
  · rw [hi] at hj
    exact absurd (Option.some.inj hj) hne
  · exact .inr (before_of_lt hij hj hi)

theorem Before.asymm (hl : l.Nodup) (h : Before l a b) : ¬ Before l b a := by
  intro h'
  obtain ⟨i, hi⟩ := List.getElem?_of_mem h.mem_left
  obtain ⟨j, hj⟩ := List.getElem?_of_mem h.mem_right
  exact absurd (h.lt hl hi hj) (Nat.lt_asymm (h'.lt hl hj hi))

theorem before_cons {c : α} : Before (c :: l) a b ↔ (a = c ∧ b ∈ l) ∨ Before l a b := by
  constructor
  · intro h
    cases h with
    | cons _ h => exact .inr h
    | cons_cons _ h => exact .inl ⟨rfl, List.singleton_sublist.mp h⟩
  · rintro (⟨rfl, hb⟩ | h)
    · exact (List.singleton_sublist.mpr hb).cons_cons a
    · exact h.cons c

end Archiviste.Log
