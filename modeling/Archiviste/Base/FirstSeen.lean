import Mathlib.Data.List.Nodup

/-!
# Archiviste.Base.FirstSeen

The distinct elements of a list in the order of their first appearance (`List.eraseDups`), and the
loop that collects them.

* `foldl_firstSeen`    — a loop that appends what it has not seen yet collects them.
* `position`           — the place of an element, counted from one; `map_position` numbers them.
-/

namespace Archiviste.FirstSeen

variable {α β : Type} [BEq α] [LawfulBEq α] [BEq β] [LawfulBEq β]

def keep (seen : List α) (a : α) : List α := if a ∈ seen then seen else seen ++ [a]

theorem foldl_keep (l seen : List α) :
    l.foldl keep seen = seen ++ (l.filter (· ∉ seen)).eraseDups := by
  induction l generalizing seen with
  | nil => simp
  | cons a l ih =>
    rw [List.foldl_cons, ih, keep]
    split
    · next ha => rw [List.filter_cons_of_neg (by simpa using ha)]
    · next ha =>
      have hrest : l.filter (· ∉ seen ++ [a]) = (l.filter (· ∉ seen)).filter (fun b => !b == a) := by
        rw [List.filter_filter]
        refine List.filter_congr fun b _ => ?_
        by_cases hb : b = a
        · simp [hb]
        · simp [hb, beq_false_of_ne hb]
      rw [List.filter_cons_of_pos (by simpa using ha), List.eraseDups_cons, hrest,
        List.append_assoc, List.singleton_append]

theorem foldl_firstSeen (l : List α) : l.foldl keep [] = l.eraseDups := by
  rw [foldl_keep]
  simp

variable {l : List α}

theorem nodup_foldl_keep {seen : List α} (h : seen.Nodup) : (l.foldl keep seen).Nodup := by
  induction l generalizing seen with
  | nil => exact h
  | cons a l ih =>
    rw [List.foldl_cons]
    refine ih ?_
    rw [keep]
    split
    · exact h
    · next ha =>
      refine List.nodup_append.mpr ⟨h, List.nodup_singleton a, fun b hb c hc heq => ha ?_⟩
      rw [← List.mem_singleton.mp hc, ← heq]
      exact hb

theorem nodup_eraseDups (l : List α) : l.eraseDups.Nodup := by
  rw [← foldl_firstSeen]
  exact nodup_foldl_keep List.nodup_nil

theorem eraseDups_of_nodup (h : l.Nodup) : l.eraseDups = l := by
  induction l with
  | nil => rfl
  | cons a l ih =>
    obtain ⟨ha, hl⟩ := List.nodup_cons.mp h
    rw [List.eraseDups_cons, List.filter_eq_self.mpr, ih hl]
    intro b hb
    have hne : b ≠ a := fun heq => ha (heq ▸ hb)
    simpa using hne

theorem eraseDups_map {f : α → β} (h : ∀ a ∈ l, ∀ b ∈ l, f a = f b → a = b) :
    (l.map f).eraseDups = l.eraseDups.map f := by
  have hloop : ∀ l seen : List α, (∀ a ∈ seen ++ l, ∀ b ∈ seen ++ l, f a = f b → a = b) →
      (l.map f).foldl keep (seen.map f) = (l.foldl keep seen).map f := by
    intro l
    induction l with
    | nil => intro seen _; rfl
    | cons a l ih =>
      intro seen hinj
      have hmem : f a ∈ seen.map f ↔ a ∈ seen := by
        refine ⟨fun hfa => ?_, List.mem_map_of_mem⟩
        obtain ⟨b, hb, heq⟩ := List.mem_map.mp hfa
        exact hinj b (by simp [hb]) a (by simp) heq ▸ hb
      have hstep : keep (seen.map f) (f a) = (keep seen a).map f := by
        by_cases ha : a ∈ seen
        · rw [keep, keep, if_pos ha, if_pos (hmem.mpr ha)]
        · rw [keep, keep, if_neg ha, if_neg (mt hmem.mp ha), List.map_append, List.map_singleton]
      rw [List.map_cons, List.foldl_cons, List.foldl_cons, hstep]
      have hsub : ∀ b ∈ keep seen a ++ l, b ∈ seen ++ a :: l := by
        intro b hb
        rw [keep] at hb
        split at hb
        · rcases List.mem_append.mp hb with hb | hb <;> simp [hb]
        · simpa using hb
      exact ih _ fun b hb c hc => hinj b (hsub b hb) c (hsub c hc)
  have := hloop l [] (by simpa using h)
  rw [List.map_nil, foldl_firstSeen, foldl_firstSeen] at this
  exact this

/-! ## Places -/

def position (l : List α) (a : α) : Nat := l.idxOf a + 1

theorem position_injective {a b : α} (ha : a ∈ l) (h : position l a = position l b) : a = b := by
  exact (List.idxOf_inj ha).mp (Nat.succ.inj h)

theorem map_position (h : l.Nodup) : l.map (position l) = (List.range l.length).map (· + 1) := by
  refine List.ext_getElem (by simp) fun i hi hi' => ?_
  simp only [List.getElem_map, List.getElem_range, position, Nat.add_right_cancel_iff]
  exact h.idxOf_getElem i _

end Archiviste.FirstSeen
