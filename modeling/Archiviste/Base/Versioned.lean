import Mathlib.Logic.Function.Basic

/-!
# Archiviste.Base.Versioned

A store of versioned objects with conditional writes. Every write gives the object a fresh
generation, and a write may ask for the generation it expects, 0 standing for an absent object.

A reader that holds a value and its generation has `Seen` them: as long as the object still has that
generation, it still has that value. Every write keeps this, so a conditional write based on what was
seen replaces exactly the value that was read.

* `Seen.of_download`, `Seen.put` — reading establishes it, and any write of anyone keeps it.
* `Seen.current` — a conditional write that succeeds replaces the value seen.
-/

namespace Archiviste

structure Versioned (β : Type*) where
  value : β
  generation : Nat
  deriving DecidableEq

structure Bucket (κ β : Type*) where
  cell : κ → Option (Versioned β)
  next : Nat

namespace Bucket

variable {κ β : Type*}

def empty : Bucket κ β := ⟨fun _ => none, 1⟩

def generationAt (b : Bucket κ β) (k : κ) : Nat :=
  match b.cell k with
  | none => 0
  | some o => o.generation

structure WellFormed (b : Bucket κ β) : Prop where
  next_pos : 0 < b.next
  generation_pos : ∀ k o, b.cell k = some o → 0 < o.generation
  generation_lt : ∀ k o, b.cell k = some o → o.generation < b.next

theorem wellFormed_empty : (empty : Bucket κ β).WellFormed where
  next_pos := Nat.one_pos
  generation_pos := by intro k o h; cases h
  generation_lt := by intro k o h; cases h

variable {b : Bucket κ β} {k : κ} {g : Nat} {v : β}

theorem WellFormed.cell_none (h : b.WellFormed) (hk : b.generationAt k = 0) : b.cell k = none := by
  cases hc : b.cell k with
  | none => rfl
  | some o =>
    have hpos := h.generation_pos k o hc
    rw [generationAt, hc] at hk
    exact absurd hk (Nat.ne_of_gt hpos)

def remove (b : Bucket κ β) (p : κ → Bool) : Bucket κ β where
  cell := fun k => if p k then none else b.cell k
  next := b.next

variable [DecidableEq κ]

def put (b : Bucket κ β) (k : κ) (v : β) : Bucket κ β where
  cell := Function.update b.cell k (some ⟨v, b.next⟩)
  next := b.next + 1

/-- A write that succeeds iff the object has generation `g`. -/
def upload (b : Bucket κ β) (k : κ) (g : Nat) (v : β) : Option (Bucket κ β) :=
  if b.generationAt k = g then some (b.put k v) else none

@[simp] theorem put_cell_self (b : Bucket κ β) (k : κ) (v : β) :
    (b.put k v).cell k = some ⟨v, b.next⟩ := by
  simp [put]

@[simp] theorem put_cell_ne (b : Bucket κ β) {k' : κ} (v : β) (h : k' ≠ k) :
    (b.put k v).cell k' = b.cell k' := by
  simp [put, h]

theorem upload_eq_some {b' : Bucket κ β} :
    b.upload k g v = some b' ↔ b.generationAt k = g ∧ b' = b.put k v := by
  unfold upload
  split
  · next h => simp [h, eq_comm]
  · next h => simp [h]

theorem WellFormed.put (h : b.WellFormed) (k : κ) (v : β) : (b.put k v).WellFormed where
  next_pos := Nat.succ_pos _
  generation_pos := by
    intro k' o ho
    by_cases hk : k' = k
    · subst hk
      rw [put_cell_self] at ho
      cases ho
      exact h.next_pos
    · rw [put_cell_ne _ _ hk] at ho
      exact h.generation_pos k' o ho
  generation_lt := by
    intro k' o ho
    by_cases hk : k' = k
    · subst hk
      rw [put_cell_self] at ho
      cases ho
      exact Nat.lt_succ_self _
    · rw [put_cell_ne _ _ hk] at ho
      exact Nat.lt_succ_of_lt (h.generation_lt k' o ho)

/-- Someone read `v` at generation `g`: whenever the object has that generation, it has that
value. -/
structure Seen (b : Bucket κ β) (k : κ) (v : β) (g : Nat) : Prop where
  pos : 0 < g
  lt_next : g < b.next
  value_eq : ∀ o, b.cell k = some o → o.generation = g → o.value = v

omit [DecidableEq κ] in
theorem Seen.of_download (h : b.WellFormed) {o : Versioned β} (ho : b.cell k = some o) :
    b.Seen k o.value o.generation where
  pos := h.generation_pos k o ho
  lt_next := h.generation_lt k o ho
  value_eq := by
    intro o' ho' _
    rw [ho] at ho'
    cases ho'
    rfl

theorem Seen.put (h : b.Seen k v g) (k' : κ) (v' : β) : (b.put k' v').Seen k v g where
  pos := h.pos
  lt_next := Nat.lt_succ_of_lt h.lt_next
  value_eq := by
    intro o ho hg
    by_cases hk : k = k'
    · subst hk
      rw [put_cell_self] at ho
      cases ho
      -- The new generation is past every generation seen.
      exact absurd hg (Nat.ne_of_gt h.lt_next)
    · rw [put_cell_ne _ _ hk] at ho
      exact h.value_eq o ho hg

omit [DecidableEq κ] in
theorem Seen.current (h : b.Seen k v g) (hg : b.generationAt k = g) : b.cell k = some ⟨v, g⟩ := by
  unfold generationAt at hg
  cases hc : b.cell k with
  | none =>
    rw [hc] at hg
    exact absurd hg (Nat.ne_of_lt h.pos)
  | some o =>
    rw [hc] at hg
    have hv := h.value_eq o hc hg
    rw [← hv, ← hg]

end Bucket
end Archiviste
