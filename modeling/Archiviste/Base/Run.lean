import Mathlib.Data.List.Basic

/-!
# Archiviste.Base.Run

Runs of a step function over a list of inputs, and the two rules every invariant of this
development is proved with.

* `exec step s as`     — the state reached from `s` after the inputs `as`.
* `Always step P s as` — `P` holds in every state of the run, the first and the last included.
* `Along step C s as`  — every step of the run meets `C`, a condition on the state before the
  step and the input taken there.
* `Sometime step C s as` — some step of the run does.
* `sum step weight s as` — the sum of a weight over the steps of the run.

`always_of_inv` is the rule for an invariant that every step keeps; `always_of_along` is the
rule for an invariant that only the steps meeting a condition keep.
-/

namespace Archiviste.Run

variable {σ α : Type*}

def exec (step : σ → α → σ) : σ → List α → σ
  | s, [] => s
  | s, a :: as => exec step (step s a) as

def Always (step : σ → α → σ) (P : σ → Prop) : σ → List α → Prop
  | s, [] => P s
  | s, a :: as => P s ∧ Always step P (step s a) as

def Along (step : σ → α → σ) (C : σ → α → Prop) : σ → List α → Prop
  | _, [] => True
  | s, a :: as => C s a ∧ Along step C (step s a) as

def Sometime (step : σ → α → σ) (C : σ → α → Prop) : σ → List α → Prop
  | _, [] => False
  | s, a :: as => C s a ∨ Sometime step C (step s a) as

def sum (step : σ → α → σ) (weight : σ → α → Nat) : σ → List α → Nat
  | _, [] => 0
  | s, a :: as => weight s a + sum step weight (step s a) as

def collect {β : Type*} (step : σ → α → σ) (f : σ → α → Option β) : σ → List α → List β
  | _, [] => []
  | s, a :: as => (f s a).toList ++ collect step f (step s a) as

instance decidableAlong (step : σ → α → σ) (C : σ → α → Prop) [∀ s a, Decidable (C s a)] :
    (s : σ) → (as : List α) → Decidable (Along step C s as)
  | _, [] => .isTrue trivial
  | s, a :: as => @instDecidableAnd _ _ _ (decidableAlong step C (step s a) as)

variable {step : σ → α → σ} {P Q : σ → Prop} {C : σ → α → Prop}

@[simp] theorem exec_nil (s : σ) : exec step s [] = s := rfl

@[simp] theorem exec_cons (s : σ) (a : α) (as : List α) :
    exec step s (a :: as) = exec step (step s a) as := rfl

theorem exec_append (s : σ) (as bs : List α) :
    exec step s (as ++ bs) = exec step (exec step s as) bs := by
  induction as generalizing s with
  | nil => rfl
  | cons a as ih => exact ih (step s a)

theorem always_of_along (hstep : ∀ s a, P s → C s a → P (step s a)) :
    ∀ (as : List α) (s : σ), P s → Along step C s as → Always step P s as := by
  intro as
  induction as with
  | nil => intro s hs _; exact hs
  | cons a as ih =>
    intro s hs hc
    exact ⟨hs, ih (step s a) (hstep s a hs hc.1) hc.2⟩

variable {D : σ → α → Prop} {as : List α}

theorem Along.mono (h : ∀ s a, C s a → D s a) :
    ∀ {as : List α} {s : σ}, Along step C s as → Along step D s as := by
  intro as
  induction as with
  | nil => intro s _; trivial
  | cons a as ih => intro s hs; exact ⟨h s a hs.1, ih hs.2⟩

theorem Along.and :
    ∀ {as : List α} {s : σ}, Along step C s as → Along step D s as →
      Along step (fun s a => C s a ∧ D s a) s as := by
  intro as
  induction as with
  | nil => intro s _ _; trivial
  | cons a as ih => intro s hC hD; exact ⟨⟨hC.1, hD.1⟩, ih hC.2 hD.2⟩

theorem Along.exists {a : α} (ha : a ∈ as) : ∀ {s : σ}, Along step C s as → ∃ t, C t a := by
  induction as with
  | nil => cases ha
  | cons b as ih =>
    intro s h
    rcases List.mem_cons.1 ha with rfl | ha
    · exact ⟨s, h.1⟩
    · exact ih ha h.2

theorem Sometime.exists : ∀ {s : σ}, Sometime step C s as → ∃ t, ∃ a ∈ as, C t a := by
  induction as with
  | nil => intro s h; exact h.elim
  | cons a as ih =>
    intro s h
    rcases h with h | h
    · exact ⟨s, a, List.mem_cons_self, h⟩
    · obtain ⟨t, b, hb, hC⟩ := ih h
      exact ⟨t, b, List.mem_cons_of_mem a hb, hC⟩

theorem not_sometime_iff : ∀ {s : σ},
    ¬ Sometime step C s as ↔ Along step (fun s a => ¬ C s a) s as := by
  induction as with
  | nil => exact fun {s} => iff_of_true id trivial
  | cons a as ih =>
    intro s
    rw [Sometime, Along, not_or, ih]

theorem along_of_forall (h : ∀ a ∈ as, ∀ s, C s a) : ∀ s : σ, Along step C s as := by
  induction as with
  | nil => intro s; trivial
  | cons a as ih =>
    intro s
    exact ⟨h a List.mem_cons_self s, ih (fun b hb => h b (List.mem_cons_of_mem a hb)) _⟩

theorem sum_eq_zero_iff {weight : σ → α → Nat} : ∀ {s : σ},
    sum step weight s as = 0 ↔ Along step (fun s a => weight s a = 0) s as := by
  induction as with
  | nil => intro s; simp [sum, Along]
  | cons a as ih => intro s; rw [sum, Along, Nat.add_eq_zero_iff, ih]

theorem always_of_inv (hstep : ∀ s a, P s → P (step s a)) (as : List α) (s : σ) (hs : P s) :
    Always step P s as :=
  always_of_along (C := fun _ _ => True) (fun s a h _ => hstep s a h) as s hs
    (along_of_forall (fun _ _ _ => trivial) s)

theorem always_mono (hPQ : ∀ s, P s → Q s) :
    ∀ (as : List α) (s : σ), Always step P s as → Always step Q s as := by
  intro as
  induction as with
  | nil => intro s h; exact hPQ s h
  | cons a as ih => intro s h; exact ⟨hPQ s h.1, ih _ h.2⟩

theorem Always.last : ∀ {as : List α} {s : σ}, Always step P s as → P (exec step s as) := by
  intro as
  induction as with
  | nil => intro s h; exact h
  | cons a as ih => intro s h; exact ih h.2

theorem exec_inv (hstep : ∀ s a, P s → P (step s a)) (as : List α) (s : σ) (hs : P s) :
    P (exec step s as) :=
  (always_of_inv hstep as s hs).last

theorem exec_collect {β : Type*} {f : σ → α → Option β} {g : σ → List β}
    (hinv : ∀ s a, P s → P (step s a)) (hg : ∀ s a, P s → g (step s a) = g s ++ (f s a).toList) :
    ∀ (as : List α) (s : σ), P s → g (exec step s as) = g s ++ collect step f s as := by
  intro as
  induction as with
  | nil => intro s _; simp [exec, collect]
  | cons a as ih =>
    intro s hs
    rw [exec, ih _ (hinv s a hs), hg s a hs, collect, List.append_assoc]

theorem rank_exec (rank : σ → Nat) (hinv : ∀ s a, P s → P (step s a))
    (hrank : ∀ s a, P s → rank (step s a) ≤ rank s - 1) :
    ∀ (as : List α) (s : σ), P s → rank (exec step s as) ≤ rank s - as.length := by
  intro as
  induction as with
  | nil => intro s _; exact Nat.le_refl _
  | cons a as ih =>
    intro s hs
    have hnext := ih (step s a) (hinv s a hs)
    have hstep := hrank s a hs
    rw [exec_cons, List.length_cons]
    omega

end Archiviste.Run
