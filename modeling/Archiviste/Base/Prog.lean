import Archiviste.Base.Run
import Mathlib.Data.List.Basic

/-!
# Archiviste.Base.Prog

Imperative code that raises exceptions and mutates a state. An exception does not undo what was
done before it, so a run ends with a result and a state in either case.

`Triple P x Q E` is the partial-correctness judgement with one postcondition for each way to end:
from a state in `P`, a normal end meets `Q` and an end by an exception meets `E`. The rules below
follow the constructs the modelled code is written with; the loop rules carry an invariant indexed
by the elements still to be handled. `Within R x` bounds what a program does to the state, however
it ends, by a preorder `R`; `After R x S E` is about a program that comes after such steps. A loop
ends normally when every turn of it does (`forM_ends_iff`, `foldlM_ends_iff`); `gather` collects
what is seen at its turns. `Follows R x y` compares two programs: where `x` ends normally, `y` does,
and the states stay related.
-/

namespace Archiviste

abbrev Prog (σ ε α : Type) := ExceptT ε (StateM σ) α

namespace Prog

variable {σ ε α β : Type}

/-- How a program ends from a state, and the state it leaves. -/
def exec (x : Prog σ ε α) (s : σ) : Except ε α × σ := x.run.run s

@[simp] theorem exec_pure (a : α) (s : σ) : exec (pure a : Prog σ ε α) s = (.ok a, s) := rfl

@[simp] theorem exec_throw (e : ε) (s : σ) : exec (throw e : Prog σ ε α) s = (.error e, s) := rfl

@[simp] theorem exec_get (s : σ) : exec (get : Prog σ ε σ) s = (.ok s, s) := rfl

@[simp] theorem exec_modify (f : σ → σ) (s : σ) :
    exec (modify f : Prog σ ε Unit) s = (.ok (), f s) := rfl

theorem exec_bind (x : Prog σ ε α) (f : α → Prog σ ε β) (s : σ) :
    exec (x >>= f) s =
      match exec x s with
      | (.ok a, t) => exec (f a) t
      | (.error e, t) => (.error e, t) := by
  change (match x s with | (r, t) => ExceptT.bindCont f r t) = _
  rcases h : x s with ⟨_ | a, t⟩ <;> simp only [exec, ExceptT.run, StateT.run, h] <;> rfl

variable {x : Prog σ ε α} {f : α → Prog σ ε β} {s t : σ} {b : β} {body : α → Prog σ ε PUnit} {a : α}
  {as : List α}

theorem exec_bind_ok :
    exec (x >>= f) s = (.ok b, t) ↔
      ∃ a s₁, exec x s = (.ok a, s₁) ∧ exec (f a) s₁ = (.ok b, t) := by
  rw [exec_bind]
  rcases exec x s with ⟨e | a, s₁⟩ <;> simp

theorem exec_bind_error {e : ε} :
    exec (x >>= f) s = (.error e, t) ↔ exec x s = (.error e, t) ∨
      ∃ a s₁, exec x s = (.ok a, s₁) ∧ exec (f a) s₁ = (.error e, t) := by
  rw [exec_bind]
  rcases exec x s with ⟨e | a, s₁⟩ <;> simp

theorem exec_forM_ok (h : exec ((a :: as).forM body) s = (.ok (), t)) :
    ∃ s₁, exec (body a) s = (.ok (), s₁) ∧ exec (as.forM body) s₁ = (.ok (), t) := by
  obtain ⟨⟨⟩, s₁, hbody, hrest⟩ :=
    exec_bind_ok.mp (show exec (body a >>= fun _ => as.forM body) s = (.ok (), t) from h)
  exact ⟨s₁, hbody, hrest⟩

theorem exec_tryCatch (x : Prog σ ε α) (handle : ε → Prog σ ε α) (s : σ) :
    exec (tryCatch x handle) s =
      match exec x s with
      | (.ok a, t) => (.ok a, t)
      | (.error e, t) => exec (handle e) t := by
  simp only [tryCatch, tryCatchThe, MonadExceptOf.tryCatch, ExceptT.tryCatch, ExceptT.mk, exec,
    ExceptT.run, StateT.run, bind, StateT.bind]
  rcases x s with ⟨_ | a, t⟩ <;> rfl

def Triple (P : σ → Prop) (x : Prog σ ε α) (Q : α → σ → Prop) (E : ε → σ → Prop) : Prop :=
  ∀ s, P s →
    match exec x s with
    | (.ok a, t) => Q a t
    | (.error e, t) => E e t

namespace Triple

variable {P P' : σ → Prop} {Q Q' : α → σ → Prop} {R : β → σ → Prop} {E E' : ε → σ → Prop}
  {x : Prog σ ε α} {f : α → Prog σ ε β}

theorem conseq (h : Triple P x Q E) (hP : ∀ s, P' s → P s) (hQ : ∀ a s, Q a s → Q' a s)
    (hE : ∀ e s, E e s → E' e s) : Triple P' x Q' E' := by
  intro s hs
  have := h s (hP s hs)
  generalize exec x s = r at this ⊢
  obtain ⟨e | a, t⟩ := r
  · exact hE e t this
  · exact hQ a t this

theorem pure {a : α} (h : ∀ s, P s → Q a s) : Triple P (Pure.pure a) Q E := fun s hs => h s hs

theorem throw {e : ε} (h : ∀ s, P s → E e s) : Triple P (MonadExcept.throw e) Q E :=
  fun s hs => h s hs

theorem modify {g : σ → σ} {Q : Unit → σ → Prop} (h : ∀ s, P s → Q () (g s)) :
    Triple P (modifyThe σ g) Q E := fun s hs => h s hs

theorem bind (hx : Triple P x Q E) (hf : ∀ a, Triple (Q a) (f a) R E) :
    Triple P (x >>= f) R E := by
  intro s hs
  have := hx s hs
  rw [exec_bind]
  generalize exec x s = r at this ⊢
  obtain ⟨e | a, t⟩ := r
  · exact this
  · exact hf a t this

theorem get_bind {f : σ → Prog σ ε β} (h : ∀ s, P s → Triple (· = s) (f s) R E) :
    Triple P (get >>= f) R E := by
  intro s hs
  rw [exec_bind, exec_get]
  exact h s hs s rfl

theorem tryCatch {handle : ε → Prog σ ε α} (hx : Triple P x Q E')
    (hh : ∀ e, Triple (E' e) (handle e) Q E) : Triple P (tryCatch x handle) Q E := by
  intro s hs
  have := hx s hs
  rw [exec_tryCatch]
  generalize exec x s = r at this ⊢
  obtain ⟨e | a, t⟩ := r
  · exact hh e t this
  · exact this

variable {as : List α}

theorem foldlM {step : β → α → Prog σ ε β} {I : List α → β → σ → Prop}
    (h : ∀ a ∈ as, ∀ rest b, Triple (I (a :: rest) b) (step b a) (fun b' => I rest b') E) :
    ∀ b : β, Triple (I as b) (as.foldlM step b) (fun b' => I [] b') E := by
  induction as with
  | nil => exact fun b => pure fun _ hs => hs
  | cons a as ih =>
    exact fun b => bind (h a List.mem_cons_self as b)
      (ih fun a' ha' => h a' (List.mem_cons_of_mem a ha'))

theorem forM {body : α → Prog σ ε PUnit} {I : List α → σ → Prop}
    (h : ∀ a ∈ as, ∀ rest, Triple (I (a :: rest)) (body a) (fun _ => I rest) E) :
    Triple (I as) (as.forM body) (fun _ => I []) E := by
  induction as with
  | nil => exact pure fun _ hs => hs
  | cons a as ih =>
    exact bind (h a List.mem_cons_self as) fun _ => ih fun a' ha' => h a' (List.mem_cons_of_mem a ha')

end Triple

/-- However the program ends, the state it leaves is related to the one it started from. -/
def Within (R : σ → σ → Prop) (x : Prog σ ε α) : Prop := ∀ s, R s (exec x s).2

namespace Within

variable {R : σ → σ → Prop} {x : Prog σ ε α} {f : α → Prog σ ε β}

theorem modify {g : σ → σ} (h : ∀ s, R s (g s)) :
    Within R (modifyThe σ g : Prog σ ε PUnit) := h

theorem of_exec {s t : σ} {r : Except ε α} (hx : Within R x) (h : exec x s = (r, t)) : R s t := by
  have hs := hx s
  rw [h] at hs
  exact hs

theorem mono {S : σ → σ → Prop} (hx : Within R x) (h : ∀ s t, R s t → S s t) : Within S x :=
  fun s => h s _ (hx s)

variable {P : σ → Prop}

theorem triple {Q : σ → Prop} (hx : Within R x) (h : ∀ s t, P s → R s t → Q t) :
    Triple P x (fun _ => Q) (fun _ => Q) := by
  intro s hs
  have := h s _ hs (hx s)
  generalize exec x s = r at this ⊢
  obtain ⟨e | a, t⟩ := r <;> exact this

theorem keeps_bind {Q : β → σ → Prop} {E : ε → σ → Prop} (hx : Within R x)
    (hP : ∀ s t, P s → R s t → P t) (hE : ∀ e s, P s → E e s) (hf : ∀ a, Triple P (f a) Q E) :
    Triple P (x >>= f) Q E :=
  Triple.bind ((hx.triple hP).conseq (fun _ h => h) (fun _ _ h => h) hE) hf

theorem pure [Std.Refl R] {a : α} : Within R (Pure.pure a : Prog σ ε α) := fun s => Std.Refl.refl s

theorem throw [Std.Refl R] {e : ε} : Within R (MonadExcept.throw e : Prog σ ε α) :=
  fun s => Std.Refl.refl s

theorem get [Std.Refl R] : Within R (MonadState.get : Prog σ ε σ) := fun s => Std.Refl.refl s

section Transitive
variable [IsTrans σ R]

theorem bind (hx : Within R x) (hf : ∀ a, Within R (f a)) : Within R (x >>= f) := by
  intro s
  have := hx s
  rw [exec_bind]
  generalize exec x s = r at this ⊢
  obtain ⟨e | a, t⟩ := r
  · exact this
  · exact IsTrans.trans _ _ _ this (hf a t)

theorem tryCatch {handle : ε → Prog σ ε α} (hx : Within R x) (hh : ∀ e, Within R (handle e)) :
    Within R (tryCatch x handle) := by
  intro s
  have := hx s
  rw [exec_tryCatch]
  generalize exec x s = r at this ⊢
  obtain ⟨e | a, t⟩ := r
  · exact IsTrans.trans _ _ _ this (hh e t)
  · exact this

theorem foldlM [Std.Refl R] {step : β → α → Prog σ ε β} (h : ∀ b a, Within R (step b a)) :
    ∀ (as : List α) (b : β), Within R (as.foldlM step b) := by
  intro as
  induction as with
  | nil => exact fun b => pure
  | cons a as ih => exact fun b => bind (h b a) ih

theorem forM [Std.Refl R] {body : α → Prog σ ε PUnit} {as : List α}
    (h : ∀ a ∈ as, Within R (body a)) :
    Within R (as.forM body) := by
  induction as with
  | nil => exact pure
  | cons a as ih =>
    exact bind (h a List.mem_cons_self) fun _ => ih fun b hb => h b (List.mem_cons_of_mem a hb)

end Transitive
end Within

/-- From `R` steps after a first state, the program leaves a state that is related to the first by
`S` when it ends normally and by `E` when it raises. -/
def After (R : σ → σ → Prop) (x : Prog σ ε α) (S E : σ → σ → Prop) : Prop :=
  ∀ s₀, Triple (R s₀) x (fun _ => S s₀) fun _ => E s₀

theorem Within.after {R : σ → σ → Prop} [IsTrans σ R] (hx : Within R x) : After R x R R :=
  fun s₀ => hx.triple fun _ _ => IsTrans.trans s₀ _ _

theorem After.bind {R S T E E' : σ → σ → Prop} (hx : After R x T E')
    (hE : ∀ s t, E' s t → E s t) (hf : ∀ a, After T (f a) S E) : After R (x >>= f) S E :=
  fun s₀ => ((hx s₀).conseq (fun _ h => h) (fun _ _ h => h) fun _ => hE s₀).bind (hf · s₀)
/-! ## Loops as runs -/

def Succeeds (x : Prog σ ε α) (s : σ) : Prop := ∃ a t, exec x s = (.ok a, t)

@[simp] theorem succeeds_pure (a : α) (s : σ) : Succeeds (pure a : Prog σ ε α) s := ⟨a, s, rfl⟩

@[simp] theorem not_succeeds_throw (e : ε) (s : σ) : ¬ Succeeds (throw e : Prog σ ε α) s := by
  rintro ⟨a, t, h⟩
  cases h

@[simp] theorem succeeds_modify (f : σ → σ) (s : σ) :
    Succeeds (modify f : Prog σ ε Unit) s := ⟨(), f s, rfl⟩

theorem succeeds_bind : Succeeds (x >>= f) s ↔ ∃ a t, exec x s = (.ok a, t) ∧ Succeeds (f a) t := by
  constructor
  · rintro ⟨b, t, h⟩
    obtain ⟨a, s₁, hx, hf⟩ := exec_bind_ok.1 h
    exact ⟨a, s₁, hx, b, t, hf⟩
  · rintro ⟨a, s₁, hx, b, t, hf⟩
    exact ⟨b, t, exec_bind_ok.2 ⟨a, s₁, hx, hf⟩⟩

theorem succeeds_bind_of_ok (h : exec x s = (.ok a, t)) :
    Succeeds (x >>= f) s ↔ Succeeds (f a) t := by
  rw [succeeds_bind, h]
  simp

theorem succeeds_bind_of_succeeds (h : ∀ a t, Succeeds (f a) t) :
    Succeeds (x >>= f) s ↔ Succeeds x s := by
  rw [succeeds_bind]
  exact ⟨fun ⟨a, t, hx, _⟩ => ⟨a, t, hx⟩, fun ⟨a, t, hx⟩ => ⟨a, t, hx, h a t⟩⟩

theorem forM_ends_iff : ∀ {s : σ},
    Succeeds (as.forM body) s ↔
      Run.Along (fun s a => (exec (body a) s).2) (fun s a => Succeeds (body a) s) s as := by
  induction as with
  | nil => exact fun {s} => iff_of_true ⟨(), s, rfl⟩ trivial
  | cons a as ih =>
    intro s
    rw [Run.Along, ← ih]
    constructor
    · rintro ⟨⟨⟩, t, h⟩
      obtain ⟨s₁, hbody, hrest⟩ := exec_forM_ok h
      refine ⟨⟨(), s₁, hbody⟩, (), t, ?_⟩
      rw [hbody]
      exact hrest
    · rintro ⟨⟨⟨⟩, s₁, hbody⟩, ⟨⟩, t, hrest⟩
      rw [hbody] at hrest
      exact ⟨(), t, exec_bind_ok.2 ⟨(), s₁, hbody, hrest⟩⟩

def foldStep (step : β → α → Prog σ ε β) (s : σ × β) (a : α) : σ × β :=
  match exec (step s.2 a) s.1 with
  | (.ok b, t) => (t, b)
  | (.error _, t) => (t, s.2)

theorem foldlM_ends_iff {step : β → α → Prog σ ε β} : ∀ {s : σ} {b : β},
    Succeeds (as.foldlM step b) s ↔
      Run.Along (foldStep step) (fun s a => Succeeds (step s.2 a) s.1) (s, b) as := by
  induction as with
  | nil => exact fun {s b} => iff_of_true ⟨b, s, rfl⟩ trivial
  | cons a as ih =>
    intro s b
    rw [Run.Along]
    constructor
    · rintro ⟨b', t, h⟩
      obtain ⟨b₁, s₁, hstep, hrest⟩ := exec_bind_ok.1
        (show exec (step b a >>= fun b₁ => as.foldlM step b₁) s = (.ok b', t) from h)
      refine ⟨⟨b₁, s₁, hstep⟩, ?_⟩
      rw [foldStep, hstep]
      exact ih.1 ⟨b', t, hrest⟩
    · rintro ⟨⟨b₁, s₁, hstep⟩, hrest⟩
      rw [foldStep, hstep] at hrest
      obtain ⟨b', t, h⟩ := ih.2 hrest
      exact ⟨b', t, exec_bind_ok.2 ⟨b₁, s₁, hstep, h⟩⟩

def gather (body : α → Prog σ ε PUnit) (note : α → σ → List β) : List α → σ → List β
  | [], _ => []
  | a :: as, s =>
    note a s ++
      match exec (body a) s with
      | (.ok _, t) => gather body note as t
      | (.error _, _) => []

theorem mem_gather {note : α → σ → List β} :
    ∀ {s : σ}, b ∈ gather body note as s → ∃ a ∈ as, ∃ t, b ∈ note a t := by
  induction as with
  | nil => intro s h; cases h
  | cons a as ih =>
    intro s h
    rcases List.mem_append.mp h with h | h
    · exact ⟨a, List.mem_cons_self, s, h⟩
    · split at h
      · obtain ⟨a', ha', t, hb⟩ := ih h
        exact ⟨a', List.mem_cons_of_mem a ha', t, hb⟩
      · cases h

/-! ## Programs that follow each other -/

/-- From related states, where the first program ends normally the second one does, with the same
result and in related states. -/
def Follows (R : σ → σ → Prop) (x y : Prog σ ε α) : Prop :=
  ∀ s t, R s t → ∀ a s', exec x s = (.ok a, s') → ∃ t', exec y t = (.ok a, t') ∧ R s' t'

namespace Follows

variable {R : σ → σ → Prop} {x y : Prog σ ε α}

theorem pure {a : α} : Follows R (Pure.pure a : Prog σ ε α) (Pure.pure a) := by
  rintro s t hR a' s' ⟨⟩
  exact ⟨t, rfl, hR⟩

theorem throw {e : ε} : Follows R (MonadExcept.throw e : Prog σ ε α) y := by
  rintro s t hR a s' ⟨⟩

theorem modify {f g : σ → σ} (h : ∀ s t, R s t → R (f s) (g t)) :
    Follows R (modifyThe σ f : Prog σ ε PUnit) (modifyThe σ g) := by
  rintro s t hR a s' ⟨⟩
  exact ⟨g t, rfl, h s t hR⟩

theorem bind {f g : α → Prog σ ε β} (hx : Follows R x y) (hf : ∀ a, Follows R (f a) (g a)) :
    Follows R (x >>= f) (y >>= g) := by
  intro s t hR b s' h
  obtain ⟨a, s₁, hs₁, hs'⟩ := exec_bind_ok.1 h
  obtain ⟨t₁, ht₁, hR₁⟩ := hx s t hR a s₁ hs₁
  obtain ⟨t', ht', hR'⟩ := hf a s₁ t₁ hR₁ b s' hs'
  exact ⟨t', exec_bind_ok.2 ⟨a, t₁, ht₁, ht'⟩, hR'⟩

theorem foldlM {step step' : β → α → Prog σ ε β} (h : ∀ b a, Follows R (step b a) (step' b a)) :
    ∀ (as : List α) (b : β), Follows R (as.foldlM step b) (as.foldlM step' b) := by
  intro as
  induction as with
  | nil => exact fun b => pure
  | cons a as ih => exact fun b => bind (h b a) ih

variable {body body' : α → Prog σ ε PUnit} {as : List α}

theorem forM (h : ∀ a ∈ as, Follows R (body a) (body' a)) :
    Follows R (as.forM body) (as.forM body') := by
  induction as with
  | nil => exact pure
  | cons a as ih =>
    exact bind (h a List.mem_cons_self) fun _ => ih fun b hb => h b (List.mem_cons_of_mem a hb)

theorem forM_along {C : σ → α → Prop}
    (h : ∀ a s t s', R s t → C s a → exec (body a) s = (.ok (), s') →
      ∃ t', exec (body' a) t = (.ok (), t') ∧ R s' t') : ∀ {s t s' : σ}, R s t →
    Run.Along (fun s a => (exec (body a) s).2) C s as → exec (as.forM body) s = (.ok (), s') →
    ∃ t', exec (as.forM body') t = (.ok (), t') ∧ R s' t' := by
  induction as with
  | nil =>
    rintro s t s' hR - ⟨⟩
    exact ⟨t, rfl, hR⟩
  | cons a as ih =>
    intro s t s' hR hC hrun
    obtain ⟨s₁, hs₁, hrest⟩ := exec_forM_ok hrun
    obtain ⟨t₁, ht₁, hR₁⟩ := h a s t s₁ hR hC.1 hs₁
    have hstep : (exec (body a) s).2 = s₁ := congrArg Prod.snd hs₁
    have hC₁ : Run.Along (fun s a => (exec (body a) s).2) C s₁ as := hstep ▸ hC.2
    obtain ⟨t', ht', hR'⟩ := ih hR₁ hC₁ hrest
    exact ⟨t', exec_bind_ok.2 ⟨(), t₁, ht₁, ht'⟩, hR'⟩

end Follows

end Prog
end Archiviste
