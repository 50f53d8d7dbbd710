import Mathlib.Data.List.Basic

/-!
# Archiviste.Base.Eff

Effectful code as a trace of the effects it performs, in order, and a result: a value or an
exception. A generator is code whose effects include the values it yields. After an exception
nothing more is performed, and what was performed stays performed.
-/

namespace Archiviste

/-- Effects `E`, exceptions `ε`, result `α`. -/
structure Eff (E ε α : Type) where
  trace : List E
  result : Except ε α

namespace Eff

variable {E ε α β : Type}

def done (a : α) : Eff E ε α := ⟨[], .ok a⟩

def raise (e : ε) : Eff E ε α := ⟨[], .error e⟩

def perform (e : E) : Eff E ε Unit := ⟨[e], .ok ()⟩

def performAll (es : List E) : Eff E ε Unit := ⟨es, .ok ()⟩

def andThen (x : Eff E ε α) (f : α → Eff E ε β) : Eff E ε β :=
  match x.result with
  | .ok a => ⟨x.trace ++ (f a).trace, (f a).result⟩
  | .error e => ⟨x.trace, .error e⟩

instance : Monad (Eff E ε) where
  pure := done
  bind := andThen

@[simp] theorem pure_eq (a : α) : (pure a : Eff E ε α) = ⟨[], .ok a⟩ := rfl

@[simp] theorem raise_eq (e : ε) : (raise e : Eff E ε α) = ⟨[], .error e⟩ := rfl

@[simp] theorem perform_eq (e : E) : (perform e : Eff E ε Unit) = ⟨[e], .ok ()⟩ := rfl

@[simp] theorem performAll_eq (es : List E) : (performAll es : Eff E ε Unit) = ⟨es, .ok ()⟩ := rfl

@[simp] theorem bind_ok (t : List E) (a : α) (f : α → Eff E ε β) :
    ((⟨t, .ok a⟩ : Eff E ε α) >>= f) = ⟨t ++ (f a).trace, (f a).result⟩ := rfl

@[simp] theorem bind_error (t : List E) (e : ε) (f : α → Eff E ε β) :
    ((⟨t, .error e⟩ : Eff E ε α) >>= f) = ⟨t, .error e⟩ := rfl

variable {x : Eff E ε α}

theorem result_bind_eq_ok {f : α → Eff E ε β} {b : β} :
    (x >>= f).result = .ok b ↔ ∃ a, x.result = .ok a ∧ (f a).result = .ok b := by
  rcases x with ⟨t, e | a⟩
  · simp
  · simp

theorem result_bind_of_ok {a : α} (h : x.result = .ok a) (f : α → Eff E ε β) :
    (x >>= f).result = (f a).result := by
  rcases x with ⟨t, r⟩
  cases h
  rfl

theorem result_bind_of_error {e : ε} (h : x.result = .error e) (f : α → Eff E ε β) :
    (x >>= f).result = .error e := by
  rcases x with ⟨t, r⟩
  cases h
  rfl

/-! ## Reading a trace -/

/-- The effects of one kind, in order: those on which `f` is defined. -/
def reads (f : E → Option β) (t : List E) : List β := t.filterMap f

variable (f : E → Option β)

@[simp] theorem reads_nil : reads f [] = [] := rfl

@[simp] theorem reads_cons (e : E) (t : List E) : reads f (e :: t) = (f e).toList ++ reads f t := by
  cases h : f e <;> simp [reads, h]

@[simp] theorem reads_append (t u : List E) : reads f (t ++ u) = reads f t ++ reads f u :=
  List.filterMap_append

theorem reads_prefix {t u : List E} (h : t <+: u) : reads f t <+: reads f u :=
  h.filterMap f

end Eff
end Archiviste
