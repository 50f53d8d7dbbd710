import Archiviste.Base.Run
import Archiviste.Base.Text

/-!
# Archiviste.Gateway.Throttle

The login throttle. Times are nanoseconds of one monotonic clock, and every call reads it once;
the failure count is a `u32`, which wraps.

An entry stands for one window of failures: it opens with a failure, closes 15 minutes later, and
takes every failure in between. The lock is anchored at the fifth failure of the window, so it ends
when the window closes, before 15 minutes have passed since that failure, and a sixth failure does
not move it.

* `windowStep`, `entryOf` — the windows themselves, and the entry that stands for one.
* `storeAfter_eq` — the store is the entry of the window the calls leave open.
* `isThrottled_sound` — a lock is never reported without five failures inside 15 minutes.
* `throttle_spec_iff` — the lock lasts 15 minutes from the last of five failures exactly when the
  window covers it.
-/

namespace Archiviste.Gateway

def second : Nat := 1000000000

def maxFailures : Nat := 5

@[irreducible] def u32Size : Nat := 2 ^ 32

theorem u32Size_eq : u32Size = 2 ^ 32 := by unfold u32Size; rfl

def window : Nat := 15 * 60 * second

structure FailureEntry where
  count : Nat
  firstFailAt : Nat
  fifthFailAt : Option Nat
  deriving DecidableEq, Repr

abbrev ThrottleStore := Text → Option FailureEntry

namespace ThrottleStore

variable (emailKey : Text → Text)

def new : ThrottleStore := fun _ => none

/-- `map.insert(key, entry)`, or `map.remove(key)` for `none`. -/
def put (s : ThrottleStore) (key : Text) (entry : Option FailureEntry) : ThrottleStore :=
  fun k => if k = key then entry else s k

/-- The answer, and the store after the expired entries are removed. -/
def isThrottled (s : ThrottleStore) (email : Text) (now : Nat) : Option Nat × ThrottleStore :=
  match s (emailKey email) with
  | none => (none, s)
  | some entry =>
    if window < now - entry.firstFailAt then (none, s.put (emailKey email) none)
    else
      match entry.fifthFailAt with
      | none => (none, s)
      | some fifth =>
        if window ≤ now - fifth then (none, s.put (emailKey email) none)
        else if maxFailures ≤ entry.count then
          (some (max ((window - (now - fifth)) / second) 1), s)
        else (none, s)

def openEntry (stored : Option FailureEntry) (now : Nat) : FailureEntry :=
  let entry := stored.getD ⟨0, now, none⟩
  if window < now - entry.firstFailAt then ⟨0, now, none⟩ else entry

def countFailure (entry : FailureEntry) (now : Nat) : FailureEntry :=
  let count := (entry.count + 1) % u32Size
  { entry with
    count := count
    fifthFailAt := if count = maxFailures then some now else entry.fifthFailAt }

def recordFailure (s : ThrottleStore) (email : Text) (now : Nat) : ThrottleStore :=
  s.put (emailKey email) (some (countFailure (openEntry (s (emailKey email)) now) now))

def recordSuccess (s : ThrottleStore) (email : Text) : ThrottleStore := s.put (emailKey email) none

end ThrottleStore

/-! ## Calls for one email -/

inductive ThrottleCall where
  | recordFailure
  | recordSuccess
  | isThrottled
  deriving DecidableEq, Repr

structure TimedCall where
  at_ : Nat
  call : ThrottleCall
  deriving DecidableEq, Repr

section
variable (emailKey : Text → Text) (email : Text)

def throttleStep (s : ThrottleStore) (c : TimedCall) : ThrottleStore :=
  match c.call with
  | .recordFailure => s.recordFailure emailKey email c.at_
  | .recordSuccess => s.recordSuccess emailKey email
  | .isThrottled => (s.isThrottled emailKey email c.at_).2

def storeAfter (calls : List TimedCall) : ThrottleStore :=
  Run.exec (throttleStep emailKey email) ThrottleStore.new calls

def failureStep (fs : List Nat) (c : TimedCall) : List Nat :=
  match c.call with
  | .recordFailure => fs ++ [c.at_]
  | .recordSuccess => []
  | .isThrottled => fs

def failuresAfter (calls : List TimedCall) : List Nat := Run.exec failureStep [] calls

end

/-! ## Windows -/

/-- The failure the lock is anchored at: the fifth, until the count has wrapped. -/
def lockAnchor (ws : List Nat) : Option Nat :=
  if ws.length < maxFailures then none
  else ws[(ws.length - maxFailures) / u32Size * u32Size + 4]?

def windowExpired (ws : List Nat) (now : Nat) : Bool :=
  match ws with
  | [] => false
  | first :: _ => window < now - first

def lockExpired (ws : List Nat) (now : Nat) : Bool :=
  match lockAnchor ws with
  | none => false
  | some fifth => window ≤ now - fifth

def windowStep (ws : List Nat) (c : TimedCall) : List Nat :=
  match c.call with
  | .recordFailure => if windowExpired ws c.at_ then [c.at_] else ws ++ [c.at_]
  | .recordSuccess => []
  | .isThrottled => if windowExpired ws c.at_ || lockExpired ws c.at_ then [] else ws

def windowAfter (calls : List TimedCall) : List Nat := Run.exec windowStep [] calls

def entryOf (ws : List Nat) : Option FailureEntry :=
  ws.head?.map fun first => ⟨ws.length % u32Size, first, lockAnchor ws⟩

theorem lockAnchor_concat (ws : List Nat) (now : Nat) :
    lockAnchor (ws ++ [now]) =
      if (ws.length % u32Size + 1) % u32Size = maxFailures then some now else lockAnchor ws := by
  unfold lockAnchor maxFailures
  rw [u32Size_eq]
  rw [List.length_append, List.length_singleton]
  by_cases h5 : ws.length + 1 < 5
  · have hne : (ws.length % 2 ^ 32 + 1) % 2 ^ 32 ≠ 5 := by omega
    rw [if_pos h5, if_neg hne, if_pos (by omega)]
  · rw [if_neg h5]
    by_cases hm : (ws.length % 2 ^ 32 + 1) % 2 ^ 32 = 5
    · have hi : (ws.length + 1 - 5) / 2 ^ 32 * 2 ^ 32 + 4 = ws.length := by omega
      rw [if_pos hm, hi]
      simp
    · -- the anchor stays where it was
      have hi : (ws.length + 1 - 5) / 2 ^ 32 * 2 ^ 32 + 4 = (ws.length - 5) / 2 ^ 32 * 2 ^ 32 + 4 := by
        omega
      rw [if_neg hm, if_neg (by omega), hi, List.getElem?_append_left (by omega)]

theorem countFailure_fresh (now : Nat) :
    some (ThrottleStore.countFailure ⟨0, now, none⟩ now) = entryOf [now] := by
  have h : 1 % u32Size = 1 := by simp [u32Size_eq]
  simp [entryOf, ThrottleStore.countFailure, lockAnchor, maxFailures, h]

section
variable (emailKey : Text → Text) (email : Text)

variable {s : ThrottleStore} {ws : List Nat}

theorem recordFailure_entry (h : s (emailKey email) = entryOf ws) (now : Nat) :
    s.recordFailure emailKey email now (emailKey email) =
      entryOf (if windowExpired ws now then [now] else ws ++ [now]) := by
  simp only [ThrottleStore.recordFailure, ThrottleStore.put, if_true, h]
  cases ws with
  | nil =>
    have ho : ThrottleStore.openEntry (entryOf []) now = ⟨0, now, none⟩ := by
      simp [ThrottleStore.openEntry, entryOf]
    rw [ho, countFailure_fresh]
    rfl
  | cons first rest =>
    by_cases hx : window < now - first
    · have ho : ThrottleStore.openEntry (entryOf (first :: rest)) now = ⟨0, now, none⟩ := if_pos hx
      have hw : windowExpired (first :: rest) now = true := decide_eq_true hx
      rw [ho, countFailure_fresh, hw, if_pos rfl]
    · have hc := lockAnchor_concat (first :: rest) now
      simp only [List.cons_append, List.length_cons] at hc
      simp only [entryOf, windowExpired, hx, decide_false, Bool.false_eq_true, if_false,
        ThrottleStore.openEntry, ThrottleStore.countFailure, List.head?_cons, Option.map_some,
        Option.getD_some, List.cons_append, List.length_cons, List.length_append, hc]
      simp

theorem isThrottled_entry (h : s (emailKey email) = entryOf ws) (now : Nat) :
    (s.isThrottled emailKey email now).2 (emailKey email) =
      entryOf (if windowExpired ws now || lockExpired ws now then [] else ws) := by
  unfold ThrottleStore.isThrottled
  rw [h]
  cases ws with
  | nil => simp [entryOf, windowExpired, lockExpired, lockAnchor, h]
  | cons first rest =>
    have he : entryOf (first :: rest) =
        some ⟨(first :: rest).length % u32Size, first, lockAnchor (first :: rest)⟩ := rfl
    by_cases hx : window < now - first
    · have hw : windowExpired (first :: rest) now = true := by simp [windowExpired, hx]
      simp [hx, hw, ThrottleStore.put, entryOf]
    · have hw : windowExpired (first :: rest) now = false := by simp [windowExpired, hx]
      cases hl : lockAnchor (first :: rest) with
      | none =>
        have hf : lockExpired (first :: rest) now = false := by simp [lockExpired, hl]
        simp [he, hx, hw, hf, hl, h]
      | some fifth =>
        by_cases hle : window ≤ now - fifth
        · have hf : lockExpired (first :: rest) now = true := by simp [lockExpired, hl, hle]
          simp [hx, hw, hf, hl, hle, ThrottleStore.put, entryOf]
        · have hf : lockExpired (first :: rest) now = false := by simp [lockExpired, hl, hle]
          rw [he, hw, hf]
          simp only [hx, hl, hle, if_false, Bool.or_self, Bool.false_eq_true]
          split <;> exact h

theorem throttleStep_entry (h : s (emailKey email) = entryOf ws) (c : TimedCall) :
    throttleStep emailKey email s c (emailKey email) = entryOf (windowStep ws c) := by
  cases hc : c.call with
  | recordFailure =>
    simpa only [throttleStep, windowStep, hc] using recordFailure_entry emailKey email h c.at_
  | recordSuccess =>
    simp [throttleStep, windowStep, hc, ThrottleStore.recordSuccess, ThrottleStore.put, entryOf]
  | isThrottled =>
    simpa only [throttleStep, windowStep, hc] using isThrottled_entry emailKey email h c.at_

theorem exec_entry (calls : List TimedCall) :
    ∀ (s : ThrottleStore) (ws : List Nat), s (emailKey email) = entryOf ws →
      Run.exec (throttleStep emailKey email) s calls (emailKey email) =
        entryOf (Run.exec windowStep ws calls) := by
  induction calls with
  | nil => intro s ws h; exact h
  | cons c cs ih => intro s ws h; exact ih _ _ (throttleStep_entry emailKey email h c)

theorem storeAfter_eq (calls : List TimedCall) :
    storeAfter emailKey email calls (emailKey email) = entryOf (windowAfter calls) :=
  exec_entry emailKey email calls ThrottleStore.new [] rfl

end

/-! ## Windows and failures -/

/-- The window holds the last of the failures since the last success, all within 15 minutes of the
first of them. -/
structure WindowInv (fs ws : List Nat) : Prop where
  suffix : ws <:+ fs
  inside : ∀ first ∈ ws.head?, ∀ x ∈ ws, first ≤ x ∧ x ≤ first + window

variable {fs ws : List Nat} {c : TimedCall} {t fifth : Nat}

theorem WindowInv.step (h : WindowInv fs ws) (hle : ∀ x ∈ fs, x ≤ c.at_) :
    WindowInv (failureStep fs c) (windowStep ws c) := by
  cases hc : c.call with
  | recordSuccess => simp only [failureStep, windowStep, hc]; exact ⟨by simp, by simp⟩
  | isThrottled =>
    simp only [failureStep, windowStep, hc]
    split
    · exact ⟨by simp, by simp⟩
    · exact h
  | recordFailure =>
    simp only [failureStep, windowStep, hc]
    split
    · exact ⟨List.suffix_append fs [c.at_], by simp⟩
    · rename_i hopen
      refine ⟨?_, ?_⟩
      · obtain ⟨pre, rfl⟩ := h.suffix
        exact ⟨pre, by simp⟩
      · cases ws with
        | nil => simp
        | cons first rest =>
          have hfirst : first ≤ c.at_ := hle _ (h.suffix.subset (by simp))
          simp only [windowExpired, decide_eq_true_eq] at hopen
          intro f hf x hx
          obtain rfl : first = f := by simpa using hf
          rcases List.mem_append.mp hx with hx | hx
          · exact h.inside first (by simp) x hx
          · obtain rfl := List.mem_singleton.mp hx
            omega

theorem mem_failureStep {x : Nat} (h : x ∈ failureStep fs c) : x ∈ fs ∨ x = c.at_ := by
  unfold failureStep at h
  cases hc : c.call <;> simp only [hc] at h
  · simpa using h
  · simp at h
  · exact .inl h

def InOrder (calls : List TimedCall) (t : Nat) : Prop :=
  calls.Pairwise (fun c d => c.at_ ≤ d.at_) ∧ ∀ c ∈ calls, c.at_ ≤ t

instance (calls : List TimedCall) (t : Nat) : Decidable (InOrder calls t) :=
  inferInstanceAs (Decidable (_ ∧ _))

theorem window_run (calls : List TimedCall) :
    ∀ fs ws : List Nat, WindowInv fs ws → (∀ x ∈ fs, x ≤ t ∧ ∀ c ∈ calls, x ≤ c.at_) →
      InOrder calls t →
      WindowInv (Run.exec failureStep fs calls) (Run.exec windowStep ws calls) ∧
        ∀ x ∈ Run.exec failureStep fs calls, x ≤ t := by
  induction calls with
  | nil => intro fs ws h hle _; exact ⟨h, fun x hx => (hle x hx).1⟩
  | cons c cs ih =>
    intro fs ws h hle ho
    obtain ⟨hc, hp⟩ := List.pairwise_cons.mp ho.1
    refine ih _ _ (h.step fun x hx => (hle x hx).2 c (by simp)) ?_
      ⟨hp, fun d hd => ho.2 d (by simp [hd])⟩
    intro x hx
    rcases mem_failureStep hx with hx | rfl
    · exact ⟨(hle x hx).1, fun d hd => (hle x hx).2 d (by simp [hd])⟩
    · exact ⟨ho.2 c (by simp), hc⟩

theorem windowAfter_inv {calls : List TimedCall} (ho : InOrder calls t) :
    WindowInv (failuresAfter calls) (windowAfter calls) ∧ ∀ x ∈ failuresAfter calls, x ≤ t :=
  window_run calls [] [] ⟨by simp, by simp⟩ (by simp) ho

theorem lockAnchor_some (h : lockAnchor ws = some fifth) : 5 ≤ ws.length ∧ fifth ∈ ws := by
  unfold lockAnchor maxFailures at h
  split at h
  · cases h
  · exact ⟨by omega, List.mem_of_getElem? h⟩

theorem lockAnchor_last (hsorted : ws.Pairwise (· ≤ ·)) (hlen : ws.length ≤ 5)
    (h : lockAnchor ws = some fifth) : ∀ x ∈ ws, x ≤ fifth := by
  obtain ⟨hfive, -⟩ := lockAnchor_some h
  have hfour : ws[4]? = some fifth := by
    unfold lockAnchor maxFailures at h
    rw [if_neg (by omega), show ws.length - 5 = 0 by omega] at h
    simpa using h
  obtain ⟨hlt, hlast⟩ := List.getElem?_eq_some_iff.mp hfour
  intro x hx
  obtain ⟨i, hi, rfl⟩ := List.mem_iff_getElem.mp hx
  rcases Nat.lt_or_ge i 4 with hi4 | hi4
  · rw [← hlast]
    exact List.pairwise_iff_getElem.mp hsorted i 4 hi hlt hi4
  · obtain rfl : i = 4 := by omega
    exact Nat.le_of_eq hlast

/-! ## When a lock is reported -/

/-- Whole seconds until 15 minutes after `anchor`, at least one. -/
def secondsLeft (anchor t : Nat) : Nat := max ((anchor + window - t) / second) 1

def FiveInSpan (fs : List Nat) : Prop :=
  ∃ ts : List Nat, ts.Sublist fs ∧ ts.length = 5 ∧ ∃ a, ∀ x ∈ ts, a ≤ x ∧ x ≤ a + window

/-- The calls end in five failures, with no success after them, at most 15 minutes apart, and `t`
is less than 15 minutes after the last of them. -/
def FiveThenWait (calls : List TimedCall) (t t₅ : Nat) : Prop :=
  ∃ pre t₁ t₂ t₃ t₄, failuresAfter calls = pre ++ [t₁, t₂, t₃, t₄, t₅] ∧ t₅ - t₁ ≤ window ∧
    t₅ ≤ t ∧ t < t₅ + window

/-- The window is open at `t` and has counted five failures, and its anchor leaves as many whole
seconds as the failure at `t₅`. -/
def WindowCovers (ws : List Nat) (t t₅ : Nat) : Prop :=
  ∃ first fifth, ws.head? = some first ∧ lockAnchor ws = some fifth ∧
    maxFailures ≤ ws.length % u32Size ∧ t ≤ first + window ∧ t < fifth + window ∧
    secondsLeft t₅ t = secondsLeft fifth t

section
variable (emailKey : Text → Text) (email : Text)

variable {s : ThrottleStore} {ws : List Nat} {now t : Nat} {calls : List TimedCall}

theorem isThrottled_eq_some_iff (h : s (emailKey email) = entryOf ws) (hle : ∀ x ∈ ws, x ≤ now)
    (n : Nat) :
    (s.isThrottled emailKey email now).1 = some n ↔
      ∃ first fifth, ws.head? = some first ∧ lockAnchor ws = some fifth ∧
        maxFailures ≤ ws.length % u32Size ∧ now ≤ first + window ∧ now < fifth + window ∧
        n = secondsLeft fifth now := by
  unfold ThrottleStore.isThrottled
  rw [h]
  cases ws with
  | nil => simp [entryOf]
  | cons first rest =>
    simp only [entryOf, List.head?_cons, Option.map_some, Option.some.injEq, exists_and_left,
      exists_eq_left']
    by_cases hw : window < now - first
    · have hlate : ¬ now ≤ first + window := by omega
      rw [if_pos hw]
      simp [hlate]
    · have hopen : now ≤ first + window := by omega
      rw [if_neg hw]
      cases hl : lockAnchor (first :: rest) with
      | none => simp
      | some fifth =>
        have hf : fifth ≤ now := hle fifth (lockAnchor_some hl).2
        have hrem : window - (now - fifth) = fifth + window - now := by omega
        by_cases hx : window ≤ now - fifth
        · have hlate : ¬ now < fifth + window := by omega
          simp [hx, hlate]
        · have hlt : now < fifth + window := by omega
          by_cases hn : maxFailures ≤ (first :: rest).length % u32Size
          · simp only [hx, hn, hrem, if_false, if_true, Option.some.injEq, exists_eq_left', hopen,
              hlt, true_and, secondsLeft, eq_comm]
          · simp only [hx, hn, if_false, reduceCtorEq, false_and, and_false, exists_false]

/-- A check that lets a login pass leaves room for a failure in the window. -/
theorem isThrottled_room (h : s (emailKey email) = entryOf ws) (hle : ∀ x ∈ ws, x ≤ now)
    (hlen : ws.length ≤ 5) (hpass : (s.isThrottled emailKey email now).1 = none) :
    (windowStep ws ⟨now, .isThrottled⟩).length ≤ 4 := by
  simp only [windowStep]
  split
  · simp
  · next hopen =>
    by_contra hfull
    obtain ⟨first, rest, rfl⟩ : ∃ first rest, ws = first :: rest :=
      List.exists_cons_of_length_pos (by omega)
    have hfive : (first :: rest).length = 5 := by omega
    obtain ⟨fifth, hfifth⟩ : ∃ fifth, lockAnchor (first :: rest) = some fifth := by
      unfold lockAnchor maxFailures
      rw [hfive, if_neg (by decide), Nat.sub_self, Nat.zero_div, Nat.zero_mul, Nat.zero_add]
      exact ⟨_, List.getElem?_eq_getElem (by omega)⟩
    simp only [windowExpired, lockExpired, hfifth, Bool.or_eq_true, decide_eq_true_eq] at hopen
    have hcount : maxFailures ≤ (first :: rest).length % u32Size := by
      rw [hfive, u32Size_eq]
      decide
    have hlocked := (isThrottled_eq_some_iff emailKey email h hle (secondsLeft fifth now)).mpr
      ⟨first, fifth, rfl, hfifth, hcount, by omega, by omega, rfl⟩
    rw [hpass] at hlocked
    cases hlocked

theorem isThrottled_after (ho : InOrder calls t) (n : Nat) :
    ((storeAfter emailKey email calls).isThrottled emailKey email t).1 = some n ↔
      ∃ first fifth, (windowAfter calls).head? = some first ∧
        lockAnchor (windowAfter calls) = some fifth ∧
        maxFailures ≤ (windowAfter calls).length % u32Size ∧ t ≤ first + window ∧
        t < fifth + window ∧ n = secondsLeft fifth t := by
  obtain ⟨hinv, hle⟩ := windowAfter_inv ho
  exact isThrottled_eq_some_iff emailKey email (storeAfter_eq emailKey email calls)
    (fun x hx => hle x (hinv.suffix.subset hx)) n

theorem isThrottled_sound {n : Nat} (ho : InOrder calls t)
    (h : ((storeAfter emailKey email calls).isThrottled emailKey email t).1 = some n) :
    FiveInSpan (failuresAfter calls) := by
  obtain ⟨first, fifth, hfirst, hf, -, -, -, -⟩ := (isThrottled_after emailKey email ho n).mp h
  have hinv := (windowAfter_inv ho).1
  have hlen := (lockAnchor_some hf).1
  exact ⟨(windowAfter calls).take 5, (List.take_sublist 5 _).trans hinv.suffix.sublist,
    by simp [hlen], first, fun x hx => hinv.inside first hfirst x (List.mem_of_mem_take hx)⟩

/-- The documented throttle, at one moment: 15 minutes from the last of five failures, and never
without five failures. -/
structure ThrottleSpec (calls : List TimedCall) (t : Nat) : Prop where
  locked : ∀ t₅, FiveThenWait calls t t₅ →
    ((storeAfter emailKey email calls).isThrottled emailKey email t).1 = some (secondsLeft t₅ t)
  sound : ∀ n, ((storeAfter emailKey email calls).isThrottled emailKey email t).1 = some n →
    FiveInSpan (failuresAfter calls)

/-- After every sequence of calls the documented throttle holds at `t` exactly when the window the
calls leave open covers the lock. -/
theorem throttle_spec_iff (calls : List TimedCall) (t : Nat) (ho : InOrder calls t) :
    ThrottleSpec emailKey email calls t ↔
      ∀ t₅, FiveThenWait calls t t₅ → WindowCovers (windowAfter calls) t t₅ := by
  constructor
  · intro h t₅ h₅
    exact (isThrottled_after emailKey email ho _).mp (h.locked t₅ h₅)
  · intro h
    refine ⟨fun t₅ h₅ => ?_, fun n hn => isThrottled_sound emailKey email ho hn⟩
    exact (isThrottled_after emailKey email ho _).mpr (h t₅ h₅)

end

def minute : Nat := 60 * second

def failuresAt (times : List Nat) : List TimedCall := times.map fun t => ⟨t, .recordFailure⟩

/-- Five failures in one minute lock the email at the second minute. -/
theorem throttle_spec_sample :
    ThrottleSpec id [] (failuresAt [0, second, 2 * second, 3 * second, minute]) (2 * minute) := by
  refine (throttle_spec_iff id [] _ _ (by decide +kernel)).mpr ?_
  rintro t₅ ⟨pre, t₁, t₂, t₃, t₄, h, -, -, -⟩
  have hlast := congrArg List.getLast? h
  have hfive : t₅ = minute := by
    simpa [failuresAfter, failuresAt, failureStep] using hlast.symm
  subst hfive
  exact ⟨0, minute, by decide +kernel, by decide +kernel, by decide +kernel, by decide +kernel,
    by decide +kernel, rfl⟩

/-- One failure, four more ten minutes later: after sixteen minutes the window has closed, and the
lock with it, nine minutes early. -/
theorem throttle_spec_fails :
    let calls := failuresAt [0, 10 * minute, 10 * minute, 10 * minute, 10 * minute]
    FiveThenWait calls (16 * minute) (10 * minute) ∧
      ((storeAfter id [] calls).isThrottled id [] (16 * minute)).1 = none ∧
      ¬ ThrottleSpec id [] calls (16 * minute) := by
  intro calls
  have hfive : FiveThenWait calls (16 * minute) (10 * minute) :=
    ⟨[], 0, 10 * minute, 10 * minute, 10 * minute, by decide +kernel, by decide +kernel,
      by decide +kernel, by decide +kernel⟩
  have hnone : ((storeAfter id [] calls).isThrottled id [] (16 * minute)).1 = none := by
    decide +kernel
  refine ⟨hfive, hnone, fun h => ?_⟩
  rw [h.locked _ hfive] at hnone
  cases hnone

end Archiviste.Gateway
