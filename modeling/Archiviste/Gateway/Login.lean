import Mathlib.Data.List.Induction
import Mathlib.Logic.Function.Basic
import Archiviste.Base.Run
import Archiviste.Gateway.Session
import Archiviste.Gateway.Throttle

/-!
# Archiviste.Gateway.Login

Logins for one email, any number at a time. A login gives way between the check of the throttle, the
lookup of the user with the verification of the password, the record of the outcome and the creation of
the session; the other logins take their steps there.

* `loginStep`    — the next step of one login, at a time the run says.
* `login_alone`  — a login that nobody interrupts is `login`.
* `AtMostFive`   — the purpose of the throttle, stated on the log of the verifications.
* `LoginInv`     — what holds while the checks are made alone and no window closes over a recent failure.
-/

namespace Archiviste.Gateway

inductive LoginPhase where
  | start
  | checked
  | verified (user : Option (Uuid × String))
  | recorded (userId : Uuid) (tier : String)
  | done (r : Response)

/-- The gateway's state and clock, the position of every login, the failures that the throttle's
entry counts, and the verifications with their time and whether they succeeded. -/
structure LoginSystem (ι : Type) where
  world : World
  now : Nat
  phase : ι → LoginPhase
  window : List Nat
  verifications : List (Nat × Bool)

def LoginSystem.init {ι : Type} : LoginSystem ι := ⟨World.init, 0, fun _ => .start, [], []⟩

section
variable {ι : Type} [DecidableEq ι]

def LoginSystem.goto (s : LoginSystem ι) (k : ι) (p : LoginPhase) : LoginSystem ι :=
  { s with phase := Function.update s.phase k p }

def LoginSystem.throttle (s : LoginSystem ι) (cfg : AuthConfig) (email : Text) (c : ThrottleCall) :
    LoginSystem ι :=
  { s with
    world := { s.world with throttle := throttleStep cfg.emailKey email s.world.throttle ⟨s.now, c⟩ }
    window := windowStep s.window ⟨s.now, c⟩ }

def advance (cfg : AuthConfig) (i : LoginInput) (k : ι) (s : LoginSystem ι) : LoginSystem ι :=
  let email := cfg.normaliseEmail i.email
  match s.phase k with
  | .start =>
    (s.throttle cfg email .isThrottled).goto k
      (match (s.world.throttle.isThrottled cfg.emailKey email s.now).1 with
        | some retryAfter => .done (.throttled retryAfter)
        | none => .checked)
  | .checked =>
    match verifyCredentialsWithTiming cfg i with
    | .error () => s.goto k (.done .unavailable)
    | .ok user =>
      { s.goto k (.verified user) with verifications := s.verifications ++ [(s.now, user.isSome)] }
  | .verified none => (s.throttle cfg email .recordFailure).goto k (.done .invalidCredentials)
  | .verified (some (userId, tier)) =>
    (s.throttle cfg email .recordSuccess).goto k (.recorded userId tier)
  | .recorded userId tier =>
    let r := createAndSign cfg s.world userId tier i
    { s.goto k (.done r.2) with world := r.1 }
  | .done _ => s

def loginStep (cfg : AuthConfig) (logins : ι → LoginInput) (s : LoginSystem ι) (a : ι × Nat) :
    LoginSystem ι :=
  advance cfg (logins a.1) a.1 { s with now := s.now + a.2 }

theorem login_alone (cfg : AuthConfig) (logins : ι → LoginInput) (s : LoginSystem ι) (k : ι)
    (hstart : s.phase k = .start) (d₁ d₂ d₃ d₄ : Nat) :
    let s' := Run.exec (loginStep cfg logins) s [(k, d₁), (k, d₂), (k, d₃), (k, d₄)]
    let r := login cfg s.world
      { logins k with checkAt := s.now + d₁, failAt := s.now + d₁ + d₂ + d₃ }
    s'.world = r.1 ∧ s'.phase k = .done r.2 := by
  simp only [Run.exec_cons, Run.exec_nil, loginStep, login]
  have hcheck : verifyCredentialsWithTiming cfg
      { logins k with checkAt := s.now + d₁, failAt := s.now + d₁ + d₂ + d₃ } =
        verifyCredentialsWithTiming cfg (logins k) := rfl
  rw [hcheck]
  cases hthrottled : (s.world.throttle.isThrottled cfg.emailKey
      (cfg.normaliseEmail (logins k).email) (s.now + d₁)).1 with
  | some retryAfter =>
    simp [advance, hstart, hthrottled, LoginSystem.throttle, LoginSystem.goto, throttleStep]
  | none =>
    cases hverify : verifyCredentialsWithTiming cfg (logins k) with
    | error e =>
      simp [advance, hstart, hthrottled, hverify, LoginSystem.throttle, LoginSystem.goto,
        throttleStep]
    | ok user =>
      rcases user with _ | ⟨userId, tier⟩
      · simp [advance, hstart, hthrottled, hverify, LoginSystem.throttle, LoginSystem.goto,
          throttleStep]
      · simp [advance, hstart, hthrottled, hverify, LoginSystem.throttle, LoginSystem.goto,
          throttleStep, createAndSign, createSession]

end

/-! ## What the throttle is for -/

def within (a t : Nat) : Bool := a ≤ t && t < a + window

/-- In any 15 minutes without a success at most five verifications fail. -/
def AtMostFive (log : List (Nat × Bool)) : Prop :=
  ∀ a, (∀ v ∈ log, v.2 = true → within a v.1 = false) →
    (log.filter fun v => !v.2 && within a v.1).length ≤ 5

def failing (log : List (Nat × Bool)) : List Nat :=
  log.foldl (fun fs v => if v.2 then [] else fs ++ [v.1]) []

def recent (fs : List Nat) (t : Nat) : List Nat := fs.filter fun x => t < x + window

theorem failing_concat (log : List (Nat × Bool)) (v : Nat × Bool) :
    failing (log ++ [v]) = if v.2 then [] else failing log ++ [v.1] := by
  simp [failing, List.foldl_append]

variable {log : List (Nat × Bool)} {t : Nat}

theorem AtMostFive.success (h : AtMostFive log) (t : Nat) : AtMostFive (log ++ [(t, true)]) := by
  intro a hquiet
  rw [List.filter_append]
  simpa using h a fun v hv => hquiet v (List.mem_append_left _ hv)

/-- Where no success lies within the 15 minutes up to `t`, the failures there are recent ones since
the last success. -/
theorem filter_within_sublist {a : Nat} (hsorted : log.Pairwise fun v w => v.1 ≤ w.1)
    (hpast : ∀ v ∈ log, v.1 ≤ t) (hlt : t < a + window)
    (hquiet : ∀ v ∈ log, v.2 = true → within a v.1 = false) :
    (log.filter fun v => !v.2 && within a v.1).length ≤ (recent (failing log) t).length := by
  induction log using List.reverseRecOn with
  | nil => simp
  | append_singleton log v ih =>
    obtain ⟨hsorted', -, hlast⟩ := List.pairwise_append.mp hsorted
    have hle : ∀ w ∈ log, w.1 ≤ v.1 := fun w hw => hlast w hw v (List.mem_singleton_self v)
    have hv : v.1 ≤ t := hpast v (by simp)
    obtain ⟨at_, ok⟩ := v
    cases ok with
    | true =>
      -- the success lies before these 15 minutes, and so does all before it
      have hout := hquiet (at_, true) (by simp) rfl
      have hnone : ∀ w ∈ log ++ [(at_, true)], ¬ ((!w.2 && within a w.1) = true) := by
        intro w hw
        rcases List.mem_append.mp hw with hw | hw
        · have hwle := hle w hw
          simp only [within, Bool.and_eq_true, Bool.not_eq_true', decide_eq_true_eq,
            Bool.and_eq_false_iff, decide_eq_false_iff_not] at hout ⊢
          dsimp only at hv hwle
          omega
        · simp [List.mem_singleton.mp hw]
      rw [List.filter_eq_nil_iff.mpr hnone]
      simp
    | false =>
      have hih := ih hsorted' (fun w hw => hpast w (by simp [hw])) fun w hw => hquiet w (by simp [hw])
      rw [failing_concat, List.filter_append, recent]
      simp only [Bool.false_eq_true, if_false, List.filter_append, List.length_append]
      rw [recent] at hih
      refine Nat.add_le_add hih ?_
      by_cases hin : within a at_ = true
      · have hrecent : t < at_ + window := by
          simp only [within, Bool.and_eq_true, decide_eq_true_eq] at hin
          omega
        simp [hin, hrecent]
      · simp [hin]

theorem AtMostFive.failure (h : AtMostFive log) (hsorted : log.Pairwise fun v w => v.1 ≤ w.1)
    (hpast : ∀ v ∈ log, v.1 ≤ t) (hroom : (recent (failing log) t).length ≤ 4) :
    AtMostFive (log ++ [(t, false)]) := by
  intro a hquiet
  have hquiet' : ∀ v ∈ log, v.2 = true → within a v.1 = false :=
    fun v hv => hquiet v (List.mem_append_left _ hv)
  rw [List.filter_append, List.length_append]
  by_cases hin : within a t = true
  · have hlt : t < a + window := by
      simp only [within, Bool.and_eq_true, decide_eq_true_eq] at hin
      exact hin.2
    have hold := filter_within_sublist hsorted hpast hlt hquiet'
    simp only [List.filter_cons, hin, Bool.not_false, Bool.and_self, if_true, List.filter_nil,
      List.length_singleton]
    omega
  · have hold := h a hquiet'
    simpa [hin] using hold

/-! ## Failures and the window -/

/-- The recent ones among the failures `fs` are no more than the window counts, and one that is
recent is no later than a record in the window. -/
structure Counted (fs ws : List Nat) (now : Nat) : Prop where
  count : ∀ t, now ≤ t → (recent fs t).length ≤ ws.length
  record : ∀ x ∈ fs, x + window ≤ now ∨ ∃ r ∈ ws, x ≤ r

namespace Counted

variable {fs ws : List Nat} {now t : Nat}

theorem later (h : Counted fs ws now) (ht : now ≤ t) : Counted fs ws t where
  count := fun t' ht' => h.count t' (Nat.le_trans ht ht')
  record := fun x hx => (h.record x hx).imp_left fun hold => Nat.le_trans hold ht

theorem reset (h : Counted fs ws now) (ht : now ≤ t) (hold : ∀ r ∈ ws, r + window ≤ t) :
    Counted fs [] t := by
  have hall : ∀ x ∈ fs, x + window ≤ t := by
    intro x hx
    rcases h.record x hx with hx | ⟨r, hr, hxr⟩
    · exact Nat.le_trans hx ht
    · have := hold r hr
      omega
  refine ⟨fun t' ht' => ?_, fun x hx => .inl (hall x hx)⟩
  have hnone : recent fs t' = [] := by
    refine List.filter_eq_nil_iff.mpr fun x hx => ?_
    have := hall x hx
    simp only [decide_eq_true_eq]
    omega
  rw [hnone]

theorem concat (h : Counted fs ws t) {x : Nat} (hx : x ≤ t) : Counted (fs ++ [x]) (ws ++ [t]) t where
  count := by
    intro t' ht'
    have hcount := h.count t' ht'
    have hone : (recent [x] t').length ≤ 1 := List.length_filter_le _ [x]
    simp only [recent, List.filter_append, List.length_append, List.length_singleton] at hcount hone ⊢
    omega
  record := by
    intro y hy
    rcases List.mem_append.mp hy with hy | hy
    · rcases h.record y hy with hold | ⟨r, hr, hyr⟩
      · exact .inl hold
      · exact .inr ⟨r, List.mem_append_left _ hr, hyr⟩
    · obtain rfl := List.mem_singleton.mp hy
      exact .inr ⟨t, by simp, hx⟩

end Counted

/-- The window does not close over a failure of the last 15 minutes. -/
def Whole (ws : List Nat) (t : Nat) : Prop := windowExpired ws t → ∀ r ∈ ws, r + window ≤ t

instance (ws : List Nat) (t : Nat) : Decidable (Whole ws t) :=
  inferInstanceAs (Decidable (_ → ∀ r ∈ ws, _))

section
variable {fs ws : List Nat} {now t : Nat}

theorem Counted.check (h : Counted fs ws now) (ht : now ≤ t) (hwhole : Whole ws t)
    (hsorted : ws.Pairwise (· ≤ ·)) (hlen : ws.length ≤ 5) :
    Counted fs (windowStep ws ⟨t, .isThrottled⟩) t := by
  simp only [windowStep]
  split
  · next hdropped =>
    rcases Bool.or_eq_true _ _ ▸ hdropped with hexpired | hexpired
    · exact h.reset ht (hwhole hexpired)
    · refine h.reset ht fun r hr => ?_
      unfold lockExpired at hexpired
      split at hexpired
      · cases hexpired
      · next fifth hfifth =>
        have hlast := lockAnchor_last hsorted hlen hfifth r hr
        have hpast : 0 < window := by decide
        simp only [decide_eq_true_eq] at hexpired
        omega
  · exact h.later ht

theorem Counted.failure (h : Counted fs ws now) (ht : now ≤ t) (hwhole : Whole ws t) {x : Nat}
    (hx : x ≤ t) : Counted (fs ++ [x]) (windowStep ws ⟨t, .recordFailure⟩) t := by
  simp only [windowStep]
  split
  · next hexpired => exact (h.reset ht (hwhole hexpired)).concat hx
  · exact (h.later ht).concat hx

variable {c : ThrottleCall}

theorem windowStep_le (h : ∀ x ∈ ws, x ≤ t) : ∀ x ∈ windowStep ws ⟨t, c⟩, x ≤ t := by
  intro x hx
  cases c with
  | recordSuccess => cases hx
  | recordFailure =>
    simp only [windowStep] at hx
    split at hx
    · exact Nat.le_of_eq (List.mem_singleton.mp hx)
    · rcases List.mem_append.mp hx with hx | hx
      · exact h x hx
      · exact Nat.le_of_eq (List.mem_singleton.mp hx)
  | isThrottled =>
    simp only [windowStep] at hx
    split at hx
    · cases hx
    · exact h x hx

theorem windowStep_sorted (hle : ∀ x ∈ ws, x ≤ t) (h : ws.Pairwise (· ≤ ·)) :
    (windowStep ws ⟨t, c⟩).Pairwise (· ≤ ·) := by
  cases c with
  | recordSuccess => exact .nil
  | recordFailure =>
    simp only [windowStep]
    split
    · exact List.pairwise_singleton _ _
    · refine List.pairwise_append.mpr ⟨h, List.pairwise_singleton _ _, fun x hx y hy => ?_⟩
      rw [List.mem_singleton.mp hy]
      exact hle x hx
  | isThrottled =>
    simp only [windowStep]
    split
    · exact .nil
    · exact h

end

/-! ## Any number of logins -/

def LoginPhase.underway : LoginPhase → Bool
  | .checked => true
  | .verified _ => true
  | _ => false

/-- A check is made when no other login is under way, and neither a check nor the record of a
failure finds a window that has closed over a failure of the last 15 minutes. -/
def Ready {ι : Type} (s : LoginSystem ι) : LoginPhase → Prop
  | .start => (∀ j, (s.phase j).underway = false) ∧ Whole s.window s.now
  | .verified none => Whole s.window s.now
  | _ => True

section
variable {ι : Type} {cfg : AuthConfig} {email : Text}

structure Tracked (cfg : AuthConfig) (email : Text) (s : LoginSystem ι) : Prop where
  entry : s.world.throttle (cfg.emailKey email) = entryOf s.window
  sorted : s.window.Pairwise (· ≤ ·)
  past : ∀ x ∈ s.window, x ≤ s.now

variable {s s' : LoginSystem ι} {k : ι} {p : LoginPhase}

theorem Tracked.throttle (h : Tracked cfg email s) (c : ThrottleCall) :
    Tracked cfg email (s.throttle cfg email c) where
  entry := throttleStep_entry cfg.emailKey email h.entry ⟨s.now, c⟩
  sorted := windowStep_sorted h.past h.sorted
  past := windowStep_le h.past

structure LoginInv (cfg : AuthConfig) (email : Text) (s : LoginSystem ι) : Prop where
  tracked : Tracked cfg email s
  length : s.window.length ≤ 5
  log : s.verifications.Pairwise fun v w => v.1 ≤ w.1
  logPast : ∀ v ∈ s.verifications, v.1 ≤ s.now
  bounded : AtMostFive s.verifications
  solo : ∀ j k, (s.phase j).underway → (s.phase k).underway → j = k
  room : ∀ k, (s.phase k).underway → s.window.length ≤ 4
  cleared : ∀ k user, s.phase k = .verified (some user) → failing s.verifications = []
  counted : ∃ fs, Counted fs s.window s.now ∧ ((failing s.verifications).Sublist fs ∨
    (∃ k, s.phase k = .verified none) ∧ ∃ x ≤ s.now, (failing s.verifications).Sublist (fs ++ [x]))

theorem LoginInv.later (h : LoginInv cfg email s) (d : Nat) :
    LoginInv cfg email { s with now := s.now + d } where
  tracked := ⟨h.tracked.entry, h.tracked.sorted,
    fun x hx => Nat.le_trans (h.tracked.past x hx) (Nat.le_add_right _ _)⟩
  length := h.length
  log := h.log
  logPast := fun v hv => Nat.le_trans (h.logPast v hv) (Nat.le_add_right _ _)
  bounded := h.bounded
  solo := h.solo
  room := h.room
  cleared := h.cleared
  counted := by
    obtain ⟨fs, hcounted, hfs⟩ := h.counted
    refine ⟨fs, hcounted.later (Nat.le_add_right _ _), hfs.imp_right ?_⟩
    rintro ⟨hpending, x, hx, hsub⟩
    exact ⟨hpending, x, Nat.le_trans hx (Nat.le_add_right _ _), hsub⟩

theorem LoginInv.counted_of (h : LoginInv cfg email s) (hnone : ∀ k, s.phase k ≠ .verified none) :
    ∃ fs, Counted fs s.window s.now ∧ (failing s.verifications).Sublist fs := by
  obtain ⟨fs, hcounted, hsub | ⟨⟨k, hk⟩, -⟩⟩ := h.counted
  · exact ⟨fs, hcounted, hsub⟩
  · exact absurd hk (hnone k)

theorem LoginInv.others (h : LoginInv cfg email s) (hk : (s.phase k).underway) :
    ∀ j, j ≠ k → (s.phase j).underway = false :=
  fun j hj => Bool.eq_false_iff.mpr fun hunder => hj (h.solo j k hunder hk)

variable [DecidableEq ι]

theorem Tracked.goto (h : Tracked cfg email s) (k : ι) (p : LoginPhase) :
    Tracked cfg email (s.goto k p) :=
  ⟨h.entry, h.sorted, h.past⟩

theorem underway_update {f : ι → LoginPhase} {j : ι} (h : (Function.update f k p j).underway) :
    (j = k ∧ p.underway) ∨ (j ≠ k ∧ (f j).underway) := by
  by_cases hj : j = k
  · subst hj
    rw [Function.update_self] at h
    exact .inl ⟨rfl, h⟩
  · rw [Function.update_of_ne hj] at h
    exact .inr ⟨hj, h⟩

theorem LoginInv.of_others (hphase : s'.phase = Function.update s.phase k p)
    (hothers : ∀ j, j ≠ k → (s.phase j).underway = false) (htracked : Tracked cfg email s')
    (hlength : s'.window.length ≤ 5) (hlog : s'.verifications.Pairwise fun v w => v.1 ≤ w.1)
    (hlogPast : ∀ v ∈ s'.verifications, v.1 ≤ s'.now) (hbounded : AtMostFive s'.verifications)
    (hroom : p.underway → s'.window.length ≤ 4)
    (hcleared : ∀ user, p = .verified (some user) → failing s'.verifications = [])
    (hcounted : ∃ fs, Counted fs s'.window s'.now ∧ ((failing s'.verifications).Sublist fs ∨
      p = .verified none ∧ ∃ x ≤ s'.now, (failing s'.verifications).Sublist (fs ++ [x]))) :
    LoginInv cfg email s' := by
  have hself : ∀ j, (s'.phase j).underway → j = k ∧ p.underway := by
    intro j hj
    rw [hphase] at hj
    rcases underway_update hj with hj | ⟨hj, hunder⟩
    · exact hj
    · rw [hothers j hj] at hunder
      cases hunder
  refine ⟨htracked, hlength, hlog, hlogPast, hbounded, fun i j hi hj => ?_,
    fun j hj => hroom (hself j hj).2, fun j user hj => ?_, ?_⟩
  · rw [(hself i hi).1, (hself j hj).1]
  · obtain ⟨rfl, -⟩ := hself j (by rw [hj]; rfl)
    rw [hphase, Function.update_self] at hj
    exact hcleared user hj
  · obtain ⟨fs, hfs, hsub⟩ := hcounted
    refine ⟨fs, hfs, hsub.imp_right fun ⟨hp, hx⟩ => ⟨⟨k, ?_⟩, hx⟩⟩
    rw [hphase, Function.update_self, hp]

theorem LoginInv.check (h : LoginInv cfg email s) (hothers : ∀ j, (s.phase j).underway = false)
    (hwhole : Whole s.window s.now)
    (hp : p = .checked ∧ (s.world.throttle.isThrottled cfg.emailKey email s.now).1 = none ∨
      ∃ r, p = .done r) : LoginInv cfg email ((s.throttle cfg email .isThrottled).goto k p) := by
  obtain ⟨fs, hcounted, hsub⟩ := h.counted_of fun j hj => by
    have := hothers j
    rw [hj] at this
    cases this
  have hroom : p.underway → (windowStep s.window ⟨s.now, .isThrottled⟩).length ≤ 4 := by
    intro hunder
    rcases hp with ⟨-, hpass⟩ | ⟨r, rfl⟩
    · exact isThrottled_room cfg.emailKey email h.tracked.entry h.tracked.past h.length hpass
    · cases hunder
  have hshrink : (windowStep s.window ⟨s.now, .isThrottled⟩).length ≤ s.window.length := by
    simp only [windowStep]
    split
    · exact Nat.zero_le _
    · exact Nat.le_refl _
  refine .of_others (s := s) (k := k) (p := p) rfl (fun j _ => hothers j)
    ((h.tracked.throttle .isThrottled).goto k _) (Nat.le_trans hshrink h.length) h.log h.logPast
    h.bounded hroom (fun user hverified => ?_)
    ⟨fs, hcounted.check (Nat.le_refl _) hwhole h.tracked.sorted h.length, .inl hsub⟩
  rcases hp with ⟨rfl, -⟩ | ⟨r, rfl⟩
  · cases hverified
  · cases hverified

theorem LoginInv.verify (h : LoginInv cfg email s) (hk : s.phase k = .checked)
    (user : Option (Uuid × String)) :
    LoginInv cfg email { s.goto k (.verified user) with
      verifications := s.verifications ++ [(s.now, user.isSome)] } := by
  have hunder : (s.phase k).underway := by rw [hk]; rfl
  obtain ⟨fs, hcounted, hsub⟩ := h.counted_of fun j hj => by
    obtain rfl := h.solo j k (by rw [hj]; rfl) hunder
    rw [hk] at hj
    cases hj
  have hroom : (recent (failing s.verifications) s.now).length ≤ 4 :=
    calc (recent (failing s.verifications) s.now).length
        ≤ (recent fs s.now).length := (hsub.filter _).length_le
      _ ≤ s.window.length := hcounted.count s.now (Nat.le_refl _)
      _ ≤ 4 := h.room k hunder
  have hlog : (s.verifications ++ [(s.now, user.isSome)]).Pairwise fun v w => v.1 ≤ w.1 := by
    refine List.pairwise_append.mpr ⟨h.log, List.pairwise_singleton _ _, fun v hv w hw => ?_⟩
    rw [List.mem_singleton.mp hw]
    exact h.logPast v hv
  have hlogPast : ∀ v ∈ s.verifications ++ [(s.now, user.isSome)], v.1 ≤ s.now := by
    intro v hv
    rcases List.mem_append.mp hv with hv | hv
    · exact h.logPast v hv
    · rw [List.mem_singleton.mp hv]
  have htracked : Tracked cfg email { s.goto k (.verified user) with
      verifications := s.verifications ++ [(s.now, user.isSome)] } :=
    ⟨h.tracked.entry, h.tracked.sorted, h.tracked.past⟩
  cases user with
  | none =>
    refine .of_others (s := s) (k := k) rfl (h.others hunder) htracked h.length hlog hlogPast
      (h.bounded.failure h.log h.logPast hroom) (fun _ => h.room k hunder) (by simp)
      ⟨fs, hcounted, .inr ⟨rfl, s.now, Nat.le_refl _, ?_⟩⟩
    rw [failing_concat]
    exact hsub.append (List.Sublist.refl _)
  | some user =>
    have hcleared : failing (s.verifications ++ [(s.now, true)]) = [] := by
      rw [failing_concat]
      rfl
    refine .of_others (s := s) (k := k) rfl (h.others hunder) htracked h.length hlog hlogPast
      (h.bounded.success s.now) (fun _ => h.room k hunder) (fun _ _ => hcleared)
      ⟨fs, hcounted, .inl ?_⟩
    exact hcleared ▸ List.nil_sublist fs

theorem LoginInv.recordFailure (h : LoginInv cfg email s) (hk : s.phase k = .verified none)
    (hwhole : Whole s.window s.now) (r : Response) :
    LoginInv cfg email ((s.throttle cfg email .recordFailure).goto k (.done r)) := by
  have hunder : (s.phase k).underway := by rw [hk]; rfl
  have hgrow : (windowStep s.window ⟨s.now, .recordFailure⟩).length ≤ s.window.length + 1 := by
    simp only [windowStep]
    split <;> simp
  have hroom := h.room k hunder
  obtain ⟨fs, hcounted, x, hx, hsub⟩ : ∃ fs, Counted fs s.window s.now ∧ ∃ x ≤ s.now,
      (failing s.verifications).Sublist (fs ++ [x]) := by
    obtain ⟨fs, hcounted, hsub | ⟨-, hsub⟩⟩ := h.counted
    · exact ⟨fs, hcounted, s.now, Nat.le_refl _, hsub.trans (List.sublist_append_left fs _)⟩
    · exact ⟨fs, hcounted, hsub⟩
  exact .of_others (s := s) (k := k) rfl (h.others hunder)
    ((h.tracked.throttle .recordFailure).goto k _)
    (Nat.le_trans hgrow (Nat.succ_le_succ hroom)) h.log h.logPast h.bounded
    (fun hdone => by cases hdone) (fun user hdone => by cases hdone)
    ⟨fs ++ [x], hcounted.failure (Nat.le_refl _) hwhole hx, .inl hsub⟩

theorem LoginInv.recordSuccess (h : LoginInv cfg email s) {user : Uuid × String}
    (hk : s.phase k = .verified (some user)) (hp : p.underway = false) :
    LoginInv cfg email ((s.throttle cfg email .recordSuccess).goto k p) := by
  have hunder : (s.phase k).underway := by rw [hk]; rfl
  refine .of_others (s := s) (k := k) rfl (h.others hunder)
    ((h.tracked.throttle .recordSuccess).goto k _)
    (Nat.zero_le _) h.log h.logPast h.bounded (fun hp' => ?_) (fun _ _ => h.cleared k user hk)
    ⟨[], ⟨by simp [recent], by simp⟩, .inl ?_⟩
  · rw [hp] at hp'
    cases hp'
  · have hcleared := h.cleared k user hk
    exact hcleared ▸ List.nil_sublist []

theorem LoginInv.past (h : LoginInv cfg email s) (hk : (s.phase k).underway = false)
    (hp : p.underway = false) (hphase : s'.phase = Function.update s.phase k p)
    (hthrottle : s'.world.throttle = s.world.throttle) (hnow : s'.now = s.now)
    (hwindow : s'.window = s.window) (hlog : s'.verifications = s.verifications) :
    LoginInv cfg email s' := by
  have hkept : ∀ j, (s'.phase j).underway → s'.phase j = s.phase j := by
    intro j hj
    rw [hphase] at hj ⊢
    rcases underway_update hj with ⟨-, hunder⟩ | ⟨hjk, -⟩
    · rw [hp] at hunder
      cases hunder
    · exact Function.update_of_ne hjk _ _
  have hcounted : ∃ fs, Counted fs s.window s.now ∧ ((failing s.verifications).Sublist fs ∨
      (∃ k, s'.phase k = .verified none) ∧
        ∃ x ≤ s.now, (failing s.verifications).Sublist (fs ++ [x])) := by
    obtain ⟨fs, hfs, hsub⟩ := h.counted
    refine ⟨fs, hfs, hsub.imp_right fun ⟨⟨j, hj⟩, hx⟩ => ⟨⟨j, ?_⟩, hx⟩⟩
    have hjk : j ≠ k := by
      rintro rfl
      rw [hj] at hk
      cases hk
    rw [hphase, Function.update_of_ne hjk, hj]
  refine ⟨⟨?_, ?_, ?_⟩, ?_, ?_, ?_, ?_, fun i j hi hj => ?_, fun j hj => ?_, fun j user hj => ?_, ?_⟩
  · rw [hthrottle, hwindow]; exact h.tracked.entry
  · rw [hwindow]; exact h.tracked.sorted
  · rw [hwindow, hnow]; exact h.tracked.past
  · rw [hwindow]; exact h.length
  · rw [hlog]; exact h.log
  · rw [hlog, hnow]; exact h.logPast
  · rw [hlog]; exact h.bounded
  · exact h.solo i j (hkept i hi ▸ hi) (hkept j hj ▸ hj)
  · rw [hwindow]; exact h.room j (hkept j hj ▸ hj)
  · rw [hlog]
    have hsame := hkept j (by rw [hj]; rfl)
    exact h.cleared j user (hsame ▸ hj)
  · rw [hwindow, hnow, hlog]; exact hcounted

theorem createAndSign_throttle (cfg : AuthConfig) (w : World) (userId : Uuid) (tier : String)
    (i : LoginInput) : (createAndSign cfg w userId tier i).1.throttle = w.throttle := by
  unfold createAndSign
  dsimp only
  split
  · split <;> rfl
  · rfl

theorem LoginInv.advance (h : LoginInv cfg email s) {i : LoginInput}
    (hemail : cfg.normaliseEmail i.email = email) (hready : Ready s (s.phase k)) :
    LoginInv cfg email (Gateway.advance cfg i k s) := by
  subst hemail
  unfold Gateway.advance
  cases hk : s.phase k with
  | start =>
    rw [hk] at hready
    refine h.check hready.1 hready.2 ?_
    split
    · next retryAfter _ => exact .inr ⟨_, rfl⟩
    · next hnone => exact .inl ⟨rfl, hnone⟩
  | checked =>
    dsimp only
    split
    · refine .of_others (s := s) (k := k) rfl (h.others (by rw [hk]; rfl)) (h.tracked.goto k _)
        h.length h.log h.logPast h.bounded (fun hdone => by cases hdone)
        (fun user hdone => by cases hdone) ?_
      obtain ⟨fs, hcounted, hsub⟩ := h.counted_of fun j hj => by
        obtain rfl := h.solo j k (by rw [hj]; rfl) (by rw [hk]; rfl)
        rw [hk] at hj
        cases hj
      exact ⟨fs, hcounted, .inl hsub⟩
    · next user _ => exact h.verify hk user
  | verified user =>
    rw [hk] at hready
    rcases user with _ | ⟨userId, tier⟩
    · exact h.recordFailure hk hready _
    · exact h.recordSuccess hk rfl
  | recorded userId tier =>
    exact h.past (by rw [hk]; rfl) rfl rfl (createAndSign_throttle cfg s.world userId tier i) rfl rfl
      rfl
  | done r => exact h

/-- Any number of logins for one email, in any order, at any times and with any lookups: when every
step finds the throttle ready for it, at most five verifications fail in any 15 minutes without a
success. -/
theorem at_most_five_failures (cfg : AuthConfig) (email : Text) (logins : ι → LoginInput)
    (hemail : ∀ k, cfg.normaliseEmail (logins k).email = email) (schedule : List (ι × Nat))
    (hready : Run.Along (loginStep cfg logins)
      (fun s a => Ready { s with now := s.now + a.2 } (s.phase a.1)) LoginSystem.init schedule) :
    Run.Always (loginStep cfg logins) (fun s => AtMostFive s.verifications) LoginSystem.init
      schedule := by
  have hinit : LoginInv cfg email (LoginSystem.init : LoginSystem ι) := by
    refine ⟨⟨rfl, .nil, by simp [LoginSystem.init]⟩, Nat.zero_le _, .nil,
      by simp [LoginSystem.init], fun a _ => Nat.zero_le _, fun _ _ h => (by cases h),
      fun _ h => (by cases h), fun _ _ _ => rfl, [], ⟨by simp [recent], by simp⟩, .inl ?_⟩
    exact List.Sublist.refl []
  have hinv : Run.Always (loginStep cfg logins) (LoginInv cfg email) LoginSystem.init schedule := by
    refine Run.always_of_along (fun s a h ha => ?_) schedule _ hinit hready
    exact (h.later a.2).advance (hemail a.1) ha
  exact Run.always_mono (fun _ h => h.bounded) schedule _ hinv

end

instance (s : LoginSystem (Fin 6)) : (p : LoginPhase) → Decidable (Ready s p)
  | .start => inferInstanceAs (Decidable ((∀ _j : Fin 6, _) ∧ _))
  | .verified none => inferInstanceAs (Decidable (Whole _ _))
  | .checked | .verified (some _) | .recorded _ _ | .done _ => inferInstanceAs (Decidable True)

def sixLogins (_ : Fin 6) : LoginInput := { sampleLogin with member := some none }

def sampleLogins (schedule : List (Fin 6 × Nat)) : LoginSystem (Fin 6) :=
  Run.exec (loginStep sampleAuth sixLogins) LoginSystem.init schedule

def inTurn : List (Fin 6 × Nat) := (List.finRange 6).flatMap fun k => [(k, 0), (k, 0), (k, minute)]

/-- The sixth is refused. -/
theorem at_most_five_failures_inTurn :
    Run.Always (loginStep sampleAuth sixLogins) (fun s => AtMostFive s.verifications)
        LoginSystem.init inTurn ∧
      (sampleLogins inTurn).verifications.length = 5 :=
  ⟨at_most_five_failures sampleAuth (sampleAuth.normaliseEmail sampleLogin.email) sixLogins
    (fun _ => rfl) inTurn (by decide +kernel), by decide +kernel⟩

/-- Six logins pass the check before one of them has recorded its failure. -/
theorem six_failures_at_once :
    let s := sampleLogins ((List.finRange 6).map (·, 0) ++ (List.finRange 6).map (·, 0))
    s.verifications = List.replicate 6 (0, false) ∧ ¬ AtMostFive s.verifications := by
  intro s
  have hlog : s.verifications = List.replicate 6 (0, false) := by decide +kernel
  refine ⟨hlog, fun h => ?_⟩
  rw [hlog] at h
  exact absurd (h 0 (by simp)) (by decide)

end Archiviste.Gateway
