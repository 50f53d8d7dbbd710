import Archiviste.Eval.Runner
import Mathlib.Algebra.Order.Field.Basic
import Mathlib.Data.List.Forall2

/-!
# Archiviste.Eval.Degraded

Two offline runs that differ in their failures only: the second loses entries that the first ran.
A lost entry counts as an error and as a keyword miss, so neither of these faults goes away; but it
is left out of the mean of the structural recall, which can rise.

* `conclude_offline_one` — exit code 1 of an offline run: too many errors, or a regressed score.
* `failing_verdict_kept_iff` — a failing verdict is kept unless the lost entries made the mean
  recall recover and nothing else is wrong.
-/

namespace Archiviste.Eval

/-! ## The entries of an offline run -/

abbrev Numbered := GoldenEntry × Nat

section Entry

variable (env : Env) (token : Option Text) (entry : Numbered)

def Env.retrieved : Except EntryError (List RetrievedChunk) :=
  (env.workers token).search entry.1.question (env.uuid entry.2)

def Env.survives : Bool := (env.retrieved token entry).isOk

def Env.recall? : Option ℚ :=
  match env.retrieved token entry with
  | .error _ => none
  | .ok chunks => some (computeContextRecallStructural entry.1.expectedContexts
      (chunks.map RetrievedChunk.sourcePath))

def Env.hit : Bool :=
  match env.retrieved token entry with
  | .error _ => false
  | .ok chunks => computeKeywordOverlap env.lower (Text.join [' '] (chunks.map RetrievedChunk.text))
      entry.1.expectedAnswerKeywords

def Env.entryResult : EntryResult :=
  runEntry env.lower (env.workers token) .offline entry.1 (env.uuid entry.2)

variable {env token entry}

theorem entryResult_mode : (env.entryResult token entry).mode = entry.1.mode := by
  unfold Env.entryResult runEntry runEntryOffline
  cases hsearch : (env.workers token).search entry.1.question (env.uuid entry.2) with
  | error e =>
    simp only [hsearch]
    rfl
  | ok chunks =>
    simp only [hsearch]
    rfl

theorem entryResult_status :
    (env.entryResult token entry).status ≠ .ok ↔ env.survives token entry = false := by
  unfold Env.entryResult runEntry runEntryOffline Env.survives Env.retrieved
  cases hsearch : (env.workers token).search entry.1.question (env.uuid entry.2) with
  | error e => simp [hsearch, computeEntryMetrics, Except.isOk, Except.toBool]
  | ok chunks => simp [hsearch, computeEntryMetrics, Except.isOk, Except.toBool]

theorem entryResult_overlap :
    (env.entryResult token entry).score .keywordOverlapRate = some 1 ↔
      env.hit token entry = true := by
  unfold Env.entryResult runEntry runEntryOffline Env.hit Env.retrieved
  cases hsearch : (env.workers token).search entry.1.question (env.uuid entry.2) with
  | error e => simp [hsearch, computeEntryMetrics, EntryResult.score]
  | ok chunks =>
    simp only [hsearch, computeEntryMetrics, EntryResult.score, List.lookup_cons_self,
      Option.join_some, Option.some.injEq]
    split <;> simp_all

theorem entryResult_recall (hmode : entry.1.mode = .canon) :
    (env.entryResult token entry).score .contextRecallStructural = env.recall? token entry := by
  unfold Env.entryResult runEntry runEntryOffline Env.recall? Env.retrieved
  cases hsearch : (env.workers token).search entry.1.question (env.uuid entry.2) with
  | error e =>
    simp only [hsearch]
    rfl
  | ok chunks =>
    simp only [hsearch, computeEntryMetrics, hmode, if_true]
    rfl

end Entry

/-! ## The verdict of an offline run -/

def offlineRun (env : Env) (golden : List GoldenEntry) (token : Option Text) : RunFile :=
  let (entries, errors) := runAllEntries env.lower env.uuid (env.workers token) .offline golden
  ⟨.offline, ⟨entries.length, entries.length - errors, errors⟩, aggregateBreakdown entries,
    noMetrics, entries⟩

/-- A score of the canon entries has dropped below the baseline by more than its tolerance. -/
def Regressed (k : Structural) (run : RunFile) (baseline : BaselineRun) : Prop :=
  ∃ tolerance c b, (k, tolerance) ∈ gateBOfflineTolerances ∧
    (run.breakdown .canon).score k = some c ∧ baseline.canon k = some b ∧ c < b - tolerance

variable {baseline : BaselineRun} {env : Env} {path? : Option Text} {args : Args} {halt : Halt}

theorem applyGateB_offline (fixed : Nat → ℚ → Text) {run : RunFile} :
    (applyGateB fixed noMetrics (run.breakdown .canon).score (some baseline)
      .offline).2.passed = false ↔ ∃ k, Regressed k run baseline := by
  have hmetrics : (checkTolerances fixed Metric.name gateBTolerances noMetrics
      baseline.metrics).2 = [] := by
    rw [checkTolerances_clean]
    intro check _ c b hc
    cases hc
  simp only [applyGateB, if_true, hmetrics, List.nil_append, Bool.eq_false_iff, ne_eq,
    List.isEmpty_iff, checkOfflineStructuralGates, checkTolerances_clean]
  constructor
  · intro hbad
    push Not at hbad
    obtain ⟨⟨k, tolerance⟩, hmem, c, b, hc, hb, hlt⟩ := hbad
    exact ⟨k, tolerance, c, b, hmem, hc, hb, hlt⟩
  · rintro ⟨k, tolerance, c, b, hmem, hc, hb, hlt⟩ hgood
    exact absurd (hgood (k, tolerance) hmem c b hc hb) (not_le.mpr hlt)

/-! ## The scores of an offline run -/

def canonEntries (golden : List GoldenEntry) : List Numbered :=
  golden.zipIdx.filter (·.1.mode = .canon)

def mean (values : List ℚ) : ℚ := values.sum / values.length

def Env.score (env : Env) (token : Option Text) (searched : List Numbered) (n : Nat) : Structural → ℚ
  | .contextRecallStructural => mean (searched.filterMap (env.recall? token))
  | .keywordOverlapRate => (searched.countP (env.hit token) : ℚ) / n

section Scores

variable {env : Env} {golden : List GoldenEntry} {token : Option Text}

theorem offlineRun_entries :
    (offlineRun env golden token).entries = golden.zipIdx.map (env.entryResult token) := rfl

theorem offlineRun_canon : (offlineRun env golden token).entries.filter (·.mode = .canon) =
    (canonEntries golden).map (env.entryResult token) := by
  rw [offlineRun_entries, List.filter_map, canonEntries]
  refine congrArg _ (List.filter_congr fun entry _ => ?_)
  rw [Function.comp_apply, entryResult_mode]

theorem offlineRun_score (k : Structural) (hcanon : canonEntries golden ≠ []) :
    ((offlineRun env golden token).breakdown .canon).score k =
      some (env.score token (canonEntries golden) (canonEntries golden).length k) := by
  have hne : (canonEntries golden).map (env.entryResult token) ≠ [] := by simpa using hcanon
  show (aggregateBreakdown (offlineRun env golden token).entries .canon).score k = _
  unfold aggregateBreakdown
  rw [offlineRun_canon]
  dsimp only
  rw [if_neg hne]
  cases k with
  | keywordOverlapRate =>
    simp only [ModeData.score, Env.score, List.countP_map, List.length_map, Option.some.injEq]
    congr 2
    refine List.countP_congr fun entry _ => ?_
    simpa using entryResult_overlap
  | contextRecallStructural =>
    have hrecalls : ((canonEntries golden).map (env.entryResult token)).filterMap
        (·.score .contextRecallStructural) = (canonEntries golden).filterMap (env.recall? token) := by
      rw [List.filterMap_map]
      refine List.filterMap_congr fun entry hentry => ?_
      exact entryResult_recall (by simpa using (List.mem_filter.1 hentry).2)
    rw [hrecalls]
    simp only [ModeData.score, Env.score, mean, if_true]
    split
    · next hnil => simp [hnil]
    · rfl

theorem offlineRun_regressed {k : Structural} {baseline : BaselineRun} :
    Regressed k (offlineRun env golden token) baseline ↔
      canonEntries golden ≠ [] ∧ ∃ b, baseline.canon k = some b ∧
        env.score token (canonEntries golden) (canonEntries golden).length k < b - 5 / 100 := by
  have htolerance : ∀ tolerance, (k, tolerance) ∈ gateBOfflineTolerances ↔ tolerance = 5 / 100 := by
    intro tolerance
    cases k <;> simp [gateBOfflineTolerances]
  by_cases hcanon : canonEntries golden = []
  · have hnone : ((offlineRun env golden token).breakdown .canon).score k = none := by
      show (aggregateBreakdown (offlineRun env golden token).entries .canon).score k = _
      unfold aggregateBreakdown
      rw [offlineRun_canon, hcanon]
      cases k <;> rfl
    simp [Regressed, hnone, hcanon]
  · simp [Regressed, offlineRun_score k hcanon, htolerance, hcanon]

def Env.errors (env : Env) (token : Option Text) (golden : List GoldenEntry) : Nat :=
  golden.zipIdx.countP fun entry => !env.survives token entry

theorem offlineRun_errorRate :
    errorRateThreshold < errorRate (offlineRun env golden token).totals ↔
      golden.length < 10 * env.errors token golden := by
  have herrors : (offlineRun env golden token).totals.errors = env.errors token golden := by
    show (golden.zipIdx.map (env.entryResult token)).countP (·.status ≠ .ok) = _
    rw [List.countP_map]
    refine List.countP_congr fun entry _ => ?_
    simpa using entryResult_status
  have hentries : (offlineRun env golden token).totals.entries = golden.length := by
    show (golden.zipIdx.map (env.entryResult token)).length = _
    simp
  have hle : env.errors token golden ≤ golden.length :=
    List.countP_le_length.trans_eq List.length_zipIdx
  rw [errorRate, errorRateThreshold, herrors, hentries]
  split
  · next hpos =>
    rw [lt_div_iff₀ (Nat.cast_pos.2 hpos), ← Nat.cast_lt (α := ℚ)]
    push_cast
    constructor <;> intro h <;> linarith
  · norm_num
    omega

end Scores

section Verdict

variable {env : Env} {args : Args} {golden : List GoldenEntry} {token : Option Text}

variable {baselineRun : Option BaselineRun} {run : RunFile}

theorem evaluate_offline (hoff : args.mode = .offline)
    (hload : (loadBaseline env args.baseline).result = .ok baselineRun) :
    (evaluate env args golden token).result = .ok (offlineRun env golden token, baselineRun) := by
  refine Eff.result_bind_eq_ok.mpr ⟨baselineRun, hload, ?_⟩
  rw [hoff]
  rfl

theorem emitSummaryAndExit_offline (hmode : run.mode = .offline)
    (hmetrics : run.metrics = noMetrics) (baseline : BaselineRun) :
    exitStatus (emitSummaryAndExit env run (some baseline)).result = 1 ↔
      errorRateThreshold < errorRate run.totals ∨ shouldSkipGateB env.git = none ∨
        shouldSkipGateB env.git = some false ∧ ∃ k, Regressed k run baseline := by
  rw [← applyGateB_offline env.fixed]
  unfold emitSummaryAndExit
  rw [hmode, hmetrics, Eff.result_bind_of_ok rfl]
  rcases hgit : shouldSkipGateB env.git with _ | skip
  · have hraised : (skipGateB env (some baseline)).result = .error .uncaught := by
      simp only [skipGateB, hgit, Eff.raise]
    rw [Eff.result_bind_of_error hraised]
    simp [exitStatus]
  · have hskip : (skipGateB env (some baseline)).result = .ok skip := by
      simp only [skipGateB, hgit]
      rfl
    rw [Eff.result_bind_of_ok hskip, Eff.result_bind_of_ok rfl, Eff.result_bind_of_ok rfl,
      Eff.result_bind_of_ok rfl]
    -- offline Gate A passes, so what is left to look at is Gate B and the error rate
    have hgateA : (applyGateA env.fixed noMetrics .offline).2.passed = true := rfl
    rcases skip with _ | _
    · simp only [hgateA, Bool.false_eq_true, Bool.true_eq_false, if_false, false_or,
        reduceCtorEq, true_and]
      generalize (applyGateB env.fixed noMetrics (run.breakdown .canon).score (some baseline)
        .offline).2.passed = passed
      split
      case isTrue hbad => simpa [exitStatus] using hbad.symm
      case isFalse hgood => simpa [exitStatus, or_comm] using hgood
    · have hnone : (applyGateB env.fixed noMetrics (run.breakdown .canon).score none
          .offline).2.passed = true := rfl
      simp only [hgateA, hnone, if_true, Bool.true_eq_false, false_or, reduceCtorEq,
        Option.some.injEq, false_and, or_false]
      split
      case isTrue hbad => simpa [exitStatus] using hbad
      case isFalse hgood => simpa [exitStatus] using hgood

theorem emitSummaryAndExit_alone (hmode : run.mode = .offline) :
    exitStatus (emitSummaryAndExit env run none).result = 1 ↔
      errorRateThreshold < errorRate run.totals := by
  unfold emitSummaryAndExit
  rw [hmode, Eff.result_bind_of_ok rfl, Eff.result_bind_of_ok rfl, Eff.result_bind_of_ok rfl,
    Eff.result_bind_of_ok rfl, Eff.result_bind_of_ok rfl]
  have hgateA : (applyGateA env.fixed run.metrics .offline).2.passed = true := rfl
  have hgateB : (applyGateB env.fixed run.metrics (run.breakdown .canon).score none
    .offline).2.passed = true := rfl
  simp only [hgateA, hgateB, Bool.false_eq_true, if_false, Bool.true_eq_false, false_or]
  split
  case isTrue hbad => simpa [exitStatus] using hbad
  case isFalse hgood => simpa [exitStatus] using hgood

theorem handleAutoCreateBaseline_one {path : Text} {passed : Bool} :
    exitStatus (handleAutoCreateBaseline env path run passed).result = 1 ↔
      errorRateThreshold < errorRate run.totals := by
  unfold handleAutoCreateBaseline
  split
  case isTrue hbad => exact iff_of_true rfl hbad
  case isFalse hgood =>
    refine iff_of_false ?_ hgood
    rw [Eff.result_bind_of_ok rfl, Eff.result_bind_of_ok rfl]
    decide

theorem conclude_offline_one (hmode : run.mode = .offline) (hmetrics : run.metrics = noMetrics)
    (baselineRun : Option BaselineRun) :
    exitStatus (conclude env args run baselineRun).result = 1 ↔
      errorRateThreshold < errorRate run.totals ∨ ∃ baseline, baselineRun = some baseline ∧
        (shouldSkipGateB env.git = none ∨
          shouldSkipGateB env.git = some false ∧ ∃ k, Regressed k run baseline) := by
  have hpersist : (maybePersist env args run).result = .ok none := by
    unfold maybePersist
    rw [hmode]
    split <;> rfl
  unfold conclude
  rw [Eff.result_bind_of_ok hpersist, Eff.result_bind_of_ok rfl]
  rcases baselineRun with _ | baseline
  · rcases args.baseline with _ | path
    · simpa using emitSummaryAndExit_alone hmode
    · simpa using handleAutoCreateBaseline_one
  · have hemit : exitStatus (emitSummaryAndExit env run (some baseline)).result = 1 ↔ _ :=
      emitSummaryAndExit_offline hmode hmetrics baseline
    rcases args.baseline with _ | path
    · simpa using hemit
    · simpa using hemit

theorem main_offline (hoff : args.mode = .offline)
    (hprep : (prepare env args).result = .ok (.ok (golden, token)))
    (hload : (loadBaseline env args.baseline).result = .ok baselineRun) :
    (main env args).result =
      (conclude env args (offlineRun env golden token) baselineRun).result := by
  unfold main
  rw [Eff.result_bind_of_ok hprep]
  exact Eff.result_bind_of_ok (evaluate_offline hoff hload) _

end Verdict

/-! ## Two runs -/

/-- `env'` is `env` for a second run with `args`, in which some of the searches that succeeded end
in an error. The request ids are new, and how the workers generate does not matter. -/
structure Degraded (env env' : Env) (args : Args) : Prop where
  lower : env'.lower = env.lower
  goldenSet : env'.goldenSet = env.goldenSet
  fetchToken : env'.fetchToken = env.fetchToken
  healthy : env'.healthy = env.healthy
  baselineAt : env'.baselineAt = env.baselineAt
  git : env'.git = env.git
  retrieved : ∀ golden token, (prepare env args).result = .ok (.ok (golden, token)) →
    ∀ entry ∈ golden.zipIdx, env'.retrieved token entry = env.retrieved token entry ∨
      (∃ chunks, env.retrieved token entry = .ok chunks) ∧
        ∃ err, env'.retrieved token entry = .error err

section Degraded

variable {env env' : Env} {args : Args} (h : Degraded env env' args)
include h

theorem Degraded.prepare_eq : prepare env' args = prepare env args := by
  simp only [prepare, h.goldenSet, h.fetchToken, h.healthy]

theorem Degraded.loadBaseline_eq :
    loadBaseline env' args.baseline = loadBaseline env args.baseline := by
  rcases args.baseline with _ | path
  · rfl
  · simp only [loadBaseline, h.baselineAt]

variable {golden : List GoldenEntry} {token : Option Text}
  (hprep : (prepare env args).result = .ok (.ok (golden, token)))
include hprep

theorem Degraded.retrieved_of_survives {entry : Numbered} (hentry : entry ∈ golden.zipIdx)
    (hsurvives : env'.survives token entry = true) :
    env'.retrieved token entry = env.retrieved token entry := by
  rcases h.retrieved golden token hprep entry hentry with hsame | ⟨-, err, herr⟩
  · exact hsame
  · rw [Env.survives, herr] at hsurvives
    cases hsurvives

/-- A score of the second run, from the answers that the first one had for the entries left. -/
theorem Degraded.score_eq (n : Nat) (k : Structural) :
    env'.score token (canonEntries golden) n k =
      env.score token ((canonEntries golden).filter (env'.survives token)) n k := by
  have hleft : ∀ entry ∈ canonEntries golden, env'.survives token entry = true →
      env'.recall? token entry = env.recall? token entry ∧
        env'.hit token entry = env.hit token entry := by
    intro entry hentry hsurvives
    have hsame := h.retrieved_of_survives hprep (List.mem_of_mem_filter hentry) hsurvives
    simp only [Env.recall?, Env.hit, hsame, h.lower, and_self]
  have hlost : ∀ entry, env'.survives token entry = false →
      env'.recall? token entry = none ∧ env'.hit token entry = false := by
    intro entry hlost
    cases hsearch : env'.retrieved token entry with
    | error e => simp only [Env.recall?, Env.hit, hsearch, and_self]
    | ok chunks =>
      rw [Env.survives, hsearch] at hlost
      cases hlost
  cases k with
  | contextRecallStructural =>
    simp only [Env.score]
    rw [← List.filterMap_eq_filter, List.filterMap_filterMap]
    refine congrArg mean (List.filterMap_congr fun entry hentry => ?_)
    cases hs : env'.survives token entry with
    | false => simp [Option.guard, hs, (hlost entry hs).1]
    | true => simp [Option.guard, hs, (hleft entry hentry hs).1]
  | keywordOverlapRate =>
    simp only [Env.score, List.countP_filter]
    congr 2
    refine List.countP_congr fun entry hentry => ?_
    cases hs : env'.survives token entry with
    | false => simp [(hlost entry hs).2]
    | true => simp [(hleft entry hentry hs).2]

theorem Degraded.errors_mono : env.errors token golden ≤ env'.errors token golden := by
  refine List.countP_mono_left fun entry hentry hlost => ?_
  rw [Bool.not_eq_true'] at hlost ⊢
  rcases h.retrieved golden token hprep entry hentry with hsame | ⟨⟨chunks, hok⟩, -⟩
  · rw [Env.survives, hsame]
    exact hlost
  · rw [Env.survives, hok] at hlost
    cases hlost

/-- A lost entry is a keyword miss, so a keyword overlap that has regressed stays so. -/
theorem Degraded.overlap_anti (n : Nat) :
    env'.score token (canonEntries golden) n .keywordOverlapRate ≤
      env.score token (canonEntries golden) n .keywordOverlapRate := by
  rw [h.score_eq hprep]
  refine div_le_div_of_nonneg_right ?_ (Nat.cast_nonneg _)
  exact Nat.cast_le.2 (List.filter_sublist.countP_le)

end Degraded

/-- The lost entries were those of a low recall. With the recalls and hits of the first run: over
all canon entries the mean recall is too low, over those left it is not, their hits are enough for
all, and at most a tenth of the entries is lost. -/
def Recovered (env env' : Env) (args : Args) : Prop :=
  ∃ golden token path baseline b, (prepare env args).result = .ok (.ok (golden, token)) ∧
    args.baseline = some path ∧ env.baselineAt path = .run baseline ∧
    shouldSkipGateB env.git = some false ∧ baseline.canon .contextRecallStructural = some b ∧
    canonEntries golden ≠ [] ∧
    mean ((canonEntries golden).filterMap (env.recall? token)) < b - 5 / 100 ∧
    b - 5 / 100 ≤ mean (((canonEntries golden).filter (env'.survives token)).filterMap
      (env.recall? token)) ∧
    (∀ o, baseline.canon .keywordOverlapRate = some o → o - 5 / 100 ≤
      (((canonEntries golden).filter (env'.survives token)).countP (env.hit token) : ℚ) /
        (canonEntries golden).length) ∧
    10 * env'.errors token golden ≤ golden.length

theorem loadBaseline_some (h : (loadBaseline env path?).result = .ok (some baseline)) :
    ∃ path, path? = some path ∧ env.baselineAt path = .run baseline := by
  rcases loadBaseline_ok h with ⟨hnone, -⟩ | ⟨path, baseline', hpath, hfile, hsome⟩
  · cases hnone
  · cases hsome
    exact ⟨path, hpath, hfile⟩

theorem Degraded.main_eq {env' : Env} (h : Degraded env env' args)
    (hunready : ∀ ready, (prepare env args).result ≠ .ok (.ok ready)) :
    (main env' args).result = (main env args).result := by
  unfold main
  rw [h.prepare_eq]
  rcases hprep : (prepare env args).result with halt | code | ready
  · rw [Eff.result_bind_of_error hprep, Eff.result_bind_of_error hprep]
  · rw [Eff.result_bind_of_ok hprep, Eff.result_bind_of_ok hprep]
  · exact absurd hprep (hunready ready)

theorem main_invalid_baseline {golden : List GoldenEntry} {token : Option Text}
    (hprep : (prepare env args).result = .ok (.ok (golden, token)))
    (hload : (loadBaseline env args.baseline).result = .error halt) :
    (main env args).result = .error halt := by
  unfold main
  rw [Eff.result_bind_of_ok hprep]
  refine Eff.result_bind_of_error ?_ _
  exact Eff.result_bind_of_error hload _

theorem loadBaseline_error (h : (loadBaseline env path?).result = .error halt) :
    halt = .exitInvalidBaseline := by
  rcases path? with _ | path
  · cases h
  · rcases hfile : env.baselineAt path with _ | message | baseline <;>
      simp only [loadBaseline, hfile] at h <;> cases h
    rfl

/-- A run that fails still fails when entries are lost, unless the mean recall recovers by it. -/
theorem failing_verdict_kept_iff (env env' : Env) (args : Args) (hoff : args.mode = .offline)
    (h : Degraded env env' args) (hone : exitStatus (main env args).result = 1) :
    exitStatus (main env' args).result = 1 ↔ ¬ Recovered env env' args := by
  by_cases hready : ∃ ready, (prepare env args).result = .ok (.ok ready)
  case neg =>
    push Not at hready
    rw [h.main_eq hready]
    refine iff_of_true hone ?_
    rintro ⟨golden, token, path, baseline, b, hprep, -⟩
    exact hready _ hprep
  obtain ⟨⟨golden, token⟩, hprep⟩ := hready
  rcases hload : (loadBaseline env args.baseline).result with halt | baselineRun
  · rw [main_invalid_baseline hprep hload, loadBaseline_error hload] at hone
    cases hone
  have hprep' : (prepare env' args).result = .ok (.ok (golden, token)) := by
    rw [h.prepare_eq, hprep]
  have hload' : (loadBaseline env' args.baseline).result = .ok baselineRun := by
    rw [h.loadBaseline_eq, hload]
  rw [main_offline hoff hprep hload, conclude_offline_one rfl rfl, offlineRun_errorRate] at hone
  rw [main_offline hoff hprep' hload', conclude_offline_one rfl rfl, offlineRun_errorRate, h.git]
  simp only [offlineRun_regressed] at hone ⊢
  constructor
  · rintro hone' ⟨golden', token', path, baseline, b, hprepared, hpath, hfile, hskip, hb, -, -,
      hrecall, hoverlap, hfew⟩
    cases hprep.symm.trans hprepared
    rcases hone' with hmany | ⟨loaded, rfl, hraised | ⟨-, k, -, b', hb', hlow⟩⟩
    · omega
    · rw [hskip] at hraised
      cases hraised
    obtain ⟨path', hpath', hfile'⟩ := loadBaseline_some hload
    cases hpath.symm.trans hpath'
    cases hfile.symm.trans hfile'
    rw [h.score_eq hprep] at hlow
    cases k with
    | contextRecallStructural =>
      cases hb.symm.trans hb'
      exact absurd hlow (not_lt.2 hrecall)
    | keywordOverlapRate => exact absurd hlow (not_lt.2 (hoverlap b' hb'))
  · intro hnot
    rcases hone with hmany | ⟨baseline, rfl, hraised | ⟨hskip, k, hcanon, b, hb, hlow⟩⟩
    · exact .inl (hmany.trans_le (Nat.mul_le_mul_left _ (h.errors_mono hprep)))
    · exact .inr ⟨baseline, rfl, .inl hraised⟩
    by_contra hzero
    push Not at hzero
    obtain ⟨hfew, hkept⟩ := hzero
    have hkept' := fun k => (hkept baseline rfl).2 hskip k hcanon
    cases k with
    | keywordOverlapRate =>
      exact absurd ((h.overlap_anti hprep _).trans_lt hlow) (not_lt.2 (hkept' _ b hb))
    | contextRecallStructural =>
      obtain ⟨path, hpath, hfile⟩ := loadBaseline_some hload
      refine hnot ⟨golden, token, path, baseline, b, hprep, hpath, hfile, hskip, hb, hcanon, hlow,
        ?_, fun o ho => ?_, hfew⟩
      · have hrecall := hkept' .contextRecallStructural b hb
        rwa [h.score_eq hprep] at hrecall
      · have hoverlap := hkept' .keywordOverlapRate o ho
        rwa [h.score_eq hprep] at hoverlap

def searchOffline (failing : Text → Bool) (question _ : Text) :
    Except EntryError (List RetrievedChunk) :=
  if failing question then .error .timeout
  else if question = "Où ?".toList then .ok [⟨"lore/phare.md".toList, []⟩]
  else .ok []

def tenQuestions : List GoldenEntry :=
  List.replicate 9 ⟨[], .canon, "Où ?".toList, ["lore/phare.md".toList], []⟩ ++
    [⟨[], .canon, "Quand ?".toList, ["lore/phare.md".toList], []⟩]

def phareEnv (failing : Text → Bool) : Env :=
  { sampleEnv tenQuestions 0
      (.run ⟨noMetrics, fun k => if k = .contextRecallStructural then some 1 else none⟩) with
    workers := fun _ => ⟨searchOffline failing, fun _ _ => .error .timeout⟩ }

def offlineArgs : Args := { liveArgs with mode := .offline }

theorem phareEnv_degraded (failing : Text → Bool) :
    Degraded (phareEnv fun _ => false) (phareEnv failing) offlineArgs where
  lower := rfl
  goldenSet := rfl
  fetchToken := rfl
  healthy := rfl
  baselineAt := rfl
  git := rfl
  retrieved := by
    intro golden token _ entry _
    simp only [Env.retrieved, phareEnv, searchOffline]
    by_cases hfail : failing entry.1.question = true
    · refine .inr ⟨?_, .timeout, by simp [hfail]⟩
      by_cases hfound : entry.1.question = "Où ?".toList
      · exact ⟨_, if_pos hfound⟩
      · exact ⟨_, if_neg hfound⟩
    · exact .inl (by simp [hfail])

/-- When all searches fail, the mean recall does not recover. -/
theorem failing_verdict_kept_iff_all_lost :
    exitStatus (main (phareEnv fun _ => false) offlineArgs).result = 1 ∧
      exitStatus (main (phareEnv fun _ => true) offlineArgs).result = 1 ∧
      ¬ Recovered (phareEnv fun _ => false) (phareEnv fun _ => true) offlineArgs :=
  ⟨by decide +kernel, by decide +kernel,
    (failing_verdict_kept_iff _ _ _ rfl (phareEnv_degraded _) (by decide +kernel)).1
      (by decide +kernel)⟩

/-- The search for the last question fails in the second run: one error in ten is within the
threshold, and the mean recall of the others is 1. -/
theorem lost_entry_passes :
    Degraded (phareEnv fun _ => false) (phareEnv fun q => q = "Quand ?".toList) offlineArgs ∧
      exitStatus (main (phareEnv fun _ => false) offlineArgs).result = 1 ∧
      exitStatus (main (phareEnv fun q => q = "Quand ?".toList) offlineArgs).result = 0 :=
  ⟨phareEnv_degraded _, by decide +kernel, by decide +kernel⟩

end Archiviste.Eval
