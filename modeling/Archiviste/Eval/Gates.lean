import Archiviste.Base.Text
import Mathlib.Data.Rat.Defs
import Mathlib.Algebra.Order.Ring.Unbundled.Rat
import Mathlib.Tactic.Linarith

/-!
# Archiviste.Eval.Gates

The two gates of the evaluation runner. A score is an optional rational, `none` being both an
absent key and a `None` value, which the gates read alike; `fixed n x` is the text of `x` with `n`
decimals. A gate returns the lines it writes on standard error with its result.

* `applyGateA_passed` — in live mode Gate A says that no score *that is there* is below its
  threshold.
* `applyGateB_passed` — in live mode Gate B says that no score *that is there on both sides* has
  dropped by more than its tolerance.
-/

namespace Archiviste.Eval

inductive RunnerMode where
  | live
  | offline
  deriving DecidableEq, Repr

inductive Metric where
  | faithfulness
  | answerRelevancy
  | contextPrecision
  | contextRecall
  deriving DecidableEq, Repr

/-- The deterministic scores of one entry and of one mode. -/
inductive Structural where
  | contextRecallStructural
  | keywordOverlapRate
  deriving DecidableEq, Repr

abbrev Metrics := Metric → Option ℚ

def Metric.name : Metric → Text
  | .faithfulness => "faithfulness".toList
  | .answerRelevancy => "answer_relevancy".toList
  | .contextPrecision => "context_precision".toList
  | .contextRecall => "context_recall".toList

def Structural.name : Structural → Text
  | .contextRecallStructural => "context_recall_structural".toList
  | .keywordOverlapRate => "keyword_overlap_rate".toList

def gateAThresholds : List (Metric × ℚ) :=
  [(.faithfulness, 85 / 100), (.answerRelevancy, 85 / 100), (.contextPrecision, 70 / 100),
    (.contextRecall, 70 / 100)]

def gateBTolerances : List (Metric × ℚ) :=
  [(.faithfulness, 2 / 100), (.answerRelevancy, 2 / 100), (.contextPrecision, 3 / 100),
    (.contextRecall, 3 / 100)]

def gateBOfflineTolerances : List (Structural × ℚ) :=
  [(.contextRecallStructural, 5 / 100), (.keywordOverlapRate, 5 / 100)]

/-- What Gate B reads of a baseline run: its metrics and the scores of its canon entries. -/
structure BaselineRun where
  metrics : Metrics
  canon : Structural → Option ℚ

structure GateAResult where
  passed : Bool
  violations : List Text

structure GateBResult where
  passed : Bool
  skipped : Bool
  skipReason : Text
  violations : List Text

section Gates

variable (fixed : Nat → ℚ → Text)

/-! ## Gate A -/

def gateAViolation (metrics : Metrics) (check : Metric × ℚ) : Option Text :=
  match metrics check.1 with
  | some value =>
    if value < check.2 then
      some (check.1.name ++ " observed=".toList ++ fixed 4 value ++
        " threshold=".toList ++ fixed 2 check.2)
    else none
  | none => none

def applyGateA (metrics : Metrics) : RunnerMode → List Text × GateAResult
  | .offline =>
    (["\x7b\"event\": \"gate_a_skipped\", \"reason\": \"offline_mode\"\x7d".toList], ⟨true, []⟩)
  | .live =>
    let violations := gateAThresholds.filterMap (gateAViolation fixed metrics)
    (violations.map ("gate_a_violation: ".toList ++ ·), ⟨violations.isEmpty, violations⟩)

/-! ## Gate B -/

/-- What one no-regression check finds. -/
inductive Finding where
  | skipped
  | held
  | violation (text : Text)

def compareScores (name : Text) (tolerance : ℚ) : Option ℚ → Option ℚ → Finding
  | some current, some baseline =>
    let delta := current - baseline
    if delta < -tolerance then
      .violation (name ++ " observed=".toList ++ fixed 4 current ++ " baseline=".toList ++
        fixed 4 baseline ++ " delta=".toList ++ fixed 4 delta ++ " tolerance=".toList ++
        fixed 2 tolerance)
    else .held
  | _, _ => .skipped

def skipLine (name : Text) : Text :=
  "\x7b\"event\": \"gate_b_metric_skipped\", \"reason\": \"null\", \"metric\": \"".toList ++ name ++
    "\"\x7d".toList

def Finding.skipLine? (name : Text) : Finding → Option Text
  | .skipped => some (skipLine name)
  | _ => none

def Finding.violation? : Finding → Option Text
  | .violation text => some text
  | _ => none

/-- A loop over a table of tolerances: the lines written on the way, and the violations. -/
def checkTolerances {K : Type} (name : K → Text) (tolerances : List (K × ℚ))
    (current baseline : K → Option ℚ) : List Text × List Text :=
  let found := fun check : K × ℚ =>
    compareScores fixed (name check.1) check.2 (current check.1) (baseline check.1)
  (tolerances.filterMap fun check => (found check).skipLine? (name check.1),
    tolerances.filterMap fun check => (found check).violation?)

def checkOfflineStructuralGates (currentCanon baselineCanon : Structural → Option ℚ) :
    List Text × List Text :=
  checkTolerances fixed Structural.name gateBOfflineTolerances currentCanon baselineCanon

def applyGateB (currentMetrics : Metrics) (currentCanon : Structural → Option ℚ)
    (baselineRun : Option BaselineRun) (mode : RunnerMode) : List Text × GateBResult :=
  match baselineRun with
  | none => ([], ⟨true, true, "no baseline provided".toList, []⟩)
  | some baseline =>
    let compared :=
      checkTolerances fixed Metric.name gateBTolerances currentMetrics baseline.metrics
    let structural :=
      if mode = .offline then checkOfflineStructuralGates fixed currentCanon baseline.canon
      else ([], [])
    let violations := compared.2 ++ structural.2
    (compared.1 ++ structural.1 ++ violations.map ("gate_b_violation: ".toList ++ ·),
      ⟨violations.isEmpty, false, [], violations⟩)

/-! ## What the gates decide -/

theorem gateAViolation_eq_none (metrics : Metrics) (check : Metric × ℚ) :
    gateAViolation fixed metrics check = none ↔
      ∀ value, metrics check.1 = some value → check.2 ≤ value := by
  unfold gateAViolation
  cases hscore : metrics check.1 with
  | none => simp
  | some value =>
    by_cases hlow : value < check.2
    · simp [hlow]
    · simpa [hlow] using not_lt.mp hlow

theorem applyGateA_passed (metrics : Metrics) :
    (applyGateA fixed metrics .live).2.passed = true ↔
      ∀ check ∈ gateAThresholds, ∀ value, metrics check.1 = some value → check.2 ≤ value := by
  simp only [applyGateA, List.isEmpty_iff, List.filterMap_eq_nil_iff, gateAViolation_eq_none]

theorem violation?_eq_none (name : Text) (tolerance : ℚ) (current baseline : Option ℚ) :
    (compareScores fixed name tolerance current baseline).violation? = none ↔
      ∀ c b, current = some c → baseline = some b → b - tolerance ≤ c := by
  rcases current with _ | c <;> rcases baseline with _ | b
  · simp [compareScores, Finding.violation?]
  · simp [compareScores, Finding.violation?]
  · simp [compareScores, Finding.violation?]
  · by_cases hlow : c - b < -tolerance
    · have hdrop : c + tolerance < b := by linarith
      simpa [compareScores, Finding.violation?, hlow] using hdrop
    · have hkeep : b - tolerance ≤ c := by linarith [not_lt.mp hlow]
      simpa [compareScores, Finding.violation?, hlow] using hkeep

theorem checkTolerances_clean {K : Type} (name : K → Text) (tolerances : List (K × ℚ))
    (current baseline : K → Option ℚ) :
    (checkTolerances fixed name tolerances current baseline).2 = [] ↔
      ∀ check ∈ tolerances, ∀ c b, current check.1 = some c → baseline check.1 = some b →
        b - check.2 ≤ c := by
  simp only [checkTolerances, List.filterMap_eq_nil_iff, violation?_eq_none]

theorem applyGateB_passed (metrics : Metrics) (canon : Structural → Option ℚ)
    (baseline : BaselineRun) :
    (applyGateB fixed metrics canon (some baseline) .live).2.passed = true ↔
      ∀ check ∈ gateBTolerances, ∀ c b, metrics check.1 = some c →
        baseline.metrics check.1 = some b → b - check.2 ≤ c := by
  simp only [applyGateB, reduceCtorEq, if_false, List.append_nil, List.isEmpty_iff]
  exact checkTolerances_clean fixed Metric.name gateBTolerances metrics baseline.metrics

end Gates

theorem gates_cover (m : Metric) :
    (∃ threshold, (m, threshold) ∈ gateAThresholds) ∧
      ∃ tolerance, (m, tolerance) ∈ gateBTolerances := by
  cases m <;> simp [gateAThresholds, gateBTolerances]

end Archiviste.Eval
