import Archiviste.Base.Eff
import Archiviste.Base.Regex
import Archiviste.Eval.Gates
import Mathlib.Data.List.Infix

/-!
# Archiviste.Eval.Runner

`main` of the evaluation runner: load the golden set, put every entry to the workers, have the
canon answers judged, write the run, perhaps insert it into the database, and give a verdict. What
the runner meets (files, workers, judge, database, git) is an `Env`; what it does is the trace of an
`Eff`, and its result is the exit code unless it is left by an exception.

* `Sound`                — what exit code 0 of a live run should say.
* `Judged`, `Bootstraps` — the run has all its scores; there is no baseline file yet.
* `conclude_zero`        — what exit code 0 does say: the error rate is kept, but the gates look
  only at the scores that are there, and Gate A does not count when a baseline is created.
* `conclude_persist_judged` — with `--persist`, exit code 0 says that all scores are there.
-/

namespace Archiviste.Eval

open Regex

/-! ## Entries -/

inductive Mode where
  | canon
  | offTopic
  | loreGap
  | mystery
  deriving DecidableEq, Repr

structure GoldenEntry where
  id : Text
  mode : Mode
  question : Text
  expectedContexts : List Text
  expectedAnswerKeywords : List Text

inductive EntryError where
  | timeout
  | upstreamError
  | malformed
  deriving DecidableEq, Repr

inductive Status where
  | ok
  | failed (error : EntryError)
  deriving DecidableEq, Repr

structure RetrievedChunk where
  sourcePath : Text
  text : Text

structure GenerateResponse where
  answer : Text
  citations : List Text

structure EntryResult where
  id : Text
  mode : Mode
  question : Text
  status : Status
  metrics : List (Structural × Option ℚ)
  retrievedContexts : List Text
  answer : Option Text
  citations : List Text
  requestId : Text
  groundTruth : Text
  retrievedChunkTexts : List Text

structure Workers where
  search : Text → Text → Except EntryError (List RetrievedChunk)
  generate : Text → Text → Except EntryError GenerateResponse

/-- `s.split()`. -/
def splitWords (s : Text) : List Text := (s.splitOnP Text.isSpace).filter (· ≠ [])

def buildStubAnswer (keywords : List Text) (chunks : List RetrievedChunk) : Text :=
  Text.join [' '] keywords ++ "\n\n".toList ++
    Text.join "\n\n".toList (chunks.map fun c => c.text.take 200)

def runEntryOffline (workers : Workers) (entry : EntryResult) : EntryResult :=
  match workers.search entry.question entry.requestId with
  | .error e => { entry with status := .failed e }
  | .ok chunks =>
    { entry with
      retrievedContexts := chunks.map RetrievedChunk.sourcePath
      retrievedChunkTexts := chunks.map RetrievedChunk.text
      answer := some (buildStubAnswer (splitWords entry.groundTruth) chunks)
      status := .ok }

def runEntryLive (workers : Workers) (entry : EntryResult) : EntryResult :=
  match workers.search entry.question entry.requestId with
  | .error e => { entry with status := .failed e }
  | .ok chunks =>
    let entry := { entry with
      retrievedContexts := chunks.map RetrievedChunk.sourcePath
      retrievedChunkTexts := chunks.map RetrievedChunk.text }
    match workers.generate entry.question entry.requestId with
    | .error e => { entry with status := .failed e }
    | .ok response =>
      { entry with answer := some response.answer, citations := response.citations, status := .ok }

def computeKeywordOverlap (lower : Text → Text) (answer : Text) (keywords : List Text) : Bool :=
  keywords.any fun kw => lower kw <:+: lower answer

def computeContextRecallStructural (expected retrieved : List Text) : ℚ :=
  if expected = [] then 0 else (expected.countP (· ∈ retrieved) : ℚ) / expected.length

def computeEntryMetrics (lower : Text → Text) (entry : EntryResult) (golden : GoldenEntry)
    (mode : RunnerMode) : EntryResult :=
  match entry.status, entry.answer with
  | .ok, some answer =>
    -- offline the stub answer holds every keyword, so the chunks are searched instead
    let searched := match mode with
      | .offline => Text.join [' '] entry.retrievedChunkTexts
      | .live => answer
    let overlap : ℚ :=
      if computeKeywordOverlap lower searched golden.expectedAnswerKeywords then 1 else 0
    let recallScores := if entry.mode = .canon then
        [(Structural.contextRecallStructural,
          some (computeContextRecallStructural golden.expectedContexts entry.retrievedContexts))]
      else []
    { entry with metrics := (.keywordOverlapRate, some overlap) :: recallScores }
  | _, _ =>
    { entry with metrics := [(.keywordOverlapRate, none), (.contextRecallStructural, none)] }

def runEntry (lower : Text → Text) (workers : Workers) (mode : RunnerMode) (golden : GoldenEntry)
    (requestId : Text) : EntryResult :=
  let entry : EntryResult :=
    { id := golden.id, mode := golden.mode, question := golden.question, status := .ok,
      metrics := [], retrievedContexts := [], answer := none, citations := [],
      requestId := requestId, groundTruth := Text.join [' '] golden.expectedAnswerKeywords,
      retrievedChunkTexts := [] }
  let entry := match mode with
    | .offline => runEntryOffline workers entry
    | .live => runEntryLive workers entry
  computeEntryMetrics lower entry golden mode

/-- `uuid` gives the request id of the entry at a position. -/
def runAllEntries (lower : Text → Text) (uuid : Nat → Text) (workers : Workers)
    (mode : RunnerMode) (golden : List GoldenEntry) : List EntryResult × Nat :=
  let results := golden.zipIdx.map fun g => runEntry lower workers mode g.1 (uuid g.2)
  (results, results.countP (·.status ≠ .ok))

/-! ## The run -/

structure ModeData where
  entries : Nat
  keywordOverlapRate : Option ℚ
  contextRecallStructural : Option ℚ

def ModeData.score (d : ModeData) : Structural → Option ℚ
  | .contextRecallStructural => d.contextRecallStructural
  | .keywordOverlapRate => d.keywordOverlapRate

def EntryResult.score (e : EntryResult) (k : Structural) : Option ℚ := (e.metrics.lookup k).join

def aggregateBreakdown (entries : List EntryResult) (mode : Mode) : ModeData :=
  let modeEntries := entries.filter (·.mode = mode)
  if modeEntries = [] then ⟨0, none, none⟩
  else
    let overlapHits := modeEntries.countP (·.score .keywordOverlapRate = some 1)
    let recallValues := modeEntries.filterMap (·.score .contextRecallStructural)
    let meanRecall : ℚ := if recallValues = [] then 0 else recallValues.sum / recallValues.length
    ⟨modeEntries.length, some (overlapHits / modeEntries.length),
      if mode = .canon then some meanRecall else none⟩

structure RunTotals where
  entries : Nat
  ok : Nat
  errors : Nat

structure RunFile where
  mode : RunnerMode
  totals : RunTotals
  breakdown : Mode → ModeData
  metrics : Metrics
  entries : List EntryResult

def errorRateThreshold : ℚ := 10 / 100

def errorRate (totals : RunTotals) : ℚ :=
  if 0 < totals.entries then (totals.errors : ℚ) / totals.entries else 0

/-- A row of `eval_runs`: its metric columns are not null. -/
structure EvalRunRow where
  faithfulness : ℚ
  answerRelevancy : ℚ
  contextPrecision : ℚ
  contextRecall : ℚ
  totals : RunTotals

def buildEvalRunRow (run : RunFile) : Option EvalRunRow := do
  let faithfulness ← run.metrics .faithfulness
  let answerRelevancy ← run.metrics .answerRelevancy
  let contextPrecision ← run.metrics .contextPrecision
  let contextRecall ← run.metrics .contextRecall
  return ⟨faithfulness, answerRelevancy, contextPrecision, contextRecall, run.totals⟩

/-! ## The baseline-bump commit -/

/-- The output of the git commands; `none` is a `CalledProcessError`. -/
structure Git where
  headMessage : Option Text
  mergeBase : Option Text
  parent : Option Text
  changedSince : Text → Option Text

def bumpPattern : Re :=
  .seqs [.check Pos.atStart, .wordCi "chore(eval): bump baseline", .check Pos.atDollar]

def baselineFile : Text := "eval/baseline.json".toList

def shouldSkipGateB (git : Git) : Option Bool := do
  let headMsg ← git.headMessage
  if (matchAt bumpPattern (Pos.start (Text.strip headMsg))).isNone then return false
  let mergeBase ← git.mergeBase <|> git.parent
  let changed ← git.changedSince (Text.strip mergeBase)
  let changedFiles := ((Text.splitlines (Text.strip changed)).map Text.strip).filter (· ≠ [])
  return changedFiles == [baselineFile]

/-! ## The runner -/

/-- A URL as `urlsplit` reads it. -/
structure Url where
  text : Text
  scheme : Text
  hostname : Text
  netloc : Text

def isAuthenticatedTarget (url : Url) : Bool :=
  url.scheme == "https".toList &&
    url.hostname ∉ ["localhost".toList, "127.0.0.1".toList, "::1".toList]

def deriveAudience (url : Url) : Text := url.scheme ++ "://".toList ++ url.netloc

structure Args where
  mode : RunnerMode
  baseline : Option Text
  output : Text
  workersUrl : Url
  persist : Bool

inductive LoadError where
  | valueError (message : Text)
  | osError

inductive BaselineFile where
  | missing
  | invalid (message : Text)
  | run (baseline : BaselineRun)

inductive InsertError where
  | persistError
  | uncaught

/-- How `main` is left without returning: the `sys.exit(2)` of an invalid baseline, or an exception
that nothing catches. -/
inductive Halt where
  | exitInvalidBaseline
  | uncaught

structure Env where
  fixed : Nat → ℚ → Text
  lower : Text → Text
  uuid : Nat → Text
  goldenSet : Except LoadError (List GoldenEntry)
  fetchToken : Text → Option Text
  healthy : Option Text → Bool
  baselineAt : Text → BaselineFile
  workers : Option Text → Workers
  judge : List EntryResult → Except Unit Metrics
  persistEvalRun : EvalRunRow → Except InsertError Unit
  git : Git

structure Summary where
  mode : RunnerMode
  totals : RunTotals
  metrics : Metrics
  gateA : GateAResult
  gateB : GateBResult
  verdict : Option Text

inductive Effect where
  | stderr (line : Text)
  | stdout (summary : Summary)
  | writeRun (path : Text) (run : RunFile)
  | inserted (row : EvalRunRow)

abbrev Main := Eff Effect Halt

def stderr (line : Text) : Main Unit := Eff.perform (.stderr line)

def loadBaseline (env : Env) : Option Text → Main (Option BaselineRun)
  | none => return none
  | some path =>
    match env.baselineAt path with
    | .missing => return none
    | .run baseline => return some baseline
    | .invalid message => do
      stderr ("invalid baseline schema at ".toList ++ path ++ ": ".toList ++ message)
      Eff.raise .exitInvalidBaseline

def noMetrics : Metrics := fun _ => none

def resolveRagasMetrics (env : Env) (entries : List EntryResult) : RunnerMode → Main Metrics
  | .offline => return noMetrics
  | .live =>
    let canonOk := entries.filter fun e => e.mode = .canon ∧ e.status = .ok
    if canonOk = [] then return noMetrics
    else
      match env.judge canonOk with
      | .ok metrics => return metrics
      | .error _ => Eff.raise .uncaught

def handleAutoCreateBaseline (env : Env) (path : Text) (run : RunFile) (gateAPassed : Bool) :
    Main Nat := do
  if errorRateThreshold < errorRate run.totals then
    stderr ("cannot bootstrap baseline: error rate ".toList ++
      env.fixed 1 (errorRate run.totals * 100) ++ "% exceeds 10%".toList)
    return 1
  Eff.perform (.writeRun path run)
  Eff.perform (.stdout ⟨run.mode, run.totals, run.metrics, ⟨gateAPassed, []⟩,
    ⟨true, true, "no baseline yet".toList, []⟩, some "PASS (no baseline yet)".toList⟩)
  return 0

/-- `baseline_run is not None and should_skip_gate_b(repo_path)`. -/
def skipGateB (env : Env) : Option BaselineRun → Main Bool
  | none => return false
  | some _ =>
    match shouldSkipGateB env.git with
    | some skip => return skip
    | none => Eff.raise .uncaught

def emitSummaryAndExit (env : Env) (run : RunFile) (baselineRun : Option BaselineRun) :
    Main Nat := do
  let gateA := applyGateA env.fixed run.metrics run.mode
  Eff.performAll (gateA.1.map .stderr)
  let skip ← skipGateB env baselineRun
  let effectiveBaseline := if skip then none else baselineRun
  let gateB :=
    applyGateB env.fixed run.metrics (run.breakdown .canon).score effectiveBaseline run.mode
  Eff.performAll (gateB.1.map .stderr)
  Eff.performAll (if errorRateThreshold < errorRate run.totals then
      [.stderr ("error rate ".toList ++ env.fixed 1 (errorRate run.totals * 100) ++
        "% exceeds 10% threshold".toList)]
    else [])
  Eff.perform (.stdout ⟨run.mode, run.totals, run.metrics, gateA.2, gateB.2, none⟩)
  if gateA.2.passed = false ∨ gateB.2.passed = false ∨
      errorRateThreshold < errorRate run.totals then return 1
  return 0

def maybePersist (env : Env) (args : Args) (run : RunFile) : Main (Option Nat) :=
  if args.persist = false then return none
  else if run.mode = .offline then return none
  else
    match buildEvalRunRow run with
    | none => return some 4
    | some row =>
      match env.persistEvalRun row with
      | .ok _ => do
        Eff.perform (.inserted row)
        return none
      | .error .persistError => return some 4
      | .error .uncaught => Eff.raise .uncaught

/-- What `main` gets to before it runs an entry: the entries and the token, or an exit code. -/
def prepare (env : Env) (args : Args) : Main (Except Nat (List GoldenEntry × Option Text)) := do
  match env.goldenSet with
  | .error (.valueError message) =>
    stderr ("schema error: ".toList ++ message)
    return .error 2
  | .error .osError => Eff.raise .uncaught
  | .ok golden =>
    let authenticated := isAuthenticatedTarget args.workersUrl
    let token := if authenticated then env.fetchToken (deriveAudience args.workersUrl) else none
    if authenticated ∧ token = none then return .error 5
    if env.healthy token = false then
      stderr ("workers unreachable at ".toList ++ args.workersUrl.text)
      return .error 3
    return .ok (golden, token)

/-- From the loaded entries to the written run. -/
def evaluate (env : Env) (args : Args) (golden : List GoldenEntry) (token : Option Text) :
    Main (RunFile × Option BaselineRun) := do
  let baselineRun ← loadBaseline env args.baseline
  let (entries, errors) :=
    runAllEntries env.lower env.uuid (env.workers token) args.mode golden
  let metrics ← resolveRagasMetrics env entries args.mode
  let run : RunFile :=
    ⟨args.mode, ⟨entries.length, entries.length - errors, errors⟩, aggregateBreakdown entries,
      metrics, entries⟩
  Eff.perform (.writeRun args.output run)
  return (run, baselineRun)

/-- From the written run to the exit code. -/
def conclude (env : Env) (args : Args) (run : RunFile) (baselineRun : Option BaselineRun) :
    Main Nat := do
  match ← maybePersist env args run with
  | some code => return code
  | none =>
    let gateA := applyGateA env.fixed run.metrics run.mode
    Eff.performAll (gateA.1.map .stderr)
    match args.baseline, baselineRun with
    | some path, none => handleAutoCreateBaseline env path run gateA.2.passed
    -- the gate is applied once more with the summary
    | _, _ => emitSummaryAndExit env run baselineRun

def main (env : Env) (args : Args) : Main Nat := do
  match ← prepare env args with
  | .error code => return code
  | .ok (golden, token) =>
    let (run, baselineRun) ← evaluate env args golden token
    conclude env args run baselineRun

def exitStatus : Except Halt Nat → Nat
  | .ok code => code
  | .error .exitInvalidBaseline => 2
  | .error .uncaught => 1

theorem exitStatus_eq_zero {r : Except Halt Nat} : exitStatus r = 0 ↔ r = .ok 0 := by
  rcases r with (_ | _) | code
  · simp [exitStatus]
  · simp [exitStatus]
  · simp [exitStatus]

/-! ## What exit code 0 should say, and what it says -/

def Evaluates (env : Env) (args : Args) (run : RunFile) : Prop :=
  ∃ golden token baselineRun, (prepare env args).result = .ok (.ok (golden, token)) ∧
    (evaluate env args golden token).result = .ok (run, baselineRun)

/-- The verdict a live run should give: every score is there and reaches its threshold, few entries
failed, and no score of an existing baseline is missing or has dropped by more than its tolerance,
unless a baseline-bump commit skips Gate B. -/
structure Sound (env : Env) (args : Args) (run : RunFile) : Prop where
  scored : ∀ check ∈ gateAThresholds, ∃ value, run.metrics check.1 = some value ∧ check.2 ≤ value
  errorRate_le : errorRate run.totals ≤ errorRateThreshold
  kept : ∀ path baseline, args.baseline = some path → env.baselineAt path = .run baseline →
    shouldSkipGateB env.git ≠ some true → ∀ check ∈ gateBTolerances, ∀ b,
      baseline.metrics check.1 = some b → ∃ c, run.metrics check.1 = some c ∧ b - check.2 ≤ c

def Judged (run : RunFile) : Prop := ∀ m, ∃ value, run.metrics m = some value

def Bootstraps (env : Env) (args : Args) : Prop :=
  ∃ path, args.baseline = some path ∧ env.baselineAt path = .missing

variable {env : Env} {baselineRun : Option BaselineRun} {args : Args} {run : RunFile}
  {baseline : BaselineRun} {fixed : Nat → ℚ → Text}

theorem loadBaseline_ok {path? : Option Text}
    (h : (loadBaseline env path?).result = .ok baselineRun) :
    (baselineRun = none ∧ ∀ path, path? = some path → env.baselineAt path = .missing) ∨
      ∃ path baseline, path? = some path ∧ env.baselineAt path = .run baseline ∧
        baselineRun = some baseline := by
  rcases path? with _ | path
  · cases h
    exact .inl ⟨rfl, by simp⟩
  · rcases hfile : env.baselineAt path with _ | message | baseline
    · simp only [loadBaseline, hfile] at h
      cases h
      exact .inl ⟨rfl, fun p hp => by cases hp; exact hfile⟩
    · simp [loadBaseline, hfile, stderr] at h
    · simp only [loadBaseline, hfile] at h
      cases h
      exact .inr ⟨path, baseline, rfl, hfile, rfl⟩

theorem evaluate_ok {golden : List GoldenEntry} {token : Option Text}
    (h : (evaluate env args golden token).result = .ok (run, baselineRun)) :
    run.mode = args.mode ∧ (loadBaseline env args.baseline).result = .ok baselineRun := by
  obtain ⟨loaded, hload, h⟩ := Eff.result_bind_eq_ok.mp h
  obtain ⟨metrics, -, h⟩ := Eff.result_bind_eq_ok.mp h
  cases h
  exact ⟨rfl, hload⟩

theorem prepare_error {code : Nat} (h : (prepare env args).result = .ok (.error code)) :
    code ≠ 0 := by
  unfold prepare at h
  rcases hset : env.goldenSet with (message | _) | golden
  · simp only [hset, stderr, Eff.perform_eq, Eff.bind_ok] at h
    cases h
    decide
  · simp only [hset] at h
    cases h
  · simp only [hset] at h
    generalize (if isAuthenticatedTarget args.workersUrl = true then
      env.fetchToken (deriveAudience args.workersUrl) else none) = token at h
    split at h
    · cases h
      decide
    · split at h
      · cases h
        decide
      · cases h

theorem main_zero (h : exitStatus (main env args).result = 0) :
    ∃ golden token run baselineRun, (prepare env args).result = .ok (.ok (golden, token)) ∧
      (evaluate env args golden token).result = .ok (run, baselineRun) ∧
      (conclude env args run baselineRun).result = .ok 0 := by
  rw [exitStatus_eq_zero] at h
  obtain ⟨prepared, hprep, h⟩ := Eff.result_bind_eq_ok.mp h
  rcases prepared with code | ⟨golden, token⟩
  · cases h
    exact absurd rfl (prepare_error hprep)
  · obtain ⟨⟨run, baselineRun⟩, heval, h⟩ := Eff.result_bind_eq_ok.mp h
    exact ⟨golden, token, run, baselineRun, hprep, heval, h⟩

theorem buildEvalRunRow_judged {row : EvalRunRow} (h : buildEvalRunRow run = some row) :
    Judged run := by
  simp only [buildEvalRunRow, Option.bind_eq_bind, Option.bind_eq_some_iff] at h
  obtain ⟨f, hf, a, ha, p, hp, r, hr, -⟩ := h
  intro m
  cases m with
  | faithfulness => exact ⟨f, hf⟩
  | answerRelevancy => exact ⟨a, ha⟩
  | contextPrecision => exact ⟨p, hp⟩
  | contextRecall => exact ⟨r, hr⟩

theorem maybePersist_ok {code? : Option Nat} (h : (maybePersist env args run).result = .ok code?) :
    code? = some 4 ∨ code? = none ∧ (args.persist = true → run.mode = .live → Judged run) := by
  unfold maybePersist at h
  split at h
  case isTrue hoff =>
    cases h
    exact .inr ⟨rfl, fun hon => by simp [hoff] at hon⟩
  split at h
  case isTrue hoff =>
    cases h
    exact .inr ⟨rfl, fun _ hlive => by simp [hoff] at hlive⟩
  rcases hrow : buildEvalRunRow run with _ | row
  · simp only [hrow] at h
    cases h
    exact .inl rfl
  · simp only [hrow] at h
    rcases hins : env.persistEvalRun row with (_ | _) | _
    · simp only [hins] at h
      cases h
      exact .inl rfl
    · simp only [hins] at h
      cases h
    · simp only [hins] at h
      cases h
      exact .inr ⟨rfl, fun _ _ => buildEvalRunRow_judged hrow⟩

theorem handleAutoCreateBaseline_zero {path : Text} {passed : Bool}
    (h : (handleAutoCreateBaseline env path run passed).result = .ok 0) :
    errorRate run.totals ≤ errorRateThreshold := by
  unfold handleAutoCreateBaseline at h
  split at h
  · cases h
  case isFalse hrate => exact not_lt.mp hrate

theorem skipGateB_ok {skip : Bool} (h : (skipGateB env (some baseline)).result = .ok skip) :
    shouldSkipGateB env.git = some skip := by
  rcases hgit : shouldSkipGateB env.git with _ | skip'
  · simp [skipGateB, hgit] at h
  · simp only [skipGateB, hgit] at h
    cases h
    rfl

theorem emitSummaryAndExit_zero (h : (emitSummaryAndExit env run baselineRun).result = .ok 0) :
    errorRate run.totals ≤ errorRateThreshold ∧
      (applyGateA env.fixed run.metrics run.mode).2.passed = true ∧
      ∀ baseline, baselineRun = some baseline → shouldSkipGateB env.git = some true ∨
        (applyGateB env.fixed run.metrics (run.breakdown .canon).score (some baseline)
          run.mode).2.passed = true := by
  obtain ⟨-, -, h⟩ := Eff.result_bind_eq_ok.mp h
  obtain ⟨skip, hskip, h⟩ := Eff.result_bind_eq_ok.mp h
  obtain ⟨-, -, h⟩ := Eff.result_bind_eq_ok.mp h
  obtain ⟨-, -, h⟩ := Eff.result_bind_eq_ok.mp h
  obtain ⟨-, -, h⟩ := Eff.result_bind_eq_ok.mp h
  generalize heff : (if skip = true then none else baselineRun) = effective at h
  split at h
  · cases h
  case isFalse hgood =>
    simp only [not_or, Bool.not_eq_false, not_lt] at hgood
    obtain ⟨hgateA, hgateB, hrate⟩ := hgood
    refine ⟨hrate, hgateA, ?_⟩
    rintro baseline rfl
    rcases skip with _ | _
    · cases heff
      exact .inr hgateB
    · exact .inl (skipGateB_ok hskip)

theorem conclude_zero (h : (conclude env args run baselineRun).result = .ok 0) :
    errorRate run.totals ≤ errorRateThreshold ∧
      (args.baseline = none ∨ baselineRun ≠ none →
        (applyGateA env.fixed run.metrics run.mode).2.passed = true ∧
        ∀ baseline, baselineRun = some baseline → shouldSkipGateB env.git = some true ∨
          (applyGateB env.fixed run.metrics (run.breakdown .canon).score (some baseline)
            run.mode).2.passed = true) := by
  obtain ⟨code?, hpersist, h⟩ := Eff.result_bind_eq_ok.mp h
  rcases maybePersist_ok hpersist with rfl | ⟨rfl, -⟩
  · cases h
  · obtain ⟨-, -, h⟩ := Eff.result_bind_eq_ok.mp h
    rcases hpath : args.baseline with _ | path <;> rcases baselineRun with _ | baseline
    · simp only [hpath] at h
      obtain ⟨hrate, hgates⟩ := emitSummaryAndExit_zero h
      exact ⟨hrate, fun _ => hgates⟩
    · simp only [hpath] at h
      obtain ⟨hrate, hgates⟩ := emitSummaryAndExit_zero h
      exact ⟨hrate, fun _ => hgates⟩
    · simp only [hpath] at h
      exact ⟨handleAutoCreateBaseline_zero h, by simp⟩
    · simp only [hpath] at h
      obtain ⟨hrate, hgates⟩ := emitSummaryAndExit_zero h
      exact ⟨hrate, fun _ => hgates⟩

/-- With `--persist` a live run that exits with 0 has all its scores. -/
theorem conclude_persist_judged (hpersist : args.persist = true) (hlive : run.mode = .live)
    (h : (conclude env args run baselineRun).result = .ok 0) : Judged run := by
  obtain ⟨code?, hcode, h⟩ := Eff.result_bind_eq_ok.mp h
  rcases maybePersist_ok hcode with rfl | ⟨rfl, hjudged⟩
  · cases h
  · exact hjudged hpersist hlive

/-! ## The verdict -/

theorem Sound.judged (h : Sound env args run) : Judged run := by
  intro m
  obtain ⟨threshold, hmem⟩ := (gates_cover m).1
  obtain ⟨value, hvalue, -⟩ := h.scored _ hmem
  exact ⟨value, hvalue⟩

theorem Sound.gateA (h : Sound env args run) :
    (applyGateA env.fixed run.metrics .live).2.passed = true := by
  rw [applyGateA_passed]
  intro check hmem value hvalue
  obtain ⟨value', hvalue', hle⟩ := h.scored check hmem
  cases hvalue.symm.trans hvalue'
  exact hle

theorem Judged.scored (hj : Judged run)
    (hgate : (applyGateA fixed run.metrics .live).2.passed = true) :
    ∀ check ∈ gateAThresholds, ∃ value, run.metrics check.1 = some value ∧ check.2 ≤ value := by
  intro check hmem
  obtain ⟨value, hvalue⟩ := hj check.1
  exact ⟨value, hvalue, (applyGateA_passed fixed run.metrics).mp hgate check hmem value hvalue⟩

theorem Judged.kept (hj : Judged run) {canon : Structural → Option ℚ}
    (hgate : (applyGateB fixed run.metrics canon (some baseline) .live).2.passed = true) :
    ∀ check ∈ gateBTolerances, ∀ b, baseline.metrics check.1 = some b →
      ∃ c, run.metrics check.1 = some c ∧ b - check.2 ≤ c := by
  intro check hmem b hb
  obtain ⟨c, hc⟩ := hj check.1
  exact ⟨c, hc, (applyGateB_passed fixed run.metrics canon baseline).mp hgate check hmem c b hc hb⟩

/-- A live run that exits with 0 deserves it exactly when the judge gave every score and, where a
baseline was created, Gate A passed. -/
theorem main_sound_iff (env : Env) (args : Args) (hlive : args.mode = .live)
    (hzero : exitStatus (main env args).result = 0) :
    ∃ run, Evaluates env args run ∧
      (Sound env args run ↔ Judged run ∧
        (Bootstraps env args → (applyGateA env.fixed run.metrics .live).2.passed = true)) := by
  obtain ⟨golden, token, run, baselineRun, hprep, heval, hconclude⟩ := main_zero hzero
  obtain ⟨hmode, hload⟩ := evaluate_ok heval
  rw [hlive] at hmode
  obtain ⟨hrate, hgates⟩ := conclude_zero hconclude
  rw [hmode] at hgates
  refine ⟨run, ⟨golden, token, baselineRun, hprep, heval⟩, ?_, ?_⟩
  · intro hsound
    exact ⟨hsound.judged, fun _ => hsound.gateA⟩
  · rintro ⟨hjudged, hboot⟩
    rcases loadBaseline_ok hload with ⟨rfl, hmissing⟩ | ⟨path, baseline, hpath, hfile, rfl⟩
    · -- no baseline was read: Gate A is all there is
      have hgateA : (applyGateA env.fixed run.metrics .live).2.passed = true := by
        rcases hpath : args.baseline with _ | path
        · exact (hgates (.inl hpath)).1
        · exact hboot ⟨path, hpath, hmissing path hpath⟩
      refine ⟨hjudged.scored hgateA, hrate, ?_⟩
      intro path baseline hpath hfile
      rw [hmissing path hpath] at hfile
      cases hfile
    · obtain ⟨hgateA, hgateB⟩ := hgates (.inr (by simp))
      refine ⟨hjudged.scored hgateA, hrate, ?_⟩
      intro path' baseline' hpath' hfile' hskip
      rw [hpath] at hpath'
      cases hpath'
      rw [hfile] at hfile'
      cases hfile'
      exact hjudged.kept ((hgateB baseline rfl).resolve_left hskip)

def sampleEnv (golden : List GoldenEntry) (score : ℚ) (file : BaselineFile) : Env where
  fixed := fun _ _ => []
  lower := id
  uuid := fun _ => []
  goldenSet := .ok golden
  fetchToken := fun _ => none
  healthy := fun _ => true
  baselineAt := fun _ => file
  workers := fun _ => ⟨fun _ _ => .ok [], fun _ _ => .ok ⟨[], []⟩⟩
  judge := fun _ => .ok fun _ => some score
  persistEvalRun := fun _ => .ok ()
  git := ⟨some "feat: reranking".toList, none, none, fun _ => none⟩

def liveArgs : Args where
  mode := .live
  baseline := some baselineFile
  output := "eval/runs/run.json".toList
  workersUrl := ⟨"http://localhost:8000".toList, "http".toList, "localhost".toList,
    "localhost:8000".toList⟩
  persist := false

def canonQuestion : GoldenEntry := ⟨"q1".toList, .canon, "Qui ?".toList, [], []⟩

def offTopicQuestion : GoldenEntry := ⟨"q2".toList, .offTopic, "Quoi ?".toList, [], []⟩

def scoresOf (score : ℚ) : BaselineFile := .run ⟨fun _ => some score, fun _ => none⟩

def steadyEnv : Env := sampleEnv [canonQuestion] (9 / 10) (scoresOf (9 / 10))

theorem main_sound_iff_steady :
    exitStatus (main steadyEnv liveArgs).result = 0 ∧ ∃ run, Evaluates steadyEnv liveArgs run ∧
      Judged run ∧ ¬ Bootstraps steadyEnv liveArgs ∧ Sound steadyEnv liveArgs run := by
  have hzero : exitStatus (main steadyEnv liveArgs).result = 0 := by decide +kernel
  obtain ⟨run, heval, hiff⟩ := main_sound_iff steadyEnv liveArgs rfl hzero
  have hjudged : Judged run := by
    obtain ⟨golden, token, baselineRun, hprep, heval⟩ := heval
    cases hprep
    cases heval
    rintro (_ | _ | _)
    all_goals exact ⟨_, rfl⟩
  have hbaseline : ¬ Bootstraps steadyEnv liveArgs := by rintro ⟨_, ⟨⟩, ⟨⟩⟩
  exact ⟨hzero, run, heval, hjudged, hbaseline,
    hiff.2 ⟨hjudged, fun hboot => absurd hboot hbaseline⟩⟩

/-- No canon question was asked, so every score of the baseline is missing. -/
def unscoredEnv : Env := sampleEnv [offTopicQuestion] 0 (scoresOf 1)

/-- Every score is 0 and there is no baseline yet. -/
def firstEnv : Env := sampleEnv [canonQuestion] 0 .missing

theorem vacuous_runs_pass :
    (exitStatus (main unscoredEnv liveArgs).result = 0 ∧
      ∃ run, Evaluates unscoredEnv liveArgs run ∧ ¬ Sound unscoredEnv liveArgs run) ∧
    exitStatus (main firstEnv liveArgs).result = 0 ∧
      ∃ run, Evaluates firstEnv liveArgs run ∧ ¬ Sound firstEnv liveArgs run := by
  refine ⟨⟨by decide +kernel, ?_⟩, by decide +kernel, ?_⟩
  · refine ⟨_, ⟨_, _, _, rfl, rfl⟩, fun hsound => ?_⟩
    obtain ⟨value, hvalue⟩ := hsound.judged .faithfulness
    cases hvalue
  · refine ⟨_, ⟨_, _, _, rfl, rfl⟩, fun hsound => ?_⟩
    exact absurd hsound.gateA (by decide +kernel)

end Archiviste.Eval
