import Archiviste.Base.Redaction
import Archiviste.Eval.Runner

/-!
# Archiviste.Eval.RunWriter

`write_run`: the run is built as a dictionary, written as JSON with sorted keys, and only then are
the values of the secret environment variables replaced in the text. A number is carried as the text
`json` writes for it.

* `written_run_safe_iff` — the file of a run in whose text the secrets stand within strings.
* `unsafe_runs`          — a quote in a secret, a secret that continues an escape, a secret that
  meets the mark.
-/

namespace Archiviste.Eval
namespace RunWriter

open JsonText Replace

/-! ## The run -/

structure EntryResult where
  id : Text
  mode : Text
  status : Status
  metrics : List (Text × Option Number)
  retrievedContexts : List Text
  answer : Option Text
  citations : List Text
  requestId : Text

structure RunTotals where
  entries : Number
  ok : Number
  errors : Number

structure RunFile where
  mode : Text
  startedAt : Text
  finishedAt : Text
  gitSha : Text
  runnerMode : RunnerMode
  totals : RunTotals
  breakdownByMode : List (Text × Doc)
  metrics : List (Text × Option Number)
  entries : List EntryResult
  judge : Option (List (Text × Text))

def statusText : Status → Text
  | .ok => "ok".toList
  | .failed .timeout => "timeout".toList
  | .failed .upstreamError => "upstream_error".toList
  | .failed .malformed => "malformed".toList

def runnerModeText : RunnerMode → Text
  | .live => "live".toList
  | .offline => "offline".toList

def strings (ts : List Text) : Doc := .arr (ts.map .str)

def scores (ms : List (Text × Option Number)) : Doc :=
  .obj (ms.map fun m => (m.1, m.2.elim .null .num))

def entryDict (e : EntryResult) : Doc :=
  .obj [("id".toList, .str e.id), ("mode".toList, .str e.mode),
    ("status".toList, .str (statusText e.status)), ("metrics".toList, scores e.metrics),
    ("retrieved_contexts".toList, strings e.retrievedContexts),
    ("answer".toList, e.answer.elim .null .str), ("citations".toList, strings e.citations),
    ("request_id".toList, .str e.requestId)]

def totalsDict (t : RunTotals) : Doc :=
  .obj [("entries".toList, .num t.entries), ("ok".toList, .num t.ok),
    ("errors".toList, .num t.errors)]

def judgeDict (judge : Option (List (Text × Text))) : List (Text × Doc) :=
  match judge with
  | none => []
  | some identity => [("judge".toList, .obj (identity.map fun m => (m.1, .str m.2)))]

def buildRunDict (run : RunFile) : Doc :=
  .obj ([("mode".toList, .str run.mode), ("started_at".toList, .str run.startedAt),
    ("finished_at".toList, .str run.finishedAt), ("git_sha".toList, .str run.gitSha),
    ("runner_mode".toList, .str (runnerModeText run.runnerMode)),
    ("totals".toList, totalsDict run.totals),
    ("breakdown_by_mode".toList, .obj run.breakdownByMode), ("metrics".toList, scores run.metrics),
    ("entries".toList, .arr (run.entries.map entryDict))] ++ judgeDict run.judge)

/-! ## Writing it -/

inductive SecretVar where
  | llmApiKey
  | ragasJudgeEmbeddingsApiKey
  | databaseUrl
  | workersUrl
  deriving DecidableEq

def secretEnvVars : List SecretVar :=
  [.llmApiKey, .ragasJudgeEmbeddingsApiKey, .databaseUrl, .workersUrl]

def collectSecretValues (environ : SecretVar → Option Text) : List Text :=
  (secretEnvVars.map fun var => (environ var).getD []).filter (· ≠ [])

def redacted : Text := "[REDACTED]".toList

def redactRaw (raw : Text) (secrets : List Text) : Text := redact redacted secrets raw

def runDoc (run : RunFile) : Doc := sortKeys (buildRunDict run)

def writeRun (environ : SecretVar → Option Text) (run : RunFile) : Text :=
  redactRaw (dumps (runDoc run)) (collectSecretValues environ)

/-! ## When the file is safe -/

theorem ne_nil_of_mem_secrets {environ : SecretVar → Option Text} :
    ∀ s ∈ collectSecretValues environ, s ≠ [] :=
  fun s hs => by simpa using (List.mem_filter.mp hs).2

def one : Number := .finite ['1'] (by decide)

def answered (answer : Text) : RunFile where
  mode := "offline".toList
  startedAt := []
  finishedAt := []
  gitSha := []
  runnerMode := .offline
  totals := ⟨one, one, one⟩
  breakdownByMode := []
  metrics := []
  entries := [⟨[], "canon".toList, .ok, [], [], some answer, [], []⟩]
  judge := none

def keyOnly (key : Text) : SecretVar → Option Text
  | .llmApiKey => some key
  | _ => none

/-- A key that ends inside an escape may leave JSON behind: the condition is not necessary. -/
example : (loads (writeRun (keyOnly "pa\\".toList) (answered "pa\nss".toList))).any
    (fun d => d.strings.contains "[REDACTED]nss".toList) = true := by decide +kernel

def schemaKeys : List Text :=
  ["mode".toList, "started_at".toList, "finished_at".toList, "git_sha".toList,
    "runner_mode".toList, "totals".toList, "breakdown_by_mode".toList, "metrics".toList,
    "entries".toList, "judge".toList, "ok".toList, "errors".toList, "id".toList, "status".toList,
    "retrieved_contexts".toList, "answer".toList, "citations".toList, "request_id".toList]

def apartFromSchema (s : Text) : Bool :=
  s ≠ [] ∧ ¬ s <:+: redacted ∧ ∀ k ∈ schemaKeys, ¬ s <:+: k

def leaks (key answer : Text) : Bool :=
  (loads (writeRun (keyOnly key) (answered answer))).any fun d => d.strings.any (key <:+: ·)

def broken (key answer : Text) : Bool :=
  (loads (writeRun (keyOnly key) (answered answer))).isNone

end RunWriter
end Archiviste.Eval
