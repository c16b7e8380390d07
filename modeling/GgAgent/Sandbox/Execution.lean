import GgAgent.Sandbox.Redaction
import Mathlib.Data.List.Sort

/-!
The execution store of the sandbox: execution records and result manifests, with the
validation that a redacted manifest has to pass before it is stored.

The columns `execution_id`, `start_key` and `phase` of an execution are written with the
payload in one statement, as copies of its fields; a row is its payload. The SHA-256
digest of an execution id is a parameter, given by its hexadecimal digits.
-/

namespace GgAgent.Sandbox

open GgAgent.Lib
open GgAgent.Backend (Time TaskExecutionPhase AgentOutcome CheckOutcome quoted)
open Value (item?)

/-! ### Exceptions -/

/-- The exceptions that a pipeline meets, by class and text. -/
inductive Exn
  | gitPrep (text : String)
  /-- An `AgentError` of any code. -/
  | agent (code text : String)
  | runtimeError (text : String)
  /-- A `ValueError`, among them the `ValidationError` of a model. -/
  | valueError (text : String)
  | timeout (text : String)
  | conversationAlreadyRunning
  | invalidConversationState (status operation : String)
  | conversationNotFound (id : String)
  | agentControl (text : String)
  | startKeyConflict (text : String)
  | keyError (text : String)
  | integrityError
  /-- `asyncio.CancelledError`. -/
  | cancelled
  | other (name text : String)
  deriving DecidableEq, Repr

/-- `str(exc)`. -/
def Exn.text : Exn → String
  | .gitPrep s | .agent _ s | .runtimeError s | .valueError s | .timeout s | .agentControl s
  | .startKeyConflict s | .keyError s | .other _ s => s
  | .conversationAlreadyRunning => "conversation is already running"
  | .invalidConversationState status operation =>
    "cannot " ++ operation ++ " while status is " ++ status
  | .conversationNotFound id => "conversation not found: " ++ id
  | .integrityError | .cancelled => ""

/-! ### Records -/

structure StartTaskExecutionRequest where
  taskId : String
  repository : Option String
  prompt : String
  baseRef : Option String
  baseSha : Option String
  taskBranch : Option String
  startKey : String
  deadlineAt : Time
  model : String
  deriving DecidableEq, Repr

structure TaskExecutionRecord where
  executionId : String
  taskId : String
  model : String
  repository : Option String
  startKey : String
  phase : TaskExecutionPhase
  taskBranch : Option String
  baseRef : Option String
  deadlineAt : Time
  conversationId : Option String
  manifestPath : Option String
  outcomeDetail : Option String
  createdAt : Time
  updatedAt : Time
  deriving DecidableEq, Repr

instance : Keyed TaskExecutionRecord String := ⟨TaskExecutionRecord.executionId⟩

structure CommandCapture where
  command : String
  exitCode : Option Int
  durationMs : Int
  stdout : String
  stderr : String
  stdoutTruncated : Bool
  stderrTruncated : Bool
  timedOut : Bool
  deriving DecidableEq, Repr

structure TaskResultManifest where
  taskId : String
  executionId : String
  repository : Option String := none
  taskBranch : Option String := none
  baseRef : Option String := none
  baseSha : Option String := none
  headSha : Option String := none
  changedFiles : List String := []
  patch : Option String := none
  patchTruncated : Bool := false
  bootstrap : Option CommandCapture := none
  check : Option CommandCapture := none
  checkOutcome : CheckOutcome := .notRun
  agentOutcome : AgentOutcome := .notRun
  conversationId : Option String := none
  outcomeDetail : Option String := none
  completedAt : Option Time := none
  deriving DecidableEq, Repr

instance : Keyed TaskResultManifest String := ⟨TaskResultManifest.executionId⟩

/-! ### Dumping and validating a manifest -/

def Value.ofStr? : Option String → Value
  | none => .null
  | some s => .str s

def CommandCapture.dump (c : CommandCapture) : Value :=
  .dict [("command", .str c.command),
    ("exit_code", match c.exitCode with
      | none => .null
      | some n => .int n),
    ("duration_ms", .int c.durationMs), ("stdout", .str c.stdout), ("stderr", .str c.stderr),
    ("stdout_truncated", .bool c.stdoutTruncated), ("stderr_truncated", .bool c.stderrTruncated),
    ("timed_out", .bool c.timedOut)]

/-- `manifest.model_dump(mode="python")`. The words of an enumeration are strings. -/
def TaskResultManifest.dump (m : TaskResultManifest) : List (String × Value) :=
  let capture : Option CommandCapture → Value
    | none => .null
    | some c => c.dump
  [("task_id", .str m.taskId), ("execution_id", .str m.executionId),
    ("repository", .ofStr? m.repository), ("task_branch", .ofStr? m.taskBranch),
    ("base_ref", .ofStr? m.baseRef), ("base_sha", .ofStr? m.baseSha),
    ("head_sha", .ofStr? m.headSha), ("changed_files", .tuple (m.changedFiles.map .str)),
    ("patch", .ofStr? m.patch), ("patch_truncated", .bool m.patchTruncated),
    ("bootstrap", capture m.bootstrap), ("check", capture m.check),
    ("check_outcome", .str m.checkOutcome.value), ("agent_outcome", .str m.agentOutcome.value),
    ("conversation_id", .ofStr? m.conversationId), ("outcome_detail", .ofStr? m.outcomeDetail),
    ("completed_at", match m.completedAt with
      | none => .null
      | some t => .datetime t)]

/-- The member of an enumeration with this value. -/
def AgentOutcome.ofValue? (s : String) : Option AgentOutcome :=
  [.succeeded, .failed, .cancelled, .timeout, .noChanges, .notRun].find? fun o => o.value = s

def CheckOutcome.ofValue? (s : String) : Option CheckOutcome :=
  [.passed, .failed, .notRun, .timeout].find? fun o => o.value = s

namespace Field

/-- A field that must be there, as a string. -/
def requiredStr : Option Value → Option String
  | some (.str s) => some s
  | _ => none

/-- A field `str | None = None`. -/
def optionalStr : Option Value → Option (Option String)
  | none | some .null => some none
  | some (.str s) => some (some s)
  | _ => none

def requiredInt : Option Value → Option Int
  | some (.int n) => some n
  | _ => none

/-- A required field `int | None`. -/
def nullableInt : Option Value → Option (Option Int)
  | some .null => some none
  | some (.int n) => some (some n)
  | _ => none

/-- A field `bool = False`. -/
def flag : Option Value → Option Bool
  | none => some false
  | some (.bool b) => some b
  | _ => none

/-- A field `tuple[str, ...] = ()`. -/
def texts : Option Value → Option (List String)
  | none => some []
  | some (.tuple items) | some (.list items) => items.mapM fun
    | .str s => some s
    | _ => none
  | _ => none

/-- A field of an enumeration with a default. -/
def word {α : Type} (ofValue? : String → Option α) (default : α) : Option Value → Option α
  | none => some default
  | some (.str s) => ofValue? s
  | _ => none

/-- A field `datetime | None = None`. -/
def time : Option Value → Option (Option Time)
  | none | some .null => some none
  | some (.datetime t) => some (some t)
  | _ => none

/-- A field `CommandCapture | None = None`. -/
def capture : Option Value → Option (Option CommandCapture)
  | none | some .null => some none
  | some (.dict d) => do
    let command ← requiredStr (item? d "command")
    let exitCode ← nullableInt (item? d "exit_code")
    let durationMs ← requiredInt (item? d "duration_ms")
    let stdout ← requiredStr (item? d "stdout")
    let stderr ← requiredStr (item? d "stderr")
    let stdoutTruncated ← flag (item? d "stdout_truncated")
    let stderrTruncated ← flag (item? d "stderr_truncated")
    let timedOut ← flag (item? d "timed_out")
    some (some ⟨command, exitCode, durationMs, stdout, stderr, stdoutTruncated,
      stderrTruncated, timedOut⟩)
  | _ => none

end Field

/-- `TaskResultManifest.model_validate`; `none` is a `ValidationError`. -/
def TaskResultManifest.validate (d : List (String × Value)) : Option TaskResultManifest := do
  let taskId ← Field.requiredStr (item? d "task_id")
  let executionId ← Field.requiredStr (item? d "execution_id")
  let repository ← Field.optionalStr (item? d "repository")
  let taskBranch ← Field.optionalStr (item? d "task_branch")
  let baseRef ← Field.optionalStr (item? d "base_ref")
  let baseSha ← Field.optionalStr (item? d "base_sha")
  let headSha ← Field.optionalStr (item? d "head_sha")
  let changedFiles ← Field.texts (item? d "changed_files")
  let patch ← Field.optionalStr (item? d "patch")
  let patchTruncated ← Field.flag (item? d "patch_truncated")
  let bootstrap ← Field.capture (item? d "bootstrap")
  let check ← Field.capture (item? d "check")
  let checkOutcome ← Field.word CheckOutcome.ofValue? .notRun (item? d "check_outcome")
  let agentOutcome ← Field.word AgentOutcome.ofValue? .notRun (item? d "agent_outcome")
  let conversationId ← Field.optionalStr (item? d "conversation_id")
  let outcomeDetail ← Field.optionalStr (item? d "outcome_detail")
  let completedAt ← Field.time (item? d "completed_at")
  some ⟨taskId, executionId, repository, taskBranch, baseRef, baseSha, headSha, changedFiles,
    patch, patchTruncated, bootstrap, check, checkOutcome, agentOutcome, conversationId,
    outcomeDetail, completedAt⟩

/-! ### Configuration -/

structure Settings where
  workspaceDir : String
  databasePath : String
  /-- `settings.github_clone_token`. -/
  githubToken : Option String
  /-- `process_env.get("OPENROUTER_API_KEY")`. -/
  openrouterApiKey : Option String
  /-- The hexadecimal digits of the SHA-256 digest of a text. -/
  sha256 : String → List (Fin 16)

/-- `a or b` on optional strings. -/
def orElse (a b : Option String) : Option String :=
  match a with
  | some s => if s = "" then b else a
  | none => b

def truthy : Option String → Bool
  | some s => s ≠ ""
  | none => false

/-- The secrets of `_redact_manifest` that are there. -/
def Settings.secrets (cfg : Settings) (githubToken : Option String) : List String :=
  [cfg.openrouterApiKey, cfg.githubToken, githubToken].filterMap fun s =>
    if truthy s then s else none

/-- `_redact_manifest`; `none` when the redacted values are no manifest. -/
def redactManifest (cfg : Settings) (githubToken : Option String) (m : TaskResultManifest) :
    Option TaskResultManifest :=
  let secrets := cfg.secrets githubToken
  if secrets = [] then some m else TaskResultManifest.validate (redactAll secrets m.dump)

/-! ### The tables -/

def hexDigit (n : Fin 16) : Char := "0123456789abcdef".toList.getD n.val '0'

/-- `_new_execution_id`. -/
def newExecutionId (cfg : Settings) (taskId startKey : String) : String :=
  String.ofList (((cfg.sha256 (taskId ++ ":" ++ startKey)).map hexDigit).take 32)

theorem newExecutionId_unmarked (cfg : Settings) (taskId startKey : String) :
    ¬ Marked (newExecutionId cfg taskId startKey) := by
  intro h
  have hmem : '[' ∈ ((cfg.sha256 (taskId ++ ":" ++ startKey)).map hexDigit).take 32 := by
    have := h
    rw [Marked, newExecutionId, String.toList_ofList] at this
    exact this
  obtain ⟨n, -, hn⟩ := List.mem_map.mp (List.mem_of_mem_take hmem)
  have hne : ∀ n : Fin 16, hexDigit n ≠ '[' := by decide
  exact hne n hn

structure Store where
  executions : Table TaskExecutionRecord
  manifests : Table TaskResultManifest

namespace Store

/-- `ExecutionStore.manifest_reference`. -/
def manifestReference (cfg : Settings) (executionId : String) : String :=
  "sqlite:" ++ cfg.databasePath ++ "#manifest/" ++ executionId

/-- What must not differ between two requests with one start key. -/
def identity (r : TaskExecutionRecord) :
    String × Option String × Option String × Option String × String :=
  (r.taskId, r.repository, r.taskBranch, r.baseRef, r.model)

/-- The record that `admit_or_get` inserts. -/
def newRecord (cfg : Settings) (now : Time) (q : StartTaskExecutionRequest) : TaskExecutionRecord where
  executionId := newExecutionId cfg q.taskId q.startKey
  taskId := q.taskId
  model := q.model
  repository := q.repository
  startKey := q.startKey
  phase := .accepted
  taskBranch := q.taskBranch
  baseRef := q.baseRef
  deadlineAt := q.deadlineAt
  conversationId := none
  manifestPath := none
  outcomeDetail := none
  createdAt := now
  updatedAt := now

def admitOrGet (cfg : Settings) (now : Time) (q : StartTaskExecutionRequest) (s : Store) :
    Except Exn (TaskExecutionRecord × Bool) × Store :=
  match s.executions.rows.find? fun r => r.startKey = q.startKey with
  | some r =>
    if identity r ≠ (q.taskId, q.repository, q.taskBranch, q.baseRef, q.model) then
      (.error (.startKeyConflict
        ("start_key " ++ quoted q.startKey ++ " already bound to another execution")), s)
    else (.ok (r, false), s)
  | none =>
    let r := newRecord cfg now q
    -- The primary key of the table.
    if (s.executions.find? r.executionId).isSome then (.error .integrityError, s)
    else (.ok (r, true), { s with executions := s.executions.insert r })

def saveExecution (r : TaskExecutionRecord) (s : Store) : Except Exn Unit × Store :=
  match s.executions.find? r.executionId with
  | none => (.error (.keyError ("unknown execution " ++ r.executionId)), s)
  | some existing =>
    if (existing.startKey, identity existing) ≠ (r.startKey, identity r) then
      (.error (.startKeyConflict "cannot change execution identity"), s)
    else (.ok (), { s with executions := s.executions.put r })

/-- `save_manifest`, with the reference of the manifest to its execution. -/
def saveManifest (cfg : Settings) (m : TaskResultManifest) (s : Store) :
    Except Exn String × Store :=
  if (s.executions.find? m.executionId).isNone then (.error .integrityError, s)
  else (.ok (manifestReference cfg m.executionId),
    { s with manifests := s.manifests.put m })

def loadManifest (executionId : String) (s : Store) : Except Exn TaskResultManifest :=
  match s.manifests.find? executionId with
  | none => .error (.keyError ("no manifest for execution " ++ executionId))
  | some m => .ok m

/-- `list_non_terminal`, in the order of the execution ids. -/
def listNonTerminal (s : Store) : List TaskExecutionRecord :=
  (s.executions.rows.filter fun r => !r.phase.over).insertionSort
    fun a b => a.executionId ≤ b.executionId

end Store

end GgAgent.Sandbox
