import GgAgent.Lib.Table

/-!
The data model of the control plane: enumerations, the rows of the runtime
database, and the exceptions that cross function boundaries.

Identifiers that the program only compares (task ids, message ids, provider and
conversation ids) are natural numbers; times are microseconds. The two texts the
program takes apart are structured instead: a start key is the task id or
`task_id:message_id`, and an execution id is either such a key, while no sandbox
has answered, or an id issued by a sandbox.
-/

namespace GgAgent.Backend

open GgAgent.Lib

abbrev TaskId := Nat
abbrev OwnerId := Nat
abbrev MessageId := Nat
abbrev ProviderId := Nat
abbrev ConversationId := Nat
abbrev Time := Nat

def seconds (n : Nat) : Time := n * 1000000
def minutes (n : Nat) : Time := seconds (60 * n)
def days (n : Nat) : Time := minutes (24 * 60 * n)

/-! ### Enumerations -/

inductive TaskState
  | queued | starting | running | idle | sleeping | finalizing | completed | failed | cancelled
  deriving DecidableEq, Repr

def TaskState.value : TaskState → String
  | .queued => "queued"
  | .starting => "starting"
  | .running => "running"
  | .idle => "idle"
  | .sleeping => "sleeping"
  | .finalizing => "finalizing"
  | .completed => "completed"
  | .failed => "failed"
  | .cancelled => "cancelled"

/-- `_TERMINAL_TASK_STATES`. -/
def TaskState.terminal : TaskState → Bool
  | .completed | .failed | .cancelled => true
  | _ => false

inductive ReservationPhase
  | starting | running | finalizing | terminationPending | unresolvedCreation
  deriving DecidableEq, Repr

inductive SandboxProviderState
  | creating | running | stopped | unknown
  deriving DecidableEq, Repr

inductive MessageDeliveryStatus
  | accepted | delivered | failed | unknown
  deriving DecidableEq, Repr

inductive TaskExecutionPhase
  | accepted | preparing | runningAgent | runningChecks | completed | failed
  deriving DecidableEq, Repr

/-- The sandbox has nothing more to do for the execution. -/
def TaskExecutionPhase.over : TaskExecutionPhase → Bool
  | .completed | .failed => true
  | _ => false

inductive AgentOutcome
  | succeeded | failed | cancelled | timeout | noChanges | notRun
  deriving DecidableEq, Repr

def AgentOutcome.value : AgentOutcome → String
  | .succeeded => "succeeded"
  | .failed => "failed"
  | .cancelled => "cancelled"
  | .timeout => "timeout"
  | .noChanges => "no_changes"
  | .notRun => "not_run"

inductive CheckOutcome
  | passed | failed | notRun | timeout
  deriving DecidableEq, Repr

def CheckOutcome.value : CheckOutcome → String
  | .passed => "passed"
  | .failed => "failed"
  | .notRun => "not_run"
  | .timeout => "timeout"

inductive PublicationState
  | pending | pushed | creating | published | skipped | failed
  deriving DecidableEq, Repr

/-- `task_id`, or `task_id:message_id` for the prompt of a message. -/
inductive StartKey
  | task (t : TaskId)
  | message (t : TaskId) (m : MessageId)
  deriving DecidableEq, Repr

/-- The task whose execution the key starts. -/
def StartKey.taskId : StartKey → TaskId
  | .task t | .message t _ => t

/-- `start_key.partition(":")[2]`. -/
def StartKey.messageId? : StartKey → Option MessageId
  | .task _ => none
  | .message _ m => some m

inductive ExecutionId
  | key (k : StartKey)
  | sandbox (n : Nat)
  deriving DecidableEq, Repr

/-! ### Exceptions -/

/-- The subclasses of `ModalLifecycleError`. -/
inductive LifecycleError
  | plain | credentialUnavailable | ambiguousProviderState | sandboxNotFound | conflictingSandboxes
  deriving DecidableEq, Repr

/-- What `TaskService.validate` and `submit` have against a request. -/
inductive ValidationFailure
  | unsupportedModel
  | repositoryFormat (repository : String)
  | baseRefRequired
  | baseRefWithoutRepository
  | promptEmpty
  | promptTooLong (length max : Nat)
  | idempotencyKeyEmpty
  | idempotencyKeyTooLong (length max : Nat)
  | baseRefFormat (baseRef : String)
  | baseRefDots (baseRef : String)
  | baseRefTooLong (length max : Nat)
  | authorizationUnavailable
  | privateKeyMissing
  | repositoryAccess (text : String)
  | retryOfInaccessible
  deriving DecidableEq, Repr

/-- The `repr` of a text of printable characters without quotes and backslashes. -/
def quoted (s : String) : String := "'" ++ s ++ "'"

def ValidationFailure.text : ValidationFailure → String
  | .unsupportedModel => "unsupported model"
  | .repositoryFormat s => "repository must be 'owner/name', got " ++ quoted s
  | .baseRefRequired => "base_ref is required with repository"
  | .baseRefWithoutRepository => "base_ref requires repository"
  | .promptEmpty => "prompt must be non-empty"
  | .promptTooLong n m => "prompt length " ++ toString n ++ " exceeds max " ++ toString m
  | .idempotencyKeyEmpty => "idempotency_key must be non-empty"
  | .idempotencyKeyTooLong n m =>
    "idempotency_key length " ++ toString n ++ " exceeds max " ++ toString m
  | .baseRefFormat s => "base_ref " ++ quoted s ++ " is not a valid git ref"
  | .baseRefDots s => "base_ref " ++ quoted s ++ " must not contain '..'"
  | .baseRefTooLong n m => "base_ref length " ++ toString n ++ " exceeds max " ++ toString m
  | .authorizationUnavailable => "GitHub repository authorization unavailable"
  | .privateKeyMissing => "GitHub App private key is not configured"
  | .repositoryAccess s => s
  | .retryOfInaccessible => "retry_of must refer to an accessible task"

inductive Exn
  | lifecycle (kind : LifecycleError) (text : String)
  | providerNotFound
  | repositoryAccess (text : String)
  /-- `httpx.HTTPStatusError`, with the `detail` of a JSON body if it has one. -/
  | httpStatus (code : Nat) (detail : Option String) (text : String)
  /-- Any other `httpx.HTTPError`. -/
  | httpError (name text : String)
  /-- `fastapi.HTTPException`. -/
  | httpException (status : Nat) (detail : String)
  | keyError (text : String)
  | runtimeError (text : String)
  | valueError (text : String)
  | invalidToken
  | sqliteError
  | taskControl (text : String)
  | taskValidation (failure : ValidationFailure)
  | taskConflict (idempotencyKey : String) (id : TaskId)
  | storagePressure (reason : String)
  | other (name text : String)
  deriving DecidableEq, Repr

/-- `str(exc)`. -/
def Exn.text : Exn → String
  | .lifecycle _ s | .repositoryAccess s | .httpStatus _ _ s | .httpError _ s | .httpException _ s
  | .keyError s | .runtimeError s | .valueError s | .taskControl s | .storagePressure s
  | .other _ s => s
  | .taskValidation f => f.text
  | .taskConflict k id =>
    "idempotency key " ++ quoted k ++ " already used by task " ++ toString id
  | .providerNotFound | .invalidToken | .sqliteError => ""

/-- `type(exc).__name__`. -/
def Exn.typeName : Exn → String
  | .lifecycle .plain _ => "ModalLifecycleError"
  | .lifecycle .credentialUnavailable _ => "CredentialUnavailableError"
  | .lifecycle .ambiguousProviderState _ => "AmbiguousProviderStateError"
  | .lifecycle .sandboxNotFound _ => "SandboxNotFoundError"
  | .lifecycle .conflictingSandboxes _ => "ConflictingSandboxesError"
  | .providerNotFound => "_ProviderNotFoundError"
  | .repositoryAccess _ => "RepositoryAccessError"
  | .httpStatus _ _ _ => "HTTPStatusError"
  | .httpError n _ => n
  | .httpException _ _ => "HTTPException"
  | .keyError _ => "KeyError"
  | .runtimeError _ => "RuntimeError"
  | .valueError _ => "ValueError"
  | .invalidToken => "InvalidToken"
  | .sqliteError => "Error"
  | .taskControl _ => "TaskControlError"
  | .taskValidation _ => "TaskValidationError"
  | .taskConflict _ _ => "TaskConflictError"
  | .storagePressure _ => "StoragePressureError"
  | .other n _ => n

/-! ### Rows -/

/-- A row of `tasks`. The repository is stored as text, empty for none. -/
structure TaskRecord where
  id : TaskId
  seq : Nat
  state : TaskState
  idempotencyKey : String
  ownerId : Option OwnerId
  repositoryText : String
  prompt : String
  baseRef : Option String
  baseSha : Option String
  retryOf : Option TaskId
  model : String
  createdAt : Time
  updatedAt : Time
  outcomeDetail : Option String
  checkStatus : Option String
  sandboxCleanupStatus : Option String
  payloadExpired : Bool
  workspaceExpired : Bool
  workspaceLastActivityAt : Option Time
  deriving DecidableEq, Repr

/-- `row["repository"] or None`. -/
def TaskRecord.repository (r : TaskRecord) : Option String :=
  if r.repositoryText = "" then none else some r.repositoryText

/-- `workspace_last_activity_at or updated_at`. -/
def TaskRecord.lastActivity (r : TaskRecord) : Time := r.workspaceLastActivityAt.getD r.updatedAt

structure ReservationRecord where
  taskId : TaskId
  phase : ReservationPhase
  condition : Option String
  reservedAt : Time
  updatedAt : Time
  deriving DecidableEq, Repr

/-- The tags that identify a sandbox at the provider. The third tag of the
source, `gg_identity`, is the text `deployment:task_id` of the other two. -/
structure Tags where
  deployment : String
  taskId : TaskId
  deriving DecidableEq, Repr

structure SandboxCreationRecord where
  taskId : TaskId
  deployment : String
  sandboxName : String
  tags : Tags
  sessionApiKey : String
  credentialVersion : Option Nat
  providerId : Option ProviderId
  providerState : SandboxProviderState
  detail : Option String
  createdAt : Time
  updatedAt : Time
  deriving DecidableEq, Repr

structure SupervisionRecord where
  taskId : TaskId
  executionId : ExecutionId
  taskBranch : String
  startKey : StartKey
  conversationId : Option ConversationId
  cancelRequested : Bool
  tailGapPossible : Bool
  createdAt : Time
  updatedAt : Time
  deriving DecidableEq, Repr

structure MessageReceipt where
  id : MessageId
  content : String
  status : MessageDeliveryStatus
  detail : Option String
  createdAt : Time
  updatedAt : Time
  deriving DecidableEq, Repr

/-- A row of `task_message_receipts`. -/
structure ReceiptRow where
  taskId : TaskId
  receipt : MessageReceipt
  deriving DecidableEq, Repr

/-- The part of a `TaskResultManifest` that the control plane decides from. -/
structure TaskResultManifest where
  baseSha : Option String
  checkOutcome : CheckOutcome
  agentOutcome : AgentOutcome
  outcomeDetail : Option String
  deriving DecidableEq, Repr

structure TaskResultArchive where
  taskId : TaskId
  executionId : Option ExecutionId
  manifest : Option TaskResultManifest
  evidenceComplete : Bool
  evidenceDetail : Option String
  archivedAt : Time
  deriving DecidableEq, Repr

structure PublicationRecord where
  taskId : TaskId
  repository : String
  taskBranch : String
  baseRef : String
  taskMarker : TaskId
  state : PublicationState
  commitSha : Option String
  checkOutcome : CheckOutcome
  agentOutcome : AgentOutcome
  prNumber : Option Nat
  prUrl : Option String
  prDraft : Option Bool
  prAuthor : Option String
  prState : Option String
  detail : Option String
  createdAt : Time
  updatedAt : Time
  deriving DecidableEq, Repr

/-- A value in the payload of an event: a text, or another value by its `str`. -/
inductive PayloadValue
  | text (s : String)
  | other (s : String)
  deriving DecidableEq, Repr

/-- `str(value)`. -/
def PayloadValue.str : PayloadValue → String
  | .text s | .other s => s

structure Event where
  seq : Nat
  kind : String
  payload : List (String × PayloadValue)
  deriving DecidableEq, Repr

structure EventCounter where
  taskId : TaskId
  value : Nat
  deriving DecidableEq, Repr

structure EventIdentity where
  taskId : TaskId
  sourceId : ConversationId
  sourceSeq : Nat
  cursorSeq : Nat
  deriving DecidableEq, Repr

structure EventCopy where
  taskId : TaskId
  cursorSeq : Nat
  sourceId : ConversationId
  sourceSeq : Nat
  eventJson : String
  createdAt : Time
  deriving DecidableEq, Repr

structure EventSourceCursor where
  taskId : TaskId
  sourceId : ConversationId
  sourceSeq : Nat
  deriving DecidableEq, Repr

structure Tombstone where
  taskId : TaskId
  remoteEffect : Option (Option Nat × Option String × Option String × PublicationState)
  expiresAt : Time
  deriving DecidableEq, Repr

/-- A row of `task_idempotency`: what is kept of a task for ever. -/
structure RetiredKey where
  taskId : TaskId
  ownerId : Option OwnerId
  idempotencyKey : String
  seq : Nat
  terminalState : TaskState
  model : String
  createdAt : Time
  updatedAt : Time
  deriving DecidableEq, Repr

instance : Keyed TaskRecord TaskId := ⟨TaskRecord.id⟩
instance : Keyed ReservationRecord TaskId := ⟨ReservationRecord.taskId⟩
instance : Keyed SandboxCreationRecord TaskId := ⟨SandboxCreationRecord.taskId⟩
instance : Keyed SupervisionRecord TaskId := ⟨SupervisionRecord.taskId⟩
instance : Keyed ReceiptRow (TaskId × MessageId) := ⟨fun r => (r.taskId, r.receipt.id)⟩
instance : Keyed TaskResultArchive TaskId := ⟨TaskResultArchive.taskId⟩
instance : Keyed PublicationRecord TaskId := ⟨PublicationRecord.taskId⟩
instance : Keyed EventCounter TaskId := ⟨EventCounter.taskId⟩
instance : Keyed EventIdentity (TaskId × ConversationId × Nat) :=
  ⟨fun r => (r.taskId, r.sourceId, r.sourceSeq)⟩
instance : Keyed EventCopy (TaskId × Nat) := ⟨fun r => (r.taskId, r.cursorSeq)⟩
instance : Keyed EventSourceCursor (TaskId × ConversationId) := ⟨fun r => (r.taskId, r.sourceId)⟩
instance : Keyed Tombstone TaskId := ⟨Tombstone.taskId⟩
instance : Keyed RetiredKey TaskId := ⟨RetiredKey.taskId⟩

end GgAgent.Backend
