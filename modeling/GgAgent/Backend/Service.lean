import GgAgent.Backend.Scheduler

/-!
`TaskService`: validation and admission of a submission, retry and cancellation.
Then the four requests that change a task, as the routes answer them, and the two
programs that the application itself composes: its start, and one activation of a
supervision loop.

A route turns the exceptions of the service into status codes, which is left out; it
answers only after a confirmed snapshot.
-/

namespace GgAgent.Backend

open GgAgent.Lib
open GgAgent.Lib.Co (attempt)

/-- `CreateTaskRequest`. -/
structure CreateTaskRequest where
  repository : Option String
  prompt : String
  idempotencyKey : String
  baseRef : Option String
  retryOf : Option TaskId
  model : String
  deriving DecidableEq, Repr

/-- The row that a request asks for. -/
def CreateTaskRequest.submission (request : CreateTaskRequest) (ownerId : Option OwnerId) :
    Submission :=
  { idempotencyKey := request.idempotencyKey, repository := request.repository,
    prompt := request.prompt, baseRef := request.baseRef, retryOf := request.retryOf,
    model := request.model, ownerId }

/-- `RetryTaskRequest`. -/
structure RetryTaskRequest where
  idempotencyKey : String
  baseRef : Option String
  deriving DecidableEq, Repr

namespace Service

/-! ### Validation -/

/-- `PI_MODEL_CATALOG`. -/
def piModelCatalog : List String := ["z-ai/glm-5.3-flashx", "anthropic/claude-sonnet-4.5"]

/-- `[A-Za-z0-9]`. -/
def isAlnum (c : Char) : Bool :=
  ('A' ≤ c ∧ c ≤ 'Z') ∨ ('a' ≤ c ∧ c ≤ 'z') ∨ ('0' ≤ c ∧ c ≤ '9')

/-- The characters of a name: `[A-Za-z0-9._-]`. -/
def isNameChar (c : Char) : Bool := isAlnum c || c = '.' || c = '_' || c = '-'

/-- What a pattern that ends with `$` has to match: the text, or the text before a
newline at its end. -/
def beforeEnd (s : List Char) : List (List Char) :=
  if s.getLast? = some '\n' then [s, s.dropLast] else [s]

/-- `_REPOSITORY_RE`: a name, a slash and a name. -/
def matchesRepository (s : String) : Bool :=
  (beforeEnd s.toList).any fun cs =>
    let owner := cs.takeWhile isNameChar
    match cs.dropWhile isNameChar with
    | '/' :: name => !owner.isEmpty && !name.isEmpty && name.all isNameChar
    | _ => false

/-- `_BASE_REF_RE`: a letter or digit, and at most 199 characters of a path. -/
def matchesBaseRef (s : String) : Bool :=
  (beforeEnd s.toList).any fun cs =>
    match cs with
    | c :: cs => isAlnum c && cs.length ≤ 199 && cs.all fun c => isNameChar c || c = '/'
    | [] => false

/-- A character that `str.strip` removes. -/
def isSpace (c : Char) : Bool :=
  let n := c.toNat
  (9 ≤ n ∧ n ≤ 13) ∨ (28 ≤ n ∧ n ≤ 32) ∨ n = 0x85 ∨ n = 0xA0 ∨ n = 0x1680 ∨
    (0x2000 ≤ n ∧ n ≤ 0x200A) ∨ n = 0x2028 ∨ n = 0x2029 ∨ n = 0x202F ∨ n = 0x205F ∨ n = 0x3000

/-- `not s.strip()`. -/
def blank (s : String) : Bool := s.toList.all isSpace

/-- `".." in s`. -/
def hasDots : List Char → Bool
  | '.' :: '.' :: _ => true
  | _ :: cs => hasDots cs
  | [] => false

/-- The checks of a base ref that is given. -/
def validateBaseRef (cfg : Config) (baseRef : String) : Except ValidationFailure Unit := do
  if !matchesBaseRef baseRef then throw (.baseRefFormat baseRef)
  if hasDots baseRef.toList then throw (.baseRefDots baseRef)
  if cfg.maxBaseRefChars < baseRef.length then
    throw (.baseRefTooLong baseRef.length cfg.maxBaseRefChars)

/-- The configured limits that a submission has to keep. -/
def validate (cfg : Config) (request : CreateTaskRequest) : Except ValidationFailure Unit := do
  if !piModelCatalog.contains request.model then throw .unsupportedModel
  if let some repository := request.repository then
    if !matchesRepository repository then throw (.repositoryFormat repository)
  if request.repository.isSome ∧ request.baseRef.isNone then throw .baseRefRequired
  if request.repository.isNone ∧ request.baseRef.isSome then throw .baseRefWithoutRepository
  if blank request.prompt then throw .promptEmpty
  if cfg.maxPromptChars < request.prompt.length then
    throw (.promptTooLong request.prompt.length cfg.maxPromptChars)
  if blank request.idempotencyKey then throw .idempotencyKeyEmpty
  if cfg.maxIdempotencyKeyChars < request.idempotencyKey.length then
    throw (.idempotencyKeyTooLong request.idempotencyKey.length cfg.maxIdempotencyKeyChars)
  if let some baseRef := request.baseRef then validateBaseRef cfg baseRef

/-! ### Admission -/

/-- The starting revision of a web task, if its repository is accessible to its
owner. -/
def resolveBaseSha (cfg : Config) (request : CreateTaskRequest) (ownerId : Option OwnerId) :
    Routine (Option String) := do
  match request.repository, ownerId with
  | some repository, some owner =>
    if !cfg.hasAuthorization then throw (.taskValidation .authorizationUnavailable)
    else if !cfg.hasPrivateKey then throw (.taskValidation .privateKeyMissing)
    else
      match ← ext (.repositoryResolve owner repository (request.baseRef.getD "")) with
      | .ok baseSha => pure (some baseSha)
      | .error (.repositoryAccess text) => throw (.taskValidation (.repositoryAccess text))
      | .error e => throw e
  | _, _ => pure none

/-- The task that a request retries has to be one that its owner can see. -/
def checkRetryOf (request : CreateTaskRequest) (ownerId : Option OwnerId) : Routine Unit := do
  match request.retryOf with
  | none => pure ()
  | some t =>
    if (← db (.get t ownerId)).isNone then throw (.taskValidation .retryOfInaccessible)

def checkPressure : Routine Unit := do
  match ← ext .storagePressure with
  | some reason => throw (.storagePressure reason)
  | none => pure ()

/-- `_matches_existing`. -/
def matchesExisting (existing : TaskRecord) (request : CreateTaskRequest) : Bool :=
  existing.repository = request.repository ∧ existing.prompt = request.prompt ∧
    existing.baseRef = request.baseRef ∧ existing.retryOf = request.retryOf ∧
    existing.model = request.model

/-- The end of `submit`: a bound key has to stand for the same request, and a new
task records its starting revision. -/
def settleSubmission (request : CreateTaskRequest) (baseSha : Option String)
    (record : TaskRecord) (created : Bool) : Routine (TaskRecord × Bool) := do
  if !created && !record.payloadExpired && !matchesExisting record request then
    throw (.taskConflict record.idempotencyKey record.id)
  else
    match created, baseSha with
    | true, some sha => pure (← db (.recordBaseSha record.id (some sha)), true)
    | _, _ => pure (record, created)

/-- Validate, then durably submit. -/
def submit (cfg : Config) (request : CreateTaskRequest) (ownerId : Option OwnerId) :
    Routine (TaskRecord × Bool) := do
  match validate cfg request with
  | .error f => throw (.taskValidation f)
  | .ok () =>
    let baseSha ← resolveBaseSha cfg request ownerId
    checkRetryOf request ownerId
    checkPressure
    let (record, created) ← Backend.submit (request.submission ownerId)
    settleSubmission request baseSha record created

/-- `request.base_ref or predecessor.base_ref`. -/
def retryBaseRef (request : RetryTaskRequest) (predecessor : TaskRecord) : Option String :=
  (request.baseRef.filter fun baseRef => baseRef ≠ "").or predecessor.baseRef

def retry (cfg : Config) (t : TaskId) (request : RetryTaskRequest) (ownerId : Option OwnerId) :
    Routine (TaskRecord × Bool) := do
  match ← db (.get t ownerId) with
  | none => throw (.taskControl ("unknown task " ++ toString t))
  | some predecessor =>
    if !predecessor.state.terminal then
      throw (.taskControl "retry is only available after terminal execution")
    else if predecessor.sandboxCleanupStatus ≠ some "confirmed_absent" then
      throw (.taskControl "retry requires confirmed sandbox cleanup of the predecessor")
    else if predecessor.repository.isSome ∧ (retryBaseRef request predecessor).isNone then
      throw (.taskControl "retry requires a recorded base ref or explicit base_ref")
    else
      submit cfg
        { repository := predecessor.repository, prompt := predecessor.prompt,
          idempotencyKey := request.idempotencyKey, baseRef := retryBaseRef request predecessor,
          retryOf := some t, model := predecessor.model }
        ownerId

/-! ### Cancellation -/

/-- Mark a running task for cooperative cancellation. -/
def requestTaskCancel (t : TaskId) : Routine (Option SupervisionRecord) := do
  match ← db (.getSupervision t) with
  | none => pure none
  | some _ => pure (some (← db (.updateSupervision t none none none (some true) none)))

def cancel (t : TaskId) (ownerId : Option OwnerId) : Routine TaskRecord := do
  match ← db (.get t ownerId) with
  | none => throw (.taskControl ("unknown task " ++ toString t))
  | some record =>
    if record.state = .cancelled then pure record
    else if record.state = .queued then
      match ← db (.cancelQueuedTask t) with
      | some cancelled => pure cancelled
      | none => throw (.other "AssertionError" "")
    else if record.state = .starting ∨ record.state = .running then
      let _ ← requestTaskCancel t
      pure ((← db (.get t none)).getD record)
    else
      throw (.taskControl
        ("task " ++ toString t ++ " in state " ++ record.state.value ++ " cannot be cancelled"))

end Service

/-! ### Routes -/

/-- The requests that change a task, with the owner that makes them. -/
inductive Route
  | submitTask (body : CreateTaskRequest) (ownerId : Option OwnerId)
  | sendTaskMessage (t : TaskId) (m : MessageId) (content : String) (ownerId : Option OwnerId)
  | cancelTask (t : TaskId) (ownerId : Option OwnerId)
  | retryTask (t : TaskId) (body : RetryTaskRequest) (ownerId : Option OwnerId)
  deriving DecidableEq, Repr

/-- A successful response. -/
inductive Answer
  | submitted (record : TaskRecord)
  | sent (t : TaskId) (receipt : MessageReceipt)
  | cancelled (record : TaskRecord)
  deriving DecidableEq, Repr

namespace Routes

def submitTask (cfg : Config) (body : CreateTaskRequest) (ownerId : Option OwnerId) :
    Routine Answer := do
  let (record, _) ← Service.submit cfg body ownerId
  ensureDurable
  pure (.submitted record)

def sendTaskMessage (cfg : Config) (t : TaskId) (m : MessageId) (content : String)
    (ownerId : Option OwnerId) : Routine Answer := do
  match ← db (.get t ownerId) with
  | none => throw (.httpException 404 "Not Found")
  | some _ =>
    let receipt ← Manager.sendMessage cfg t m content
    pure (.sent t receipt)

def cancelTask (t : TaskId) (ownerId : Option OwnerId) : Routine Answer := do
  let record ← Service.cancel t ownerId
  ensureDurable
  pure (.cancelled record)

def retryTask (cfg : Config) (t : TaskId) (body : RetryTaskRequest) (ownerId : Option OwnerId) :
    Routine Answer := do
  let (record, _) ← Service.retry cfg t body ownerId
  ensureDurable
  pure (.submitted record)

def handle (cfg : Config) : Route → Routine Answer
  | .submitTask body ownerId => submitTask cfg body ownerId
  | .sendTaskMessage t m content ownerId => sendTaskMessage cfg t m content ownerId
  | .cancelTask t ownerId => cancelTask t ownerId
  | .retryTask t body ownerId => retryTask cfg t body ownerId

end Routes

namespace App

/-- The start of the process: a confirmed snapshot, the scheduler's first
reconciliation, the supervision loops, and then requests. -/
def lifespan : Routine Unit := do
  ensureDurable
  Scheduler.reconcile
  Manager.syncReservedTasks
  recovered

/-- One activation of a loop. It goes on after `again`, and is over in every
other case. -/
def activation (cfg : Config) (t : TaskId) : Routine Next := do
  match ← attempt (Manager.supervise cfg t) with
  | .ok .again => pure .again
  | _ =>
    exitLoop t
    pure .done

end App

end GgAgent.Backend
