import GgAgent.Backend.Ledger
import GgAgent.Lib.Program

/-!
The alphabet of the control plane: every point at which a coroutine of the
backend hands over control. A ledger call is one transaction, run in a worker
thread; an outside call is an answer of the provider, of a sandbox's HTTP API or
of a credential source, which the program takes as it comes; the rest is the
runtime of the process itself: its clock, its locks, its background loops, the
stop flag, and the wait for a confirmed snapshot.
-/

namespace GgAgent.Backend

open GgAgent.Lib

/-! ### Ledger calls -/

inductive LedgerCall
  | get (t : TaskId) (ownerId : Option OwnerId)
  | countQueued
  | sleepingWorkspaceCandidates (before : Time) (afterSeq limit : Nat)
  | listReservations
  | getReservation (t : TaskId)
  | reserveNext (capacity : Nat)
  | updateReservation (t : TaskId) (phase : ReservationPhase) (condition : Option String)
      (taskState : Option TaskState)
  | releaseReservation (t : TaskId) (cleanupStatus : String)
  | markSandboxLost (t : TaskId) (detail : String)
  | settleSuccessfulTasks
  | recordBaseSha (t : TaskId) (baseSha : Option String)
  | beginSandboxCreation (t : TaskId) (deployment sandboxName : String) (tags : Tags)
      (sessionApiKey : String) (credentialVersion : Option Nat)
  | getSandboxCreation (t : TaskId)
  | setSandboxCredentialVersion (t : TaskId) (version : Option Nat)
  | updateSandboxCreation (t : TaskId) (providerId : Option ProviderId)
      (providerState : SandboxProviderState) (detail : Option String)
  | resetSandboxForWake (t : TaskId)
  | beginPublication (t : TaskId) (repository taskBranch baseRef : String) (taskMarker : TaskId)
      (commitSha : Option String) (checkOutcome : CheckOutcome) (agentOutcome : AgentOutcome)
  | beginSupervision (t : TaskId) (executionId : ExecutionId) (taskBranch : String)
      (startKey : StartKey)
  | getSupervision (t : TaskId)
  | updateSupervision (t : TaskId) (executionId : Option ExecutionId) (startKey : Option StartKey)
      (conversationId : Option ConversationId) (cancelRequested tailGapPossible : Option Bool)
  | eventSourceCursor (t : TaskId) (source : ConversationId)
  | copyTaskEventPage (payload : Event → Nat → String) (t : TaskId) (source : ConversationId)
      (events : List Event)
  | saveTaskMessageReceipt (t : TaskId) (receipt : MessageReceipt)
  | getTaskMessageReceipt (t : TaskId) (m : MessageId)
  | listAcceptedTaskMessages (t : TaskId)
  | archiveTaskResult (t : TaskId) (executionId : Option ExecutionId)
      (manifest : Option TaskResultManifest) (evidenceComplete : Bool)
      (evidenceDetail : Option String)
  | getTaskResult (t : TaskId)
  | cancelQueuedTask (t : TaskId)
  | finishTask (t : TaskId) (state : TaskState) (outcomeDetail checkStatus : Option String)
  | queueWorkspaceMessage (t : TaskId)
  | touchWorkspace (t : TaskId)
  | tryMarkSleeping (t : TaskId)
  | expireWorkspace (t : TaskId)
  | expireTerminalPayloads (before tombstoneRetention : Time)
  | purgeExpiredTombstones (before : Time)
  | revision

@[reducible] def LedgerCall.Out : LedgerCall → Type
  | .get _ _ => Option TaskRecord
  | .countQueued => Nat
  | .sleepingWorkspaceCandidates _ _ _ => List TaskRecord
  | .listReservations => List ReservationRecord
  | .getReservation _ => Option ReservationRecord
  | .reserveNext _ => Option TaskRecord
  | .recordBaseSha _ _ => TaskRecord
  | .beginSandboxCreation _ _ _ _ _ _ => SandboxCreationRecord
  | .getSandboxCreation _ => Option SandboxCreationRecord
  | .setSandboxCredentialVersion _ _ => SandboxCreationRecord
  | .updateSandboxCreation _ _ _ _ => SandboxCreationRecord
  | .beginPublication _ _ _ _ _ _ _ _ => PublicationRecord
  | .beginSupervision _ _ _ _ => SupervisionRecord
  | .getSupervision _ => Option SupervisionRecord
  | .updateSupervision _ _ _ _ _ _ => SupervisionRecord
  | .eventSourceCursor _ _ => Nat
  | .copyTaskEventPage _ _ _ _ => List (Nat × String)
  | .getTaskMessageReceipt _ _ => Option MessageReceipt
  | .listAcceptedTaskMessages _ => List MessageReceipt
  | .getTaskResult _ => Option TaskResultArchive
  | .cancelQueuedTask _ => Option TaskRecord
  | .finishTask _ _ _ _ => TaskRecord
  | .tryMarkSleeping _ => Bool
  | .expireTerminalPayloads _ _ => Nat
  | .purgeExpiredTombstones _ => Nat
  | .revision => Nat
  | _ => Unit

/-- A query: the database is left as it was. -/
def Ledger.read {α : Type} (f : Ledger → α) : Tx α := fun l => (.ok (f l), l)

/-- The transaction of a ledger call at clock reading `now`. -/
def LedgerCall.exec (now : Time) : (c : LedgerCall) → Tx c.Out
  | .get t o => Ledger.read (Ledger.get t o)
  | .countQueued => Ledger.read Ledger.countQueued
  | .sleepingWorkspaceCandidates b s n => Ledger.read (Ledger.sleepingWorkspaceCandidates b s n)
  | .listReservations => Ledger.read Ledger.listReservations
  | .getReservation t => Ledger.read (Ledger.getReservation t)
  | .reserveNext n => Ledger.reserveNext now n
  | .updateReservation t p c s => Ledger.updateReservation now t p c s
  | .releaseReservation t s => Ledger.releaseReservation now t s
  | .markSandboxLost t d => Ledger.markSandboxLost now t d
  | .settleSuccessfulTasks => Ledger.settleSuccessfulTasks now
  | .recordBaseSha t sha => Ledger.recordBaseSha now t sha
  | .beginSandboxCreation t d n g k v => Ledger.beginSandboxCreation now t d n g k v
  | .getSandboxCreation t => Ledger.read (Ledger.getSandboxCreation t)
  | .setSandboxCredentialVersion t v => Ledger.setSandboxCredentialVersion t v
  | .updateSandboxCreation t i s d => Ledger.updateSandboxCreation now t i s d
  | .resetSandboxForWake t => Ledger.resetSandboxForWake now t
  | .beginPublication t r b f m s c a => Ledger.beginPublication now t r b f m s c a
  | .beginSupervision t e b k => Ledger.beginSupervision now t e b k
  | .getSupervision t => Ledger.read (Ledger.getSupervision t)
  | .updateSupervision t e k v c g => Ledger.updateSupervision now t e k v c g
  | .eventSourceCursor t s => Ledger.read (Ledger.eventSourceCursor t s)
  | .copyTaskEventPage p t s es => Ledger.copyTaskEventPage now p t s es
  | .saveTaskMessageReceipt t r => Ledger.saveTaskMessageReceipt t r
  | .getTaskMessageReceipt t m => Ledger.read (Ledger.getTaskMessageReceipt t m)
  | .listAcceptedTaskMessages t => Ledger.read (Ledger.listAcceptedTaskMessages t)
  | .archiveTaskResult t e m c d => Ledger.archiveTaskResult now t e m c d
  | .getTaskResult t => Ledger.read (Ledger.getTaskResult t)
  | .cancelQueuedTask t => Ledger.cancelQueuedTask now t
  | .finishTask t s o c => Ledger.finishTask now t s o c
  | .queueWorkspaceMessage t => Ledger.queueWorkspaceMessage now t
  | .touchWorkspace t => Ledger.touchWorkspace now t
  | .tryMarkSleeping t => Ledger.tryMarkSleeping now t
  | .expireWorkspace t => Ledger.expireWorkspace t
  | .expireTerminalPayloads b r => Ledger.expireTerminalPayloads now b r
  | .purgeExpiredTombstones b => Ledger.purgeExpiredTombstones b
  | .revision => Ledger.read Ledger.revision

/-! ### Outside calls -/

/-- What became of a create request: a sandbox and its handle, a sandbox whose
response was lost, or no sandbox. The caller cannot tell the last two apart. -/
inductive CreateReply
  | created (id : ProviderId)
  | lost (id : ProviderId) (exn : Exn)
  | refused (exn : Exn)

/-- The answer to a terminate request, and whether it took effect. -/
structure TerminateReply where
  result : Except Exn Unit
  effect : Bool

/-- The record of an execution, as a sandbox returns it. -/
structure TaskExecutionRecord where
  executionId : Nat
  phase : TaskExecutionPhase
  baseRef : Option String
  conversationId : Option ConversationId
  deriving DecidableEq, Repr

/-- `StartTaskExecutionRequest`. -/
structure StartTaskExecutionRequest where
  taskId : TaskId
  repository : Option String
  prompt : String
  baseRef : Option String
  baseSha : Option String
  taskBranch : String
  startKey : StartKey
  deadlineAt : Time
  model : String
  deriving DecidableEq, Repr

/-- The answer to a request for a page of events. -/
inductive EventPage
  | notFound
  | page (events : List Event)

inductive ExtCall
  | providerCreate (name : String) (tags : Tags) (sessionApiKey : String)
  | providerFromId (id : ProviderId)
  | providerFind (tags : Tags)
  | providerPoll (id : ProviderId)
  | providerWaitUntilReady (id : ProviderId)
  | providerConnectToken (id : ProviderId)
  | providerTerminate (id : ProviderId)
  | providerSync (id : ProviderId)
  | providerDetach (id : ProviderId)
  | providerDeleteWorkspace (t : TaskId)
  | vaultResolve (owner : OwnerId)
  | verifyKey (key : String)
  | repositoryCredential (owner : OwnerId) (repository baseRef : String)
  | repositoryResolve (owner : OwnerId) (repository baseRef : String)
  | tokenUrlsafe
  | startExecution (request : StartTaskExecutionRequest) (githubToken : Option String)
  | getExecution (t : TaskId) (id : ExecutionId)
  | getManifest (t : TaskId) (id : ExecutionId)
  | fetchManifest (t : TaskId) (id : ExecutionId)
  | conversationEvents (t : TaskId) (conversation : ConversationId) (after limit : Nat)
  | cancelConversation (t : TaskId) (conversation : ConversationId)
  | admissionPressure
  /-- `admission_pressure` as a submission asks it: the reason to refuse, if there is one. -/
  | storagePressure
  | maintenanceDue
  | rounds

@[reducible] def ExtCall.Out : ExtCall → Type
  | .providerCreate _ _ _ => CreateReply
  | .providerFromId _ => Except Exn Unit
  | .providerFind _ => Except Exn (List ProviderId)
  | .providerPoll _ => Except Exn (Option Int)
  | .providerConnectToken _ => Except Exn Bool
  | .providerTerminate _ => TerminateReply
  | .vaultResolve _ => Except Exn (Option (String × Nat))
  | .repositoryCredential _ _ _ => Except Exn (String × String)
  | .repositoryResolve _ _ _ => Except Exn String
  | .tokenUrlsafe => String
  | .startExecution _ _ => Except Exn TaskExecutionRecord
  | .getExecution _ _ => Except Exn TaskExecutionRecord
  | .getManifest _ _ => Except Exn TaskResultManifest
  | .fetchManifest _ _ => Except Exn (Option TaskResultManifest)
  | .conversationEvents _ _ _ _ => Except Exn EventPage
  | .admissionPressure => Bool
  | .storagePressure => Option String
  | .maintenanceDue => Bool
  | .rounds => Nat
  | _ => Except Exn Unit

/-! ### All calls -/

/-- The per-task locks of the supervision manager. -/
inductive Lock
  | workspace (t : TaskId)
  | settlement (t : TaskId)
  deriving DecidableEq, Repr

/-- The arguments of `TaskLedger.submit`. -/
structure Submission where
  idempotencyKey : String
  repository : Option String
  prompt : String
  baseRef : Option String
  retryOf : Option TaskId
  model : String
  ownerId : Option OwnerId
  deriving DecidableEq, Repr

inductive Call
  | db (c : LedgerCall)
  /-- `TaskLedger.submit`, which draws the id of the task. -/
  | submit (r : Submission)
  | ext (c : ExtCall)
  | now
  | acquire (l : Lock)
  | release (l : Lock)
  /-- Have a supervision loop of the task, starting one if none is running. -/
  | ensureLoop (t : TaskId)
  /-- The loop of the task has returned. -/
  | exitLoop (t : TaskId)
  /-- `app.state.recovering = False`. -/
  | recovered
  | stopIsSet
  | awaitConfirmed (revision : Nat)
  /-- A wait that never ends. -/
  | never

@[reducible] def Call.Out : Call → Type
  | .db c => Except Exn c.Out
  | .submit _ => Except Exn (TaskRecord × Bool)
  | .ext c => c.Out
  | .now => Time
  | .acquire _ => Unit
  | .release _ => Unit
  | .ensureLoop _ => Unit
  | .exitLoop _ => Unit
  | .recovered => Unit
  | .stopIsSet => Bool
  | .awaitConfirmed _ => Except Exn Unit
  | .never => Empty

/-- A coroutine of the backend. -/
abbrev Routine (α : Type) := Co Call.Out Exn α

/-! ### Making calls -/

def db (c : LedgerCall) : Routine c.Out := ExceptT.mk (Prog.perform (Call.db c))

def submit (r : Submission) : Routine (TaskRecord × Bool) :=
  ExceptT.mk (Prog.perform (Call.submit r))

def ext (c : ExtCall) : Routine c.Out := ExceptT.mk (Prog.call (Call.ext c) fun r => .ret (.ok r))

/-- An answer that may be an exception, which is then raised. -/
def ofReply {α : Type} (r : Except Exn α) : Routine α := ExceptT.mk (.ret r)

def now : Routine Time := ExceptT.mk (Prog.call Call.now fun r => .ret (.ok r))

def ensureLoop (t : TaskId) : Routine Unit :=
  ExceptT.mk (Prog.call (Call.ensureLoop t) fun r => .ret (.ok r))

def exitLoop (t : TaskId) : Routine Unit :=
  ExceptT.mk (Prog.call (Call.exitLoop t) fun r => .ret (.ok r))

def recovered : Routine Unit := ExceptT.mk (Prog.call Call.recovered fun r => .ret (.ok r))

def stopIsSet : Routine Bool := ExceptT.mk (Prog.call Call.stopIsSet fun r => .ret (.ok r))

/-- A `while True` whose rounds go on from a value until one of them leaves with
a result. The number of rounds is guessed at the start; a run with too low a
guess waits for ever where the loop would have gone on. -/
def loopFrom {α β : Type} (body : α → Routine (α ⊕ β)) : Nat → α → Routine β
  | 0, _ => ExceptT.mk (Prog.call Call.never fun r => nomatch r)
  | n + 1, a => do
    match ← body a with
    | .inl a => loopFrom body n a
    | .inr b => pure b

def loop {α β : Type} (a : α) (body : α → Routine (α ⊕ β)) : Routine β := do
  loopFrom body (← ext .rounds) a

/-- `async with lock`. -/
def withLock {α : Type} (l : Lock) (body : Routine α) : Routine α := do
  ExceptT.mk (Prog.call (Call.acquire l) fun r => .ret (.ok r))
  let r ← Co.attempt body
  ExceptT.mk (Prog.call (Call.release l) fun r => .ret (.ok r))
  match r with
  | .ok a => pure a
  | .error e => throw e

/-- `ledger.ensure_durable`: the revision is read before the wait. -/
def ensureDurable : Routine Unit := do
  let revision ← db .revision
  ExceptT.mk (Prog.perform (Call.awaitConfirmed revision))

end GgAgent.Backend
