import GgAgent.Backend.System

/-!
The entry points that only read, and the service as its clients see it: any number of
requests, each made for an owner or by the operator, beside the scheduler and the
supervision loops.

A route that reads by task id first asks for the task in the scope of its owner, in a
transaction of its own, and then reads by the bare id. `who n` is the owner that the
credentials of request `n` stand for.
-/

namespace GgAgent.Backend

open GgAgent.Lib

/-! ### Queries -/

/-- A row of `tasks`, joined with the outcome in its archived result. -/
structure TaskView where
  record : TaskRecord
  agentOutcome : Option AgentOutcome
  deriving DecidableEq, Repr

namespace Ledger

def taskView (l : Ledger) (r : TaskRecord) : TaskView :=
  ⟨r, ((l.results.find? r.id).bind TaskResultArchive.manifest).map
    TaskResultManifest.agentOutcome⟩

/-- `get`, with the joined column. -/
def getView (t : TaskId) (ownerId : Option OwnerId) (l : Ledger) : Option TaskView :=
  (l.get t ownerId).map l.taskView

/-- `list`: all tasks in the order of admission, scoped to an owner when one is given. -/
def list (ownerId : Option OwnerId) (l : Ledger) : List TaskView :=
  ((l.tasks.rows.filter fun r => ownerId.isNone || r.ownerId = ownerId).insertionSort
    fun a b => a.seq ≤ b.seq).map l.taskView

def getPublication (t : TaskId) (l : Ledger) : Option PublicationRecord := l.publications.find? t

end Ledger

inductive ReadCall
  | getView (t : TaskId) (ownerId : Option OwnerId)
  | list (ownerId : Option OwnerId)
  | listTaskEvents (t : TaskId) (afterCursor : Nat)
  | getTaskMessageReceipt (t : TaskId) (m : MessageId)
  | getTaskResult (t : TaskId)
  | getPublication (t : TaskId)
  | getSupervision (t : TaskId)
  deriving DecidableEq, Repr

@[reducible] def ReadCall.Out : ReadCall → Type
  | .getView _ _ => Option TaskView
  | .list _ => List TaskView
  | .listTaskEvents _ _ => List EventCopy
  | .getTaskMessageReceipt _ _ => Option MessageReceipt
  | .getTaskResult _ => Option TaskResultArchive
  | .getPublication _ => Option PublicationRecord
  | .getSupervision _ => Option SupervisionRecord

def ReadCall.exec (l : Ledger) : (c : ReadCall) → c.Out
  | .getView t ownerId => l.getView t ownerId
  | .list ownerId => l.list ownerId
  | .listTaskEvents t a => l.listTaskEvents t a
  | .getTaskMessageReceipt t m => l.getTaskMessageReceipt t m
  | .getTaskResult t => l.getTaskResult t
  | .getPublication t => l.getPublication t
  | .getSupervision t => l.getSupervision t

/-- A call of the service: one of the control plane, or a query. -/
inductive ServiceCall
  | task (c : Call)
  | read (c : ReadCall)

@[reducible] def ServiceCall.Out : ServiceCall → Type
  | .task c => c.Out
  | .read c => c.Out

/-- `TaskResultRecord`. -/
structure TaskResultRecord where
  taskId : TaskId
  state : TaskState
  executionId : Option ExecutionId
  manifest : Option TaskResultManifest
  publication : Option PublicationRecord
  evidenceComplete : Bool
  evidenceDetail : Option String
  sandboxCleanupStatus : Option String
  outcomeDetail : Option String
  checkStatus : Option String
  retryOf : Option TaskId
  priorTaskBranch : Option String
  priorPrUrl : Option String
  workspaceAvailable : Bool
  workspaceExpiresAt : Option Time
  workspaceExpired : Bool
  updatedAt : Time
  deriving DecidableEq, Repr

/-- What a query answers. -/
inductive Reply
  | tasks (views : List TaskView)
  | task (view : TaskView)
  | events (t : TaskId) (copies : List EventCopy)
  | receipt (t : TaskId) (receipt : MessageReceipt)
  | result (record : TaskResultRecord)
  deriving DecidableEq, Repr

/-! ### Routes -/

/-- A coroutine of the service. -/
abbrev Handler (α : Type) := Co ServiceCall.Out Exn α

def read (c : ReadCall) : Handler c.Out :=
  ExceptT.mk (Prog.call (ServiceCall.read c) fun r => .ret (.ok r))

/-- A program of the control plane, as a program of the service. -/
def Routine.serve {α : Type} (r : Routine α) : Handler α :=
  ExceptT.mk (Prog.lift ServiceCall.task (fun _ r => r) r.run)

/-- The requests that only read, with the owner that makes them. -/
inductive Query
  | listTasks (ownerId : Option OwnerId)
  | getTask (t : TaskId) (ownerId : Option OwnerId)
  | listTaskEvents (t : TaskId) (afterCursor : Nat) (ownerId : Option OwnerId)
  | getTaskMessageReceipt (t : TaskId) (m : MessageId) (ownerId : Option OwnerId)
  | getTaskResult (t : TaskId) (ownerId : Option OwnerId)
  deriving DecidableEq, Repr

namespace Queries

def notFound : Exn := .httpException 404 "Not Found"

/-- The check in front of a read by the bare id. -/
def accessible (t : TaskId) (ownerId : Option OwnerId) : Handler Unit := do
  match ← read (.getView t ownerId) with
  | none => throw notFound
  | some _ => pure ()

def getTask (t : TaskId) (ownerId : Option OwnerId) : Handler Reply := do
  match ← read (.getView t ownerId) with
  | none => throw notFound
  | some view => pure (.task view)

def listTaskEvents (t : TaskId) (afterCursor : Nat) (ownerId : Option OwnerId) :
    Handler Reply := do
  accessible t ownerId
  pure (.events t (← read (.listTaskEvents t afterCursor)))

def getTaskMessageReceipt (t : TaskId) (m : MessageId) (ownerId : Option OwnerId) :
    Handler Reply := do
  accessible t ownerId
  match ← read (.getTaskMessageReceipt t m) with
  | none => throw notFound
  | some receipt => pure (.receipt t receipt)

/-- The states in which a workspace can still be used. -/
def workspaceOpen : TaskState → Bool
  | .queued | .starting | .running | .idle | .sleeping => true
  | _ => false

/-- The record that `TaskService.result` puts together. -/
def resultRecord (record : TaskRecord) (archive : Option TaskResultArchive)
    (publication : Option PublicationRecord) (supervision : Option SupervisionRecord) :
    TaskResultRecord where
  taskId := record.id
  state := record.state
  executionId := archive.bind TaskResultArchive.executionId
  manifest := archive.bind TaskResultArchive.manifest
  publication := publication
  evidenceComplete := archive.any TaskResultArchive.evidenceComplete
  evidenceDetail := archive.bind TaskResultArchive.evidenceDetail
  sandboxCleanupStatus := record.sandboxCleanupStatus
  outcomeDetail := record.outcomeDetail
  checkStatus := record.checkStatus
  retryOf := record.retryOf
  priorTaskBranch := supervision.map SupervisionRecord.taskBranch
  priorPrUrl := publication.bind PublicationRecord.prUrl
  workspaceAvailable :=
    record.state = .starting ∨ record.state = .running ∨ record.state = .idle
  workspaceExpiresAt :=
    if workspaceOpen record.state then some (record.lastActivity + days 7) else none
  workspaceExpired := record.workspaceExpired
  updatedAt := record.updatedAt

def getTaskResult (t : TaskId) (ownerId : Option OwnerId) : Handler Reply := do
  match ← read (.getView t ownerId) with
  | none => throw (.httpException 404 ("unknown task " ++ toString t))
  | some view =>
    let archive ← read (.getTaskResult t)
    let publication ← read (.getPublication t)
    let supervision ← read (.getSupervision t)
    pure (.result (resultRecord view.record archive publication supervision))

def handle : Query → Handler Reply
  | .listTasks ownerId => do pure (.tasks (← read (.list ownerId)))
  | .getTask t ownerId => getTask t ownerId
  | .listTaskEvents t a ownerId => listTaskEvents t a ownerId
  | .getTaskMessageReceipt t m ownerId => getTaskMessageReceipt t m ownerId
  | .getTaskResult t ownerId => getTaskResult t ownerId

end Queries

/-! ### The service -/

/-- A request to the task API. -/
inductive Request
  | route (r : Route)
  | query (q : Query)
  deriving DecidableEq, Repr

def Route.ownerId : Route → Option OwnerId
  | .submitTask _ ownerId | .sendTaskMessage _ _ _ ownerId | .cancelTask _ ownerId
  | .retryTask _ _ ownerId => ownerId

def Query.ownerId : Query → Option OwnerId
  | .listTasks ownerId | .getTask _ ownerId | .listTaskEvents _ _ ownerId
  | .getTaskMessageReceipt _ _ ownerId | .getTaskResult _ ownerId => ownerId

def Request.ownerId : Request → Option OwnerId
  | .route r => r.ownerId
  | .query q => q.ownerId

/-- The body of a successful response. -/
inductive Response
  | answer (a : Answer)
  | reply (r : Reply)
  deriving DecidableEq, Repr

/-- The program that answers a request. -/
def Request.handle (cfg : Config) : Request → Handler Response
  | .route r => do pure (.answer (← (Routes.handle cfg r).serve))
  | .query q => do pure (.reply (← Queries.handle q))

/-- What became of a coroutine of the service. -/
inductive Outcome
  | task (e : Ending)
  | answered (r : Response)
  | raised (e : Exn)
  deriving DecidableEq, Repr

def Outcome.of : Except Exn Response → Outcome
  | .ok r => .answered r
  | .error e => .raised e

/-- `upkeep` is what the application does by itself. -/
inductive ServiceJob
  | upkeep (j : Job)
  | request (r : Request)
  deriving DecidableEq, Repr

def ServiceJob.start (cfg : Config) (who : Nat → Option OwnerId) :
    Pid → ServiceJob → Shared → Option (Prog ServiceCall.Out Outcome × Shared)
  | .request n, .request r, s =>
    if s.phase = .up ∧ r.ownerId = who n then
      some ((r.handle cfg).run >>= fun a => .ret (.of a), s)
    else none
  | .request _, .upkeep _, _ => none
  | p, .upkeep j, s =>
    (j.start cfg p s).map fun a =>
      (a.1.lift ServiceCall.task (fun _ r => r) >>= fun e => .ret (.task e), a.2)
  | _, .request _, _ => none

def Shared.serve (p : Pid) (o : Oracle) : (c : ServiceCall) → Shared → Option (c.Out × Shared)
  | .task c, s => s.answer p o c
  | .read c, s => some (c.exec s.ledger, s)

/-- The backend, with the requests of all owners. -/
def service (cfg : Config) (who : Nat → Option OwnerId) :
    Machine Pid ServiceCall.Out Outcome Shared where
  Oracle := Oracle
  Job := ServiceJob
  Event := Happening
  answer := Shared.serve
  job := ServiceJob.start cfg who
  event := Happening.apply
  kills := Happening.kills

abbrev Serving := Pool Pid ServiceCall.Out Outcome Shared

def Serving.init : Serving := ⟨.init, fun _ => none⟩

end GgAgent.Backend
