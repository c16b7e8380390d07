import GgAgent.Backend.Types
import Mathlib.Algebra.Order.Ring.Nat
import Mathlib.Data.List.Sort
import Mathlib.Data.List.MinMax

/-!
The task ledger. Each definition is one transaction of `TaskLedger`: it reads the
whole database, answers or raises, and leaves the database it commits. A raise
inside the transaction rolls back; where the source raises after the transaction
has been left, the committed database is kept. `now` is the reading of the clock
that `_utcnow_iso` makes.

Every write counts one revision, also one that changes no row; the exception is
`updateSandboxCreation`, which asks the database to skip the count when nothing
changed.
-/

namespace GgAgent.Backend

open GgAgent.Lib

structure Ledger where
  tasks : Table TaskRecord
  reservations : Table ReservationRecord
  creations : Table SandboxCreationRecord
  supervisions : Table SupervisionRecord
  publications : Table PublicationRecord
  receipts : Table ReceiptRow
  results : Table TaskResultArchive
  eventCounters : Table EventCounter
  eventIdentities : Table EventIdentity
  eventCopies : Table EventCopy
  eventSourceCursors : Table EventSourceCursor
  tombstones : Table Tombstone
  retiredKeys : Table RetiredKey
  taskSeq : Nat
  revision : Nat

/-- A transaction: the answer, or the exception, and the database left behind. -/
abbrev Tx (α : Type) := Ledger → Except Exn α × Ledger

namespace Ledger

def empty : Ledger where
  tasks := .empty
  reservations := .empty
  creations := .empty
  supervisions := .empty
  publications := .empty
  receipts := .empty
  results := .empty
  eventCounters := .empty
  eventIdentities := .empty
  eventCopies := .empty
  eventSourceCursors := .empty
  tombstones := .empty
  retiredKeys := .empty
  taskSeq := 0
  revision := 0

/-- The end of a write transaction. -/
def commit (l : Ledger) : Ledger := { l with revision := l.revision + 1 }

/-- Rewrite the `tasks` row of `t`. -/
def setTask (l : Ledger) (t : TaskId) (f : TaskRecord → TaskRecord)
    (hf : ∀ r, key (f r) = key r := by intro _; rfl) : Ledger :=
  { l with tasks := l.tasks.modify t f hf }

/-- `_SETTLED_SUCCESS_OUTCOMES`. -/
def settledSuccessOutcomes : List String :=
  ["published", "no_changes", "checks_passed", "checks_not_run"]

def settledSuccess (outcome : Option String) : Bool :=
  match outcome with
  | some s => settledSuccessOutcomes.contains s
  | none => false

/-! ### Admission -/

/-- `submit`. The id is the fresh `uuid4`; a bound key answers with its task. -/
def submit (now : Time) (id : TaskId) (idempotencyKey : String) (repository : Option String)
    (prompt : String) (baseRef : Option String) (retryOf : Option TaskId) (model : String)
    (ownerId : Option OwnerId) : Tx (TaskRecord × Bool) := fun l =>
  match l.tasks.rows.find? (fun r => r.idempotencyKey = idempotencyKey ∧ r.ownerId = ownerId) with
  | some r => (.ok (r, false), l.commit)
  | none =>
    match l.retiredKeys.rows.find?
        (fun r => r.idempotencyKey = idempotencyKey ∧ r.ownerId = ownerId) with
    | some k =>
      (.ok ({ id := k.taskId, seq := k.seq, state := k.terminalState,
              idempotencyKey := k.idempotencyKey, ownerId := k.ownerId, repositoryText := "",
              prompt := "", baseRef := none, baseSha := none, retryOf := none, model := k.model,
              createdAt := k.createdAt, updatedAt := k.updatedAt, outcomeDetail := none,
              checkStatus := none, sandboxCleanupStatus := none, payloadExpired := true,
              workspaceExpired := false, workspaceLastActivityAt := none }, false), l.commit)
    | none =>
      let row : TaskRecord :=
        { id, seq := l.taskSeq + 1, state := .queued, idempotencyKey, ownerId,
          repositoryText := repository.getD "", prompt, baseRef, baseSha := none, retryOf, model,
          createdAt := now, updatedAt := now, outcomeDetail := none, checkStatus := none,
          sandboxCleanupStatus := none, payloadExpired := false, workspaceExpired := false,
          workspaceLastActivityAt := none }
      (.ok (row, true), { l with taskSeq := l.taskSeq + 1, tasks := l.tasks.insert row }.commit)

/-- Persist the resolved starting revision for one task. -/
def recordBaseSha (now : Time) (t : TaskId) (baseSha : Option String) : Tx TaskRecord := fun l =>
  match l.tasks.find? t with
  | none => (.error (.keyError ("no task " ++ toString t)), l)
  | some r => (.ok { r with baseSha, updatedAt := now },
      (l.setTask t fun r => { r with baseSha, updatedAt := now }).commit)

/-- `get`, scoped to an owner when one is given. -/
def get (t : TaskId) (ownerId : Option OwnerId) (l : Ledger) : Option TaskRecord :=
  (l.tasks.find? t).filter fun r => ownerId.isNone || r.ownerId = ownerId

def countQueued (l : Ledger) : Nat := l.tasks.rows.countP fun r => r.state = .queued

def sleepingWorkspaceCandidates (before : Time) (afterSeq limit : Nat) (l : Ledger) :
    List TaskRecord :=
  ((l.tasks.rows.filter fun r => r.state = .sleeping ∧ r.workspaceExpired = false ∧
      r.lastActivity ≤ before ∧ afterSeq < r.seq).insertionSort fun a b => a.seq ≤ b.seq).take limit

/-! ### Reservations -/

def listReservations (l : Ledger) : List ReservationRecord :=
  l.reservations.rows.insertionSort fun a b =>
    a.reservedAt < b.reservedAt ∨ a.reservedAt = b.reservedAt ∧ a.taskId ≤ b.taskId

def getReservation (t : TaskId) (l : Ledger) : Option ReservationRecord := l.reservations.find? t

/-- The oldest queued task that holds no reservation. -/
def nextQueued (l : Ledger) : Option TaskRecord :=
  (l.tasks.rows.filter fun r => r.state = .queued ∧ (l.reservations.find? r.id).isNone).argmin
    TaskRecord.seq

def reserveNext (now : Time) (capacity : Nat) : Tx (Option TaskRecord) := fun l =>
  if 1 ≤ capacity ∧ capacity ≤ 10 then
    if capacity ≤ l.reservations.rows.length then (.ok none, l.commit)
    else
      match l.nextQueued with
      | none => (.ok none, l.commit)
      | some row =>
        let claim : ReservationRecord :=
          { taskId := row.id, phase := .starting, condition := none, reservedAt := now,
            updatedAt := now }
        let l := { l with reservations := l.reservations.insert claim }
        let l := l.setTask row.id fun r => { r with state := .starting, updatedAt := now }
        (.ok (l.tasks.find? row.id), l.commit)
  else (.error (.valueError "reservation capacity must be between 1 and 10"), l)

/-- Update reservation and public task state in one transaction. -/
def updateReservation (now : Time) (t : TaskId) (phase : ReservationPhase)
    (condition : Option String) (taskState : Option TaskState) : Tx Unit := fun l =>
  match l.reservations.find? t with
  | none => (.error (.keyError "no reservation for task"), l)
  | some _ =>
    let l := { l with reservations :=
      l.reservations.modify t fun r => { r with phase, condition, updatedAt := now } }
    match taskState with
    | none => (.ok (), l.commit)
    | some state =>
      (.ok (), { l with tasks := l.tasks.modifyIf t (fun r => !r.state.terminal) fun r =>
        { r with state, updatedAt := now } }.commit)

/-- Release capacity only after provider absence has been confirmed. -/
def releaseReservation (now : Time) (t : TaskId) (cleanupStatus : String) : Tx Unit := fun l =>
  (.ok (), ({ l with reservations := l.reservations.erase t }.setTask t fun r =>
    { r with sandboxCleanupStatus := some cleanupStatus, updatedAt := now }).commit)

/-- The state a task is left in when its sandbox is confirmed lost. -/
def stateWhenLost (r : TaskRecord) : TaskState :=
  if r.state = .cancelled then .cancelled
  else if r.state = .completed ∨ settledSuccess r.outcomeDetail then .completed
  else .failed

def markSandboxLost (now : Time) (t : TaskId) (detail : String) : Tx Unit := fun l =>
  match l.tasks.find? t with
  | none => (.ok (), l.commit)
  | some _ =>
    let l := l.setTask t fun r =>
      { r with state := stateWhenLost r, outcomeDetail := some (r.outcomeDetail.getD detail),
               sandboxCleanupStatus := some "confirmed_absent", updatedAt := now }
    (.ok (), { l with reservations := l.reservations.erase t }.commit)

/-- The `WHERE` of `settle_successful_tasks`. -/
def settles (r : TaskRecord) : Bool :=
  r.sandboxCleanupStatus = some "confirmed_absent" && settledSuccess r.outcomeDetail &&
    !(r.state = .completed || r.state = .cancelled)

/-- Complete tasks whose work already settled and whose sandbox is gone. -/
def settleSuccessfulTasks (now : Time) : Tx Unit := fun l =>
  (.ok (), { l with tasks := l.tasks.modifyWhere settles fun r =>
    { r with state := .completed, updatedAt := now } }.commit)

/-! ### Sandbox identities -/

/-- `_require_payload`. -/
def hasPayload (t : TaskId) (l : Ledger) : Bool :=
  match l.tasks.find? t with
  | some r => !r.payloadExpired
  | none => false

def beginSandboxCreation (now : Time) (t : TaskId) (deployment sandboxName : String) (tags : Tags)
    (sessionApiKey : String) (credentialVersion : Option Nat) : Tx SandboxCreationRecord := fun l =>
  if l.hasPayload t then
    match l.creations.find? t with
    | some r =>
      if r.deployment = deployment ∧ r.sandboxName = sandboxName ∧ r.tags = tags ∧
          r.sessionApiKey = sessionApiKey then (.ok r, l.commit)
      else (.error (.runtimeError "sandbox creation identity does not match task"), l)
    | none =>
      let row : SandboxCreationRecord :=
        { taskId := t, deployment, sandboxName, tags, sessionApiKey, credentialVersion,
          providerId := none, providerState := .creating, detail := none, createdAt := now,
          updatedAt := now }
      (.ok row, { l with creations := l.creations.insert row }.commit)
  else (.error (.keyError "no active task payload"), l)

def getSandboxCreation (t : TaskId) (l : Ledger) : Option SandboxCreationRecord :=
  l.creations.find? t

def setSandboxCredentialVersion (t : TaskId) (version : Option Nat) : Tx SandboxCreationRecord :=
  fun l =>
  let l := { l with creations :=
    l.creations.modify t fun r => { r with credentialVersion := version } }.commit
  match l.creations.find? t with
  | none => (.error (.keyError ""), l)
  | some r => (.ok r, l)

/-- Record provider identity and state; a null id keeps the stored one. -/
def updateSandboxCreation (now : Time) (t : TaskId) (providerId : Option ProviderId)
    (providerState : SandboxProviderState) (detail : Option String) : Tx SandboxCreationRecord :=
  fun l =>
  match l.creations.find? t with
  | none => (.error (.keyError "no sandbox creation intent for task"), l)
  | some r =>
    if r.providerId = (providerId <|> r.providerId) ∧ r.providerState = providerState ∧
        r.detail = detail then (.ok r, l)
    else
      let r' := { r with providerId := providerId <|> r.providerId, providerState, detail,
                         updatedAt := now }
      (.ok r', { l with creations := l.creations.modify t fun r =>
        { r with providerId := providerId <|> r.providerId, providerState, detail,
                 updatedAt := now } }.commit)

/-- Discard the old provider identity after absence was confirmed. -/
def resetSandboxForWake (now : Time) (t : TaskId) : Tx Unit := fun l =>
  let creations := l.creations.modifyIf t (fun r => r.providerState = SandboxProviderState.stopped)
    fun r => { r with providerId := none, providerState := .creating, detail := none, updatedAt := now }
  (.ok (), { l with creations }.commit)

/-! ### Publication intents -/

/-- Persist publication identity before push and create side effects. -/
def beginPublication (now : Time) (t : TaskId) (repository taskBranch baseRef : String)
    (taskMarker : TaskId) (commitSha : Option String) (checkOutcome : CheckOutcome)
    (agentOutcome : AgentOutcome) (state : PublicationState := .pending)
    (detail : Option String := none) : Tx PublicationRecord := fun l =>
  if l.hasPayload t then
    match l.publications.find? t with
    | some r =>
      if r.repository ≠ repository ∨ r.taskBranch ≠ taskBranch ∨ r.baseRef ≠ baseRef ∨
          r.taskMarker ≠ taskMarker then
        (.error (.runtimeError "existing publication identity does not match task"), l)
      else if r.commitSha.isSome ∧ commitSha.isSome ∧ r.commitSha ≠ commitSha then
        (.error (.runtimeError "existing publication commit does not match task"), l)
      else (.ok r, l.commit)
    | none =>
      let row : PublicationRecord :=
        { taskId := t, repository, taskBranch, baseRef, taskMarker, state, commitSha,
          checkOutcome, agentOutcome, prNumber := none, prUrl := none, prDraft := none,
          prAuthor := none, prState := none, detail, createdAt := now, updatedAt := now }
      (.ok row, { l with publications := l.publications.insert row }.commit)
  else (.error (.keyError "no active task payload"), l)

/-- The arguments of `update_publication`; one left out keeps its column, but for `detail`. -/
structure PublicationPatch where
  state : PublicationState
  commitSha : Option String := none
  prNumber : Option Nat := none
  prUrl : Option String := none
  prDraft : Option Bool := none
  prAuthor : Option String := none
  prState : Option String := none
  detail : Option String := none
  checkStatus : Option String := none
  outcomeDetail : Option String := none
  checkOutcome : Option CheckOutcome := none
  agentOutcome : Option AgentOutcome := none

def PublicationPatch.apply (p : PublicationPatch) (now : Time) (r : PublicationRecord) :
    PublicationRecord :=
  { r with
    state := p.state
    commitSha := p.commitSha <|> r.commitSha
    prNumber := p.prNumber <|> r.prNumber
    prUrl := p.prUrl <|> r.prUrl
    prDraft := p.prDraft <|> r.prDraft
    prAuthor := p.prAuthor <|> r.prAuthor
    prState := p.prState <|> r.prState
    detail := p.detail
    checkOutcome := p.checkOutcome.getD r.checkOutcome
    agentOutcome := p.agentOutcome.getD r.agentOutcome
    updatedAt := now }

theorem PublicationPatch.key_apply (p : PublicationPatch) (now : Time) (r : PublicationRecord) :
    key (p.apply now r) = key r := rfl

/-- Record publication progress; the task row follows when its columns are given. -/
def updatePublication (now : Time) (t : TaskId) (p : PublicationPatch) : Tx PublicationRecord :=
  fun l =>
  match l.publications.find? t with
  | none => (.error (.keyError "no publication intent for task"), l)
  | some r =>
    let l := { l with publications := l.publications.modify t (p.apply now) (p.key_apply now) }
    if p.checkStatus.isSome ∨ p.outcomeDetail.isSome then
      (.ok (p.apply now r), (l.setTask t fun r =>
        { r with checkStatus := p.checkStatus <|> r.checkStatus,
                 outcomeDetail := p.outcomeDetail <|> r.outcomeDetail, updatedAt := now }).commit)
    else (.ok (p.apply now r), l.commit)

/-! ### Supervision -/

/-- Persist execution identity before nonblocking sandbox startup. -/
def beginSupervision (now : Time) (t : TaskId) (executionId : ExecutionId) (taskBranch : String)
    (startKey : StartKey) (conversationId : Option ConversationId := none) :
    Tx SupervisionRecord := fun l =>
  if l.hasPayload t then
    match l.supervisions.rows.find? (fun r => r.taskId = t ∨ r.startKey = startKey) with
    | some r =>
      if r.taskId ≠ t ∨ r.startKey ≠ startKey ∨ r.executionId ≠ executionId ∨
          r.taskBranch ≠ taskBranch then
        (.error (.runtimeError "start_key already bound to a different task"), l)
      else (.ok r, l.commit)
    | none =>
      let row : SupervisionRecord :=
        { taskId := t, executionId, taskBranch, startKey, conversationId,
          cancelRequested := false, tailGapPossible := false, createdAt := now, updatedAt := now }
      (.ok row, { l with supervisions := l.supervisions.insert row }.commit)
  else (.error (.keyError "no active task payload"), l)

def getSupervision (t : TaskId) (l : Ledger) : Option SupervisionRecord := l.supervisions.find? t

/-- The row that `update_supervision` writes: an argument left out keeps its column. -/
def patchSupervision (now : Time) (executionId : Option ExecutionId) (startKey : Option StartKey)
    (conversationId : Option ConversationId) (cancelRequested tailGapPossible : Option Bool)
    (r : SupervisionRecord) : SupervisionRecord :=
  { r with
    executionId := executionId.getD r.executionId
    startKey := startKey.getD r.startKey
    conversationId := conversationId <|> r.conversationId
    cancelRequested := cancelRequested.getD r.cancelRequested
    tailGapPossible := tailGapPossible.getD r.tailGapPossible
    updatedAt := now }

theorem key_patchSupervision (now : Time) (executionId : Option ExecutionId)
    (startKey : Option StartKey) (conversationId : Option ConversationId)
    (cancelRequested tailGapPossible : Option Bool) (r : SupervisionRecord) :
    key (patchSupervision now executionId startKey conversationId cancelRequested tailGapPossible r) =
      key r := rfl

def updateSupervision (now : Time) (t : TaskId) (executionId : Option ExecutionId)
    (startKey : Option StartKey) (conversationId : Option ConversationId)
    (cancelRequested tailGapPossible : Option Bool) : Tx SupervisionRecord := fun l =>
  match l.supervisions.find? t with
  | none => (.error (.keyError "no supervision record for task"), l)
  | some r =>
    let patch :=
      patchSupervision now executionId startKey conversationId cancelRequested tailGapPossible
    let supervisions := l.supervisions.modify t patch
      (key_patchSupervision now executionId startKey conversationId cancelRequested tailGapPossible)
    (.ok (patch r), { l with supervisions }.commit)

/-! ### Copied events -/

def eventSourceCursor (t : TaskId) (source : ConversationId) (l : Ledger) : Nat :=
  (l.eventSourceCursors.find? (t, source)).elim 0 EventSourceCursor.sourceSeq

/-- Insert one copied event; answer its cursor, or none when deduplicated. -/
def insertTaskEvent (now : Time) (t : TaskId) (source : ConversationId) (seq : Nat)
    (payload : String) : Tx (Option Nat) := fun l =>
  match l.eventIdentities.find? (t, source, seq) with
  | some _ => (.ok none, l)
  | none =>
    if l.hasPayload t then
      let cursor := (l.eventCounters.find? t).elim 1 fun c => c.value + 1
      let counter : EventCounter := { taskId := t, value := 1 }
      let identity : EventIdentity :=
        { taskId := t, sourceId := source, sourceSeq := seq, cursorSeq := cursor }
      let copy : EventCopy :=
        { taskId := t, cursorSeq := cursor, sourceId := source, sourceSeq := seq,
          eventJson := payload, createdAt := now }
      (.ok (some cursor), { l with
        eventCounters := l.eventCounters.upsert counter fun c => { c with value := c.value + 1 }
        eventIdentities := l.eventIdentities.insert identity
        eventCopies := l.eventCopies.insert copy })
    else (.error (.keyError "no active task payload"), l)

/-- `copy_task_event`: one event in a transaction of its own. The text of a copy has to be
JSON; the check fails the last statement of the transaction, after the counter and the
identity were written. -/
def copyTaskEvent (now : Time) (jsonValid : String → Bool) (t : TaskId) (source : ConversationId)
    (seq : Nat) (payload : String) : Tx (Option Nat) := fun l =>
  match insertTaskEvent now t source seq payload l with
  | (.error x, _) => (.error x, l)
  | (.ok none, l) => (.ok none, l.commit)
  | (.ok (some cursor), l') =>
    if jsonValid payload then (.ok (some cursor), l'.commit) else (.error .sqliteError, l)

/-- The copied events of a task after a cursor, in the order of their cursors. -/
def listTaskEvents (t : TaskId) (afterCursor : Nat) (l : Ledger) : List EventCopy :=
  (l.eventCopies.rows.filter fun c => c.taskId = t ∧ afterCursor < c.cursorSeq).insertionSort
    fun a b => a.cursorSeq ≤ b.cursorSeq

/-- The stored bytes of the copied events of a task. -/
def logBytes (t : TaskId) (l : Ledger) : Nat :=
  ((l.eventCopies.rows.filter fun c => c.taskId = t).map fun c => c.eventJson.utf8ByteSize).sum

/-- The events of a page, one after the other. `payload` is the text stored for
an event when the log already holds so many bytes. -/
def insertTaskEvents (now : Time) (payload : Event → Nat → String) (t : TaskId)
    (source : ConversationId) : List Event → Nat → List (Nat × String) → Tx (List (Nat × String))
  | [], _, done => fun l => (.ok done.reverse, l)
  | e :: es, bytes, done => fun l =>
    let text := payload e bytes
    match insertTaskEvent now t source e.seq text l with
    | (.error x, l) => (.error x, l)
    | (.ok none, l) => insertTaskEvents now payload t source es bytes done l
    | (.ok (some cursor), l) =>
      insertTaskEvents now payload t source es (bytes + text.utf8ByteSize) ((cursor, text) :: done) l

/-- At most 200 events, positive and increasing. -/
def validPage (events : List Event) : Bool :=
  events.length ≤ 200 && events.all (fun e => 0 < e.seq) &&
    (events.map Event.seq).Pairwise (· < ·)

/-- Commit source watermark, identities and bounded evidence atomically. -/
def copyTaskEventPage (now : Time) (payload : Event → Nat → String) (t : TaskId)
    (source : ConversationId) (events : List Event) : Tx (List (Nat × String)) := fun l =>
  match events.getLast? with
  | none => (.ok [], l)
  | some last =>
    if validPage events then
      if l.hasPayload t then
        match insertTaskEvents now payload t source events (l.logBytes t) [] l with
        | (.error x, _) => (.error x, l)
        | (.ok inserted, l) =>
          let mark : EventSourceCursor := { taskId := t, sourceId := source, sourceSeq := last.seq }
          (.ok inserted, { l with eventSourceCursors := l.eventSourceCursors.upsert mark fun c =>
            { c with sourceSeq := max c.sourceSeq last.seq } }.commit)
      else (.error (.keyError "no active task payload"), l)
    else (.error (.valueError "event page must contain at most 200 ordered source events"), l)

/-! ### Messages -/

/-- An upsert of the receipt; a stored message of other content is left alone. -/
def saveTaskMessageReceipt (t : TaskId) (receipt : MessageReceipt) : Tx Unit := fun l =>
  if l.hasPayload t then
    match l.receipts.find? (t, receipt.id) with
    | none => (.ok (), { l with receipts := l.receipts.insert { taskId := t, receipt } }.commit)
    | some r =>
      if r.receipt.content = receipt.content then
        (.ok (), { l with receipts := l.receipts.modify (t, receipt.id) fun r =>
          { r with receipt := { r.receipt with status := receipt.status, detail := receipt.detail,
                                               updatedAt := receipt.updatedAt } } }.commit)
      else (.error (.runtimeError "message id already belongs to another message"), l)
  else (.error (.keyError "no active task payload"), l)

def getTaskMessageReceipt (t : TaskId) (m : MessageId) (l : Ledger) : Option MessageReceipt :=
  (l.receipts.find? (t, m)).map ReceiptRow.receipt

def listTaskMessageReceipts (t : TaskId) (l : Ledger) : List MessageReceipt :=
  ((l.receipts.rows.filter fun r => r.taskId = t).map ReceiptRow.receipt).insertionSort fun a b =>
    a.createdAt < b.createdAt ∨ a.createdAt = b.createdAt ∧ a.id ≤ b.id

def listAcceptedTaskMessages (t : TaskId) (l : Ledger) : List MessageReceipt :=
  (l.listTaskMessageReceipts t).filter fun r => r.status = .accepted

/-! ### Results and task states -/

def archiveTaskResult (now : Time) (t : TaskId) (executionId : Option ExecutionId)
    (manifest : Option TaskResultManifest) (evidenceComplete : Bool)
    (evidenceDetail : Option String) : Tx Unit := fun l =>
  if l.hasPayload t then
    let row : TaskResultArchive :=
      { taskId := t, executionId, manifest, evidenceComplete, evidenceDetail, archivedAt := now }
    (.ok (), { l with results := l.results.upsert row fun r =>
      { r with executionId, manifest, evidenceComplete, evidenceDetail, archivedAt := now } }.commit)
  else (.error (.keyError "no active task payload"), l)

def getTaskResult (t : TaskId) (l : Ledger) : Option TaskResultArchive := l.results.find? t

/-- Cancel a queued task before sandbox allocation; any other task is only read. -/
def cancelQueuedTask (now : Time) (t : TaskId) : Tx (Option TaskRecord) := fun l =>
  let l := { l with tasks := l.tasks.modifyIf t (fun r => r.state = TaskState.queued) fun r =>
    { r with state := .cancelled, outcomeDetail := some "cancelled_before_allocation",
             updatedAt := now } }.commit
  (.ok (l.tasks.find? t), l)

/-- The row that `finish_task` writes. The state is written whatever it was. -/
def finished (now : Time) (state : TaskState) (outcomeDetail checkStatus : Option String)
    (r : TaskRecord) : TaskRecord :=
  { r with
    state
    outcomeDetail := outcomeDetail <|> r.outcomeDetail
    checkStatus := checkStatus <|> r.checkStatus
    updatedAt := now
    workspaceLastActivityAt := if state = .sleeping then r.workspaceLastActivityAt else some now }

theorem key_finished (now : Time) (state : TaskState) (outcomeDetail checkStatus : Option String)
    (r : TaskRecord) : key (finished now state outcomeDetail checkStatus r) = key r := rfl

def finishTask (now : Time) (t : TaskId) (state : TaskState)
    (outcomeDetail checkStatus : Option String) : Tx TaskRecord := fun l =>
  let l := (l.setTask t (finished now state outcomeDetail checkStatus)
    (key_finished now state outcomeDetail checkStatus)).commit
  match l.tasks.find? t with
  | none => (.error (.keyError "no task"), l)
  | some r => (.ok r, l)

/-- Wake a sleeping workspace after its message receipt is durable. -/
def queueWorkspaceMessage (now : Time) (t : TaskId) : Tx Unit := fun l =>
  (.ok (), { l with tasks := l.tasks.modifyIf t (fun r => r.state = TaskState.sleeping) fun r =>
    { r with state := .queued, updatedAt := now } }.commit)

def touchWorkspace (now : Time) (t : TaskId) : Tx Unit := fun l =>
  (.ok (), (l.setTask t fun r =>
    { r with updatedAt := now, workspaceLastActivityAt := some now }).commit)

/-- A receipt of the task is still waiting for delivery. -/
def hasAccepted (t : TaskId) (l : Ledger) : Bool :=
  l.receipts.rows.any fun r => r.taskId = t && r.receipt.status = .accepted

/-- Close the idle window atomically with the message queue. -/
def tryMarkSleeping (now : Time) (t : TaskId) : Tx Bool := fun l =>
  if l.hasAccepted t then (.ok false, l.commit)
  else
    let woken : Ledger := { l with
      tasks := l.tasks.modifyIf t (fun r => r.state = TaskState.idle) fun r =>
        { r with state := .sleeping, updatedAt := now } }
    (.ok ((l.tasks.find? t).any fun r => r.state = .idle), woken.commit)

def expireWorkspace (t : TaskId) : Tx Unit := fun l =>
  (.ok (), { l with tasks := l.tasks.modifyIf t (fun r => r.state = TaskState.sleeping) fun r =>
    { r with workspaceExpired := true } }.commit)

/-! ### Retention -/

/-- Retire the payload of one task: leave a tombstone and the idempotency key,
delete its mutable rows. A tombstone or a key that is already there fails the
insert, and with it the pass. -/
def expirePayload (expires : Time) (r : TaskRecord) : Tx Unit := fun l =>
  if (l.tombstones.find? r.id).isSome ∨ (l.retiredKeys.find? r.id).isSome ∨
      l.retiredKeys.rows.any (fun k => k.seq = r.seq ∨
        k.ownerId = r.ownerId ∧ k.idempotencyKey = r.idempotencyKey) then
    (.error .sqliteError, l)
  else
    let remoteEffect := (l.publications.find? r.id).map fun p =>
      (p.prNumber, p.prUrl, p.prState, p.state)
    let retired : RetiredKey :=
      { taskId := r.id, ownerId := r.ownerId, idempotencyKey := r.idempotencyKey, seq := r.seq,
        terminalState := r.state, model := r.model, createdAt := r.createdAt,
        updatedAt := r.updatedAt }
    (.ok (), { l with
      tombstones := l.tombstones.insert { taskId := r.id, remoteEffect, expiresAt := expires }
      retiredKeys := l.retiredKeys.insert retired
      eventCopies := l.eventCopies.filter fun c => c.taskId ≠ r.id
      receipts := l.receipts.filter fun c => c.taskId ≠ r.id
      results := l.results.erase r.id
      supervisions := l.supervisions.erase r.id
      creations := l.creations.erase r.id
      publications := l.publications.erase r.id
      tasks := l.tasks.modify r.id fun r =>
        { r with payloadExpired := true, prompt := "", repositoryText := "", baseRef := none,
                 baseSha := none, retryOf := none, outcomeDetail := none, checkStatus := none } })

def expirePayloads (expires : Time) : List TaskRecord → Tx Unit
  | [] => fun l => (.ok (), l)
  | r :: rs => fun l =>
    match expirePayload expires r l with
    | (.error x, l) => (.error x, l)
    | (.ok (), l) => expirePayloads expires rs l

/-- A terminal task past the cutoff that nothing reserves. -/
def expirable (before : Time) (l : Ledger) (r : TaskRecord) : Bool :=
  r.state.terminal && !r.payloadExpired && r.updatedAt < before &&
    (l.reservations.find? r.id).isNone

/-- Expire payload and mutable identities atomically, protecting reservations. -/
def expireTerminalPayloads (now before tombstoneRetention : Time) : Tx Nat := fun l =>
  let rows := l.tasks.rows.filter (l.expirable before)
  match expirePayloads (now + tombstoneRetention) rows l with
  | (.error x, _) => (.error x, l)
  | (.ok (), l) => (.ok rows.length, l.commit)

/-- Rows that refer to a task keep it from being deleted. -/
def referenced (t : TaskId) (l : Ledger) : Bool :=
  (l.reservations.find? t).isSome || (l.creations.find? t).isSome ||
    (l.supervisions.find? t).isSome || (l.publications.find? t).isSome ||
    (l.results.find? t).isSome || l.receipts.rows.any (fun r => r.taskId = t) ||
    l.eventCopies.rows.any (fun c => c.taskId = t)

def purgeTombstone (t : TaskId) : Tx Unit := fun l =>
  let l' := { l with
    tombstones := l.tombstones.erase t
    tasks := l.tasks.filter fun r => !(r.id = t && r.payloadExpired) }
  if (l'.tasks.find? t).isNone ∧ l.referenced t then (.error .sqliteError, l) else (.ok (), l')

def purgeTombstones : List Tombstone → Tx Unit
  | [] => fun l => (.ok (), l)
  | r :: rs => fun l =>
    match purgeTombstone r.taskId l with
    | (.error x, l) => (.error x, l)
    | (.ok (), l) => purgeTombstones rs l

def purgeExpiredTombstones (before : Time) : Tx Nat := fun l =>
  let rows := l.tombstones.rows.filter fun r =>
    r.expiresAt < before && (l.reservations.find? r.taskId).isNone
  match purgeTombstones rows l with
  | (.error x, _) => (.error x, l)
  | (.ok (), l) => (.ok rows.length, l.commit)

end Ledger

end GgAgent.Backend
