import GgAgent.Backend.Lifecycle

/-!
`TaskSupervisionManager`: the per-task loop that starts executions, follows them,
archives their results and releases their sandboxes, and the acceptance of
messages.

Live subscribers and callbacks are not modelled; they see copies of what is
stored. The retries of `_fetch_manifest_with_retries` are one outside call, since
nothing is written between two of them. `_settle_messages` is not here because
nothing calls it.
-/

namespace GgAgent.Backend

open GgAgent.Lib
open GgAgent.Lib.Co (attempt)

/-- An `httpx.HTTPError`. -/
def Exn.isHttpError : Exn → Bool
  | .httpStatus _ _ _ | .httpError _ _ => true
  | _ => false

/-- A `ModalLifecycleError`. -/
def Exn.isLifecycle : Exn → Bool
  | .lifecycle _ _ => true
  | _ => false

/-- What a loop does after one round. -/
inductive Next
  | again | done
  deriving DecidableEq, Repr

namespace Manager

def defaultTaskDeadline : Time := minutes 60

def taskBranch (t : TaskId) : String := "gg/task/" ++ toString t

/-! ### Cleanup -/

def attemptCleanup (t : TaskId) : Routine Unit := do
  match ← attempt (Lifecycle.terminate t) with
  | .error e =>
    if e.isLifecycle then
      db (.updateReservation t .terminationPending (some ("termination unresolved: " ++ e.text))
        none)
    else throw e
  | .ok snapshot =>
    if snapshot.state = .stopped then db (.releaseReservation t "confirmed_absent")
    else
      db (.updateReservation t .terminationPending
        (some (snapshot.detail.getD "termination not confirmed")) none)

def failExecutionStart (t : TaskId) (detail : String) : Routine Unit := do
  let _ ← db (.finishTask t .failed (some detail) none)
  db (.updateReservation t .terminationPending (some detail) none)
  ensureDurable
  attemptCleanup t

/-! ### Starting executions -/

def freshGithubToken (cfg : Config) (task : TaskRecord) : Routine (Option String) := do
  match task.ownerId, task.repository with
  | some owner, some repository =>
    if !cfg.hasAuthorization then
      throw (.runtimeError "GitHub repository authorization unavailable")
    else
      let (token, _) ← ofReply (← ext (.repositoryCredential owner repository (task.baseRef.getD "")))
      pure (some token)
  | _, _ => pure none

/-- Run and publication identities are confirmed before a write token reaches Pi. -/
def authorizeExecution (task : TaskRecord) (branch : String) : Routine Unit := do
  match task.ownerId, task.repository with
  | some _, some repository =>
    let _ ← db (.beginPublication task.id repository branch (task.baseRef.getD "main") task.id none
      .notRun .notRun)
    ensureDurable
  | _, _ => ensureDurable

/-- The two refusals of a sandbox that fail the task at once. -/
def unstartable (e : Exn) : Option String :=
  match e with
  | .httpStatus 503 (some detail) _ =>
    if detail = "github clone token is not configured" ∨
        detail = "OPENROUTER_API_KEY is required for Pi" then some detail
    else none
  | _ => none

/-- The call of `start_execution_call`: the token is fetched just before it is sent. -/
def startExecutionCall (cfg : Config) (task : TaskRecord) (start : StartTaskExecutionRequest) :
    Routine TaskExecutionRecord := do
  let githubToken ← freshGithubToken cfg task
  ofReply (← ext (.startExecution start githubToken))

/-- The deadline of the first execution. -/
def startDeadline (t : TaskId) (task : TaskRecord) : Routine Time := do
  let duration :=
    if task.ownerId.isSome ∧ task.repository.isSome then minutes 45 else defaultTaskDeadline
  match ← db (.getReservation t) with
  | some r => pure (r.reservedAt + duration)
  | none => pure ((← now) + duration)

/-- The end of `_start_execution`, for a request that the sandbox accepted. -/
def startAccepted (t : TaskId) (task : TaskRecord) (record : TaskExecutionRecord) :
    Routine (Option SupervisionRecord) := do
  let _ ← db (.updateSupervision t (some (.sandbox record.executionId)) none
    record.conversationId none none)
  let baseSha : Routine Unit := do
    match task.baseSha, record.baseRef with
    | none, some _ =>
      match ← ext (.getManifest t (.sandbox record.executionId)) with
      | .ok manifest =>
        let _ ← db (.recordBaseSha t manifest.baseSha)
      | .error e => if e.isHttpError then pure () else throw e
    | _, _ => pure ()
  baseSha
  db (.getSupervision t)

/-- The end of `_start_execution`, for a request that raised. -/
def startRaised (t : TaskId) (e : Exn) : Routine (Option SupervisionRecord) := do
  match e with
  | .repositoryAccess text =>
    failExecutionStart t text
    pure none
  | e =>
    if !e.isHttpError then throw e
    else
      match unstartable e with
      | some detail =>
        failExecutionStart t detail
        pure none
      | none =>
        -- No execution identity has been acknowledged yet: the same key is retried.
        db (.updateReservation t .running (some ("execution start failed: " ++ e.text)) none)
        pure none

def startExecution (cfg : Config) (t : TaskId) (task : TaskRecord) :
    Routine (Option SupervisionRecord) := do
  let deadlineAt ← startDeadline t task
  if deadlineAt ≤ (← now) then
    failExecutionStart t "execution start deadline exceeded"
    pure none
  else
    let _ ← db (.beginSupervision t (.key (.task t)) (taskBranch t) (.task t))
    let start : StartTaskExecutionRequest :=
      { taskId := t, repository := task.repository, prompt := task.prompt, baseRef := task.baseRef,
        baseSha := task.baseSha, taskBranch := taskBranch t, startKey := .task t, deadlineAt,
        model := task.model }
    authorizeExecution task (taskBranch t)
    match ← attempt (startExecutionCall cfg task start) with
    | .error e => startRaised t e
    | .ok record => startAccepted t task record

/-- Bind the supervision row to the key of a message. -/
def bindFollowup (t : TaskId) (supervision : SupervisionRecord) (startKey : StartKey) :
    Routine SupervisionRecord :=
  if supervision.startKey ≠ startKey then
    db (.updateSupervision t (some (.key startKey)) (some startKey) none none none)
  else pure supervision

/-- Send a message as a prompt, and record its delivery. -/
def deliverFollowup (t : TaskId) (task : TaskRecord) (receipt : MessageReceipt)
    (supervision : SupervisionRecord) (githubToken : Option String) : Routine Unit := do
  let start : StartTaskExecutionRequest :=
    { taskId := t, repository := task.repository, prompt := receipt.content,
      baseRef := task.baseRef, baseSha := task.baseSha, taskBranch := supervision.taskBranch,
      startKey := .message t receipt.id, deadlineAt := (← now) + defaultTaskDeadline,
      model := task.model }
  authorizeExecution task supervision.taskBranch
  let record ← ofReply (← ext (.startExecution start githubToken))
  let delivered := { receipt with status := .delivered, updatedAt := ← now }
  db (.saveTaskMessageReceipt t delivered)
  let _ ← db (.updateSupervision t (some (.sandbox record.executionId)) none
    (record.conversationId <|> supervision.conversationId) none none)
  let _ ← db (.finishTask t .running none none)

/-- Deliver one message as the prompt of a follow-up execution. -/
def startFollowup (cfg : Config) (t : TaskId) (receipt : MessageReceipt) : Routine Unit := do
  let task? ← db (.get t none)
  let supervision? ← db (.getSupervision t)
  match task?, supervision? with
  | some task, some supervision =>
    match ← attempt (freshGithubToken cfg task) with
    | .error (.repositoryAccess text) =>
      let failed := { receipt with status := .failed, detail := some text, updatedAt := ← now }
      db (.saveTaskMessageReceipt t failed)
      db (.updateReservation t .running (some text) none)
    | .error e => throw e
    | .ok githubToken =>
      let supervision ← bindFollowup t supervision (.message t receipt.id)
      deliverFollowup t task receipt supervision githubToken
  | _, _ => pure ()

def refreshSupervision (t : TaskId) (supervision : SupervisionRecord) :
    Routine SupervisionRecord := do
  match ← ext (.getExecution t supervision.executionId) with
  | .error e => if e.isHttpError then pure supervision else throw e
  | .ok execution =>
    if execution.conversationId.isNone ∨ execution.conversationId = supervision.conversationId then
      pure supervision
    else db (.updateSupervision t none none execution.conversationId none none)

/-- Deliver a message and read the supervision row again. -/
def followupSupervision (cfg : Config) (t : TaskId) (receipt : MessageReceipt) :
    Routine (Option SupervisionRecord) := do
  startFollowup cfg t receipt
  db (.getSupervision t)

/-- The execution to follow: the one on record, or one started now because none
was acknowledged or the sandbox does not know it. -/
def currentSupervision (cfg : Config) (t : TaskId) (task : TaskRecord) :
    Routine (Option SupervisionRecord) := do
  match ← db (.getSupervision t) with
  | none => startExecution cfg t task
  | some supervision =>
    if supervision.executionId = .key (.task t) then startExecution cfg t task
    else if supervision.executionId = .key supervision.startKey then
      match supervision.startKey.messageId? with
      | none => pure (some supervision)
      | some m =>
        match ← db (.getTaskMessageReceipt t m) with
        | none => pure (some supervision)
        | some receipt => followupSupervision cfg t receipt
    else
      match ← ext (.getExecution t supervision.executionId) with
      | .ok _ => pure (some supervision)
      | .error (.httpStatus 404 _ _) =>
        match ← db (.listAcceptedTaskMessages t) with
        | [] => pure none
        | receipt :: _ => followupSupervision cfg t receipt
      | .error e => throw e

def ensureExecutionStarted (cfg : Config) (t : TaskId) : Routine (Option SupervisionRecord) := do
  match ← db (.get t none) with
  | none => pure none
  | some task =>
    match ← currentSupervision cfg t task with
    | none => pure none
    | some supervision => some <$> refreshSupervision t supervision

/-! ### Following an execution -/

/-- Copy the pages of the sandbox's event log that are not stored yet. -/
def syncEvents (cfg : Config) (t : TaskId) (conversation : ConversationId) : Routine Unit := do
  let after ← db (.eventSourceCursor t conversation)
  loop after fun after => do
    match ← ofReply (← ext (.conversationEvents t conversation after 200)) with
    | .notFound => pure (.inr ())
    | .page [] => pure (.inr ())
    | .page (e :: es) =>
      if e.seq ≤ after then
        throw (.valueError "sandbox event page did not advance source cursor")
      else
        let _ ← db (.copyTaskEventPage cfg.eventPayload t conversation (e :: es))
        if (e :: es).length < 200 then pure (.inr ())
        else pure (.inl ((e :: es).getLast (by simp)).seq)

/-- Ask the sandbox to stop the conversation of an execution. -/
def cancelConversation (t : TaskId) (supervision : SupervisionRecord) : Routine Unit := do
  match supervision.conversationId with
  | some conversation => ofReply (← ext (.cancelConversation t conversation))
  | none => pure ()

def cancelExecution (t : TaskId) (supervision : SupervisionRecord) : Routine Unit := do
  ensureDurable
  cancelConversation t supervision
  let record ← ofReply (← ext (.getExecution t supervision.executionId))
  if record.phase.over then db (.updateReservation t .finalizing none (some .finalizing))
  else pure ()

/-- The `try` block of `_sleep_workspace`. -/
def putToSleep (t : TaskId) : Routine Unit := do
  Lifecycle.sync t
  let snapshot ← Lifecycle.terminate t
  if snapshot.state = .stopped then pure ()
  else throw (.lifecycle .plain "sandbox sleep was not confirmed")

/-- Its handler: the workspace is idle again. -/
def sleepFailed (t : TaskId) (e : Exn) : Routine Unit := do
  match ← db (.get t none) with
  | none => throw (.other "AttributeError" "'NoneType' object has no attribute 'state'")
  | some task =>
    if task.state = .sleeping then
      let _ ← db (.finishTask t .idle none none)
      throw e
    else throw e

def sleepWorkspace (t : TaskId) : Routine Unit :=
  withLock (.workspace t) do
    if ← db (.tryMarkSleeping t) then
      tryCatch (putToSleep t) (sleepFailed t)
      db (.releaseReservation t "confirmed_absent")
    else pure ()

/-- The end of `_drive_running`, for an execution that the sandbox has finished. -/
def driveFinished (cfg : Config) (t : TaskId) (task : TaskRecord) (executionId : Nat) :
    Routine Unit := do
  let archive ← db (.getTaskResult t)
  if archive.any fun a => a.executionId = some (.sandbox executionId) then
    match ← db (.listAcceptedTaskMessages t) with
    | receipt :: _ => startFollowup cfg t receipt
    | [] =>
      if task.state = .idle then
        if task.lastActivity + minutes 45 ≤ (← now) then sleepWorkspace t
  else db (.updateReservation t .finalizing none (some .finalizing))

/-- Run a routine, dropping an `httpx.HTTPError`. -/
def ignoringHttpError (body handler : Routine Unit) : Routine Unit :=
  tryCatch body fun e => if e.isHttpError then handler else throw e

/-- Copy the events of an execution whose conversation is known. -/
def syncConversation (cfg : Config) (t : TaskId) (supervision : SupervisionRecord)
    (handler : Routine Unit) : Routine Unit := do
  match supervision.conversationId with
  | some conversation => ignoringHttpError (syncEvents cfg t conversation) handler
  | none => pure ()

/-- Cancel an execution if that was requested, and look at it again. -/
def honourCancel (t : TaskId) (supervision : SupervisionRecord)
    (execution : TaskExecutionRecord) : Routine TaskExecutionRecord := do
  if supervision.cancelRequested then
    cancelExecution t supervision
    ofReply (← ext (.getExecution t supervision.executionId))
  else pure execution

/-- The rest of `_drive_running` once an execution is known. -/
def driveExecution (cfg : Config) (t : TaskId) (task : TaskRecord)
    (supervision : SupervisionRecord) : Routine Unit := do
  syncConversation cfg t supervision (pure ())
  let execution ← ofReply (← ext (.getExecution t supervision.executionId))
  let execution ← honourCancel t supervision execution
  if execution.phase.over then driveFinished cfg t task execution.executionId
  else pure ()

/-- A queued task that already holds a running reservation is running. -/
def adoptQueued (t : TaskId) (task : TaskRecord) : Routine Unit := do
  if task.state = .queued then db (.updateReservation t .running none (some .running))

def driveRunning (cfg : Config) (t : TaskId) : Routine Unit := do
  match ← db (.get t none) with
  | none => pure ()
  | some task =>
    adoptQueued t task
    match ← attempt (Lifecycle.connect t) with
    | .error e =>
      if e.isLifecycle then
        db (.updateReservation t .running (some ("sandbox connect failed: " ++ e.text)) none)
      else throw e
    | .ok () =>
      match ← ensureExecutionStarted cfg t with
      | none => pure ()
      | some supervision => driveExecution cfg t task supervision

/-! ### Finalization -/

/-- `_terminal_from_manifest`. -/
def terminalFromManifest (manifest : Option TaskResultManifest) (cancelled : Bool) :
    TaskState × Option String × Option String :=
  if cancelled then (.cancelled, some "cancelled_by_request", none)
  else
    match manifest with
    | none => (.failed, some "missing_manifest", none)
    | some m =>
      let check := some m.checkOutcome.value
      match m.agentOutcome with
      | .noChanges => (.completed, some "no_changes", check)
      | .cancelled => (.cancelled, some "agent_cancelled", check)
      | .failed | .timeout | .notRun =>
        (.failed, some (m.outcomeDetail.getD m.agentOutcome.value), check)
      | .succeeded =>
        match m.checkOutcome with
        | .failed => (.failed, some "checks_failed", check)
        | .passed => (.completed, some "checks_passed", check)
        | .notRun | .timeout => (.completed, m.outcomeDetail, check)

/-- The end of `_finalize_locked`: archive what was fetched and settle the run. -/
def settleRun (t : TaskId) (supervision : SupervisionRecord)
    (manifest : Option TaskResultManifest) : Routine Unit := do
  db (.archiveTaskResult t (some supervision.executionId) manifest manifest.isSome
    (if manifest.isSome then none else some "manifest archival incomplete"))
  let (state, outcomeDetail, checkStatus) :=
    terminalFromManifest manifest supervision.cancelRequested
  if state = .cancelled then
    let _ ← db (.finishTask t .cancelled outcomeDetail checkStatus)
    db (.updateReservation t .terminationPending none none)
  else
    -- A run that was not cancelled leaves its workspace idle, whatever its outcome.
    let _ ← db (.finishTask t .idle outcomeDetail checkStatus)
    db (.updateReservation t .running none (some .idle))

/-- `_finalize_locked` after the sandbox answered. -/
def finalizeConnected (cfg : Config) (t : TaskId) (supervision : SupervisionRecord) :
    Routine Unit := do
  let supervision ← refreshSupervision t supervision
  syncConversation cfg t supervision do
    let _ ← db (.updateSupervision t none none none none (some true))
  let manifest ← ofReply (← ext (.fetchManifest t supervision.executionId))
  settleRun t supervision manifest

def finalizeLocked (cfg : Config) (t : TaskId) : Routine Unit := do
  let task? ← db (.get t none)
  let supervision? ← db (.getSupervision t)
  match task?, supervision? with
  | some task, some supervision =>
    if task.state.terminal then attemptCleanup t
    else
      match ← attempt (Lifecycle.connect t) with
      | .error e =>
        if e.isLifecycle then
          let _ ← db (.updateSupervision t none none none none (some true))
          let _ ← db (.finishTask t .failed (some "sandbox lost before finalization completed")
            none)
          db (.updateReservation t .terminationPending (some "sandbox lost; cleanup pending") none)
        else throw e
      | .ok () => finalizeConnected cfg t supervision
  | _, _ => pure ()

def finalize (cfg : Config) (t : TaskId) : Routine Unit :=
  withLock (.settlement t) (finalizeLocked cfg t)

/-! ### The loop -/

/-- One round of `_supervise`, without its handler. -/
def round (cfg : Config) (t : TaskId) : Routine Next := do
  match ← db (.getReservation t) with
  | none => pure .done
  | some reservation =>
    match reservation.phase with
    | .terminationPending =>
      attemptCleanup t
      pure .again
    | .unresolvedCreation => pure .done
    | .finalizing =>
      finalize cfg t
      pure .again
    | .starting => pure .again
    | .running =>
      driveRunning cfg t
      pure .again

/-- One round of `_supervise`. An exception ends the loop. -/
def supervise (cfg : Config) (t : TaskId) : Routine Next :=
  tryCatch (round cfg t) fun e => do
    db (.updateReservation t .running (some ("supervision error: " ++ e.typeName)) none)
    pure .done

/-- The loops to have running: those of the reservations that can be driven. -/
def syncReservedTasks : Routine Unit := do
  let reservations ← db .listReservations
  reservations.forM fun r =>
    match r.phase with
    | .starting | .running | .finalizing => ensureLoop r.taskId
    | .terminationPending | .unresolvedCreation => pure ()

/-! ### Messages -/

def expireSleepingLocked (task : TaskRecord) : Routine Unit := do
  if task.state = .sleeping ∧ task.workspaceExpired = false then
    if task.lastActivity + days 7 ≤ (← now) then
      Lifecycle.expireWorkspace task.id
      db (.expireWorkspace task.id)

def expireSleepingWorkspace (t : TaskId) : Routine Unit :=
  withLock (.workspace t) do
    match ← db (.get t none) with
    | none => pure ()
    | some task => expireSleepingLocked task

/-- The repository of a web task must still be accessible to its owner. -/
def authorizeMessage (cfg : Config) (task : TaskRecord) : Routine Unit := do
  match task.ownerId, task.repository with
  | some owner, some repository =>
    if !cfg.hasAuthorization then
      throw (.runtimeError "GitHub repository authorization unavailable")
    else
      match ← ext (.repositoryResolve owner repository (task.baseRef.getD "")) with
      | .ok _ => pure ()
      | .error (.repositoryAccess text) => throw (.runtimeError text)
      | .error (.valueError text) => throw (.runtimeError text)
      | .error e => throw e
  | _, _ => pure ()

/-- Queue a workspace that is asleep. -/
def wakeWorkspace (t : TaskId) : Routine Unit := do
  match ← db (.get t none) with
  | none => throw (.other "AttributeError" "'NoneType' object has no attribute 'state'")
  | some task => if task.state = .sleeping then db (.queueWorkspaceMessage t)

/-- Accept a new message: the receipt first, then the wake of a parked workspace. -/
def acceptMessage (t : TaskId) (m : MessageId) (content : String) : Routine MessageReceipt := do
  let created ← now
  let accepted : MessageReceipt :=
    { id := m, content, status := .accepted, detail := none, createdAt := created,
      updatedAt := created }
  db (.saveTaskMessageReceipt t accepted)
  db (.touchWorkspace t)
  wakeWorkspace t
  ensureDurable
  ensureLoop t
  pure accepted

def sendMessage (cfg : Config) (t : TaskId) (m : MessageId) (content : String) :
    Routine MessageReceipt := do
  match ← db (.get t none) with
  | none => throw (.keyError ("unknown task " ++ toString t))
  | some task =>
    authorizeMessage cfg task
    withLock (.workspace t) do
      match ← db (.get t none) with
      | none => throw (.other "AttributeError" "'NoneType' object has no attribute 'state'")
      | some task =>
        if task.state.terminal then throw (.runtimeError "task is not accepting messages")
        else
          expireSleepingLocked task
          match ← db (.getTaskMessageReceipt t m) with
          | some existing =>
            if existing.content ≠ content then
              throw (.runtimeError "message id already belongs to another message")
            else
              ensureDurable
              pure existing
          | none => acceptMessage t m content

end Manager

end GgAgent.Backend
