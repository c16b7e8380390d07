import GgAgent.Backend.Manager

/-!
`TaskScheduler`: recovery of reservations against the provider, maintenance, and
admission of queued tasks in order of submission.

The scheduler of a deployment has a supervision manager and storage limits, and
both are taken as present. The fields that only its status report reads (the last
error, the reason admission is blocked) are left out, and `storage.py` decides
about pressure from the disk, so its verdict is an outside answer.
-/

namespace GgAgent.Backend

open GgAgent.Lib
open GgAgent.Lib.Co (attempt)

namespace Scheduler

def terminateReserved (t : TaskId) : Routine Unit := do
  match ← attempt (Lifecycle.terminate t) with
  | .error e =>
    if e.isLifecycle then
      db (.updateReservation t .terminationPending (some ("termination unresolved: " ++ e.text))
        none)
    else throw e
  | .ok snapshot =>
    if snapshot.state = .stopped then db (.releaseReservation t "confirmed_absent")
    else
      db (.updateReservation t .terminationPending
        (some (snapshot.detail.getD "termination is not confirmed")) none)

/-! ### Reconciliation -/

/-- Absence of a sandbox allows another create: no identity was ever stored, or
the reservation is the start of a wake. -/
def createAgain (reservation : ReservationRecord) (creation : SandboxCreationRecord) :
    Routine Bool := do
  if creation.providerId.isNone then pure true
  else if reservation.phase = .starting then
    pure (← db (.getTaskResult reservation.taskId)).isSome
  else pure false

/-- The case of `reconcile` in which the provider has confirmed absence. -/
def reconcileStopped (reservation : ReservationRecord) (creation : SandboxCreationRecord)
    (snapshot : SandboxSnapshot) : Routine Unit := do
  let t := reservation.taskId
  let task? ← db (.get t none)
  if reservation.phase = .terminationPending ∨ task?.any fun task => task.state = .sleeping then
    db (.releaseReservation t "confirmed_absent")
  else if ← createAgain reservation creation then
    db (.updateReservation t .starting none none)
  else
    match ← db (.getSupervision t) with
    | some _ =>
      -- Its Volume survives and a later message can rehydrate it.
      let _ ← db (.finishTask t .sleeping
        (some "workspace VM stopped; send a message to resume") none)
      db (.releaseReservation t "confirmed_absent")
    | none => db (.markSandboxLost t (snapshot.detail.getD "sandbox was confirmed lost"))

/-- The task state that `reconcile` writes beside a running reservation. -/
def adoptedState (phase : ReservationPhase) (task? : Option TaskRecord) : TaskState :=
  if phase = .finalizing then .finalizing
  else
    match task? with
    | some task => if task.state = .idle ∨ task.state = .sleeping then task.state else .running
    | none => .running

/-- The case of `reconcile` in which the provider has confirmed a live sandbox. -/
def reconcileLive (reservation : ReservationRecord) : Routine Unit := do
  let t := reservation.taskId
  if reservation.phase = .terminationPending then terminateReserved t
  else
    let phase := if reservation.phase = .finalizing then .finalizing else .running
    let task? ← db (.get t none)
    db (.updateReservation t phase none (some (adoptedState phase task?)))

/-- One round of the loop of `reconcile`. -/
def reconcileReservation (reservation : ReservationRecord) : Routine Unit := do
  let t := reservation.taskId
  match ← db (.getSandboxCreation t) with
  | none =>
    if reservation.phase = .terminationPending then db (.releaseReservation t "confirmed_absent")
    -- Crash before the provider call: creation is safe to begin.
    else db (.updateReservation t .starting none none)
  | some creation =>
    match ← attempt (Lifecycle.reconnect t) with
    | .error (.lifecycle .conflictingSandboxes text) =>
      db (.updateReservation t .unresolvedCreation
        (some ("conflicting provider identity: " ++ text)) none)
    | .error (.lifecycle _ text) =>
      db (.updateReservation t .unresolvedCreation
        (some ("provider reconciliation failed: " ++ text)) none)
    | .error e => throw e
    | .ok snapshot =>
      match ← db (.getReservation t) with
      | none => pure ()
      | some current =>
        -- An old snapshot is not applied to a newer reservation of the same task.
        if current.reservedAt ≠ reservation.reservedAt then pure ()
        else if snapshot.state = .unknown then
          db (.updateReservation t .unresolvedCreation
            (some (snapshot.detail.getD "provider state is unknown")) none)
        else if snapshot.state = .stopped then reconcileStopped current creation snapshot
        else reconcileLive current

def reconcile : Routine Unit := do
  db .settleSuccessfulTasks
  let reservations ← db .listReservations
  reservations.forM reconcileReservation
  ensureDurable

/-! ### Provisioning -/

def provision (cfg : Config) (t : TaskId) : Routine Unit := do
  ensureDurable
  match ← attempt (Lifecycle.create cfg t) with
  | .error (.lifecycle .credentialUnavailable text) =>
    let _ ← db (.finishTask t .failed (some text) none)
    db (.releaseReservation t "confirmed_absent")
  | .error (.lifecycle .ambiguousProviderState text) =>
    db (.updateReservation t .unresolvedCreation (some text) none)
  | .error (.lifecycle _ text) =>
    db (.updateReservation t .unresolvedCreation (some ("provisioning failed: " ++ text)) none)
  | .error e => throw e
  | .ok snapshot =>
    if snapshot.state = .running then db (.updateReservation t .running none (some .running))
    else
      db (.updateReservation t .unresolvedCreation
        (some (snapshot.detail.getD "provisioning did not establish running")) none)

/-! ### A cycle -/

/-- Delete the workspaces that have slept too long, page by page. -/
def expireWorkspaces (cutoff : Time) : Routine Unit :=
  loop 0 fun afterSeq => do
    match ← db (.sleepingWorkspaceCandidates cutoff afterSeq 200) with
    | [] => pure (.inr ())
    | task :: tasks =>
      (task :: tasks).forM fun task => Manager.expireSleepingWorkspace task.id
      pure (.inl ((task :: tasks).getLast (by simp)).seq)

/-- `run_retention_pass`. -/
def runRetentionPass (cfg : Config) : Routine Unit := do
  let moment ← now
  let _ ← db (.expireTerminalPayloads (moment - cfg.terminalRetention) cfg.tombstoneRetention)
  let _ ← db (.purgeExpiredTombstones (moment - cfg.tombstoneRetention))

/-- The part of a cycle that runs at most once a minute. -/
def maintenance (cfg : Config) : Routine Unit := do
  if ← ext .maintenanceDue then
    expireWorkspaces ((← now) - days 7)
    runRetentionPass cfg

/-- Provision the reservations that crashed before an identity was established.
The answer is whether the scheduler was told to stop meanwhile. -/
def provisionStarting (cfg : Config) : List ReservationRecord → Routine Bool
  | [] => pure false
  | r :: rs => do
    if r.phase ≠ .starting then provisionStarting cfg rs
    else
      provision cfg r.taskId
      if ← stopIsSet then pure true else provisionStarting cfg rs

/-- Fill the free slots in order of submission. -/
def fillSlots (cfg : Config) : Routine Unit :=
  loop () fun () => do
    if ← stopIsSet then pure (.inr ())
    else
      match ← db (.reserveNext cfg.capacity) with
      | none => pure (.inr ())
      | some task =>
        provision cfg task.id
        pure (.inl ())

/-- The part of a cycle that may create sandboxes. -/
def admission (cfg : Config) : Routine Unit := do
  Manager.syncReservedTasks
  if ← provisionStarting cfg (← db .listReservations) then pure ()
  else if (← db .listReservations).any fun r => r.phase = .unresolvedCreation then pure ()
  else if (← db .countQueued) = 0 then pure ()
  else if ← ext .admissionPressure then pure ()
  else fillSlots cfg

def dispatchOnce (cfg : Config) : Routine Unit := do
  ensureDurable
  reconcile
  maintenance cfg
  if !cfg.admissionEnabled then pure ()
  else if ← stopIsSet then pure ()
  else admission cfg

/-! ### Stopping -/

/-- One round of the loop of `stop`. -/
def detachReservation (reservation : ReservationRecord) : Routine Unit := do
  let t := reservation.taskId
  match ← db (.getSandboxCreation t) with
  | none => pure ()
  | some _ =>
    let detached : Routine Unit := do
      let snapshot ← Lifecycle.detach t
      if snapshot.state = .stopped then
        if reservation.phase = .terminationPending then
          db (.releaseReservation t "confirmed_absent")
        else
          db (.markSandboxLost t
            (snapshot.detail.getD "sandbox was confirmed lost during shutdown"))
      else if snapshot.state = .unknown then
        db (.updateReservation t reservation.phase
          (some (snapshot.detail.getD "detach state is unknown")) none)
      else pure ()
    tryCatch detached fun e =>
      if e.isLifecycle then
        db (.updateReservation t reservation.phase (some ("detach unresolved: " ++ e.text)) none)
      else throw e

/-- `stop`, once the running cycle has ended. -/
def stop : Routine Unit := do
  let reservations ← db .listReservations
  reservations.forM detachReservation

end Scheduler

end GgAgent.Backend
