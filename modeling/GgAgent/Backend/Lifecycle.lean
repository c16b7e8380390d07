import GgAgent.Backend.Calls

/-!
`ModalSandboxLifecycle`: create, reconnect, connect, detach, terminate and sync
of the sandbox of a task, and the deletion of its workspace.

The sandbox environment and the resources of a create request are left out; no
modelled function reads them back. The answer of a connect-token request is
reduced to whether its URL uses HTTPS, which is all `SandboxConnection` checks.
-/

namespace GgAgent.Backend

open GgAgent.Lib

/-- The settings that the modelled functions read. -/
structure Config where
  deployment : String
  /-- The name part of `_sandbox_identity`, a digest of deployment and task. -/
  sandboxName : TaskId → String
  capacity : Nat
  admissionEnabled : Bool
  hasVault : Bool
  hasVerifier : Bool
  hasAuthorization : Bool
  /-- The authorization has the private key of the GitHub App. -/
  hasPrivateKey : Bool := true
  maxPromptChars : Nat := 16000
  maxBaseRefChars : Nat := 200
  maxIdempotencyKeyChars : Nat := 256
  /-- The stored text of an event, `truncate_event_json`. -/
  eventPayload : Event → Nat → String
  terminalRetention : Time
  tombstoneRetention : Time

structure SandboxSnapshot where
  taskId : TaskId
  providerId : Option ProviderId
  state : SandboxProviderState
  detail : Option String
  deriving DecidableEq, Repr

namespace Lifecycle

def snapshot (r : SandboxCreationRecord) : SandboxSnapshot :=
  { taskId := r.taskId, providerId := r.providerId, state := r.providerState, detail := r.detail }

/-- The tags of `_sandbox_identity`. -/
def identityTags (cfg : Config) (t : TaskId) : Tags := { deployment := cfg.deployment, taskId := t }

def record (t : TaskId) : Routine SandboxCreationRecord := do
  match ← db (.getSandboxCreation t) with
  | some r => pure r
  | none =>
    throw (.lifecycle .sandboxNotFound ("no sandbox creation intent for task " ++ toString t))

/-- The second half of `_reconnect`: ask for the exit code of a known handle. -/
def pollHandle (t : TaskId) (id : ProviderId) : Routine (SandboxSnapshot × Option ProviderId) := do
  match ← ext (.providerPoll id) with
  | .error e =>
    let updated ← db (.updateSandboxCreation t none .unknown
      (some ("provider status failed: " ++ e.typeName)))
    pure (snapshot updated, some id)
  | .ok none =>
    let updated ← db (.updateSandboxCreation t none .running none)
    pure (snapshot updated, some id)
  | .ok (some code) =>
    let updated ← db (.updateSandboxCreation t none .stopped
      (some ("provider exit code " ++ toString code)))
    pure (snapshot updated, some id)

/-- `_reconnect`: establish the provider state of a recorded identity, by its
stored id or, while none is stored, by its tags. -/
def reconnectRecord (record : SandboxCreationRecord) :
    Routine (SandboxSnapshot × Option ProviderId) := do
  let t := record.taskId
  match record.providerId with
  | some id =>
    match ← ext (.providerFromId id) with
    | .ok () => pollHandle t id
    | .error .providerNotFound =>
      let updated ← db (.updateSandboxCreation t none .stopped
        (some "provider confirmed sandbox absent"))
      pure (snapshot updated, none)
    | .error e =>
      let updated ← db (.updateSandboxCreation t none .unknown
        (some ("provider lookup failed: " ++ e.typeName)))
      pure (snapshot updated, none)
  | none =>
    match ← ext (.providerFind record.tags) with
    | .error e =>
      let updated ← db (.updateSandboxCreation t none .unknown
        (some ("identity discovery failed: " ++ e.typeName)))
      pure (snapshot updated, none)
    | .ok [] =>
      let updated ← db (.updateSandboxCreation t none .stopped
        (some "provider confirmed deterministic identity absent"))
      pure (snapshot updated, none)
    | .ok [id] =>
      let _ ← db (.updateSandboxCreation t (some id) .creating none)
      pollHandle t id
    | .ok _ =>
      let updated ← db (.updateSandboxCreation t none .unknown
        (some "multiple provider sandboxes match deterministic identity"))
      throw (.lifecycle .conflictingSandboxes (updated.detail.getD "conflicting sandboxes"))

def inspect (t : TaskId) : Routine SandboxSnapshot := do
  let (snapshot, _) ← reconnectRecord (← record t)
  pure snapshot

def reconnect (t : TaskId) : Routine SandboxSnapshot := inspect t

/-- `connect`. The connection itself carries nothing the model reads. -/
def connect (t : TaskId) : Routine Unit := do
  let (snapshot, handle) ← reconnectRecord (← record t)
  match snapshot.state, handle with
  | .running, some id =>
    match ← ext (.providerConnectToken id) with
    | .error e =>
      let _ ← db (.updateSandboxCreation t none .unknown
        (some ("connect request failed: " ++ e.typeName)))
      throw (.lifecycle .ambiguousProviderState
        ("sandbox connection for task " ++ toString t ++ " is unreachable"))
    | .ok https =>
      if https then pure ()
      else throw (.lifecycle .plain "Modal connect URL must use encrypted HTTPS")
  | _, _ =>
    throw (.lifecycle .plain ("sandbox for task " ++ toString t ++ " is not confirmed running"))

def detach (t : TaskId) : Routine SandboxSnapshot := do
  let (snapshot, handle) ← reconnectRecord (← record t)
  match handle with
  | none => pure snapshot
  | some id =>
    match ← ext (.providerDetach id) with
    | .ok () => pure snapshot
    | .error e =>
      let _ ← db (.updateSandboxCreation t none .unknown (some ("detach failed: " ++ e.typeName)))
      throw (.lifecycle .ambiguousProviderState
        ("sandbox detach for task " ++ toString t ++ " was unresolved"))

/-- The request of `terminate`, followed by a fresh look at the provider. -/
def terminateHandle (t : TaskId) (id : ProviderId) : Routine SandboxSnapshot := do
  match (← ext (.providerTerminate id)).result with
  | .ok () => inspect t
  | .error e => throw e

def terminate (t : TaskId) : Routine SandboxSnapshot := do
  ensureDurable
  let (snapshot, handle) ← reconnectRecord (← record t)
  if snapshot.state = .stopped then pure snapshot
  else
    match handle with
    | none =>
      throw (.lifecycle .ambiguousProviderState
        ("sandbox termination for task " ++ toString t ++ " cannot be confirmed"))
    | some id =>
      tryCatch (terminateHandle t id) fun e => do
        let _ ← db (.updateSandboxCreation t none .unknown
          (some ("termination response unresolved: " ++ e.typeName)))
        throw (.lifecycle .ambiguousProviderState
          ("Modal termination for task " ++ toString t ++ " was unresolved"))

def sync (t : TaskId) : Routine Unit := do
  ensureDurable
  let (snapshot, handle) ← reconnectRecord (← record t)
  match snapshot.state, handle with
  | .running, some id => ofReply (← ext (.providerSync id))
  | _, _ => throw (.lifecycle .plain "workspace sandbox is not running")

def expireWorkspace (t : TaskId) : Routine Unit := do
  ensureDurable
  ofReply (← ext (.providerDeleteWorkspace t))

/-! ### Creation -/

def credentialUnavailable (text : String) : Exn := .lifecycle .credentialUnavailable text

/-- The personal key of a web task's owner, verified, with its version. -/
def personalCredential (cfg : Config) (task : TaskRecord) : Routine (Option (String × Nat)) := do
  match task.ownerId with
  | none => pure none
  | some owner =>
    if !cfg.hasVault then throw (credentialUnavailable "personal credential vault unavailable")
    else
      match ← ext (.vaultResolve owner) with
      | .error .invalidToken | .error .sqliteError =>
        throw (credentialUnavailable "personal credential vault unavailable")
      | .error e => throw e
      | .ok none => throw (credentialUnavailable "personal OpenRouter key required")
      | .ok (some (personalKey, version)) =>
        if !cfg.hasVerifier then pure (some (personalKey, version))
        else
          match ← ext (.verifyKey personalKey) with
          | .ok () => pure (some (personalKey, version))
          | .error (.httpException status _) =>
            throw (credentialUnavailable
              (if status = 400 then "personal OpenRouter key invalid; update and retry"
               else if status = 429 then "OpenRouter limit reached; retry later"
               else "OpenRouter unavailable; retry later"))
          | .error e => throw e

/-- The repository credential of a web task; its base revision is recorded. -/
def githubCredential (cfg : Config) (task : TaskRecord) : Routine Unit := do
  match task.ownerId, task.repository with
  | some owner, some repository =>
    if !cfg.hasAuthorization then
      throw (credentialUnavailable "GitHub repository authorization unavailable")
    else
      match ← ext (.repositoryCredential owner repository (task.baseRef.getD "")) with
      | .error (.repositoryAccess text) => throw (credentialUnavailable text)
      | .error e => throw e
      | .ok (_, baseSha) =>
        let _ ← db (.recordBaseSha task.id (some baseSha))
  | _, _ => pure ()

/-- Persist the identity of the sandbox to create. -/
def creationIntent (cfg : Config) (t : TaskId) (existing : Option SandboxCreationRecord)
    (credentialVersion : Option Nat) : Routine SandboxCreationRecord := do
  match existing with
  | none =>
    let sessionApiKey ← ext .tokenUrlsafe
    db (.beginSandboxCreation t cfg.deployment (cfg.sandboxName t) (identityTags cfg t)
      sessionApiKey credentialVersion)
  | some _ => db (.setSandboxCredentialVersion t credentialVersion)

/-- The create request itself and what is recorded of its outcome. -/
def requestSandbox (t : TaskId) (record : SandboxCreationRecord) : Routine SandboxSnapshot := do
  let unresolved (e : Exn) : Routine SandboxSnapshot := do
    let _ ← db (.updateSandboxCreation t none .unknown
      (some ("create response unresolved: " ++ e.typeName)))
    throw (.lifecycle .ambiguousProviderState
      ("Modal create response for task " ++ toString t ++ " was unresolved"))
  match ← ext (.providerCreate record.sandboxName record.tags record.sessionApiKey) with
  | .lost _ e => unresolved e
  | .refused e => unresolved e
  | .created id =>
    -- This write is deliberately the first operation after create returns.
    let record ← db (.updateSandboxCreation t (some id) .creating none)
    ensureDurable
    match ← ext (.providerWaitUntilReady id) with
    | .error e =>
      let _ ← db (.updateSandboxCreation t none .unknown
        (some ("startup readiness unresolved: " ++ e.typeName)))
      throw (.lifecycle .ambiguousProviderState
        ("Modal startup for task " ++ toString t ++ " was unresolved"))
    | .ok () =>
      let _ ← db (.updateSandboxCreation t none .running none)
      pure { taskId := t, providerId := record.providerId, state := .running, detail := none }

/-- The part of `create` after absence has been established. -/
def createAbsent (cfg : Config) (task : TaskRecord) (existing : Option SandboxCreationRecord) :
    Routine SandboxSnapshot := do
  let credential ← personalCredential cfg task
  githubCredential cfg task
  let record ← creationIntent cfg task.id existing (credential.map Prod.snd)
  ensureDurable
  requestSandbox task.id record

def create (cfg : Config) (t : TaskId) : Routine SandboxSnapshot := do
  ensureDurable
  match ← db (.get t none) with
  | none => throw (.lifecycle .plain "task not found")
  | some task =>
    match ← db (.getSandboxCreation t) with
    | none => createAbsent cfg task none
    | some existing =>
      let (snapshot, _) ← reconnectRecord existing
      if snapshot.state = .running then pure snapshot
      else if snapshot.state ≠ .stopped then
        throw (.lifecycle .ambiguousProviderState
          ("sandbox creation for task " ++ toString t ++ " is unresolved"))
      else
        db (.resetSandboxForWake t)
        createAbsent cfg task (← db (.getSandboxCreation t))

end Lifecycle

end GgAgent.Backend
