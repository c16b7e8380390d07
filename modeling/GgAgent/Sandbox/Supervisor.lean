import GgAgent.Sandbox.Conversation
import GgAgent.Lib.Pool

/-!
`TaskSupervisorService`: the pipeline of one execution, its failure path, and the recovery
at startup, over the store and the workspace's conversation.

Every call below is one transaction, one subprocess or one wait; a crash can fall between
any two of them. The clock, the subprocesses of git, the timeout of a wait and the answer
of the agent backend to a cancellation come from outside. A pipeline is started by an
admitted request, recovery by the start of the process; routes answer only after recovery
has returned.

`handed` is an observation: the manifests that `save_manifest` has committed for a
pipeline, as they were before redaction.
-/

namespace GgAgent.Sandbox

open GgAgent.Lib
open GgAgent.Lib.Co (attempt)
open GgAgent.Backend (Time TaskExecutionPhase AgentOutcome CheckOutcome)

/-! ### Calls -/

/-- The head, the changed files, the patch, and whether it was truncated. -/
structure GitEvidence where
  headSha : Option String
  changed : List String
  patch : Option String
  patchTruncated : Bool
  deriving DecidableEq, Repr

inductive GitCall
  | isGitDir (repoDir : String)
  | cloneRepository (repository destination githubToken : String)
  | resolveBaseSha (repoDir baseRef : String)
  | headIsFile (repoDir : String)
  | showCurrentBranch (repoDir : String)
  | checkoutTaskBranch (repoDir branch baseSha : String)
  | makeDirectory (repoDir : String)
  | collectGitEvidence (repoDir baseSha : String) (maxPatchBytes : Nat)
  deriving DecidableEq, Repr

def GitCall.Out : GitCall → Type
  | .isGitDir _ | .headIsFile _ => Bool
  | .cloneRepository _ _ _ | .checkoutTaskBranch _ _ _ | .makeDirectory _ => Unit
  | .resolveBaseSha _ _ | .showCurrentBranch _ => String
  | .collectGitEvidence _ _ _ => GitEvidence

inductive Call
  | git (c : GitCall)
  | now
  /-- `_update_phase`. -/
  | updatePhase (record : TaskExecutionRecord) (phase : TaskExecutionPhase)
      (manifestPath outcomeDetail : Option String)
  | saveExecution (record : TaskExecutionRecord)
  /-- `save_manifest(_redact_manifest(manifest, github_token))`. -/
  | saveManifest (manifest : TaskResultManifest) (githubToken : Option String)
  | conversationId
  | getRecord (id : String)
  | setGithubToken (id : String) (token : Option String)
  | createConversation (id workingDir model : String) (token : Option String)
  | sendMessage (id prompt : String)
  | beginRun (id : String)
  /-- `await task` in `run`, under the timeout of `wait_for`. -/
  | awaitRun (i : Nat)
  | loadMeta (id : String)
  /-- `asyncio.to_thread(conversation.cancel)`. -/
  | cancel (id : String)
  /-- `await task` in `cancel`, for the last run of the conversation. -/
  | awaitLatest
  | listNonTerminal
  | loadManifest (executionId : String)
  | stopOrphanProcesses (executionId : String)
  | markReady

def Call.Out : Call → Type
  | .git c => Except Exn c.Out
  | .now => Time
  | .updatePhase _ _ _ _ | .saveExecution _ | .setGithubToken _ _ | .sendMessage _ _
  | .awaitRun _ | .cancel _ | .awaitLatest => Except Exn Unit
  | .saveManifest _ _ => Except Exn String
  | .conversationId => String
  | .getRecord _ | .loadMeta _ => Except Exn ConversationStatus
  | .createConversation _ _ _ _ | .stopOrphanProcesses _ | .markReady => Unit
  | .beginRun _ => Except Exn Nat
  | .listNonTerminal => List TaskExecutionRecord
  | .loadManifest _ => Except Exn TaskResultManifest

abbrev Routine (α : Type) := Co Call.Out Exn α

/-- A call that cannot raise. -/
def ask (c : Call) : Routine (Call.Out c) := ExceptT.lift (Prog.perform c)

/-- The value of a reply, or its exception. -/
def ofReply {α : Type} : Except Exn α → Routine α
  | .ok a => pure a
  | .error e => throw e

def git (c : GitCall) : Routine c.Out := do ofReply (← ask (.git c))

def updatePhase (record : TaskExecutionRecord) (phase : TaskExecutionPhase)
    (manifestPath outcomeDetail : Option String := none) : Routine Unit := do
  ofReply (← ask (.updatePhase record phase manifestPath outcomeDetail))

def saveExecution (record : TaskExecutionRecord) : Routine Unit := do
  ofReply (← ask (.saveExecution record))

/-- `save_manifest(_redact_manifest(manifest, github_token))`. -/
def saveManifest (m : TaskResultManifest) (githubToken : Option String) : Routine String := do
  ofReply (← ask (.saveManifest m githubToken))

/-! ### The conversation service -/

def getRecord (id : String) : Routine ConversationStatus := do ofReply (← ask (.getRecord id))

def setGithubToken (id : String) (token : Option String) : Routine Unit := do
  ofReply (← ask (.setGithubToken id token))

def sendMessage (id prompt : String) : Routine Unit := do ofReply (← ask (.sendMessage id prompt))

def beginRun (id : String) : Routine Nat := do ofReply (← ask (.beginRun id))

def awaitRun (i : Nat) : Routine Unit := do ofReply (← ask (.awaitRun i))

def loadMeta (id : String) : Routine ConversationStatus := do ofReply (← ask (.loadMeta id))

def cancelAgent (id : String) : Routine Unit := do ofReply (← ask (.cancel id))

def awaitLatest : Routine Unit := do ofReply (← ask .awaitLatest)

/-- `ConversationService.run`. -/
def runConversation (id : String) : Routine ConversationStatus := do
  let i ← beginRun id
  awaitRun i
  loadMeta id

/-- `ConversationService.cancel`. -/
def cancelConversation (id : String) : Routine ConversationStatus := do
  cancelAgent id
  awaitLatest
  loadMeta id

/-! ### The agent -/

def repositoryNote : String :=
  "\n\nWork in this checkout and report what you changed. Do not commit, push, or open a " ++
  "pull request unless this message explicitly asks for it. The gh CLI and git are " ++
  "available with a repository-scoped credential."

def outcomeOf : ConversationStatus → AgentOutcome
  | .cancelled => .cancelled
  | .error => .failed
  | .finished => .succeeded
  | .idle | .running => .failed

/-- The first block of `_run_agent`: the conversation is there, or it is created. -/
def openConversation (id workingDir model : String) (githubToken : Option String) :
    Routine Unit := do
  let existing : Routine Unit := do
    let _ ← getRecord id
    setGithubToken id githubToken
  match ← attempt existing with
  | .ok _ => pure ()
  | .error (.conversationNotFound _) => ask (.createConversation id workingDir model githubToken)
  | .error e => throw e

def runAgent (request : StartTaskExecutionRequest) (repoDir id : String)
    (githubToken : Option String) : Routine AgentOutcome := do
  let prompt :=
    if truthy request.repository then request.prompt ++ repositoryNote else request.prompt
  openConversation id repoDir request.model githubToken
  sendMessage id prompt
  match ← attempt (runConversation id) with
  | .ok status => pure (outcomeOf status)
  | .error (.timeout _) => do
    let _ ← cancelConversation id
    pure .timeout
  | .error e => throw e

/-! ### The failure path -/

/-- `if token: detail = detail.replace(token, "[REDACTED]")`. -/
def maskToken (token : Option String) (detail : String) : String :=
  match token with
  | some s => if s = "" then detail else mask s detail
  | none => detail

/-- The keyword arguments of `_finalize_failure`. -/
structure Failure where
  detail : String
  githubToken : Option String
  agentOutcome : AgentOutcome
  repository : Option String
  taskBranch : Option String
  baseRef : Option String
  baseSha : Option String
  conversationId : Option String
  deriving DecidableEq, Repr

/-- The detail that is stored. -/
def Failure.masked (cfg : Settings) (f : Failure) : String :=
  maskToken cfg.githubToken (maskToken f.githubToken f.detail)

/-- The manifest of a failure. -/
def Failure.manifest (cfg : Settings) (record : TaskExecutionRecord) (f : Failure)
    (completedAt : Time) : TaskResultManifest where
  taskId := record.taskId
  executionId := record.executionId
  repository := orElse f.repository record.repository
  taskBranch := orElse f.taskBranch record.taskBranch
  baseRef := orElse f.baseRef record.baseRef
  baseSha := f.baseSha
  agentOutcome := f.agentOutcome
  conversationId := orElse f.conversationId record.conversationId
  outcomeDetail := some (f.masked cfg)
  completedAt := some completedAt

def finalizeFailure (cfg : Settings) (record : TaskExecutionRecord) (f : Failure) :
    Routine Unit := do
  let completedAt ← ask .now
  let reference ← saveManifest (f.manifest cfg record completedAt) f.githubToken
  updatePhase record .failed (some reference) (some (f.masked cfg))

/-! ### The pipeline -/

/-- The local variables that the handlers of `_run_pipeline` read. -/
structure Locals where
  record : TaskExecutionRecord
  baseSha : Option String
  conversationId : Option String
  deriving DecidableEq, Repr

/-- An exception, and the locals when it was raised. -/
structure Raised where
  exn : Exn
  locals : Locals
  deriving DecidableEq, Repr

/-- The statements of the `try` block. -/
abbrev Body (α : Type) := Co Call.Out Raised α

def within {α : Type} (l : Locals) (p : Routine α) : Body α :=
  ExceptT.mk (p.run >>= fun
    | .ok a => Prog.ret (.ok a)
    | .error e => Prog.ret (.error ⟨e, l⟩))

def maxPatchBytes : Nat := 512000

def repoDir (cfg : Settings) (taskId : String) : String := cfg.workspaceDir ++ "/tasks/" ++ taskId

def ensureCloned (dir repository token : String) (l : Locals) : Body Unit := do
  let cloned : Bool ← within l (git (.isGitDir dir))
  if cloned then pure () else within l (git (.cloneRepository repository dir token))

/-- `request.base_sha or resolve_base_sha(...)`. -/
def chooseBaseSha (dir baseRef : String) (requested : Option String) (l : Locals) : Body String :=
  if truthy requested then pure (requested.getD "")
  else within l (git (.resolveBaseSha dir baseRef))

def requireHead (dir : String) (l : Locals) : Body Unit := do
  let complete : Bool ← within l (git (.headIsFile dir))
  if complete then pure () else throw ⟨.gitPrep "checkout is incomplete", l⟩

def ensureBranch (dir taskBranch baseSha : String) (l : Locals) : Body Unit := do
  let branch : String ← within l (git (.showCurrentBranch dir))
  if branch ≠ taskBranch then within l (git (.checkoutTaskBranch dir taskBranch baseSha))
  else pure ()

/-- The checkout of a task with a repository. -/
def prepareRepository (dir repository baseRef taskBranch token : String)
    (requested : Option String) (l : Locals) : Body Locals := do
  ensureCloned dir repository token l
  let baseSha ← chooseBaseSha dir baseRef requested l
  let l := { l with baseSha := some baseSha }
  requireHead dir l
  ensureBranch dir taskBranch baseSha l
  pure l

def prepare (cfg : Settings) (request : StartTaskExecutionRequest) (turnToken : Option String)
    (l : Locals) : Body Locals :=
  let dir := repoDir cfg request.taskId
  if truthy request.repository then
    match request.repository, request.baseRef, request.taskBranch, turnToken with
    | some repository, some baseRef, some taskBranch, some token =>
      prepareRepository dir repository baseRef taskBranch token request.baseSha l
    | _, _, _, _ => throw ⟨.other "AssertionError" "", l⟩
  else do
    within l (git (.makeDirectory dir))
    pure l

def terminalPhase (o : AgentOutcome) : TaskExecutionPhase :=
  if o = .noChanges ∨ o = .succeeded then .completed else .failed

/-- The detail that the pipeline stores with a result. -/
def resultDetail (agent : AgentOutcome) (check : CheckOutcome) : Option String :=
  if agent = .noChanges then some "no_changes"
  else if check = .failed then some "checks_failed"
  else if agent = .failed then some "agent_failed"
  else none

/-- The manifest of a result. -/
def resultManifest (request : StartTaskExecutionRequest) (l : Locals) (evidence : GitEvidence)
    (agentOutcome : AgentOutcome) (completedAt : Time) : TaskResultManifest where
  taskId := request.taskId
  executionId := l.record.executionId
  repository := request.repository
  taskBranch := request.taskBranch
  baseRef := request.baseRef
  baseSha := l.baseSha
  headSha := evidence.headSha
  changedFiles := evidence.changed
  patch := evidence.patch
  patchTruncated := evidence.patchTruncated
  agentOutcome :=
    if truthy request.repository ∧ agentOutcome = .succeeded ∧ evidence.changed = [] then .noChanges
    else agentOutcome
  conversationId := l.conversationId
  completedAt := some completedAt

/-- What git says about the work of the agent. -/
def gatherEvidence (cfg : Settings) (request : StartTaskExecutionRequest) (l : Locals) :
    Body GitEvidence :=
  if truthy request.repository then
    within l (git (.collectGitEvidence (repoDir cfg request.taskId) (l.baseSha.getD "")
      maxPatchBytes))
  else pure ⟨none, [], none, false⟩

/-- From the end of the agent to the terminal phase. -/
def conclude (cfg : Settings) (request : StartTaskExecutionRequest) (turnToken : Option String)
    (agentOutcome : AgentOutcome) (l : Locals) : Body Unit := do
  let evidence ← gatherEvidence cfg request l
  let completedAt ← within l (ask .now)
  let manifest := resultManifest request l evidence agentOutcome completedAt
  let reference ← within l (saveManifest manifest turnToken)
  within l (updatePhase l.record (terminalPhase manifest.agentOutcome) (some reference)
    (resultDetail manifest.agentOutcome manifest.checkOutcome))

/-- The `try` block of `_run_pipeline`. -/
def pipelineBody (cfg : Settings) (request : StartTaskExecutionRequest)
    (record : TaskExecutionRecord) (turnToken : Option String) : Body Unit := do
  let l : Locals := ⟨record, none, none⟩
  within l (updatePhase record .preparing)
  let l ← prepare cfg request turnToken l
  within l (updatePhase record .runningAgent)
  let id ← within l (ask .conversationId)
  let l := { l with conversationId := some id, record := { record with conversationId := some id } }
  within l (saveExecution l.record)
  let agentOutcome ← within l (runAgent request (repoDir cfg request.taskId) id
    (if truthy request.repository then turnToken else none))
  conclude cfg request turnToken agentOutcome l

/-- The `except` clauses of `_run_pipeline`: the outcome of a failure, for the classes that
they list. -/
def Exn.listed : Exn → Option AgentOutcome
  | .timeout _ => some .timeout
  | .gitPrep _ | .agent _ _ | .runtimeError _ | .valueError _ => some .failed
  | _ => none

/-- The arguments with which a handler finalizes. -/
def Raised.failure (request : StartTaskExecutionRequest) (turnToken : Option String) (r : Raised)
    (outcome : AgentOutcome) : Failure where
  detail := r.exn.text
  githubToken := turnToken
  agentOutcome := outcome
  repository := request.repository
  taskBranch := request.taskBranch
  baseRef := request.baseRef
  baseSha := r.locals.baseSha
  conversationId := r.locals.conversationId

/-- The `except` clauses. -/
def handle (cfg : Settings) (request : StartTaskExecutionRequest) (turnToken : Option String)
    (r : Raised) : Routine Unit :=
  match r.exn.listed with
  | some outcome => finalizeFailure cfg r.locals.record (r.failure request turnToken outcome)
  | none => throw r.exn

/-- `_run_pipeline`. -/
def runPipeline (cfg : Settings) (request : StartTaskExecutionRequest)
    (record : TaskExecutionRecord) (githubToken : Option String) : Routine Unit :=
  let turnToken := orElse githubToken cfg.githubToken
  ExceptT.mk ((pipelineBody cfg request record turnToken).run >>= fun
    | .ok a => Prog.ret (.ok a)
    | .error r => (handle cfg request turnToken r).run)

/-! ### Recovery -/

/-- The failure of an execution that was under way when the process ended. -/
def ownershipLost (record : TaskExecutionRecord) : Failure where
  detail := "supervisor ownership lost on process restart"
  githubToken := none
  agentOutcome := .notRun
  repository := record.repository
  taskBranch := record.taskBranch
  baseRef := record.baseRef
  baseSha := none
  conversationId := none

/-- One round of the loop of `startup`. -/
def recover (cfg : Settings) (record : TaskExecutionRecord) : Routine Unit := do
  match ← ask (.loadManifest record.executionId) with
  | .error _ => finalizeFailure cfg record (ownershipLost record)
  | .ok manifest =>
    updatePhase record (terminalPhase manifest.agentOutcome)
      (some (Store.manifestReference cfg record.executionId)) manifest.outcomeDetail
  ask (.stopOrphanProcesses record.executionId)

/-- `startup`, and the end of the lifespan's first part. -/
def startup (cfg : Settings) : Routine Unit := do
  let records ← ask .listNonTerminal
  records.forM (recover cfg)
  ask .markReady

/-! ### The state -/

structure Handed where
  executionId : String
  manifest : TaskResultManifest
  githubToken : Option String
  deriving DecidableEq, Repr

structure State where
  store : Store
  /-- The row `conversation-id` of `sandbox_metadata`. -/
  conversationId : Option String
  talk : Talk
  started : Bool
  ready : Bool
  handed : List Handed

def State.init : State := ⟨⟨.empty, .empty⟩, none, .init, false, false, []⟩

/-- The parties: recovery, and the pipeline of an execution. -/
inductive Pid
  | startup
  | pipeline (executionId : String)
  deriving DecidableEq, Repr

/-- What comes from outside. -/
structure Oracle where
  now : Time
  git : (c : GitCall) → Except Exn c.Out
  /-- A fresh `uuid4()`. -/
  uuid : String
  timesOut : Bool
  backendCancel : Except Exn Unit

/-- The record that `_update_phase` saves. -/
def updated (now : Time) (record : TaskExecutionRecord) (phase : TaskExecutionPhase)
    (manifestPath outcomeDetail : Option String) : TaskExecutionRecord :=
  { record with
    phase := phase
    manifestPath := orElse manifestPath record.manifestPath
    outcomeDetail := orElse outcomeDetail record.outcomeDetail
    updatedAt := now }

/-- `save_execution` on the whole state. -/
def State.saveExecution (record : TaskExecutionRecord) (s : State) : Except Exn Unit × State :=
  let a := s.store.saveExecution record
  (a.1, { s with store := a.2 })

/-- The observation of a manifest that was committed. -/
def Pid.hands (p : Pid) (m : TaskResultManifest) (githubToken : Option String)
    (handed : List Handed) : List Handed :=
  match p with
  | .startup => handed
  | .pipeline id => ⟨id, m, githubToken⟩ :: handed

/-- `save_manifest(_redact_manifest(...))`, observed when a pipeline does it. -/
def State.saveManifest (cfg : Settings) (p : Pid) (m : TaskResultManifest)
    (githubToken : Option String) (s : State) : Except Exn String × State :=
  match redactManifest cfg githubToken m with
  | none => (.error (.valueError "validation error for TaskResultManifest"), s)
  | some m' =>
    match s.store.saveManifest cfg m' with
    | (.error e, _) => (.error e, s)
    | (.ok reference, store) =>
      (.ok reference, { s with store := store, handed := p.hands m githubToken s.handed })

/-- A call on the conversation. -/
def State.onTalk {α : Type} (f : Talk → Except Exn α × Talk) (s : State) :
    Option (Except Exn α × State) :=
  let a := f s.talk
  some (a.1, { s with talk := a.2 })

def State.answer (cfg : Settings) (p : Pid) (o : Oracle) :
    (c : Call) → State → Option (Call.Out c × State)
  | .git c, s => some (o.git c, s)
  | .now, s => some (o.now, s)
  | .updatePhase record phase path detail, s =>
    some (s.saveExecution (updated o.now record phase path detail))
  | .saveExecution record, s => some (s.saveExecution record)
  | .saveManifest m token, s => some (s.saveManifest cfg p m token)
  | .conversationId, s =>
    match s.conversationId with
    | some id => some (id, s)
    | none => some (o.uuid, { s with conversationId := some o.uuid })
  | .getRecord id, s => s.onTalk (Talk.getRecord id)
  | .setGithubToken id _, s => s.onTalk (Talk.setGithubToken id)
  | .createConversation _ _ _ _, s => some ((), { s with talk := s.talk.create })
  | .sendMessage id _, s => s.onTalk (Talk.sendMessage id)
  | .beginRun id, s => s.onTalk (Talk.beginRun id)
  | .awaitRun i, s =>
    if o.timesOut then some (.error (.timeout ""), { s with talk := s.talk.timeOut i })
    else (s.talk.runs[i]?.bind fun r => r.task.await).map fun result => (result, s)
  | .loadMeta _, s =>
    match s.talk.conversation with
    | some c => some (.ok c.status, s)
    | none => some (.error (.other "FileNotFoundError" "missing meta_json"), s)
  | .cancel id, s => s.onTalk (Talk.cancel o.backendCancel id)
  | .awaitLatest, s =>
    match s.talk.runs.getLast? with
    | none => some (.ok (), s)
    | some r => r.task.await.map fun result => (result, s)
  | .listNonTerminal, s => some (s.store.listNonTerminal, s)
  | .loadManifest id, s => some (s.store.loadManifest id, s)
  | .stopOrphanProcesses _, s => some ((), s)
  | .markReady, s => some ((), { s with ready := true })

/-! ### The machine -/

inductive Job
  | startup
  | start (request : StartTaskExecutionRequest) (githubToken : Option String) (now : Time)
  deriving DecidableEq, Repr

/-- The checks of `start` before admission. -/
def acceptable (cfg : Settings) (request : StartTaskExecutionRequest)
    (githubToken : Option String) : Bool :=
  !truthy request.repository ||
    (truthy request.baseRef && truthy request.taskBranch &&
      (orElse githubToken cfg.githubToken).isSome)

/-- The program of a job. A start that does not create its execution leaves everything as
it was and starts nothing. -/
def Job.program (cfg : Settings) :
    Pid → Job → State → Option (Prog Call.Out (Except Exn Unit) × State)
  | .startup, .startup, s =>
    if s.started = false ∧ s.ready = false then
      some ((Sandbox.startup cfg).run, { s with started := true })
    else none
  | .pipeline id, .start request githubToken now, s =>
    if s.ready = true ∧ acceptable cfg request githubToken then
      match s.store.admitOrGet cfg now request with
      | (.ok (record, true), store) =>
        if record.executionId = id then
          some ((runPipeline cfg request record githubToken).run, { s with store := store })
        else none
      | _ => none
    else none
  | _, _, _ => none

inductive Happening
  | talk (e : TalkEvent)
  | crash
  deriving DecidableEq, Repr

/-- What a crash leaves. -/
def State.crashed (s : State) : State :=
  { s with talk := s.talk.lost, started := false, ready := false }

def Happening.apply : Happening → State → Option State
  | .talk e, s =>
    match s.conversationId with
    | some id => (e.apply id s.talk).map fun k => { s with talk := k }
    | none => none
  | .crash, s => some s.crashed

def Happening.kills : Happening → Bool
  | .talk _ => false
  | .crash => true

def supervisor (cfg : Settings) : Machine Pid Call.Out (Except Exn Unit) State where
  Oracle := Oracle
  Job := Job
  Event := Happening
  answer := State.answer cfg
  job := Job.program cfg
  event := Happening.apply
  kills := Happening.kills

abbrev System := Pool Pid Call.Out (Except Exn Unit) State

/-- An empty sandbox in which nothing runs. -/
def System.init : System := ⟨.init, fun _ => none⟩

abbrev Act (cfg : Settings) := (supervisor cfg).Act

end GgAgent.Sandbox
