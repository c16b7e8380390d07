import GgAgent.Backend.System
import GgAgent.Backend.Effects

/-!
Routines that only gather: the lifecycle lookups, credentials, event copies and
the waits for durability. `Call.inert` is the class of their calls. None of them
changes a task's state, a reservation, a receipt, or the keys and the cancel flag
of a supervision row, and none reads one of these back to the program.
-/

namespace GgAgent.Backend

open GgAgent.Lib
open GgAgent.Lib.Co (Makes attempt)

def LedgerCall.inert : LedgerCall → Bool
  | .countQueued | .sleepingWorkspaceCandidates _ _ _ | .recordBaseSha _ _
  | .beginSandboxCreation _ _ _ _ _ _ | .getSandboxCreation _ | .setSandboxCredentialVersion _ _
  | .updateSandboxCreation _ _ _ _ | .resetSandboxForWake _ | .beginPublication _ _ _ _ _ _ _ _
  | .updateSupervision _ none none _ none _ | .eventSourceCursor _ _ | .copyTaskEventPage _ _ _ _
  | .getTaskMessageReceipt _ _ | .listAcceptedTaskMessages _ | .archiveTaskResult _ _ _ _ _
  | .getTaskResult _ | .expireWorkspace _ | .touchWorkspace _ | .revision => true
  | _ => false

def ExtCall.inert : ExtCall → Bool
  | .providerCreate _ _ _ | .startExecution _ _ => false
  | _ => true

def Call.inert : Call → Bool
  | .db c => c.inert
  | .ext c => c.inert
  | .now | .stopIsSet | .awaitConfirmed _ | .never => true
  | _ => false

/-- The routine makes inert calls only. -/
def Inert {α : Type} (r : Routine α) : Prop := Makes (fun c => c.inert = true) r

section Rules

variable {S : Call → Prop} {α β : Type}

theorem makes_db {c : LedgerCall} (h : S (.db c)) : Makes S (db c) := ⟨h, fun _ => trivial⟩

theorem makes_ext {c : ExtCall} (h : S (.ext c)) : Makes S (ext c) := ⟨h, fun _ => trivial⟩

theorem makes_ofReply (r : Except Exn α) : Makes S (ofReply r) := trivial

theorem makes_now (h : S .now) : Makes S now := ⟨h, fun _ => trivial⟩

theorem makes_stopIsSet (h : S .stopIsSet) : Makes S stopIsSet := ⟨h, fun _ => trivial⟩

theorem makes_ensureLoop {t : TaskId} (h : S (.ensureLoop t)) : Makes S (ensureLoop t) :=
  ⟨h, fun _ => trivial⟩

theorem makes_ensureDurable (h : S (.db .revision)) (h' : ∀ r, S (.awaitConfirmed r)) :
    Makes S ensureDurable :=
  Makes.bind (makes_db h) fun r => ⟨h' r, fun _ => trivial⟩

theorem makes_loop {a : α} {body : α → Routine (α ⊕ β)} (hr : S (.ext .rounds)) (hn : S .never)
    (hb : ∀ a, Makes S (body a)) : Makes S (loop a body) := by
  refine Makes.bind (makes_ext hr) fun n => ?_
  induction n generalizing a with
  | zero => exact ⟨hn, fun r => by cases r⟩
  | succ n ih =>
      refine Makes.bind (hb a) fun r => ?_
      cases r with
      | inl a => exact ih
      | inr b => trivial

theorem makes_withLock {l : Lock} {body : Routine α} (ha : S (.acquire l)) (hr : S (.release l))
    (hb : Makes S body) : Makes S (withLock l body) := by
  refine Makes.bind ⟨ha, fun _ => trivial⟩ fun _ => ?_
  refine Makes.bind hb.attempt fun r => ?_
  refine Makes.bind ⟨hr, fun _ => trivial⟩ fun _ => ?_
  cases r with
  | ok a => trivial
  | error e => trivial

end Rules

/-! ### Lifecycle -/

namespace Lifecycle

variable (t : TaskId)

theorem inert_ensureDurable : Inert ensureDurable := makes_ensureDurable rfl fun _ => rfl

theorem inert_record : Inert (record t) := by
  refine Makes.bind (makes_db rfl) fun r => ?_
  cases r with
  | none => trivial
  | some r => trivial

theorem inert_pollHandle (id : ProviderId) : Inert (pollHandle t id) := by
  refine Makes.bind (makes_ext rfl) fun r => ?_
  split
  all_goals exact Makes.bind (makes_db rfl) fun _ => trivial

theorem inert_reconnectRecord (r : SandboxCreationRecord) : Inert (reconnectRecord r) := by
  unfold reconnectRecord
  dsimp only
  split
  · refine Makes.bind (makes_ext rfl) fun a => ?_
    split
    · exact inert_pollHandle _ _
    · exact Makes.bind (makes_db rfl) fun _ => trivial
    · exact Makes.bind (makes_db rfl) fun _ => trivial
  · refine Makes.bind (makes_ext rfl) fun a => ?_
    split
    · exact Makes.bind (makes_db rfl) fun _ => trivial
    · exact Makes.bind (makes_db rfl) fun _ => trivial
    · exact Makes.bind (makes_db rfl) fun _ => inert_pollHandle _ _
    · exact Makes.bind (makes_db rfl) fun _ => trivial

theorem inert_inspect : Inert (inspect t) :=
  Makes.bind (inert_record t) fun r => Makes.bind (inert_reconnectRecord r) fun _ => trivial

theorem inert_connect : Inert (connect t) := by
  refine Makes.bind (inert_record t) fun r => Makes.bind (inert_reconnectRecord r) fun a => ?_
  dsimp only
  split
  · refine Makes.bind (makes_ext rfl) fun b => ?_
    split
    · exact Makes.bind (makes_db rfl) fun _ => trivial
    · split <;> trivial
  · trivial

theorem inert_detach : Inert (detach t) := by
  refine Makes.bind (inert_record t) fun r => Makes.bind (inert_reconnectRecord r) fun a => ?_
  dsimp only
  split
  · trivial
  · refine Makes.bind (makes_ext rfl) fun b => ?_
    split
    · trivial
    · exact Makes.bind (makes_db rfl) fun _ => trivial

theorem inert_terminateHandle (id : ProviderId) : Inert (terminateHandle t id) := by
  refine Makes.bind (makes_ext rfl) fun r => ?_
  split
  · exact inert_inspect t
  · trivial

theorem inert_terminate : Inert (terminate t) := by
  refine Makes.bind inert_ensureDurable fun _ => Makes.bind (inert_record t) fun r =>
    Makes.bind (inert_reconnectRecord r) fun a => ?_
  dsimp only
  split
  · trivial
  · split
    · trivial
    · exact Makes.tryCatch (inert_terminateHandle t _) fun e =>
        Makes.bind (makes_db rfl) fun _ => trivial

theorem inert_sync : Inert (sync t) := by
  refine Makes.bind inert_ensureDurable fun _ => Makes.bind (inert_record t) fun r =>
    Makes.bind (inert_reconnectRecord r) fun a => ?_
  dsimp only
  split
  · exact Makes.bind (makes_ext rfl) fun r => makes_ofReply r
  · trivial

theorem inert_expireWorkspace : Inert (expireWorkspace t) :=
  Makes.bind inert_ensureDurable fun _ => Makes.bind (makes_ext rfl) fun r => makes_ofReply r

theorem makes_personalCredential {S : Call → Prop} (cfg : Config) (task : TaskRecord)
    (hvault : ∀ owner, S (.ext (.vaultResolve owner))) (hkey : ∀ key, S (.ext (.verifyKey key))) :
    Makes S (personalCredential cfg task) := by
  unfold personalCredential
  split
  · trivial
  · split
    · trivial
    · refine Makes.bind (makes_ext (hvault _)) fun r => ?_
      split
      · trivial
      · trivial
      · trivial
      · trivial
      · split
        · trivial
        · refine Makes.bind (makes_ext (hkey _)) fun b => ?_
          split <;> trivial

theorem inert_personalCredential (cfg : Config) (task : TaskRecord) :
    Inert (personalCredential cfg task) :=
  makes_personalCredential cfg task (fun _ => rfl) fun _ => rfl

theorem makes_githubCredential {S : Call → Prop} (cfg : Config) (task : TaskRecord)
    (hcred : ∀ o r b, S (.ext (.repositoryCredential o r b)))
    (hsha : ∀ sha, S (.db (.recordBaseSha task.id sha))) : Makes S (githubCredential cfg task) := by
  unfold githubCredential
  split
  · split
    · trivial
    · refine Makes.bind (makes_ext (hcred _ _ _)) fun r => ?_
      split
      · trivial
      · trivial
      · exact Makes.bind (makes_db (hsha _)) fun _ => trivial
  · trivial

theorem inert_githubCredential (cfg : Config) (task : TaskRecord) :
    Inert (githubCredential cfg task) :=
  makes_githubCredential cfg task (fun _ _ _ => rfl) fun _ => rfl

theorem makes_creationIntent {S : Call → Prop} (cfg : Config)
    (existing : Option SandboxCreationRecord) (version : Option Nat)
    (htoken : S (.ext .tokenUrlsafe))
    (hbegin : ∀ n g k, S (.db (.beginSandboxCreation t cfg.deployment n g k version)))
    (hset : S (.db (.setSandboxCredentialVersion t version))) :
    Makes S (creationIntent cfg t existing version) := by
  unfold creationIntent
  split
  · exact Makes.bind (makes_ext htoken) fun _ => makes_db (hbegin _ _ _)
  · exact makes_db hset

theorem inert_creationIntent (cfg : Config) (existing : Option SandboxCreationRecord)
    (version : Option Nat) : Inert (creationIntent cfg t existing version) :=
  makes_creationIntent t cfg existing version rfl (fun _ _ _ => rfl) rfl

end Lifecycle

/-! ### Supervision -/

namespace Manager

variable (cfg : Config) (t : TaskId)

theorem makes_freshGithubToken {S : Call → Prop} (task : TaskRecord)
    (hcred : ∀ o r b, S (.ext (.repositoryCredential o r b))) :
    Makes S (freshGithubToken cfg task) := by
  unfold freshGithubToken
  split
  · split
    · trivial
    · exact Makes.bind (makes_ext (hcred _ _ _)) fun r =>
        Makes.bind (makes_ofReply r) fun _ => trivial
  · trivial

theorem inert_freshGithubToken (task : TaskRecord) : Inert (freshGithubToken cfg task) :=
  makes_freshGithubToken cfg task fun _ _ _ => rfl

theorem makes_authorizeExecution {S : Call → Prop} (task : TaskRecord) (branch : String)
    (hbegin : ∀ r b, S (.db (.beginPublication task.id r branch b task.id none .notRun .notRun)))
    (hdurable : Makes S ensureDurable) : Makes S (authorizeExecution task branch) := by
  unfold authorizeExecution
  split
  · exact Makes.bind (makes_db (hbegin _ _)) fun _ => hdurable
  · exact hdurable

theorem inert_authorizeExecution (task : TaskRecord) (branch : String) :
    Inert (authorizeExecution task branch) :=
  makes_authorizeExecution task branch (fun _ _ => rfl) Lifecycle.inert_ensureDurable

theorem inert_refreshSupervision (row : SupervisionRecord) : Inert (refreshSupervision t row) := by
  refine Makes.bind (makes_ext rfl) fun r => ?_
  split
  · split <;> trivial
  · split
    · trivial
    · exact makes_db rfl

theorem inert_syncEvents (conversation : ConversationId) :
    Inert (syncEvents cfg t conversation) := by
  refine Makes.bind (makes_db rfl) fun after => makes_loop rfl rfl fun a => ?_
  refine Makes.bind (makes_ext rfl) fun r => Makes.bind (makes_ofReply r) fun page => ?_
  split
  · trivial
  · trivial
  · split
    · trivial
    · refine Makes.bind (makes_db rfl) fun _ => ?_
      split <;> trivial

theorem inert_cancelConversation (row : SupervisionRecord) : Inert (cancelConversation t row) := by
  unfold cancelConversation
  split
  · exact Makes.bind (makes_ext rfl) fun r => makes_ofReply r
  · trivial

theorem inert_syncConversation (row : SupervisionRecord) {handler : Routine Unit}
    (hh : Inert handler) : Inert (syncConversation cfg t row handler) := by
  unfold syncConversation
  split
  · refine Makes.tryCatch (inert_syncEvents cfg t _) fun e => ?_
    split
    · exact hh
    · trivial
  · trivial

theorem inert_putToSleep : Inert (putToSleep t) := by
  refine Makes.bind (Lifecycle.inert_sync t) fun _ => ?_
  refine Makes.bind (Lifecycle.inert_terminate t) fun snapshot => ?_
  split <;> trivial

theorem inert_expireSleepingLocked (task : TaskRecord) : Inert (expireSleepingLocked task) := by
  unfold expireSleepingLocked
  split
  · refine Makes.bind (makes_now rfl) fun moment => ?_
    split
    · exact Makes.bind (Lifecycle.inert_expireWorkspace _) fun _ => makes_db rfl
    · trivial
  · trivial

theorem inert_authorizeMessage (task : TaskRecord) : Inert (authorizeMessage cfg task) := by
  unfold authorizeMessage
  split
  · split
    · trivial
    · refine Makes.bind (makes_ext rfl) fun r => ?_
      split <;> trivial
  · trivial

end Manager

/-! ### The other calls of the loop's routines -/

theorem Inert.makes {S : Call → Prop} {α : Type} {r : Routine α} (hr : Inert r)
    (hS : ∀ c, c.inert = true → S c) : Makes S r := hr.mono hS

namespace Manager

/-- The calls of `_attempt_cleanup`. -/
def cleanupCall (t : TaskId) (c : Call) : Bool :=
  c.inert ||
    match c with
    | .db (.releaseReservation t' s) => t' = t && s = "confirmed_absent"
    | .db (.updateReservation t' .terminationPending _ none) => t' = t
    | _ => false

/-- The calls of `_fail_execution_start`. -/
def failCall (t : TaskId) (c : Call) : Bool :=
  cleanupCall t c ||
    match c with
    | .db (.finishTask t' .failed _ _) => t' = t
    | _ => false

/-- The calls that keep book of an execution. -/
def recordCall (t : TaskId) (c : Call) : Bool :=
  c.inert ||
    match c with
    | .db (.get t' _) | .db (.getReservation t') | .db (.getSupervision t')
    | .db (.updateSupervision t' _ _ _ none none) | .db (.updateReservation t' .running _ none)
    | .db (.finishTask t' .running none none) => t' = t
    | .db (.beginSupervision t' e _ k) => t' = t && e = .key (.task t) && k = .task t
    | _ => false

/-- The calls that settle a message. -/
def saveCall (t : TaskId) (c : Call) : Bool :=
  match c with
  | .db (.saveTaskMessageReceipt t' r) => t' = t && (r.status = .failed || r.status = .delivered)
  | _ => false

/-- The start requests of `t`. -/
def sendCall (t : TaskId) (c : Call) : Bool :=
  match c with
  | .ext (.startExecution request _) => request.taskId = t && request.startKey.taskId = t
  | _ => false

/-- The calls that deliver a message. -/
def followupCall (t : TaskId) (c : Call) : Bool := recordCall t c || saveCall t c || sendCall t c

/-- The calls that start an execution or deliver a message. -/
def startCall (t : TaskId) (c : Call) : Bool := followupCall t c || failCall t c

/-- The calls of `_sleep_workspace`. -/
def sleepCall (t : TaskId) (c : Call) : Bool :=
  c.inert ||
    match c with
    | .db (.get t' _) | .db (.tryMarkSleeping t') | .db (.finishTask t' .idle none none) => t' = t
    | .db (.releaseReservation t' s) => t' = t && s = "confirmed_absent"
    | .acquire l | .release l => l = .workspace t
    | _ => false

/-- The other calls of the loop: it follows an execution, settles it, or puts the
workspace to sleep. -/
def driveCall (t : TaskId) (c : Call) : Bool :=
  recordCall t c || failCall t c ||
    match c with
    | .db (.updateReservation t' .running _ (some .running))
    | .db (.updateReservation t' .running _ (some .idle))
    | .db (.updateReservation t' .finalizing _ (some .finalizing)) | .db (.tryMarkSleeping t') =>
      t' = t
    | .db (.finishTask t' st _ _) => t' = t && (st = .idle || st = .cancelled)
    | _ => false

/-- The locks of the loop. -/
def lockCall (t : TaskId) (c : Call) : Bool :=
  match c with
  | .acquire l | .release l => l = .workspace t || l = .settlement t
  | _ => false

/-- The calls of the supervision loop of `t`. -/
def loopCall (t : TaskId) (c : Call) : Bool :=
  startCall t c || driveCall t c || lockCall t c || c matches .exitLoop _

variable (cfg : Config) (t : TaskId)

theorem cleanupCall_of_inert {c : Call} (hc : c.inert = true) : cleanupCall t c = true := by
  simp [cleanupCall, hc]

theorem failCall_of_cleanupCall {c : Call} (hc : cleanupCall t c = true) : failCall t c = true := by
  simp [failCall, hc]

theorem recordCall_of_inert {c : Call} (hc : c.inert = true) : recordCall t c = true := by
  simp [recordCall, hc]

theorem followupCall_of_recordCall {c : Call} (hc : recordCall t c = true) :
    followupCall t c = true := by
  simp [followupCall, hc]

theorem followupCall_of_inert {c : Call} (hc : c.inert = true) : followupCall t c = true :=
  followupCall_of_recordCall t (recordCall_of_inert t hc)

theorem startCall_of_followupCall {c : Call} (hc : followupCall t c = true) :
    startCall t c = true := by
  simp [startCall, hc]

theorem startCall_of_failCall {c : Call} (hc : failCall t c = true) : startCall t c = true := by
  simp [startCall, hc]

theorem makes_attemptCleanup : Makes (fun c => cleanupCall t c = true) (attemptCleanup t) := by
  refine Makes.bind ((Lifecycle.inert_terminate t).makes fun _ => cleanupCall_of_inert t).attempt
    fun r => ?_
  split
  · split
    · exact makes_db (by simp [cleanupCall])
    · trivial
  · split
    · exact makes_db (by simp [cleanupCall])
    · exact makes_db (by simp [cleanupCall])

theorem makes_failExecutionStart (detail : String) :
    Makes (fun c => failCall t c = true) (failExecutionStart t detail) := by
  refine Makes.bind (makes_db (by simp [failCall])) fun _ => ?_
  refine Makes.bind (makes_db (by simp [failCall, cleanupCall])) fun _ => ?_
  refine Makes.bind (Lifecycle.inert_ensureDurable.makes fun c hc =>
    failCall_of_cleanupCall t (cleanupCall_of_inert t hc)) fun _ => ?_
  exact (makes_attemptCleanup t).mono fun c hc => failCall_of_cleanupCall t hc

theorem inert_followup {α : Type} {r : Routine α} (hr : Inert r) :
    Makes (fun c => followupCall t c = true) r :=
  hr.makes fun _ hc => followupCall_of_inert t hc

theorem makes_bindFollowup (row : SupervisionRecord) (k : StartKey) :
    Makes (fun c => recordCall t c = true) (bindFollowup t row k) := by
  unfold bindFollowup
  split
  · exact makes_db (by simp [recordCall])
  · trivial

theorem makes_deliverFollowup (task : TaskRecord) (receipt : MessageReceipt)
    (row : SupervisionRecord) (token : Option String) :
    Makes (fun c => followupCall t c = true) (deliverFollowup t task receipt row token) := by
  refine Makes.bind (makes_now rfl) fun moment => ?_
  refine Makes.bind (inert_followup t (inert_authorizeExecution task _)) fun _ => ?_
  refine Makes.bind (makes_ext (by simp [followupCall, sendCall, StartKey.taskId])) fun reply => ?_
  refine Makes.bind (makes_ofReply reply) fun record => ?_
  refine Makes.bind (makes_now rfl) fun moment => ?_
  refine Makes.bind (makes_db (by simp [followupCall, recordCall, saveCall])) fun _ => ?_
  refine Makes.bind (makes_db (by simp [followupCall, recordCall, saveCall])) fun _ => ?_
  exact Makes.bind (makes_db (by simp [followupCall, recordCall, saveCall])) fun _ => trivial

theorem makes_startFollowup (receipt : MessageReceipt) :
    Makes (fun c => followupCall t c = true) (startFollowup cfg t receipt) := by
  refine Makes.bind (makes_db (by simp [followupCall, recordCall, saveCall])) fun task? => ?_
  refine Makes.bind (makes_db (by simp [followupCall, recordCall, saveCall])) fun supervision? => ?_
  split
  next task supervision =>
    refine Makes.bind (inert_followup t (inert_freshGithubToken cfg task)).attempt fun token => ?_
    split
    · refine Makes.bind (makes_now rfl) fun moment => ?_
      refine Makes.bind (makes_db (by simp [followupCall, recordCall, saveCall])) fun _ => ?_
      exact makes_db (by simp [followupCall, recordCall, saveCall])
    · trivial
    · exact Makes.bind ((makes_bindFollowup t _ _).mono fun _ hc => followupCall_of_recordCall t hc)
        fun row => makes_deliverFollowup t _ _ _ _
  next => trivial

theorem makes_startDeadline (task : TaskRecord) :
    Makes (fun c => recordCall t c = true) (startDeadline t task) := by
  refine Makes.bind (makes_db (by simp [recordCall])) fun r => ?_
  split
  · trivial
  · exact Makes.bind (makes_now rfl) fun _ => trivial

theorem makes_startAccepted (task : TaskRecord) (record : TaskExecutionRecord) :
    Makes (fun c => recordCall t c = true) (startAccepted t task record) := by
  refine Makes.bind (makes_db (by simp [recordCall])) fun _ => ?_
  refine Makes.bind ?_ fun _ => makes_db (by simp [recordCall])
  split
  · refine Makes.bind (makes_ext rfl) fun r => ?_
    split
    · exact Makes.bind (makes_db rfl) fun _ => trivial
    · split <;> trivial
  · trivial

theorem startCall_of_recordCall {c : Call} (hc : recordCall t c = true) : startCall t c = true :=
  startCall_of_followupCall t (followupCall_of_recordCall t hc)

/-- The calls of a start that has failed. -/
def raisedCall (t : TaskId) (c : Call) : Bool := recordCall t c || failCall t c

theorem startCall_of_raisedCall {c : Call} (hc : raisedCall t c = true) : startCall t c = true := by
  rcases Bool.or_eq_true_iff.mp hc with h | h
  · exact startCall_of_recordCall t h
  · exact startCall_of_failCall t h

theorem driveCall_of_recordCall {c : Call} (hc : recordCall t c = true) : driveCall t c = true := by
  simp [driveCall, hc]

theorem driveCall_of_failCall {c : Call} (hc : failCall t c = true) : driveCall t c = true := by
  simp [driveCall, hc]

theorem driveCall_of_raisedCall {c : Call} (hc : raisedCall t c = true) : driveCall t c = true := by
  rcases Bool.or_eq_true_iff.mp hc with h | h
  · exact driveCall_of_recordCall t h
  · exact driveCall_of_failCall t h

theorem makes_startRaised (e : Exn) :
    Makes (fun c => raisedCall t c = true) (startRaised t e) := by
  have hfail : ∀ detail, Makes (fun c => raisedCall t c = true) (failExecutionStart t detail) :=
    fun detail => (makes_failExecutionStart t detail).mono fun c hc => by simp [raisedCall, hc]
  unfold startRaised
  split
  · exact Makes.bind (hfail _) fun _ => trivial
  · split
    · trivial
    · split
      · exact Makes.bind (hfail _) fun _ => trivial
      · exact Makes.bind (makes_db (by simp [raisedCall, recordCall])) fun _ => trivial

theorem inert_start {α : Type} {r : Routine α} (hr : Inert r) :
    Makes (fun c => startCall t c = true) r :=
  hr.makes fun _ hc => startCall_of_followupCall t (followupCall_of_inert t hc)

theorem makes_startExecutionCall (task : TaskRecord) (start : StartTaskExecutionRequest)
    (ht : start.taskId = t) (hk : start.startKey = .task t) :
    Makes (fun c => startCall t c = true) (startExecutionCall cfg task start) := by
  refine Makes.bind (inert_start t (inert_freshGithubToken cfg task)) fun token => ?_
  refine Makes.bind (makes_ext ?_) fun r => makes_ofReply r
  simp [startCall, followupCall, sendCall, ht, hk, StartKey.taskId]

theorem makes_startExecution (task : TaskRecord) :
    Makes (fun c => startCall t c = true) (startExecution cfg t task) := by
  refine Makes.bind ((makes_startDeadline t task).mono fun _ hc => startCall_of_recordCall t hc)
    fun deadline => ?_
  refine Makes.bind (makes_now rfl) fun moment => ?_
  dsimp only
  split
  · exact Makes.bind ((makes_failExecutionStart t _).mono fun c hc => startCall_of_failCall t hc)
      fun _ => trivial
  · refine Makes.bind (makes_db (by simp [startCall, followupCall, recordCall])) fun _ => ?_
    refine Makes.bind (inert_start t (inert_authorizeExecution task _)) fun _ => ?_
    refine Makes.bind (makes_startExecutionCall cfg t task _ rfl rfl).attempt fun r => ?_
    split
    · exact (makes_startRaised t _).mono fun _ hc => startCall_of_raisedCall t hc
    · exact (makes_startAccepted t task _).mono fun _ hc => startCall_of_recordCall t hc

theorem makes_followupSupervision (receipt : MessageReceipt) :
    Makes (fun c => startCall t c = true) (followupSupervision cfg t receipt) := by
  refine Makes.bind ((makes_startFollowup cfg t receipt).mono fun c hc =>
    startCall_of_followupCall t hc) fun _ => ?_
  exact makes_db (by simp [startCall, followupCall, recordCall])

theorem makes_currentSupervision (task : TaskRecord) :
    Makes (fun c => startCall t c = true) (currentSupervision cfg t task) := by
  refine Makes.bind (makes_db (by simp [startCall, followupCall, recordCall])) fun row? => ?_
  split
  · exact makes_startExecution cfg t task
  · split
    · exact makes_startExecution cfg t task
    · split
      · split
        · trivial
        · refine Makes.bind (makes_db rfl) fun receipt? => ?_
          split
          · trivial
          · exact makes_followupSupervision cfg t _
      · refine Makes.bind (makes_ext rfl) fun r => ?_
        split
        · trivial
        · refine Makes.bind (makes_db rfl) fun pending => ?_
          split
          · trivial
          · exact makes_followupSupervision cfg t _
        · trivial

theorem makes_ensureExecutionStarted :
    Makes (fun c => startCall t c = true) (ensureExecutionStarted cfg t) := by
  refine Makes.bind (makes_db (by simp [startCall, followupCall, recordCall])) fun task? => ?_
  split
  · trivial
  · refine Makes.bind (makes_currentSupervision cfg t _) fun row? => ?_
    split
    · trivial
    · exact Makes.bind (inert_start t (inert_refreshSupervision t _)) fun _ => trivial

theorem loopCall_of_startCall {c : Call} (hc : startCall t c = true) : loopCall t c = true := by
  simp [loopCall, hc]

theorem loopCall_of_driveCall {c : Call} (hc : driveCall t c = true) : loopCall t c = true := by
  simp [loopCall, hc]

theorem inert_drive {α : Type} {r : Routine α} (hr : Inert r) :
    Makes (fun c => driveCall t c = true) r :=
  hr.makes fun _ hc => driveCall_of_recordCall t (recordCall_of_inert t hc)

theorem inert_loop {α : Type} {r : Routine α} (hr : Inert r) :
    Makes (fun c => loopCall t c = true) r :=
  (inert_start t hr).mono fun _ hc => loopCall_of_startCall t hc

theorem makes_drive_attemptCleanup :
    Makes (fun c => driveCall t c = true) (attemptCleanup t) :=
  (makes_attemptCleanup t).mono fun _ hc => driveCall_of_failCall t (failCall_of_cleanupCall t hc)

theorem makes_cancelExecution (row : SupervisionRecord) :
    Makes (fun c => driveCall t c = true) (cancelExecution t row) := by
  refine Makes.bind (inert_drive t Lifecycle.inert_ensureDurable) fun _ => ?_
  refine Makes.bind (inert_drive t (inert_cancelConversation t row)) fun _ => ?_
  refine Makes.bind (makes_ext rfl) fun r => Makes.bind (makes_ofReply r) fun record => ?_
  split
  · exact makes_db (by simp [driveCall])
  · trivial

theorem loopCall_of_sleepCall {c : Call} (hc : sleepCall t c = true) : loopCall t c = true := by
  unfold sleepCall at hc
  rcases Bool.or_eq_true_iff.mp hc with h | h
  · exact loopCall_of_driveCall t (driveCall_of_recordCall t (recordCall_of_inert t h))
  · split at h <;> simp_all [loopCall, driveCall, lockCall, recordCall, failCall, cleanupCall]

theorem inert_sleep {α : Type} {r : Routine α} (hr : Inert r) :
    Makes (fun c => sleepCall t c = true) r :=
  hr.makes fun _ hc => by simp [sleepCall, hc]

theorem makes_sleepFailed (e : Exn) : Makes (fun c => sleepCall t c = true) (sleepFailed t e) := by
  refine Makes.bind (makes_db (by simp [sleepCall])) fun task? => ?_
  split
  · trivial
  · split
    · exact Makes.bind (makes_db (by simp [sleepCall])) fun _ => trivial
    · trivial

theorem makes_sleepWorkspace : Makes (fun c => sleepCall t c = true) (sleepWorkspace t) := by
  refine makes_withLock (by simp [sleepCall]) (by simp [sleepCall]) ?_
  refine Makes.bind (makes_db (by simp [sleepCall])) fun marked => ?_
  split
  · refine Makes.bind (Makes.tryCatch (inert_sleep t (inert_putToSleep t)) (makes_sleepFailed t))
      fun _ => ?_
    exact makes_db (by simp [sleepCall])
  · trivial

theorem makes_loop_startFollowup (receipt : MessageReceipt) :
    Makes (fun c => loopCall t c = true) (startFollowup cfg t receipt) :=
  (makes_startFollowup cfg t receipt).mono fun _ hc =>
    loopCall_of_startCall t (startCall_of_followupCall t hc)

theorem makes_driveFinished (task : TaskRecord) (execution : Nat) :
    Makes (fun c => loopCall t c = true) (driveFinished cfg t task execution) := by
  refine Makes.bind (makes_db rfl) fun archive => ?_
  split
  · refine Makes.bind (makes_db rfl) fun pending => ?_
    split
    · exact makes_loop_startFollowup cfg t _
    · split
      · refine Makes.bind (makes_now rfl) fun moment => ?_
        split
        · exact (makes_sleepWorkspace t).mono fun _ hc =>
            loopCall_of_sleepCall t hc
        · trivial
      · trivial
  · exact makes_db (by simp [loopCall, driveCall])

theorem makes_driveExecution (task : TaskRecord) (row : SupervisionRecord) :
    Makes (fun c => loopCall t c = true) (driveExecution cfg t task row) := by
  refine Makes.bind (inert_loop t (inert_syncConversation cfg t row trivial)) fun _ => ?_
  refine Makes.bind (makes_ext rfl) fun r => Makes.bind (makes_ofReply r) fun execution => ?_
  refine Makes.bind ?_ fun execution => ?_
  · unfold honourCancel
    split
    · refine Makes.bind ((makes_cancelExecution t row).mono fun _ hc =>
        loopCall_of_driveCall t hc) fun _ => ?_
      exact Makes.bind (makes_ext rfl) fun r => makes_ofReply r
    · trivial
  · split
    · exact makes_driveFinished cfg t task _
    · trivial

theorem makes_driveRunning : Makes (fun c => loopCall t c = true) (driveRunning cfg t) := by
  refine Makes.bind (makes_db (by simp [loopCall, startCall, followupCall, recordCall])) fun task? => ?_
  split
  · trivial
  next task =>
    refine Makes.bind ?_ fun _ => ?_
    · unfold adoptQueued
      split
      · exact makes_db (by simp [loopCall, driveCall])
      · trivial
    · refine Makes.bind (inert_loop t (Lifecycle.inert_connect t)).attempt fun r => ?_
      split
      · split
        · exact makes_db (by simp [loopCall, startCall, followupCall, recordCall])
        · trivial
      · refine Makes.bind ((makes_ensureExecutionStarted cfg t).mono fun _ hc =>
          loopCall_of_startCall t hc) fun row? => ?_
        split
        · trivial
        · exact makes_driveExecution cfg t task _

theorem makes_settleRun (row : SupervisionRecord) (manifest : Option TaskResultManifest) :
    Makes (fun c => driveCall t c = true) (settleRun t row manifest) := by
  refine Makes.bind (makes_db rfl) fun _ => ?_
  dsimp only
  split
  · refine Makes.bind (makes_db (by simp [driveCall])) fun _ => ?_
    exact makes_db (by simp [driveCall, failCall, cleanupCall])
  · refine Makes.bind (makes_db (by simp [driveCall])) fun _ => ?_
    exact makes_db (by simp [driveCall])

/-- The note that events may be missing. -/
theorem inert_tailGap : Inert (do
    let _ ← db (.updateSupervision t none none none none (some true))) :=
  Makes.bind (makes_db rfl) fun _ => trivial

theorem makes_finalizeLocked : Makes (fun c => driveCall t c = true) (finalizeLocked cfg t) := by
  refine Makes.bind (makes_db (by simp [driveCall, recordCall])) fun task? => ?_
  refine Makes.bind (makes_db (by simp [driveCall, recordCall])) fun row? => ?_
  split
  next task row =>
    split
    · exact makes_drive_attemptCleanup t
    · refine Makes.bind (inert_drive t (Lifecycle.inert_connect t)).attempt fun r => ?_
      split
      · split
        · refine Makes.bind (makes_db rfl) fun _ => ?_
          refine Makes.bind (makes_db (by simp [driveCall, failCall])) fun _ => ?_
          exact makes_db (by simp [driveCall, failCall, cleanupCall])
        · trivial
      · refine Makes.bind (inert_drive t (inert_refreshSupervision t row)) fun row => ?_
        refine Makes.bind (inert_drive t (inert_syncConversation cfg t row (inert_tailGap t)))
          fun _ => ?_
        refine Makes.bind (makes_ext rfl) fun r => Makes.bind (makes_ofReply r) fun manifest => ?_
        exact makes_settleRun t row manifest
  next => trivial

theorem makes_supervise : Makes (fun c => loopCall t c = true) (supervise cfg t) := by
  refine Makes.tryCatch ?_ fun e => ?_
  · refine Makes.bind (makes_db (by simp [loopCall, startCall, followupCall, recordCall])) fun r? => ?_
    split
    · trivial
    · split
      · exact Makes.bind ((makes_drive_attemptCleanup t).mono fun _ hc =>
          loopCall_of_driveCall t hc) fun _ => trivial
      · trivial
      · refine Makes.bind ?_ fun _ => trivial
        exact makes_withLock (by simp [loopCall, lockCall]) (by simp [loopCall, lockCall])
          ((makes_finalizeLocked cfg t).mono fun _ hc => loopCall_of_driveCall t hc)
      · trivial
      · exact Makes.bind (makes_driveRunning cfg t) fun _ => trivial
  · exact Makes.bind (makes_db (by simp [loopCall, startCall, followupCall, recordCall])) fun _ => trivial

/-- The calls of `send_message` to `t`. -/
def messageCall (t : TaskId) (c : Call) : Bool :=
  c.inert ||
    match c with
    | .db (.get t' none) | .db (.queueWorkspaceMessage t') => t' = t
    | .db (.saveTaskMessageReceipt t' r) => t' = t && r.status = .accepted
    | .acquire l | .release l => l = .workspace t
    | .ensureLoop t' => t' = t
    | _ => false

theorem inert_message {α : Type} {r : Routine α} (hr : Inert r) :
    Makes (fun c => messageCall t c = true) r :=
  hr.makes fun _ hc => by simp [messageCall, hc]

theorem makes_wakeWorkspace : Makes (fun c => messageCall t c = true) (wakeWorkspace t) := by
  refine Makes.bind (makes_db (by simp [messageCall])) fun task? => ?_
  split
  · trivial
  · split
    · exact makes_db (by simp [messageCall])
    · trivial

theorem makes_acceptMessage (m : MessageId) (content : String) :
    Makes (fun c => messageCall t c = true) (acceptMessage t m content) := by
  refine Makes.bind (makes_now rfl) fun created => ?_
  refine Makes.bind (makes_db (by simp [messageCall])) fun _ => ?_
  refine Makes.bind (makes_db rfl) fun _ => ?_
  refine Makes.bind (makes_wakeWorkspace t) fun _ => ?_
  refine Makes.bind (inert_message t Lifecycle.inert_ensureDurable) fun _ => ?_
  exact Makes.bind (makes_ensureLoop (by simp [messageCall])) fun _ => trivial

theorem makes_sendMessage (m : MessageId) (content : String) :
    Makes (fun c => messageCall t c = true) (sendMessage cfg t m content) := by
  refine Makes.bind (makes_db (by simp [messageCall])) fun task? => ?_
  split
  · trivial
  next task =>
    refine Makes.bind (inert_message t (inert_authorizeMessage cfg task)) fun _ => ?_
    refine makes_withLock (by simp [messageCall]) (by simp [messageCall]) ?_
    refine Makes.bind (makes_db (by simp [messageCall])) fun task? => ?_
    split
    · trivial
    · split
      · trivial
      · refine Makes.bind (inert_message t (inert_expireSleepingLocked _)) fun _ => ?_
        refine Makes.bind (makes_db rfl) fun existing? => ?_
        split
        · split
          · trivial
          · exact Makes.bind (inert_message t Lifecycle.inert_ensureDurable) fun _ => trivial
        · exact makes_acceptMessage t m content

end Manager

/-! ### Requests, the application and the scheduler -/

/-- The calls of a cancel request for `t`. -/
def Service.cancelCall (t : TaskId) (c : Call) : Bool :=
  match c with
  | .db (.get t' _) | .db (.getSupervision t') | .db (.cancelQueuedTask t') => t' = t
  | .db (.updateSupervision t' none none none (some true) none) => t' = t
  | _ => false

theorem Service.makes_cancel (t : TaskId) (owner : Option OwnerId) :
    Makes (fun c => cancelCall t c = true) (Service.cancel t owner) := by
  refine Makes.bind (makes_db (by simp [cancelCall])) fun task? => ?_
  split
  · trivial
  · split
    · trivial
    · split
      · refine Makes.bind (makes_db (by simp [cancelCall])) fun r => ?_
        split <;> trivial
      · split
        · refine Makes.bind ?_ fun _ => Makes.bind (makes_db (by simp [cancelCall])) fun _ => trivial
          refine Makes.bind (makes_db (by simp [cancelCall])) fun row? => ?_
          split
          · trivial
          · exact Makes.bind (makes_db (by simp [cancelCall])) fun _ => trivial
        · trivial

theorem App.makes_activation (cfg : Config) (t : TaskId) :
    Makes (fun c => Manager.loopCall t c = true) (App.activation cfg t) := by
  refine Makes.bind (Manager.makes_supervise cfg t).attempt fun r => ?_
  split
  · trivial
  · exact ⟨by simp [Manager.loopCall], fun _ => trivial⟩

namespace Service

/-- The calls of a submission. -/
def submitCall (c : Call) : Bool :=
  c.inert ||
    match c with
    | .submit _ | .db (.get _ _) => true
    | _ => false

theorem inert_submit {α : Type} {r : Routine α} (hr : Inert r) :
    Makes (fun c => submitCall c = true) r :=
  hr.makes fun _ hc => by simp [submitCall, hc]

theorem inert_resolveBaseSha (cfg : Config) (request : CreateTaskRequest)
    (owner : Option OwnerId) : Inert (resolveBaseSha cfg request owner) := by
  unfold resolveBaseSha
  split
  · split
    · trivial
    · split
      · trivial
      · refine Makes.bind (makes_ext rfl) fun r => ?_
        split <;> trivial
  · trivial

theorem makes_checkRetryOf (request : CreateTaskRequest) (owner : Option OwnerId) :
    Makes (fun c => submitCall c = true) (checkRetryOf request owner) := by
  unfold checkRetryOf
  split
  · trivial
  · refine Makes.bind (makes_db (by simp [submitCall])) fun r => ?_
    split <;> trivial

theorem inert_checkPressure : Inert checkPressure := by
  refine Makes.bind (makes_ext rfl) fun r => ?_
  split <;> trivial

theorem inert_settleSubmission (request : CreateTaskRequest) (baseSha : Option String)
    (record : TaskRecord) (created : Bool) :
    Inert (settleSubmission request baseSha record created) := by
  unfold settleSubmission
  split
  · trivial
  · split
    · exact Makes.bind (makes_db rfl) fun _ => trivial
    · trivial

theorem makes_submit (cfg : Config) (request : CreateTaskRequest) (owner : Option OwnerId) :
    Makes (fun c => submitCall c = true) (submit cfg request owner) := by
  unfold submit
  split
  · trivial
  · refine Makes.bind (inert_submit (inert_resolveBaseSha cfg request owner)) fun sha => ?_
    refine Makes.bind (makes_checkRetryOf request owner) fun _ => ?_
    refine Makes.bind (inert_submit inert_checkPressure) fun _ => ?_
    refine Makes.bind ⟨by simp [submitCall], fun _ => trivial⟩ fun r => ?_
    exact inert_submit (inert_settleSubmission request sha r.1 r.2)

theorem makes_retry (cfg : Config) (t : TaskId) (request : RetryTaskRequest)
    (owner : Option OwnerId) :
    Makes (fun c => submitCall c = true) (retry cfg t request owner) := by
  refine Makes.bind (makes_db (by simp [submitCall])) fun r => ?_
  split
  · trivial
  · split
    · trivial
    · split
      · trivial
      · split
        · trivial
        · exact makes_submit cfg _ owner

end Service

namespace Routes

/-- The calls of a route. -/
def routeCall : Route → Call → Bool
  | .submitTask _ _, c | .retryTask _ _ _, c => Service.submitCall c
  | .sendTaskMessage t _ _ owner, c => Manager.messageCall t c ||
    match c with
    | .db (.get t' owner') => t' = t && owner' = owner
    | _ => false
  | .cancelTask t _, c => Service.cancelCall t c || c.inert

theorem makes_handle (cfg : Config) (r : Route) :
    Makes (fun c => routeCall r c = true) (handle cfg r) := by
  cases r with
  | submitTask body owner =>
      refine Makes.bind (Service.makes_submit cfg body owner) fun x => ?_
      exact Makes.bind (Service.inert_submit Lifecycle.inert_ensureDurable) fun _ => trivial
  | retryTask t body owner =>
      refine Makes.bind (Service.makes_retry cfg t body owner) fun x => ?_
      exact Makes.bind (Service.inert_submit Lifecycle.inert_ensureDurable) fun _ => trivial
  | sendTaskMessage t m content owner =>
      refine Makes.bind (makes_db (by simp [routeCall])) fun r => ?_
      split
      · trivial
      · refine Makes.bind ?_ fun _ => trivial
        exact (Manager.makes_sendMessage cfg t m content).mono fun c hc => by simp [routeCall, hc]
  | cancelTask t owner =>
      refine Makes.bind ((Service.makes_cancel t owner).mono fun c hc => by
        simp [routeCall, hc]) fun x => ?_
      exact Makes.bind (Lifecycle.inert_ensureDurable.mono fun c hc => by
        simp [routeCall, hc]) fun _ => trivial

end Routes

namespace Scheduler

/-- The calls about one reservation, in `reconcile` and in `stop`. -/
def roundCall (t : TaskId) (c : Call) : Bool :=
  c.inert ||
    match c with
    | .db (.get t' none) | .db (.getReservation t') | .db (.getSupervision t')
    | .db (.markSandboxLost t' _) | .db (.finishTask t' .sleeping _ none)
    | .db (.updateReservation t' _ _ none) | .db (.updateReservation t' .running none (some _))
    | .db (.updateReservation t' .finalizing none (some .finalizing)) => t' = t
    | .db (.releaseReservation t' s) => t' = t && s = "confirmed_absent"
    | _ => false

/-- The calls that recover reservations, and those that let go of them on a stop. -/
def recoveryCall (c : Call) : Bool :=
  c.inert ||
    match c with
    | .db (.get _ none) | .db .listReservations | .db (.getReservation _) | .db (.getSupervision _)
    | .db .settleSuccessfulTasks | .db (.markSandboxLost _ _) | .db (.finishTask _ .sleeping _ none)
    | .db (.updateReservation _ _ _ none) | .db (.updateReservation _ .running none (some _))
    | .db (.updateReservation _ .finalizing none (some .finalizing)) => true
    | .db (.releaseReservation _ s) => s = "confirmed_absent"
    | _ => false

/-- The calls of `create`. -/
def createCall (c : Call) : Bool :=
  c.inert ||
    match c with
    | .db (.get _ none) | .ext (.providerCreate _ _ _) => true
    | _ => false

/-- The calls of retention, and of having the loops running. -/
def tendCall (c : Call) : Bool :=
  c.inert ||
    match c with
    | .db (.get _ none) | .db .listReservations | .db (.expireTerminalPayloads _ _)
    | .db (.purgeExpiredTombstones _) | .ensureLoop _ => true
    | _ => false

/-- The calls of maintenance, which takes the locks of workspaces. -/
def upkeepCall (c : Call) : Bool :=
  tendCall c ||
    match c with
    | .acquire (.workspace _) | .release (.workspace _) => true
    | _ => false

/-- The calls of admission. -/
def admissionCall (c : Call) : Bool :=
  createCall c || tendCall c ||
    match c with
    | .db (.reserveNext _) | .db (.updateReservation _ .unresolvedCreation _ none)
    | .db (.updateReservation _ .running none (some .running))
    | .db (.finishTask _ .failed _ none) => true
    | .db (.releaseReservation _ s) => s = "confirmed_absent"
    | _ => false

/-- The calls of the scheduler, the start of the process included. -/
def schedulerCall (c : Call) : Bool :=
  recoveryCall c || admissionCall c || upkeepCall c || c matches .recovered

theorem inert_recovery {α : Type} {r : Routine α} (hr : Inert r) :
    Makes (fun c => recoveryCall c = true) r :=
  hr.makes fun _ hc => by simp [recoveryCall, hc]

theorem inert_round {t : TaskId} {α : Type} {r : Routine α} (hr : Inert r) :
    Makes (fun c => roundCall t c = true) r :=
  hr.makes fun _ hc => by simp [roundCall, hc]

theorem recoveryCall_of_roundCall {t : TaskId} {c : Call} (hc : roundCall t c = true) :
    recoveryCall c = true := by
  unfold roundCall at hc
  unfold recoveryCall
  rcases Bool.or_eq_true_iff.mp hc with h | h
  · simp [h]
  · refine Bool.or_eq_true_iff.mpr (.inr ?_)
    split at h <;> simp_all

theorem inert_create {α : Type} {r : Routine α} (hr : Inert r) :
    Makes (fun c => createCall c = true) r :=
  hr.makes fun _ hc => by simp [createCall, hc]

theorem inert_tend {α : Type} {r : Routine α} (hr : Inert r) :
    Makes (fun c => tendCall c = true) r :=
  hr.makes fun _ hc => by simp [tendCall, hc]

theorem upkeepCall_of_tendCall {c : Call} (hc : tendCall c = true) : upkeepCall c = true := by
  simp [upkeepCall, hc]

theorem admissionCall_of_createCall {c : Call} (hc : createCall c = true) :
    admissionCall c = true := by
  simp [admissionCall, hc]

theorem admissionCall_of_tendCall {c : Call} (hc : tendCall c = true) :
    admissionCall c = true := by
  simp [admissionCall, hc]

theorem makes_requestSandbox (t : TaskId) (row : SandboxCreationRecord) :
    Makes (fun c => createCall c = true) (Lifecycle.requestSandbox t row) := by
  have hlost : ∀ text e, Makes (fun c => createCall c = true) (do
      let _ ← db (.updateSandboxCreation t none .unknown (some text))
      throw e : Routine SandboxSnapshot) :=
    fun _ _ => Makes.bind (makes_db rfl) fun _ => trivial
  refine Makes.bind (makes_ext rfl) fun r => ?_
  dsimp only
  split
  · exact hlost _ _
  · exact hlost _ _
  · refine Makes.bind (makes_db rfl) fun row => ?_
    refine Makes.bind (inert_create Lifecycle.inert_ensureDurable) fun _ => ?_
    refine Makes.bind (makes_ext rfl) fun ready => ?_
    split
    · exact hlost _ _
    · exact Makes.bind (makes_db rfl) fun _ => trivial

theorem makes_createAbsent (cfg : Config) (task : TaskRecord)
    (existing : Option SandboxCreationRecord) :
    Makes (fun c => createCall c = true) (Lifecycle.createAbsent cfg task existing) := by
  refine Makes.bind (inert_create (Lifecycle.inert_personalCredential cfg task)) fun k => ?_
  refine Makes.bind (inert_create (Lifecycle.inert_githubCredential cfg task)) fun _ => ?_
  refine Makes.bind (inert_create (Lifecycle.inert_creationIntent _ cfg existing _)) fun row => ?_
  refine Makes.bind (inert_create Lifecycle.inert_ensureDurable) fun _ => ?_
  exact makes_requestSandbox task.id row

theorem makes_create (cfg : Config) (t : TaskId) :
    Makes (fun c => createCall c = true) (Lifecycle.create cfg t) := by
  refine Makes.bind (inert_create Lifecycle.inert_ensureDurable) fun _ => ?_
  refine Makes.bind (makes_db rfl) fun task? => ?_
  split
  · trivial
  · refine Makes.bind (makes_db rfl) fun existing? => ?_
    split
    · exact makes_createAbsent cfg _ none
    · refine Makes.bind (inert_create (Lifecycle.inert_reconnectRecord _)) fun a => ?_
      dsimp only
      split
      · trivial
      · split
        · trivial
        · refine Makes.bind (makes_db rfl) fun _ => Makes.bind (makes_db rfl) fun row? => ?_
          exact makes_createAbsent cfg _ row?

theorem makes_terminateReserved (t : TaskId) :
    Makes (fun c => roundCall t c = true) (terminateReserved t) := by
  refine Makes.bind (inert_round (Lifecycle.inert_terminate t)).attempt fun r => ?_
  split
  · split
    · exact makes_db (by simp [roundCall])
    · trivial
  · split
    · exact makes_db (by simp [roundCall])
    · exact makes_db (by simp [roundCall])

theorem inert_createAgain (r : ReservationRecord) (creation : SandboxCreationRecord) :
    Inert (createAgain r creation) := by
  unfold createAgain
  split
  · trivial
  · split
    · exact Makes.bind (makes_db rfl) fun _ => trivial
    · trivial

theorem makes_reconcileStopped (r : ReservationRecord) (creation : SandboxCreationRecord)
    (snapshot : SandboxSnapshot) :
    Makes (fun c => roundCall r.taskId c = true) (reconcileStopped r creation snapshot) := by
  refine Makes.bind (makes_db (by simp [roundCall])) fun task? => ?_
  split
  · exact makes_db (by simp [roundCall])
  · refine Makes.bind (inert_round (inert_createAgain r creation)) fun again => ?_
    split
    · exact makes_db (by simp [roundCall])
    · refine Makes.bind (makes_db (by simp [roundCall])) fun row? => ?_
      split
      · refine Makes.bind (makes_db (by simp [roundCall])) fun _ => ?_
        exact makes_db (by simp [roundCall])
      · exact makes_db (by simp [roundCall])

theorem makes_reconcileLive (r : ReservationRecord) :
    Makes (fun c => roundCall r.taskId c = true) (reconcileLive r) := by
  unfold reconcileLive
  split
  · exact makes_terminateReserved r.taskId
  · refine Makes.bind (makes_db (by simp [roundCall])) fun task? => makes_db ?_
    by_cases hp : r.phase = .finalizing
    · simp [hp, adoptedState, roundCall]
    · simp [hp, roundCall]

theorem makes_reconcileReservation (r : ReservationRecord) :
    Makes (fun c => recoveryCall c = true) (reconcileReservation r) := by
  refine Makes.bind (makes_db rfl) fun creation? => ?_
  split
  · split
    · exact makes_db (by simp [recoveryCall])
    · exact makes_db (by simp [recoveryCall])
  · refine Makes.bind (inert_recovery (Lifecycle.inert_inspect r.taskId)).attempt fun reply => ?_
    split
    · exact makes_db (by simp [recoveryCall])
    · exact makes_db (by simp [recoveryCall])
    · trivial
    · refine Makes.bind (makes_db (by simp [recoveryCall])) fun current? => ?_
      split
      · trivial
      · split
        · trivial
        · split
          · exact makes_db (by simp [recoveryCall])
          · split
            · exact (makes_reconcileStopped _ _ _).mono fun _ => recoveryCall_of_roundCall
            · exact (makes_reconcileLive _).mono fun _ => recoveryCall_of_roundCall

theorem makes_reconcile : Makes (fun c => recoveryCall c = true) reconcile := by
  refine Makes.bind (makes_db rfl) fun _ => Makes.bind (makes_db rfl) fun rs => ?_
  refine Makes.bind (Makes.forM fun r _ => makes_reconcileReservation r) fun _ => ?_
  exact inert_recovery Lifecycle.inert_ensureDurable

theorem makes_provision (cfg : Config) (t : TaskId) :
    Makes (fun c => admissionCall c = true) (provision cfg t) := by
  refine Makes.bind ((inert_create Lifecycle.inert_ensureDurable).mono fun _ =>
    admissionCall_of_createCall) fun _ => ?_
  refine Makes.bind ((makes_create cfg t).mono fun _ => admissionCall_of_createCall).attempt
    fun r => ?_
  split
  · refine Makes.bind (makes_db rfl) fun _ => ?_
    exact makes_db (by simp [admissionCall])
  · exact makes_db (by simp [admissionCall])
  · exact makes_db (by simp [admissionCall])
  · trivial
  · split
    · exact makes_db (by simp [admissionCall])
    · exact makes_db (by simp [admissionCall])

/-- The part of the expiry of a workspace that runs under its lock. -/
theorem makes_expireSleeping (t : TaskId) : Makes (fun c => tendCall c = true) (do
    match ← db (.get t none) with
    | none => pure ()
    | some task => Manager.expireSleepingLocked task) := by
  refine Makes.bind (makes_db rfl) fun task? => ?_
  split
  · trivial
  · exact inert_tend (Manager.inert_expireSleepingLocked _)

theorem makes_runRetentionPass (cfg : Config) :
    Makes (fun c => tendCall c = true) (runRetentionPass cfg) := by
  refine Makes.bind (makes_now rfl) fun moment => ?_
  exact Makes.bind (makes_db rfl) fun _ => Makes.bind (makes_db rfl) fun _ => trivial

theorem makes_maintenance (cfg : Config) :
    Makes (fun c => upkeepCall c = true) (maintenance cfg) := by
  refine Makes.bind (makes_ext rfl) fun due => ?_
  split
  · refine Makes.bind (makes_now rfl) fun moment => Makes.bind ?_ fun _ => ?_
    · refine makes_loop rfl rfl fun a => Makes.bind (makes_db rfl) fun tasks => ?_
      split
      · trivial
      · refine Makes.bind (Makes.forM fun task _ => ?_) fun _ => trivial
        exact makes_withLock rfl rfl ((makes_expireSleeping task.id).mono fun _ =>
          upkeepCall_of_tendCall)
    · exact (makes_runRetentionPass cfg).mono fun _ => upkeepCall_of_tendCall
  · trivial

theorem makes_syncReservedTasks :
    Makes (fun c => tendCall c = true) Manager.syncReservedTasks := by
  refine Makes.bind (makes_db rfl) fun rs => Makes.forM fun r _ => ?_
  split
  all_goals first | trivial | exact makes_ensureLoop rfl

theorem makes_provisionStarting (cfg : Config) (rs : List ReservationRecord) :
    Makes (fun c => admissionCall c = true) (provisionStarting cfg rs) := by
  induction rs with
  | nil => trivial
  | cons r rs ih =>
      unfold provisionStarting
      split
      · exact ih
      · refine Makes.bind (makes_provision cfg r.taskId) fun _ => ?_
        refine Makes.bind (makes_stopIsSet rfl) fun stop => ?_
        split
        · trivial
        · exact ih

theorem makes_fillSlots (cfg : Config) : Makes (fun c => admissionCall c = true) (fillSlots cfg) := by
  refine makes_loop rfl rfl fun _ => Makes.bind (makes_stopIsSet rfl) fun stop => ?_
  split
  · trivial
  · refine Makes.bind (makes_db rfl) fun task? => ?_
    split
    · trivial
    · exact Makes.bind (makes_provision cfg _) fun _ => trivial

theorem makes_admission (cfg : Config) :
    Makes (fun c => admissionCall c = true) (admission cfg) := by
  refine Makes.bind (makes_syncReservedTasks.mono fun _ => admissionCall_of_tendCall) fun _ => ?_
  refine Makes.bind (makes_db rfl) fun rs => ?_
  refine Makes.bind (makes_provisionStarting cfg rs) fun stopped => ?_
  split
  · trivial
  · refine Makes.bind (makes_db rfl) fun rs => ?_
    split
    · trivial
    · refine Makes.bind (makes_db rfl) fun n => ?_
      split
      · trivial
      · refine Makes.bind (makes_ext rfl) fun pressure => ?_
        split
        · trivial
        · exact makes_fillSlots cfg

theorem schedulerCall_of_recoveryCall {c : Call} (hc : recoveryCall c = true) :
    schedulerCall c = true := by
  simp [schedulerCall, hc]

theorem schedulerCall_of_admissionCall {c : Call} (hc : admissionCall c = true) :
    schedulerCall c = true := by
  simp [schedulerCall, hc]

theorem makes_dispatchOnce (cfg : Config) :
    Makes (fun c => schedulerCall c = true) (dispatchOnce cfg) := by
  refine Makes.bind ((inert_recovery Lifecycle.inert_ensureDurable).mono fun _ =>
    schedulerCall_of_recoveryCall) fun _ => ?_
  refine Makes.bind (makes_reconcile.mono fun _ => schedulerCall_of_recoveryCall) fun _ => ?_
  refine Makes.bind ((makes_maintenance cfg).mono fun _ hc => by
    simp [schedulerCall, hc]) fun _ => ?_
  split
  · trivial
  · refine Makes.bind (makes_stopIsSet rfl) fun stop => ?_
    split
    · trivial
    · exact (makes_admission cfg).mono fun _ => schedulerCall_of_admissionCall

theorem makes_detachReservation (r : ReservationRecord) :
    Makes (fun c => roundCall r.taskId c = true) (detachReservation r) := by
  refine Makes.bind (makes_db rfl) fun creation? => ?_
  split
  · trivial
  · refine Makes.tryCatch ?_ fun e => ?_
    · refine Makes.bind (inert_round (Lifecycle.inert_detach r.taskId)) fun snapshot => ?_
      split
      · split
        · exact makes_db (by simp [roundCall])
        · exact makes_db (by simp [roundCall])
      · split
        · exact makes_db (by simp [roundCall])
        · trivial
    · split
      · exact makes_db (by simp [roundCall])
      · trivial

theorem makes_stop : Makes (fun c => recoveryCall c = true) stop :=
  Makes.bind (makes_db rfl) fun _ => Makes.forM fun r _ =>
    (makes_detachReservation r).mono fun _ => recoveryCall_of_roundCall

theorem makes_lifespan : Makes (fun c => schedulerCall c = true) App.lifespan := by
  refine Makes.bind ((inert_recovery Lifecycle.inert_ensureDurable).mono fun _ =>
    schedulerCall_of_recoveryCall) fun _ => ?_
  refine Makes.bind (makes_reconcile.mono fun _ => schedulerCall_of_recoveryCall) fun _ => ?_
  refine Makes.bind (makes_syncReservedTasks.mono fun _ hc =>
    schedulerCall_of_admissionCall (admissionCall_of_tendCall hc)) fun _ => ?_
  exact ⟨rfl, fun _ => trivial⟩

end Scheduler

/-! ### What an inert call leaves alone -/

/-- The columns of a task on which decisions about it depend. -/
def TaskRecord.vital (r : TaskRecord) : TaskState × Option String × Option String × Bool :=
  (r.state, r.outcomeDetail, r.sandboxCleanupStatus, r.payloadExpired)

/-- The columns of a supervision row on which starts and cancellation depend. -/
def SupervisionRecord.vital (r : SupervisionRecord) : ExecutionId × StartKey × Bool :=
  (r.executionId, r.startKey, r.cancelRequested)

/-- Nothing that the control flow decides from differs between two states. -/
structure Calm (s s' : Shared) : Prop where
  tasks : ∀ t, (s'.ledger.tasks.find? t).map TaskRecord.vital =
    (s.ledger.tasks.find? t).map TaskRecord.vital
  reservations : s'.ledger.reservations = s.ledger.reservations
  supervisions : ∀ t, (s'.ledger.supervisions.find? t).map SupervisionRecord.vital =
    (s.ledger.supervisions.find? t).map SupervisionRecord.vital
  receipts : s'.ledger.receipts = s.ledger.receipts
  process : s'.phase = s.phase ∧ s'.stop = s.stop ∧ s'.loops = s.loops ∧ s'.locks = s.locks
  snapshots : s'.published = s.published ∧ s'.confirmed = s.confirmed
  logs : s'.taskIds = s.taskIds ∧ s'.creates = s.creates ∧ s'.starts = s.starts ∧
    s'.refused = s.refused

theorem Calm.refl (s : Shared) : Calm s s :=
  ⟨fun _ => rfl, rfl, fun _ => rfl, rfl, ⟨rfl, rfl, rfl, rfl⟩, ⟨rfl, rfl⟩, ⟨rfl, rfl, rfl, rfl⟩⟩

theorem inert_vital_task {now : Time} {l : Ledger} {c : LedgerCall} (hc : c.inert = true)
    (t : TaskId) : ((c.exec now l).2.tasks.find? t).map TaskRecord.vital =
      (l.tasks.find? t).map TaskRecord.vital := by
  cases h : l.tasks.find? t with
  | none => rw [exec_task_none now c h]
  | some r =>
      obtain rfl : r.id = t := Table.key_of_find? h
      obtain ⟨b, rfl, -, -⟩ | ⟨r', hr', hstep⟩ := exec_task now c h
      · simp [LedgerCall.inert] at hc
      · rw [hr']
        cases hstep with
        | same | baseSha | touch | workspaceExpired => rfl
        | _ => simp [LedgerCall.inert] at hc

theorem inert_vital_supervision {now : Time} {l : Ledger} {c : LedgerCall} (hc : c.inert = true)
    (t : TaskId) : ((c.exec now l).2.supervisions.find? t).map SupervisionRecord.vital =
      (l.supervisions.find? t).map SupervisionRecord.vital := by
  generalize hq : (c.exec now l).2.supervisions.find? t = q
  have hstep := exec_supervision now c l t
  rw [hq] at hstep
  cases hstep with
  | same => rfl
  | update e k v d g row hrow =>
      unfold LedgerCall.inert at hc
      split at hc <;> simp_all [Ledger.patchSupervision, SupervisionRecord.vital]
  | begin | retire => simp [LedgerCall.inert] at hc

/-- Only the save of a receipt records a failed message. -/
theorem refusal_eq_nil {c : LedgerCall} (hc : ∀ t r, c ≠ .saveTaskMessageReceipt t r)
    (x : Except Exn c.Out) : Shared.refusal c x = [] := by
  unfold Shared.refusal
  split
  next t r _ => exact absurd rfl (hc t r)
  next => rfl

theorem calm_of_inert {p : Pid} {o : Oracle} {c : Call} {s s' : Shared} {r : c.Out}
    (hc : c.inert = true) (h : s.answer p o c = some (r, s')) : Calm s s' := by
  cases c with
  | db c =>
      obtain ⟨-, rfl⟩ := Prod.mk.inj (Option.some.inj h)
      have hf := exec_frame s.clock c s.ledger
      refine ⟨inert_vital_task hc, hf.reservations ?_, inert_vital_supervision hc, hf.receipts ?_,
        ⟨rfl, rfl, rfl, rfl⟩, ⟨rfl, rfl⟩, ⟨rfl, rfl, rfl, ?_⟩⟩
      · cases c <;> simp_all [Call.inert, LedgerCall.inert, LedgerCall.writesReservations]
      · cases c <;> simp_all [Call.inert, LedgerCall.inert, LedgerCall.writesReceipts]
      · rw [refusal_eq_nil (by rintro t r rfl; simp [Call.inert, LedgerCall.inert] at hc)]
        rfl
  | ext c =>
      obtain ⟨s₁, hs₁, heq⟩ := Option.map_eq_some_iff.mp h
      obtain ⟨-, rfl⟩ := Prod.mk.inj heq
      cases c
      case providerCreate => simp [Call.inert, ExtCall.inert] at hc
      case startExecution => simp [Call.inert, ExtCall.inert] at hc
      case providerTerminate id =>
        simp only [Shared.outside] at hs₁
        split at hs₁ <;> obtain rfl := Option.some.inj hs₁ <;>
          exact ⟨fun _ => rfl, rfl, fun _ => rfl, rfl, ⟨rfl, rfl, rfl, rfl⟩, ⟨rfl, rfl⟩,
            ⟨rfl, rfl, rfl, rfl⟩⟩
      all_goals
        obtain rfl := Option.some.inj hs₁
        exact .refl _
  | now | stopIsSet =>
      obtain ⟨-, rfl⟩ := Prod.mk.inj (Option.some.inj h)
      exact .refl _
  | awaitConfirmed n =>
      simp only [Shared.answer] at h
      split at h
      · obtain ⟨-, rfl⟩ := Prod.mk.inj (Option.some.inj h)
        exact .refl _
      · split at h
        · obtain ⟨-, rfl⟩ := Prod.mk.inj (Option.some.inj h)
          exact .refl _
        · simp at h
  | never => cases r
  | submit | acquire | release | ensureLoop | exitLoop | recovered => simp [Call.inert] at hc

end GgAgent.Backend
