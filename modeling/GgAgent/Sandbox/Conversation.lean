import GgAgent.Sandbox.Execution

/-!
The workspace's conversation: `LocalConversation` with its row in the catalog, and the
runs that `ConversationService` keeps for it.

The status lives in the database and in the object; each change writes both, so one field
stands for them, and `live` says whether the service has an object. An object that is read
back while the row says `running` has no process behind it and becomes `error`.

A run is an asyncio task around a worker thread. Cancelling the task does not reach the
thread, which goes on and settles the conversation later; the two have separate states.
Events and message receipts of the conversation are not part of this model.
-/

namespace GgAgent.Sandbox

inductive ConversationStatus
  | idle | running | finished | error | cancelled
  deriving DecidableEq, Repr

def ConversationStatus.value : ConversationStatus → String
  | .idle => "idle"
  | .running => "running"
  | .finished => "finished"
  | .error => "error"
  | .cancelled => "cancelled"

/-- The operations of `_ALLOWED_TRANSITIONS`. -/
inductive Operation
  | sendMessage | run | finish | error | cancel
  deriving DecidableEq, Repr

def Operation.value : Operation → String
  | .sendMessage => "send_message"
  | .run => "run"
  | .finish => "finish"
  | .error => "error"
  | .cancel => "cancel"

/-- `_ALLOWED_TRANSITIONS`. -/
def allowedTransition : ConversationStatus → Operation → Option ConversationStatus
  | .idle, .sendMessage => some .idle
  | .idle, .run => some .running
  | .finished, .sendMessage => some .idle
  | .error, .sendMessage => some .idle
  | .running, .finish => some .finished
  | .running, .error => some .error
  | .running, .cancel => some .cancelled
  | _, _ => none

structure Conversation where
  status : ConversationStatus
  live : Bool
  accepting : Bool
  cancelling : Bool
  deriving DecidableEq, Repr

namespace Conversation

/-- `LocalConversation(...)`. -/
def created : Conversation := ⟨.idle, true, false, false⟩

/-- `LocalConversation.open`. -/
def opened (c : Conversation) : Conversation :=
  ⟨if c.status = .running then .error else c.status, true, false, false⟩

/-- `_transition` and the status that its callers then apply. -/
def transition (op : Operation) (c : Conversation) : Except Exn Conversation :=
  match allowedTransition c.status op with
  | some status => .ok { c with status := status }
  | none => .error (.invalidConversationState c.status.value op.value)

end Conversation

inductive TaskState
  | pending
  | cancelled
  | done (result : Except Exn Unit)
  deriving DecidableEq, Repr

/-- What `await task` gives; `none` while the task is pending. -/
def TaskState.await : TaskState → Option (Except Exn Unit)
  | .pending => none
  | .cancelled => some (.error .cancelled)
  | .done result => some result

inductive ThreadState
  | queued | inside | over
  deriving DecidableEq, Repr

/-- `asyncio.create_task(asyncio.to_thread(conversation.run))`. -/
structure Run where
  task : TaskState
  thread : ThreadState
  deriving DecidableEq, Repr

/-- The thread is over; a task that still waits for it takes its result. -/
def Run.settled (result : Except Exn Unit) (r : Run) : Run where
  task := if r.task = .pending then .done result else r.task
  thread := .over

/-- The conversation and its runs since the start of the process. `_run_tasks` has the
last of them. -/
structure Talk where
  conversation : Option Conversation
  runs : List Run
  deriving DecidableEq, Repr

namespace Talk

def init : Talk := ⟨none, []⟩

def put (c : Conversation) (k : Talk) : Talk := { k with conversation := some c }

/-- `ConversationService.get`. -/
def get (id : String) (k : Talk) : Except Exn Conversation × Talk :=
  match k.conversation with
  | none => (.error (.conversationNotFound id), k)
  | some c => if c.live then (.ok c, k) else (.ok c.opened, k.put c.opened)

/-- An operation on the object: hydrate it, then run `f` on it. -/
def withConversation {α : Type} (id : String)
    (f : Conversation → Except Exn α × Conversation) (k : Talk) : Except Exn α × Talk :=
  match k.get id with
  | (.error e, k) => (.error e, k)
  | (.ok c, k) => ((f c).1, k.put (f c).2)

/-- `get_record`. -/
def getRecord (id : String) : Talk → Except Exn ConversationStatus × Talk :=
  withConversation id fun c => (.ok c.status, c)

def setGithubToken (id : String) : Talk → Except Exn Unit × Talk :=
  withConversation id fun c =>
    if c.status = .running then (.error .conversationAlreadyRunning, c) else (.ok (), c)

/-- `create`. -/
def create (k : Talk) : Talk := k.put .created

def sendMessage (id : String) : Talk → Except Exn Unit × Talk :=
  withConversation id fun c =>
    match c.transition .sendMessage with
    | .error e => (.error e, c)
    | .ok c' => (.ok (), c')

/-- `LocalConversation.cancel`; `backend` is what `_agent_backend.cancel()` does. -/
def cancel (backend : Except Exn Unit) (id : String) : Talk → Except Exn Unit × Talk :=
  withConversation id fun c =>
    if c.status = .cancelled ∨ c.cancelling then (.ok (), c)
    else if c.status ≠ .running then
      (.error (.invalidConversationState c.status.value "cancel"), c)
    else (backend, { c with accepting := false, cancelling := true })

/-- The part of `ConversationService.run` under the run lock. The reply is the number of
the new run. -/
def beginRun (id : String) (k : Talk) : Except Exn Nat × Talk :=
  match k.get id with
  | (.error e, k) => (.error e, k)
  | (.ok _, k) =>
    if k.runs.getLast?.any fun r => r.task = .pending then (.error .conversationAlreadyRunning, k)
    else (.ok k.runs.length, { k with runs := k.runs ++ [⟨.pending, .queued⟩] })

/-- The timeout of `wait_for`: the run task is cancelled if it has not ended. -/
def timeOut (i : Nat) (k : Talk) : Talk :=
  { k with runs := k.runs.modify i fun r =>
      { r with task := if r.task = .pending then .cancelled else r.task } }

/-- The worker thread of run `i` enters `LocalConversation.run`. -/
def enter (i : Nat) (k : Talk) : Option Talk :=
  match k.runs[i]?, k.conversation with
  | some r, some c =>
    if r.thread ≠ .queued then none
    else if c.status = .running then
      some { k with runs := k.runs.modify i (Run.settled (.error .conversationAlreadyRunning)) }
    else
      match c.transition .run with
      | .error e => some { k with runs := k.runs.modify i (Run.settled (.error e)) }
      | .ok c' => some
          { conversation := some { c' with accepting := true }
            runs := k.runs.modify i fun r => { r with thread := .inside } }
  | _, _ => none

/-- How the agent backend ends: by itself, by `AgentCancelledError`, or by another
exception. -/
inductive AgentEnd
  | settled
  | cancelled
  | raised (e : Exn)
  deriving DecidableEq, Repr

/-- The operation that the end of the backend stands for, and what `run` then raises.
An exception that is no `AgentError` leaves the status as it is. -/
def AgentEnd.operation : AgentEnd → Option Operation × Except Exn Unit
  | .settled => (some .finish, .ok ())
  | .cancelled => (some .cancel, .ok ())
  | .raised (.agent code text) => (some .error, .error (.agent code text))
  | .raised e => (none, .error e)

/-- The worker thread of run `i` leaves `LocalConversation.run`. -/
def leave (i : Nat) (how : AgentEnd) (k : Talk) : Option Talk :=
  match k.runs[i]?, k.conversation with
  | some r, some c =>
    if r.thread ≠ .inside then none
    else
      let c := { c with accepting := false }
      match how.operation with
      | (none, result) => some
          { conversation := some c, runs := k.runs.modify i (Run.settled result) }
      | (some op, result) =>
        match c.transition op with
        | .error e => some
            { conversation := some c, runs := k.runs.modify i (Run.settled (.error e)) }
        | .ok c' => some
            { conversation := some c', runs := k.runs.modify i (Run.settled result) }
  | _, _ => none

/-- The process is gone: the row stays, the object and the runs do not. -/
def lost (k : Talk) : Talk where
  conversation := k.conversation.map fun c => { c with live := false }
  runs := []

end Talk

/-- What happens to the conversation besides the pipelines: requests to its routes and
the worker threads. -/
inductive TalkEvent
  | start
  | sendMessage
  | run
  | cancel (backend : Except Exn Unit)
  | enter (i : Nat)
  | leave (i : Nat) (how : Talk.AgentEnd)
  deriving DecidableEq, Repr

def TalkEvent.apply (id : String) : TalkEvent → Talk → Option Talk
  | .start, k => some (if k.conversation.isSome then (k.getRecord id).2 else k.create)
  | .sendMessage, k => some (k.sendMessage id).2
  | .run, k => some (k.beginRun id).2
  | .cancel backend, k => some (k.cancel backend id).2
  | .enter i, k => k.enter i
  | .leave i how, k => k.leave i how

end GgAgent.Sandbox
