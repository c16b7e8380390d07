import GgAgent.Lib.Pool
import GgAgent.Sandbox.Conversation

/-!
The event socket of a conversation: the log, the ways an event takes from the log to the
sockets, and the coroutines at both ends.

`_append_event` numbers and stores an event under a lock and calls the listener afterwards.
The listener schedules a callback in the event loop, the callback a task that fans the event
out, and that task one delivery for each subscriber. The loop serves what it has scheduled
in order, so each of the three is a queue of its own here; which of them goes next is left
open. `send_message_and_publish` fans its event out itself.

`handing` has the events that are in the log and that nobody has handed to the loop yet.
-/

namespace GgAgent.Stream

open GgAgent.Lib
open GgAgent.Lib.Co (attempt)
open GgAgent.Sandbox (ConversationStatus Operation allowedTransition)

/-! ### The conversation -/

inductive EventKind
  | message | action | observation | status | error
  deriving DecidableEq, Repr

abbrev Payload := List (String × String)

structure Event where
  seq : Nat
  kind : EventKind
  payload : Payload
  deriving DecidableEq, Repr

inductive DeliveryStatus
  | accepted | delivered | failed | unknown
  deriving DecidableEq, Repr

structure MessageReceipt where
  id : String
  content : String
  status : DeliveryStatus
  detail : Option String
  deriving DecidableEq, Repr

inductive Exn
  | cancelled
  | disconnect
  | invalidConversationState (status operation : String)
  | conversationAlreadyRunning
  | messageIdConflict (id : String)
  | agentControl (text : String)
  | agent (payload : Payload)
  | other (name : String)
  deriving DecidableEq, Repr

/-- The methods of `LocalConversation` that move its control state. -/
inductive Method
  | sendMessage (text : String)
  | steer (id text : String)
  | cancel
  | run
  deriving DecidableEq, Repr

/-- The coroutine of a socket, with the `after_seq` of its request, another one, or a
thread that has called a method of the conversation. -/
inductive Pid
  | socket (number afterSeq : Nat)
  | routine (number : Nat)
  | caller (number : Nat) (method : Method)
  deriving DecidableEq, Repr

/-- What a socket has subscribed: its `pending_events` and `overflowed`. -/
structure Subscription where
  owner : Pid
  queue : List Event
  overflowed : Bool
  subscribed : Bool
  deriving DecidableEq, Repr

/-- `_SUBSCRIBER_QUEUE_SIZE`. -/
def subscriberQueueSize : Nat := 100

def maxSubscribers : Nat := 50

/-- The task around the worker thread of the last run. -/
inductive RunTask
  | absent
  | queued
  | inside
  | done (result : Except Exn Unit)
  deriving DecidableEq, Repr

structure State where
  log : List Event
  receipts : List MessageReceipt
  status : ConversationStatus
  accepting : Bool
  cancelling : Bool
  /-- Whether the agent backend can be steered and cancelled. -/
  controllable : Bool
  control : Option Pid
  runLock : Option Pid
  task : RunTask
  /-- Whether the listener of persisted events is installed. -/
  listener : Bool
  handing : List Event
  callbacks : List Event
  fanouts : List Event
  /-- Events on their way to a subscription, by its number. -/
  deliveries : List (Nat × Event)
  subscriptions : List Subscription
  /-- Observations: who set the status last, how often a cancellation was let through,
  whether the turn was closed to messages since it began, and the ids of the messages that
  the backend was given, in this process or an earlier one. -/
  setBy : Option Pid
  cancels : Nat
  closed : Bool
  steered : List String
  deriving DecidableEq, Repr

/-- A conversation with these events. -/
def State.opened (events : List (EventKind × Payload)) (status : ConversationStatus)
    (controllable : Bool) : State where
  log := events.zipIdx.map fun x => ⟨x.2 + 1, x.1.1, x.1.2⟩
  receipts := []
  status := status
  accepting := false
  cancelling := false
  controllable := controllable
  control := none
  runLock := none
  task := .absent
  listener := false
  handing := []
  callbacks := []
  fanouts := []
  deliveries := []
  subscriptions := []
  setBy := none
  cancels := 0
  closed := false
  steered := []

/-! ### Calls -/

inductive Admission
  | unavailable
  | unauthenticated
  | notFound
  | admitted
  deriving DecidableEq, Repr

inductive Frame
  | message (content : String)
  | steer (id content : String)
  | cancel
  | invalid
  deriving DecidableEq, Repr

/-- What the agent backend does next: it emits an event, calls the settling listener, or
is at its end. -/
inductive Backend
  | emit (kind : EventKind) (payload : Payload)
  | settling
  | settled
  | cancelled
  | failed (payload : Payload)
  | raised (name : String)
  deriving DecidableEq, Repr

/-- What the conversation looks like under its lock. -/
structure Look where
  status : ConversationStatus
  accepting : Bool
  cancelling : Bool
  controllable : Bool
  deriving DecidableEq, Repr

/-- The tasks that are done when `asyncio.wait` returns, with their results. -/
structure Round where
  overflow : Bool
  event : Option Event
  incoming : Option (Except Exn Frame)
  deriving DecidableEq, Repr

inductive Call
  /-- The control lock of the conversation. -/
  | acquire
  | release
  | look
  | setStatus (status : ConversationStatus)
  | setAccepting (accepting : Bool)
  /-- `_begin_settling`. -/
  | settle
  | setCancelling
  | loadReceipt (id : String)
  | saveReceipt (receipt : MessageReceipt)
  /-- `_append_event`, up to the release of the event lock. -/
  | persist (kind : EventKind) (payload : Payload)
  /-- `_append_event`, the call of the listener. -/
  | notify (event : Event)
  /-- `PubSub.publish`. -/
  | publish (event : Event)
  | backend
  | backendSteer (id text : String)
  | backendCancel
  | acquireRun
  | releaseRun
  | inFlight
  | install
  | uninstall
  | createTask
  | awaitTask
  | taskDone (result : Except Exn Unit)
  | admission
  /-- Subscribe, and read the snapshot. -/
  | subscribe
  | unsubscribe (number : Nat)
  | send (event : Event)
  | sendFrame
  /-- The start of a round: whether `overflowed` is set. -/
  | beginRound (number : Nat)
  | endRound (number : Nat) (overflowed : Bool)
  | close (code : Nat) (reason : String)
  | rounds
  | never
  deriving DecidableEq, Repr

@[reducible] def Call.Out : Call → Type
  | .acquire | .acquireRun => Except Exn Unit
  | .release | .releaseRun | .setStatus _ | .setAccepting _ | .settle | .setCancelling => Unit
  | .saveReceipt _ => Unit
  | .look => Look
  | .loadReceipt _ => Option MessageReceipt
  | .persist _ _ => Event
  | .notify _ | .publish _ | .install | .uninstall | .createTask | .taskDone _ => Unit
  | .backend => Backend
  | .backendSteer _ _ => Except Exn (Bool × Option String)
  | .backendCancel => Except Exn Unit
  | .inFlight => Bool
  | .awaitTask => Except Exn Unit
  | .admission => Admission
  | .subscribe => Option (Nat × List Event)
  | .unsubscribe _ => Unit
  | .send _ | .sendFrame => Except Exn Unit
  | .beginRound _ => Bool
  | .endRound _ _ => Round
  | .close _ _ => Unit
  | .rounds => Nat
  | .never => Empty

/-- What the outside decides of a call. -/
structure Oracle where
  cancel : Bool
  disconnected : Bool
  backend : Backend
  steered : Except Exn (Bool × Option String)
  aborted : Except Exn Unit
  admission : Admission
  /-- Which of the tasks of a round are done. -/
  takes : Bool
  notices : Bool
  incoming : Option (Except Exn Frame)
  rounds : Nat

namespace State

/-- `COALESCE(MAX(seq), 0) + 1`. -/
def nextSeq (s : State) : Nat := (s.log.map Event.seq).foldl max 0 + 1

def handed (e : Event) (s : State) : State :=
  { s with handing := s.handing.filter fun x => x.seq ≠ e.seq }

/-- `call_soon_threadsafe(_publish_live, …)`. -/
def schedule (e : Event) (s : State) : State := { s with callbacks := s.callbacks ++ [e] }

/-- The subscribers of the stream, by their numbers. -/
def subscribers (s : State) : List Nat :=
  (List.range s.subscriptions.length).filter fun k =>
    (s.subscriptions[k]?).any Subscription.subscribed

/-- `PubSub.publish`: a delivery for every subscriber. -/
def fanOut (e : Event) (s : State) : State :=
  { s with deliveries := s.deliveries ++ s.subscribers.map fun k => (k, e) }

def modify (k : Nat) (f : Subscription → Subscription) (s : State) : State :=
  { s with subscriptions := s.subscriptions.modify k f }

/-- `receive_event`. -/
def receive (e : Event) (x : Subscription) : Subscription :=
  if x.queue.length < subscriberQueueSize then { x with queue := x.queue ++ [e] }
  else { x with overflowed := true }

def answer (p : Pid) (o : Oracle) : (c : Call) → State → Option (c.Out × State)
  | .acquire, s =>
    if s.control = none then some (.ok (), { s with control := some p }) else none
  | .release, s => some ((), { s with control := none })
  | .look, s => some (⟨s.status, s.accepting, s.cancelling, s.controllable⟩, s)
  | .setStatus status, s =>
    some ((), { s with status := status, setBy := some p,
                       closed := s.closed && status ≠ .running })
  | .setAccepting b, s => some ((), { s with accepting := b })
  | .settle, s => some ((), { s with accepting := false, closed := true })
  | .setCancelling, s =>
    some ((), { s with accepting := false, cancelling := true, closed := true,
                       cancels := s.cancels + 1 })
  | .loadReceipt id, s => some (s.receipts.find? (fun r => r.id = id), s)
  | .saveReceipt r, s =>
    some ((), { s with receipts := r :: s.receipts.filter fun x => x.id ≠ r.id })
  | .persist kind payload, s =>
    let e : Event := ⟨s.nextSeq, kind, payload⟩
    some (e, { s with log := s.log ++ [e], handing := s.handing ++ [e] })
  | .notify e, s =>
    if s.listener then some ((), (s.handed e).schedule e) else some ((), s)
  | .publish e, s => some ((), (s.handed e).fanOut e)
  | .backend, s => some (o.backend, s)
  | .backendSteer id _, s => some (o.steered, { s with steered := s.steered ++ [id] })
  | .backendCancel, s => some (o.aborted, s)
  | .acquireRun, s =>
    if o.cancel then some (.error .cancelled, s)
    else if s.runLock = none then some (.ok (), { s with runLock := some p }) else none
  | .releaseRun, s => some ((), { s with runLock := none })
  | .inFlight, s => some (s.task = .queued ∨ s.task = .inside, s)
  | .install, s => some ((), { s with listener := true })
  | .uninstall, s => some ((), { s with listener := false })
  | .createTask, s => some ((), { s with task := .queued })
  | .awaitTask, s =>
    if o.cancel then some (.error .cancelled, s)
    else match s.task with
      | .done result => some (result, s)
      | .absent => some (.ok (), s)
      | _ => none
  | .taskDone result, s => some ((), { s with task := .done result })
  | .admission, s => some (o.admission, s)
  | .subscribe, s =>
    if maxSubscribers ≤ s.subscribers.length then some (none, s)
    else some (some (s.subscriptions.length, s.log),
      { s with subscriptions := s.subscriptions ++ [⟨p, [], false, true⟩] })
  | .unsubscribe k, s => some ((), s.modify k fun x => { x with subscribed := false })
  | .send _, s => some (if o.disconnected then .error .disconnect else .ok (), s)
  | .sendFrame, s => some (if o.disconnected then .error .disconnect else .ok (), s)
  | .beginRound k, s => some ((s.subscriptions[k]?).any Subscription.overflowed, s)
  | .endRound k overflowed, s =>
    let x := s.subscriptions[k]?
    let overflow := overflowed || (o.notices && x.any Subscription.overflowed)
    let event := if o.takes then x.bind fun x => x.queue.head? else none
    if overflow || event.isSome || o.incoming.isSome then
      some (⟨overflow, event, o.incoming⟩, if o.takes then
        s.modify k fun x => { x with queue := x.queue.tail } else s)
    else none
  | .close _ _, s => some ((), s)
  | .rounds, s => some (o.rounds, s)
  | .never, _ => none

end State

/-! ### Programs of the conversation -/

abbrev Routine (α : Type) := Co Call.Out Exn α

def ask (c : Call) : Routine c.Out := ExceptT.mk (Prog.call c fun r => .ret (.ok r))

def loop {α β : Type} (a : α) (body : α → Routine (α ⊕ β)) : Routine β := do
  Co.loopFrom (ExceptT.mk (Prog.call Call.never fun r => nomatch r)) body (← ask .rounds) a

def result {α : Type} : Except Exn α → Routine α
  | .ok a => pure a
  | .error e => throw e

def acquire : Routine Unit := ExceptT.mk (Prog.perform Call.acquire)

/-- `with self._control_lock`. -/
def withControl {α : Type} (body : Routine α) : Routine α := do
  acquire
  let r ← attempt body
  ask .release
  result r

def appendEvent (kind : EventKind) (payload : Payload) : Routine Event := do
  let event ← ask (.persist kind payload)
  ask (.notify event)
  pure event

def applyStatus (status : ConversationStatus) : Routine Unit := do
  ask (.setStatus status)
  let _ ← appendEvent .status [("status", status.value)]
  pure ()

/-- `_transition`. -/
def transition (op : Operation) : Routine ConversationStatus := do
  let current ← ask .look
  match allowedTransition current.status op with
  | some _ => pure current.status
  | none => throw (.invalidConversationState current.status.value op.value)

/-- The change of the status before a message. -/
def becomeIdle (status : ConversationStatus) : Routine Unit :=
  if status = .idle then pure () else applyStatus .idle

def sendMessage (text : String) : Routine Event :=
  withControl do
    let current ← transition .sendMessage
    becomeIdle current
    appendEvent .message [("role", "user"), ("text", text)]

def sendMessageAndPublish (content : String) : Routine Event := do
  let event ← sendMessage content
  ask (.publish event)
  pure event

/-- `_update_receipt`. -/
def updateReceipt (receipt : MessageReceipt) (status : DeliveryStatus) (detail : Option String) :
    Routine MessageReceipt := do
  let updated := { receipt with status := status, detail := detail }
  ask (.saveReceipt updated)
  pure updated

/-- The receipt after the backend was asked to steer. Other exceptions than its own two
leave the receipt as it is. -/
def steered (receipt : MessageReceipt) : Except Exn (Bool × Option String) → Routine MessageReceipt
  | .ok (delivered, detail) => updateReceipt receipt (if delivered then .delivered else .failed) detail
  | .error (.agentControl text) => updateReceipt receipt .unknown (some text)
  | .error (.agent payload) => updateReceipt receipt .unknown (payload.lookup "message")
  | .error e => throw e

/-- `steer`, for a message that was not seen before. -/
def accept (receipt : MessageReceipt) : Routine MessageReceipt := do
  ask (.saveReceipt receipt)
  let _ ← appendEvent .message
    [("role", "user"), ("text", receipt.content), ("client_message_id", receipt.id)]
  let reply ← ask (.backendSteer receipt.id receipt.content)
  steered receipt reply

def steerNew (id text : String) : Routine MessageReceipt := do
  let current ← ask .look
  if current.status ≠ .running ∨ current.accepting = false then
    throw (.invalidConversationState current.status.value "send a running-agent message")
  else if current.controllable = false then
    throw (.agentControl "agent backend does not support steering")
  else accept ⟨id, text, .accepted, none⟩

/-- What a known message is answered with. -/
def known (id text : String) (receipt : MessageReceipt) : Routine MessageReceipt :=
  if receipt.content ≠ text then throw (.messageIdConflict id) else pure receipt

def steer (id text : String) : Routine MessageReceipt :=
  withControl do
    match ← ask (.loadReceipt id) with
    | some receipt => known id text receipt
    | none => steerNew id text

/-- `LocalConversation.cancel`, under its lock: whether the backend is to be cancelled. -/
def cancelLocked : Routine Bool := do
  let current ← ask .look
  if current.status = .cancelled ∨ current.cancelling = true then pure false
  else if current.status ≠ .running then
    throw (.invalidConversationState current.status.value "cancel")
  else if current.controllable = false then
    throw (.agentControl "agent backend does not support cancellation")
  else do
    ask .setCancelling
    pure true

/-- `_agent_backend.cancel()`, if there is a run to cancel. -/
def abort (live : Bool) : Routine Unit :=
  if live then ExceptT.mk (Prog.perform Call.backendCancel) else pure ()

def awaitTask : Routine Unit := ExceptT.mk (Prog.perform Call.awaitTask)

/-- `LocalConversation.cancel`. -/
def conversationCancel : Routine Unit := do
  let live ← withControl cancelLocked
  abort live

/-- `ConversationService.cancel`. -/
def cancel : Routine Unit := do
  conversationCancel
  awaitTask

def beginTurn : Routine Unit := do
  let current ← ask .look
  if current.status = .running then throw .conversationAlreadyRunning
  else do
    let _ ← transition .run
    applyStatus .running
    ask (.setAccepting current.controllable)

/-- A transition and the status that follows it. -/
def moveTo (op : Operation) (status : ConversationStatus) : Routine Unit :=
  withControl do
    let _ ← transition op
    applyStatus status

def beginSettling : Routine Unit := withControl (ask .settle)

/-- `_begin_settling`, after `body` in any case. -/
def settling (body : Routine Unit) : Routine Unit := do
  let r ← attempt body
  beginSettling
  result r

/-- What the backend does, until it ends. -/
def agentRun : Routine Backend :=
  loop () fun _ => do
    match ← ask .backend with
    | .emit kind payload =>
      let _ ← appendEvent kind payload
      pure (.inl ())
    | .settling =>
      beginSettling
      pure (.inl ())
    | how => pure (.inr how)

def failTurn (payload : Payload) : Routine Unit := do
  let _ ← appendEvent .error payload
  moveTo .error .error
  throw (.agent payload)

/-- What follows the backend's end. -/
def endTurn : Backend → Routine Unit
  | .cancelled => settling (moveTo .cancel .cancelled)
  | .failed payload => settling (failTurn payload)
  | .raised name => settling (throw (.other name))
  | _ => do
    settling (pure ())
    moveTo .finish .finished

/-- `LocalConversation.run`. -/
def conversationRun : Routine Unit := do
  withControl beginTurn
  let how ← agentRun
  endTurn how

/-- The worker thread of a run. -/
def worker : Routine Unit := do
  let r ← attempt conversationRun
  ask (.taskDone r)

def acquireRun : Routine Unit := ExceptT.mk (Prog.perform Call.acquireRun)

/-- `ConversationService.run`, under the run lock. -/
def startRun (inFlight : Bool) : Routine Unit :=
  if inFlight then do
    ask .releaseRun
    throw .conversationAlreadyRunning
  else do
    ask .install
    ask .createTask
    ask .releaseRun

def run : Routine Unit := do
  acquireRun
  let inFlight ← ask .inFlight
  startRun inFlight
  let r ← attempt awaitTask
  ask .uninstall
  result r

/-! ### The socket -/

def sendEvent (event : Event) : Routine Unit := ExceptT.mk (Prog.perform (Call.send event))

def sendFrame : Routine Unit := ExceptT.mk (Prog.perform Call.sendFrame)

/-- The replay of the snapshot; its result is `last_sent`. -/
def replay : List Event → Nat → Routine Nat
  | [], lastSent => pure lastSent
  | event :: events, lastSent =>
    if event.seq ≤ lastSent then replay events lastSent
    else do
      sendEvent event
      replay events event.seq

/-- Errors that a control frame is answered with. -/
def answered : Exn → Bool
  | .agentControl _ | .invalidConversationState _ _ | .messageIdConflict _ => true
  | _ => false

/-- The answer to a control frame. -/
def reply {α : Type} : Except Exn α → Routine Unit
  | .ok _ => sendFrame
  | .error e => if answered e then sendFrame else throw e

def handleMessage : Frame → Routine Unit
  | .steer id content => do
    let r ← attempt (steer id content)
    reply r
  | .cancel => do
    let r ← attempt cancel
    reply r
  | .message content => do
    let _ ← sendMessageAndPublish content
    pure ()
  | .invalid => throw (.other "ValidationError")

def handleIncoming : Option (Except Exn Frame) → Routine Unit
  | none => pure ()
  | some (.error e) => throw e
  | some (.ok frame) => handleMessage frame

/-- The event of a round; the result is `last_sent`. -/
def forward (lastSent : Nat) : Option Event → Routine Nat
  | none => pure lastSent
  | some event =>
    if lastSent < event.seq then do
      sendEvent event
      pure event.seq
    else pure lastSent

/-- One round of `_serve_connection`, from the results of its tasks. -/
def served (lastSent : Nat) (round : Round) : Routine (Nat ⊕ Unit) :=
  if round.overflow then do
    ask (.close 1013 ("resume_after=" ++ toString lastSent))
    pure (.inr ())
  else do
    let lastSent ← forward lastSent round.event
    handleIncoming round.incoming
    pure (.inl lastSent)

def serveConnection (number lastSent : Nat) : Routine Unit :=
  loop lastSent fun lastSent => do
    let overflowed ← ask (.beginRound number)
    let round ← ask (.endRound number overflowed)
    served lastSent round

/-- The `try` block of `stream_events`. -/
def connected (number afterSeq : Nat) (snapshot : List Event) : Routine Unit := do
  let lastSent ← replay snapshot afterSeq
  serveConnection number lastSent

/-- The `except` and `finally` clauses. -/
def disconnected (number : Nat) (r : Except Exn Unit) : Routine Unit := do
  ask (.unsubscribe number)
  match r with
  | .error .disconnect => pure ()
  | r => result r

/-- `stream_events`, for a client that may listen. -/
def listen (afterSeq : Nat) : Routine Unit := do
  match ← ask .subscribe with
  | none => ask (.close 1013 "")
  | some (number, snapshot) =>
    let r ← attempt (connected number afterSeq snapshot)
    disconnected number r

def streamEvents (afterSeq : Nat) : Routine Unit := do
  match ← ask .admission with
  | .unavailable => ask (.close 1013 "")
  | .unauthenticated => ask (.close 4001 "")
  | .notFound => ask (.close 4004 "")
  | .admitted => listen afterSeq

/-! ### The machine -/

/-- The requests for the conversation, the worker thread of a run, and a socket. -/
inductive Job
  | sendMessage (text : String)
  | sendMessageAndPublish (text : String)
  | steer (id text : String)
  | cancel
  | run
  | worker
  | stream
  deriving DecidableEq, Repr

def Routine.forget {α : Type} (r : Routine α) : Routine Unit := do
  let _ ← r
  pure ()

def Job.program : Pid → Job → State → Option (Prog Call.Out (Except Exn Unit) × State)
  | .routine _, .sendMessage text, s => some ((Stream.sendMessage text).forget.run, s)
  | .routine _, .sendMessageAndPublish text, s =>
    some ((Stream.sendMessageAndPublish text).forget.run, s)
  | .routine _, .steer id text, s => some ((Stream.steer id text).forget.run, s)
  | .routine _, .cancel, s => some (Stream.cancel.run, s)
  | .routine _, .run, s => some (Stream.run.run, s)
  | .routine _, .worker, s =>
    if s.task = .queued then some (Stream.worker.run, { s with task := .inside }) else none
  | .socket _ afterSeq, .stream, s => some ((streamEvents afterSeq).run, s)
  | _, _, _ => none

/-- What the event loop does by itself. -/
inductive Happening
  /-- `_publish_live` of the first callback. -/
  | callback
  /-- `publish` of the first task. -/
  | fanOut
  /-- `_deliver` of the first delivery. -/
  | deliver
  deriving DecidableEq, Repr

def Happening.apply : Happening → State → Option State
  | .callback, s =>
    match s.callbacks with
    | e :: rest => some { s with callbacks := rest, fanouts := s.fanouts ++ [e] }
    | [] => none
  | .fanOut, s =>
    match s.fanouts with
    | e :: rest => some (State.fanOut e { s with fanouts := rest })
    | [] => none
  | .deliver, s =>
    match s.deliveries with
    | (k, e) :: rest => some (State.modify k (State.receive e) { s with deliveries := rest })
    | [] => none

def server : Machine Pid Call.Out (Except Exn Unit) State where
  Oracle := Oracle
  Job := Job
  Event := Happening
  answer := State.answer
  job := Job.program
  event := Happening.apply
  kills _ := false

abbrev System := Pool Pid Call.Out (Except Exn Unit) State

def System.opened (events : List (EventKind × Payload)) (status : ConversationStatus)
    (controllable : Bool) : System :=
  ⟨.opened events status controllable, fun _ => none⟩

end GgAgent.Stream
