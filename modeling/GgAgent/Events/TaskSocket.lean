import GgAgent.Events.Mirror
import GgAgent.Backend.Manager

/-!
The event sockets of a task: the loop that copies its events and puts the copies into the
queues of the subscribers, the coroutines that replay the copies and go on from a queue, and a
client that remembers the cursor it has reached and connects again from there.

A task has one supervision loop, so that its `_sync_events` runs come one after the other. A
page is committed in a thread and published when the loop is back: between the two the
copies are in the ledger and in no queue. Publishing a page is one step of the event loop, and
so are a subscription and the query of the replay that follows it. A queue that is full is
passed over.
-/

namespace GgAgent.TaskSocket

open GgAgent.Lib GgAgent.Backend GgAgent.Records
open GgAgent.Lib.Co (Safe attempt loopFrom)
open GgAgent.Events (Mirror Fault servedPage copyTaskEventPage_ok)

/-! ### The state -/

/-- `TaskEventCopy`. Its event, with the `source_seq`, is kept as JSON. -/
structure TaskEventCopy where
  cursor : Nat
  sourceId : ConversationId
  event : String
  deriving DecidableEq, Repr

/-- The supervision loop, and the coroutine of a socket with the `after` of its request. -/
inductive Pid
  | loop
  | socket (number after : Nat)
  deriving DecidableEq, Repr

/-- A queue of `subscribe_events`, and whether it is still among the subscribers. -/
structure Subscriber where
  owner : Pid
  items : List TaskEventCopy
  subscribed : Bool
  deriving DecidableEq, Repr

/-- The `maxsize` of a queue. -/
def queueSize : Nat := 256

/-- `TaskEventSubscription`. Its connection is named by the number and the `after` of the
socket. -/
structure TaskEventSubscription where
  connection : Option (Nat × Nat) := none
  cursor : Nat
  /-- Observation: the cursors received, and how many over this connection. -/
  received : List Nat := []
  read : Nat := 0

structure State where
  mirror : Mirror
  queues : List Subscriber
  /-- The task has a loop that is not done. -/
  looping : Bool
  /-- The frames sent on each socket. -/
  frames : Pid → List TaskEventCopy
  client : TaskEventSubscription
  /-- Observation: the copies that are committed and not published. -/
  unpublished : List TaskEventCopy

abbrev State.ledger (s : State) : Ledger := s.mirror.store.ledger

/-- `queue.put_nowait(copy)`; `QueueFull` is passed over. -/
def Subscriber.putNowait (x : Subscriber) (copy : TaskEventCopy) : Subscriber :=
  if x.subscribed ∧ x.items.length < queueSize then { x with items := x.items ++ [copy] } else x

/-- The copies of a page, for every subscriber of the task. -/
def publish (copies : List TaskEventCopy) (queues : List Subscriber) : List Subscriber :=
  copies.foldl (fun queues copy => queues.map fun x => x.putNowait copy) queues

/-- `list_event_copies`. -/
def listEventCopies (t : TaskId) (after : Nat) (l : Ledger) : List TaskEventCopy :=
  (l.listTaskEvents t after).map fun c => ⟨c.cursorSeq, c.sourceId, c.eventJson⟩

/-- `TaskEventSubscription.receive`, of a frame that has arrived. -/
def TaskEventSubscription.receive (x : TaskEventSubscription) (copy : TaskEventCopy) :
    TaskEventSubscription :=
  { x with
    cursor := max x.cursor copy.cursor
    received := x.received ++ [copy.cursor]
    read := x.read + 1 }

/-- `_open_connection`. -/
def TaskEventSubscription.openConnection (x : TaskEventSubscription) (number : Nat) :
    TaskEventSubscription :=
  { x with connection := some (number, x.cursor), read := 0 }

/-! ### Calls -/

inductive Call
  /-- The conversation to copy in a round of the loop, if the loop goes on. -/
  | nextRound
  | eventSourceCursor (c : ConversationId)
  | conversationEvents (c : ConversationId) (after limit : Nat)
  | copyTaskEventPage (c : ConversationId) (events : List Event)
  | publish (copies : List TaskEventCopy)
  | done
  /-- The checks of `stream_task_events`, up to `accept`. -/
  | admission
  /-- `subscribe_events` and `list_event_copies`. -/
  | subscribe (after : Nat)
  | send (copy : TaskEventCopy)
  /-- `await queue.get()`. -/
  | get (number : Nat)
  | unsubscribe (number : Nat)
  | close (code : Nat)
  | rounds
  | never

inductive SocketExn
  | backend (x : Exn)
  | disconnect

@[reducible] def Call.Out : Call → Type
  | .nextRound => Option ConversationId
  | .eventSourceCursor _ => Except SocketExn Nat
  | .conversationEvents _ _ _ => Except SocketExn EventPage
  | .copyTaskEventPage _ _ => Except SocketExn (List (Nat × String))
  | .publish _ | .done | .unsubscribe _ | .close _ => Unit
  | .admission => Bool
  | .subscribe _ => Nat × List TaskEventCopy
  | .send _ => Except SocketExn Unit
  | .get _ => TaskEventCopy
  | .rounds => Nat
  | .never => Empty

/-- What the outside decides of a call. -/
structure Oracle where
  fault : Fault := {}
  conversation : Option ConversationId := none
  admitted : Bool := true
  disconnected : Bool := false

abbrev Routine (α : Type) := Co Call.Out SocketExn α

def ask (c : Call) : Routine c.Out := ExceptT.mk (Prog.call c fun r => .ret (.ok r))

def result {α : Type} : Except SocketExn α → Routine α
  | .ok a => pure a
  | .error e => throw e

def loop {α β : Type} (a : α) (body : α → Routine (α ⊕ β)) : Routine β := do
  loopFrom (ExceptT.mk (Prog.call Call.never fun r => nomatch r)) body (← ask .rounds) a

/-! ### Programs -/

/-- The copies that a page has brought. -/
def copiesOf (c : ConversationId) (inserted : List (Nat × String)) : List TaskEventCopy :=
  inserted.map fun x => ⟨x.1, c, x.2⟩

/-- A page that is not empty: commit it and publish its copies. -/
def copyPage (c : ConversationId) (events : List Event) : Routine Unit := do
  let inserted ← result (← ask (.copyTaskEventPage c events))
  ask (.publish (copiesOf c inserted))

/-- A round of `_sync_events`. -/
def syncRound (c : ConversationId) (after : Nat) : Routine (Nat ⊕ Unit) := do
  match ← result (← ask (.conversationEvents c after 200)) with
  | .notFound => pure (.inr ())
  | .page [] => pure (.inr ())
  | .page (e :: es) =>
    if e.seq ≤ after then
      throw (.backend (.valueError "sandbox event page did not advance source cursor"))
    else do
      copyPage c (e :: es)
      if (e :: es).length < 200 then pure (.inr ())
      else pure (.inl ((e :: es).getLast (List.cons_ne_nil e es)).seq)

/-- `_sync_events`. -/
def syncEvents (c : ConversationId) : Routine Unit := do
  let after ← result (← ask (.eventSourceCursor c))
  loop after (syncRound c)

/-- An `httpx.HTTPError` of a run is not the end of the loop. -/
def afterSync : Except SocketExn Unit → Routine (Unit ⊕ Unit)
  | .error (.backend x) => if x.isHttpError then pure (.inl ()) else throw (.backend x)
  | .error x => throw x
  | .ok () => pure (.inl ())

/-- A round of `_supervise`, as far as events are concerned. -/
def superviseRound : Unit → Routine (Unit ⊕ Unit) := fun () => do
  match ← ask .nextRound with
  | none => pure (.inr ())
  | some c => do afterSync (← attempt (syncEvents c))

/-- `_supervise`. -/
def supervise : Routine Unit := do
  let _ ← attempt (loop () superviseRound)
  ask .done

/-- `websocket.send_json`. -/
def sendJson (copy : TaskEventCopy) : Routine Unit := do result (← ask (.send copy))

/-- The replay of the copies; its result is `after`. -/
def replay : List TaskEventCopy → Nat → Routine Nat
  | [], after => pure after
  | copy :: copies, _ => do
    sendJson copy
    replay copies copy.cursor

/-- A round of the loop over the queue. -/
def forward (number after : Nat) : Routine (Nat ⊕ Unit) := do
  let copy ← ask (.get number)
  if copy.cursor ≤ after then pure (.inl after)
  else do
    sendJson copy
    pure (.inl copy.cursor)

/-- The `try` block of `stream_task_events`. -/
def connected (number after : Nat) (copies : List TaskEventCopy) : Routine Unit := do
  let after ← replay copies after
  loop after (forward number)

/-- The `except` and `finally` clauses. -/
def disconnected (number : Nat) (r : Except SocketExn Unit) : Routine Unit := do
  ask (.unsubscribe number)
  match r with
  | .error .disconnect => pure ()
  | r => result r

def streamTaskEvents (after : Nat) : Routine Unit := do
  if ← ask .admission then
    let (number, copies) ← ask (.subscribe after)
    disconnected number (← attempt (connected number after copies))
  else ask (.close 1008)

/-! ### The machine -/

section

variable (cfg : Config) (t : TaskId)

namespace State

/-- A transaction of the loop. One that fails is rolled back. -/
def transact {α : Type} (fault : Fault) (tx : Tx α) (s : State) : Except SocketExn α × State :=
  match fault.exn with
  | some x => (.error (.backend x), s)
  | none =>
    let a := tx s.ledger
    (a.1.mapError .backend, { s with mirror := s.mirror.withLedger a.2 })

def modify (number : Nat) (f : Subscriber → Subscriber) (s : State) : State :=
  { s with queues := s.queues.modify number f }

/-- What a committed page leaves to be published. -/
def committed (c : ConversationId) (a : Except SocketExn (List (Nat × String))) (s : State) :
    State :=
  match a with
  | .ok inserted => { s with unpublished := s.unpublished ++ copiesOf c inserted }
  | .error _ => s

/-- A frame goes out on a socket. -/
def sent (p : Pid) (copy : TaskEventCopy) (s : State) : State :=
  { s with frames := Function.update s.frames p (s.frames p ++ [copy]) }

def answer (p : Pid) (o : Oracle) : (c : Call) → State → Option (c.Out × State)
  | .nextRound, s => some (o.conversation, s)
  | .eventSourceCursor c, s =>
    some (s.transact o.fault fun l => (.ok (l.eventSourceCursor t c), l))
  | .conversationEvents c after limit, s =>
    match o.fault.exn with
    | some x => some (.error (.backend x), s)
    | none =>
      if o.fault.notFound then some (.ok .notFound, s)
      else some (.ok (.page (servedPage (s.mirror.log t c) after limit)), s)
  | .copyTaskEventPage c events, s =>
    let a :=
      s.transact o.fault (Ledger.copyTaskEventPage s.mirror.clock cfg.eventPayload t c events)
    some (a.1, a.2.committed c a.1)
  | .publish copies, s =>
    some ((), { s with queues := TaskSocket.publish copies s.queues, unpublished := [] })
  | .done, s => some ((), { s with looping := false })
  | .admission, s => some (o.admitted, s)
  | .subscribe after, s =>
    some ((s.queues.length, listEventCopies t after s.ledger),
      { s with queues := s.queues ++ [⟨p, [], true⟩] })
  | .send copy, s =>
    if o.disconnected then some (.error .disconnect, s)
    else
      match o.fault.exn with
      | some x => some (.error (.backend x), s)
      | none => some (.ok (), s.sent p copy)
  | .get number, s =>
    match s.queues[number]? with
    | some ⟨_, copy :: items, _⟩ => some (copy, s.modify number fun x => { x with items })
    | _ => none
  | .unsubscribe number, s => some ((), s.modify number fun x => { x with subscribed := false })
  | .close _, s => some ((), s)
  | .rounds, s => some (o.fault.rounds, s)
  | .never, _ => none

end State

/-- The loop that `_ensure_loop` makes, and a request for a socket, whose number is new. -/
inductive Job
  | supervise
  | stream
  deriving DecidableEq, Repr

def Job.program : Pid → Job → State → Option (Prog Call.Out (Except SocketExn Unit) × State)
  | .loop, .supervise, s =>
    if s.looping then none else some (TaskSocket.supervise.run, { s with looping := true })
  | .socket number after, .stream, s =>
    if s.frames (.socket number after) = [] then some ((streamTaskEvents after).run, s) else none
  | _, _, _ => none

/-- What happens besides. -/
inductive Happening
  /-- The sandboxes, the clock and the rest of the backend; a crash takes the queues with it. -/
  | mirror (e : Mirror.Happening)
  /-- The loop of another task commits a page. -/
  | otherPage (u : TaskId) (c : ConversationId) (events : List Event)
  /-- The client opens a socket after its cursor. -/
  | openConnection (number : Nat)
  | receive

def Happening.apply : Happening → State → Option State
  | .mirror e, s => (e.apply s.mirror).map fun mirror =>
    match e with
    | .crash => { s with mirror, queues := [], looping := false, unpublished := [] }
    | _ => { s with mirror }
  | .otherPage u c events, s =>
    if u = t then none
    else
      let a := Ledger.copyTaskEventPage s.mirror.clock cfg.eventPayload u c events s.ledger
      some { s with mirror := s.mirror.withLedger a.2 }
  | .openConnection number, s => some { s with client := s.client.openConnection number }
  | .receive, s =>
    match s.client.connection with
    | none => none
    | some (number, after) => (s.frames (.socket number after))[s.client.read]?.map fun copy =>
        { s with client := s.client.receive copy }

/-- The loop of task `t` and its sockets. -/
def sockets : Machine Pid Call.Out (Except SocketExn Unit) State where
  Oracle := Oracle
  Job := Job
  Event := Happening
  answer := State.answer cfg t
  job := Job.program
  event := Happening.apply cfg t
  kills
    | .mirror .crash => true
    | _ => false

/-- A page is published only when every queue of a subscriber has room for it. -/
def roomy : (sockets cfg t).Cond where
  call _ _ c s _ := match c with
    | .publish copies => s.queues.all fun x =>
        !x.subscribed || decide (x.items.length + copies.length ≤ queueSize)
    | _ => true

end

abbrev Hist := List (Entry Call.Out State)

/-- Before anything has happened; the client has everything up to `cursor` already. -/
def start (cursor : Nat) : Pool Pid Call.Out (Except SocketExn Unit) State :=
  ⟨{ mirror := .init, queues := [], looping := false, frames := fun _ => [],
     client := { cursor }, unpublished := [] }, fun _ => none⟩

/-! ### The cursors of the copies -/

/-- The events of all tasks are numbered, and no copy is gone. -/
structure Kept (l : Ledger) : Prop where
  numbered : Numbered l
  whole : l.eventCopies.rows.map identityOf = l.eventIdentities.rows

/-- The number of the copies of a task. -/
def count (t : TaskId) (l : Ledger) : Nat := (identitiesOf t l).length

section Cursors

variable {l l' : Ledger} {t u : TaskId}

theorem filter_range' (after n : Nat) :
    (List.range' 1 n).filter (fun c => after < c) = List.range' (after + 1) (n - after) := by
  induction n with
  | zero => simp
  | succ n ih =>
      rw [List.range'_concat, List.filter_append, ih, Nat.one_mul, List.filter_singleton]
      by_cases h : after < 1 + n
      · rw [decide_eq_true h, cond_true, show n + 1 - after = n - after + 1 by omega,
          List.range'_concat, show after + 1 + 1 * (n - after) = 1 + n by omega]
      · rw [decide_eq_false h, cond_false, List.append_nil,
          show n + 1 - after = n - after by omega]

theorem Kept.still (h : Kept l) (hl : l'.eventCounters = l.eventCounters)
    (hi : l'.eventIdentities = l.eventIdentities) (hc : l'.eventCopies = l.eventCopies) :
    Kept l' where
  numbered := h.numbered.of_quiet ⟨hl, hi, hc ▸ List.Sublist.refl _⟩
  whole := by rw [hc, hi, h.whole]

theorem Kept.copied {ps : List (ConversationId × Nat)} (h : Kept l) (hc : Copied u ps l l') :
    Kept l' where
  numbered := hc.numbered
  whole := by
    obtain ⟨new, happ⟩ := hc.appended
    obtain ⟨cs, hcs, hrows⟩ := happ.copies
    rw [hrows, List.map_append, h.whole, hcs, happ.identities]

theorem count_other {ps : List (ConversationId × Nat)} (hc : Copied u ps l l') (hu : u ≠ t) :
    count t l' = count t l := by
  obtain ⟨new, happ⟩ := hc.appended
  rw [count, happ.identitiesOf_other (Ne.symm hu), count]

theorem cursors_copies (h : Kept l) :
    (l.eventCopies.rows.filter fun c => c.taskId = t).map EventCopy.cursorSeq =
      List.range' 1 (count t l) := by
  have hcursors := h.numbered.cursors t
  rw [identitiesOf, ← h.whole, List.filter_map, List.map_map] at hcursors
  have hcount : count t l =
      ((l.eventCopies.rows.filter fun c => c.taskId = t).map identityOf).length := by
    rw [count, identitiesOf, ← h.whole, List.filter_map]
    rfl
  rw [hcount]
  exact hcursors

/-- The replay has the cursors after the one asked for. -/
theorem cursors_listEventCopies (h : Kept l) (after : Nat) :
    (listEventCopies t after l).map TaskEventCopy.cursor =
      List.range' (after + 1) (count t l - after) := by
  have hall := cursors_copies (t := t) h
  have hsplit : l.eventCopies.rows.filter (fun c => c.taskId = t ∧ after < c.cursorSeq) =
      (l.eventCopies.rows.filter fun c => c.taskId = t).filter fun c => after < c.cursorSeq := by
    rw [List.filter_filter]
    congr 1
    funext c
    simp [Bool.and_comm]
  have hcursors : (l.eventCopies.rows.filter fun c => c.taskId = t ∧ after < c.cursorSeq).map
      EventCopy.cursorSeq = List.range' (after + 1) (count t l - after) := by
    rw [hsplit, ← filter_range', ← hall, List.filter_map]
    rfl
  have hsorted : (l.eventCopies.rows.filter fun c => c.taskId = t ∧ after < c.cursorSeq).Pairwise
      fun a b => a.cursorSeq ≤ b.cursorSeq := by
    apply List.pairwise_map.mp
    rw [hcursors]
    exact (List.pairwise_lt_range' ..).imp fun h => Nat.le_of_lt h
  rw [listEventCopies, Ledger.listTaskEvents, hsorted.insertionSort_eq, List.map_map, ← hcursors]
  rfl

theorem cursors_insertTaskEvents {now : Time} {payload : Event → Nat → String} {c : ConversationId}
    {events : List Event} {bytes : Nat} {done ins : List (Nat × String)} (hl : Numbered l)
    (h : Ledger.insertTaskEvents now payload t c events bytes done l = (.ok ins, l')) :
    ∃ new, ins = done.reverse ++ new ∧ new.map Prod.fst = List.range' (count t l + 1) new.length ∧
      count t l' = count t l + new.length := by
  induction events generalizing bytes done l with
  | nil =>
      obtain ⟨hins, rfl⟩ := Prod.mk.inj h
      exact ⟨[], by simpa using (Except.ok.inj hins).symm, rfl, rfl⟩
  | cons e events ih =>
      simp only [Ledger.insertTaskEvents] at h
      have hone := hl.insertTaskEvent now t c e.seq (payload e bytes)
      split at h
      · cases (Prod.mk.inj h).1
      next l₁ hr =>
        rw [hr] at hone
        cases hone with
        | known hmem => exact ih hl h
      next cursor l₁ hr =>
        rw [hr] at hone
        cases hone with
        | new hmem hp happ hl₁ ht =>
            have hcount : count t l₁ = count t l + 1 := by
              rw [count, happ.identitiesOf_self, List.length_append]
              rfl
            obtain ⟨new, hins, hnew, hlen⟩ := ih hl₁ h
            refine ⟨((identitiesOf t l).length + 1, payload e bytes) :: new, ?_, ?_, ?_⟩
            · rw [hins, List.reverse_cons, List.append_assoc, List.singleton_append]
            · rw [List.map_cons, hnew, hcount, List.length_cons, List.range'_succ]
              rfl
            · rw [hlen, hcount, List.length_cons]
              omega

/-- The copies of a page take the next cursors. -/
theorem cursors_copyTaskEventPage {now : Time} {payload : Event → Nat → String}
    {c : ConversationId} {events : List Event} {ins : List (Nat × String)} (hl : Numbered l)
    (h : l.copyTaskEventPage now payload t c events = (.ok ins, l')) :
    ins.map Prod.fst = List.range' (count t l + 1) ins.length ∧
      count t l' = count t l + ins.length := by
  cases events with
  | nil =>
      obtain ⟨hins, rfl⟩ := Prod.mk.inj h
      obtain rfl := Except.ok.inj hins
      exact ⟨rfl, rfl⟩
  | cons e es =>
      obtain ⟨l₁, hins, rfl⟩ := copyTaskEventPage_ok (List.cons_ne_nil e es) h
      obtain ⟨new, hnew, hcursors, hcount⟩ := cursors_insertTaskEvents hl hins
      obtain rfl : ins = new := hnew
      exact ⟨hcursors, hcount⟩

end Cursors

/-! ### Queues -/

/-- The last of `n` cursors, in order. -/
def Last (n : Nat) (copies : List TaskEventCopy) : Prop :=
  copies.length ≤ n ∧
    copies.map TaskEventCopy.cursor = List.range' (n - copies.length + 1) copies.length

section Queues

variable {n : Nat} {copy : TaskEventCopy} {copies items : List TaskEventCopy}

theorem Last.nil (n : Nat) : Last n [] := ⟨Nat.zero_le n, rfl⟩

theorem Last.append (h : Last n items)
    (hc : copies.map TaskEventCopy.cursor = List.range' (n + 1) copies.length) :
    Last (n + copies.length) (items ++ copies) := by
  obtain ⟨hle, hcursors⟩ := h
  refine ⟨by rw [List.length_append]; omega, ?_⟩
  have hsum : n - items.length + 1 + items.length = n + 1 := by omega
  rw [List.map_append, hcursors, hc, List.length_append, ← hsum, List.range'_append_1]
  congr 1
  omega

theorem Last.head (h : Last n (copy :: items)) : copy.cursor = n - items.length := by
  obtain ⟨hle, hcursors⟩ := h
  rw [List.length_cons] at hle
  rw [List.map_cons, List.length_cons, List.range'_succ] at hcursors
  have hhead := (List.cons.inj hcursors).1
  omega

theorem Last.tail (h : Last n (copy :: items)) : Last n items := by
  obtain ⟨hle, hcursors⟩ := h
  rw [List.length_cons] at hle
  rw [List.map_cons, List.length_cons, List.range'_succ] at hcursors
  have htail := (List.cons.inj hcursors).2
  refine ⟨by omega, ?_⟩
  rw [htail]
  congr 1
  omega

theorem getElem?_publish (copies : List TaskEventCopy) (queues : List Subscriber) (k : Nat) :
    (publish copies queues)[k]? = queues[k]?.map fun x => copies.foldl Subscriber.putNowait x := by
  induction copies generalizing queues with
  | nil => simp [publish]
  | cons copy copies ih =>
      show (publish copies (queues.map fun x => x.putNowait copy))[k]? = _
      rw [ih, List.getElem?_map, Option.map_map]
      rfl

theorem foldl_putNowait_closed {x : Subscriber} (hx : x.subscribed = false)
    (copies : List TaskEventCopy) : copies.foldl Subscriber.putNowait x = x := by
  induction copies with
  | nil => rfl
  | cons copy copies ih =>
      rw [List.foldl_cons, Subscriber.putNowait, if_neg (by simp [hx])]
      exact ih

/-- With room for all, all are put. -/
theorem foldl_putNowait {x : Subscriber} (hx : x.subscribed = true)
    (hroom : x.items.length + copies.length ≤ queueSize) :
    copies.foldl Subscriber.putNowait x = { x with items := x.items ++ copies } := by
  induction copies generalizing x with
  | nil => simp
  | cons copy copies ih =>
      rw [List.length_cons] at hroom
      rw [List.foldl_cons, Subscriber.putNowait, if_pos ⟨hx, by omega⟩]
      have hroom' : (x.items ++ [copy]).length + copies.length ≤ queueSize := by
        rw [List.length_append, List.length_singleton]
        omega
      rw [ih (x := { x with items := x.items ++ [copy] }) hx hroom']
      simp

end Queues

/-! ### The invariant -/

/-- How many copies are published. -/
def published (t : TaskId) (s : State) : Nat := count t s.ledger - s.unpublished.length

/-- The cursor that a queue has got to: what it holds comes after. -/
def passed (t : TaskId) (s : State) (x : Subscriber) : Nat := published t s - x.items.length

/-- What the client knows of its connection and its cursor. -/
structure Reached (first : Nat) (x : TaskEventSubscription) : Prop where
  received : x.received = List.range' (first + 1) x.received.length
  cursor : x.cursor = first + x.received.length
  connection : ∀ number after, x.connection = some (number, after) → x.cursor = after + x.read

structure Inv (t : TaskId) (first : Nat) (s : State) : Prop where
  version : s.mirror.store.version = schemaVersion
  kept : Kept s.ledger
  unpublished : Last (count t s.ledger) s.unpublished
  idle : s.looping = false → s.unpublished = []
  queues : ∀ (k : Nat) x, s.queues[k]? = some x → x.subscribed = true → Last (published t s) x.items
  frames : ∀ number after, (s.frames (.socket number after)).map TaskEventCopy.cursor =
    List.range' (after + 1) (s.frames (.socket number after)).length
  client : Reached first s.client

/-- What the coroutine `p` relies on: nobody else takes from its queue or sends on its socket,
and only the loop publishes. -/
structure Rely (t : TaskId) (p : Pid) (s s' : State) : Prop where
  queues : ∀ (k : Nat) x, s.queues[k]? = some x → x.owner = p →
    ∃ x', s'.queues[k]? = some x' ∧ x'.owner = p ∧
      (x.subscribed = true → x'.subscribed = true ∧ passed t s' x' = passed t s x)
  frames : s'.frames p = s.frames p
  loop : p = .loop → s'.looping = s.looping ∧ s'.unpublished = s.unpublished

def Guar (t : TaskId) (p : Pid) (s s' : State) : Prop := ∀ q, q ≠ p → Rely t q s s'

section

variable {cfg : Config} {t : TaskId} {first : Nat} {p q : Pid} {s s' s'' : State}

theorem Rely.refl (t : TaskId) (p : Pid) (s : State) : Rely t p s s :=
  ⟨fun _ x hx ho => ⟨x, hx, ho, fun hs => ⟨hs, rfl⟩⟩, rfl, fun _ => ⟨rfl, rfl⟩⟩

theorem Rely.trans (h : Rely t p s s') (h' : Rely t p s' s'') : Rely t p s s'' := by
  constructor
  case queues =>
    intro k x hx ho
    obtain ⟨x', hx', ho', hk⟩ := h.queues k x hx ho
    obtain ⟨x'', hx'', ho'', hk'⟩ := h'.queues k x' hx' ho'
    refine ⟨x'', hx'', ho'', fun hs => ?_⟩
    obtain ⟨hs', hpassed⟩ := hk hs
    obtain ⟨hs'', hpassed'⟩ := hk' hs'
    exact ⟨hs'', hpassed'.trans hpassed⟩
  case frames => exact h'.frames.trans h.frames
  case loop =>
    intro hp
    exact ⟨(h'.loop hp).1.trans (h.loop hp).1, (h'.loop hp).2.trans (h.loop hp).2⟩

/-- Queues and frames are left alone, and as many copies are published as before. -/
theorem Rely.of_same (hq : s'.queues = s.queues) (hp : published t s' = published t s)
    (hf : s'.frames = s.frames)
    (hl : p = .loop → s'.looping = s.looping ∧ s'.unpublished = s.unpublished) : Rely t p s s' where
  queues := by
    intro k x hx ho
    exact ⟨x, hq ▸ hx, ho, fun hs => ⟨hs, by rw [passed, hp, passed]⟩⟩
  frames := by rw [hf]
  loop := hl

/-- The ledger moves on, and the copies of the task stay as they are. -/
theorem Inv.moved {w : Mirror} (hs : Inv t first s)
    (hv : w.store.version = schemaVersion) (hk : Kept w.store.ledger)
    (hc : count t w.store.ledger = count t s.ledger) :
    Inv t first { s with mirror := w } ∧ ∀ p, Rely t p s { s with mirror := w } := by
  have hp : published t { s with mirror := w } = published t s := by
    show count t w.store.ledger - _ = _
    rw [hc, published]
  refine ⟨?_, fun p => .of_same rfl hp rfl fun _ => ⟨rfl, rfl⟩⟩
  constructor
  case version => exact hv
  case kept => exact hk
  case unpublished =>
    show Last (count t w.store.ledger) s.unpublished
    rw [hc]
    exact hs.unpublished
  case idle => exact hs.idle
  case queues =>
    intro k x hx hsub
    rw [hp]
    exact hs.queues k x hx hsub
  case frames => exact hs.frames
  case client => exact hs.client

/-! ### Calls of the loop -/

/-- What the loop has at each of its calls but the publishing of a page. -/
def Between (s : State) : Prop := s.looping = true ∧ s.unpublished = []

theorem Between.rely (h : Between s) (hr : Rely t .loop s s') : Between s' :=
  ⟨(hr.loop rfl).1.trans h.1, (hr.loop rfl).2.trans h.2⟩

/-- What the loop has when a page is committed, or the transaction has failed. -/
def Committed (c : ConversationId) : Except SocketExn (List (Nat × String)) → State → Prop
  | .ok inserted, s => s.looping = true ∧ s.unpublished = copiesOf c inserted
  | .error _, s => Between s

theorem Inv.copyTaskEventPage {o : Oracle} {c : ConversationId} {events : List Event}
    {r : Except SocketExn (List (Nat × String))} (hs : Inv t first s) (hb : Between s)
    (ha : s.answer cfg t p o (.copyTaskEventPage c events) = some (r, s')) :
    Inv t first s' ∧ Guar t .loop s s' ∧ Committed c r s' := by
  simp only [State.answer, State.transact] at ha
  split at ha
  next x hx =>
    obtain ⟨rfl, rfl⟩ := Prod.mk.inj (Option.some.inj ha)
    exact ⟨hs, fun q _ => .refl t q s, hb⟩
  next hx =>
    rcases hs.kept.numbered.copyTaskEventPage s.mirror.clock t c cfg.eventPayload events with
      ⟨x, hx⟩ | ⟨ins, l', hx, hcop⟩
    · rw [hx] at ha
      obtain ⟨rfl, rfl⟩ := Prod.mk.inj (Option.some.inj ha)
      exact ⟨hs, fun q _ => .refl t q s, hb⟩
    · rw [hx] at ha
      obtain ⟨rfl, rfl⟩ := Prod.mk.inj (Option.some.inj ha)
      obtain ⟨hcursors, hcount⟩ := cursors_copyTaskEventPage hs.kept.numbered hx
      obtain ⟨hlooping, hnone⟩ := hb
      have hunpublished : s.unpublished ++ copiesOf c ins = copiesOf c ins := by
        rw [hnone, List.nil_append]
      have hlen : (copiesOf c ins).length = ins.length := List.length_map ..
      have hcopies : (copiesOf c ins).map TaskEventCopy.cursor =
          List.range' (count t s.ledger + 1) (copiesOf c ins).length := by
        rw [hlen, ← hcursors, copiesOf, List.map_map]
        rfl
      have hp : published t s = count t s.ledger := by rw [published, hnone]; rfl
      have hsame : ∀ s₁ : State, s₁.ledger = l' → s₁.unpublished = copiesOf c ins →
          published t s₁ = published t s := by
        intro s₁ h₁ h₂
        rw [published, h₁, h₂, hcount, hlen, hp, Nat.add_sub_cancel]
      refine ⟨?_, fun q hq => .of_same rfl (hsame _ rfl hunpublished) rfl fun h => absurd h hq,
        hlooping, hunpublished⟩
      constructor
      case version => exact hs.version
      case kept => exact hs.kept.copied hcop
      case unpublished =>
        show Last (count t l') (s.unpublished ++ copiesOf c ins)
        have hlast := (Last.nil (count t s.ledger)).append hcopies
        rwa [hunpublished, hcount, ← hlen]
      case idle =>
        intro hidle
        exact absurd (hlooping.symm.trans hidle) (by simp)
      case queues =>
        intro k x hx hsub
        rw [hsame _ rfl hunpublished]
        exact hs.queues k x hx hsub
      case frames => exact hs.frames
      case client => exact hs.client

/-- Every queue gets the whole page. -/
theorem Inv.publish {o : Oracle} {r : Unit} (hs : Inv t first s)
    (hroom : ∀ x ∈ s.queues, x.subscribed = true →
      x.items.length + s.unpublished.length ≤ queueSize)
    (ha : s.answer cfg t p o (.publish s.unpublished) = some (r, s')) :
    Inv t first s' ∧ Guar t .loop s s' ∧ s'.looping = s.looping ∧ s'.unpublished = [] := by
  obtain ⟨-, rfl⟩ := Prod.mk.inj (Option.some.inj ha)
  obtain ⟨hle, hcursors⟩ := hs.unpublished
  have hnow : count t s.ledger = published t s + s.unpublished.length := by
    rw [published]
    omega
  have hcopies : s.unpublished.map TaskEventCopy.cursor =
      List.range' (published t s + 1) s.unpublished.length := hcursors
  have hput : ∀ {x}, x ∈ s.queues → x.subscribed = true →
      s.unpublished.foldl Subscriber.putNowait x = { x with items := x.items ++ s.unpublished } :=
    fun hx hsub => foldl_putNowait hsub (hroom _ hx hsub)
  refine ⟨?_, fun q hq => ?_, rfl, rfl⟩
  · constructor
    case version => exact hs.version
    case kept => exact hs.kept
    case unpublished => exact .nil _
    case idle => exact fun _ => rfl
    case queues =>
      intro k x' hx' hsub
      rw [getElem?_publish] at hx'
      obtain ⟨x, hx, rfl⟩ := Option.map_eq_some_iff.mp hx'
      show Last (count t s.ledger) _
      cases hxs : x.subscribed with
      | true =>
          rw [hput (List.mem_of_getElem? hx) hxs, hnow]
          exact (hs.queues k x hx hxs).append hcopies
      | false =>
          rw [foldl_putNowait_closed hxs, hxs] at hsub
          cases hsub
    case frames => exact hs.frames
    case client => exact hs.client
  · refine ⟨fun k x hx ho => ?_, rfl, fun h => absurd h hq⟩
    refine ⟨s.unpublished.foldl Subscriber.putNowait x, ?_, ?_, fun hxs => ?_⟩
    · show (TaskSocket.publish s.unpublished s.queues)[k]? = _
      rw [getElem?_publish, hx]
      rfl
    · cases hxs : x.subscribed with
      | true => rw [hput (List.mem_of_getElem? hx) hxs]; exact ho
      | false => rw [foldl_putNowait_closed hxs]; exact ho
    · rw [hput (List.mem_of_getElem? hx) hxs]
      refine ⟨hxs, ?_⟩
      show count t s.ledger - (x.items ++ s.unpublished).length = _
      rw [List.length_append, passed, hnow]
      omega

/-! ### Calls of a socket -/

/-- A socket has `left` to send before it goes on from its queue, and by then it has sent all
that the queue has passed. -/
structure Due (t : TaskId) (m a number after : Nat) (left : List TaskEventCopy) (s : State) :
    Prop where
  queue : ∃ x, s.queues[number]? = some x ∧ x.owner = .socket m a ∧ x.subscribed = true ∧
    passed t s x ≤ after + left.length
  left : left.map TaskEventCopy.cursor = List.range' (after + 1) left.length
  frames : after = a + (s.frames (.socket m a)).length

/-- The queue is one of the coroutine. -/
def Owned (p : Pid) (number : Nat) (s : State) : Prop :=
  ∃ x, s.queues[number]? = some x ∧ x.owner = p

variable {m a number after : Nat} {left : List TaskEventCopy} {copy : TaskEventCopy}

theorem Due.rely (h : Due t m a number after left s) (hr : Rely t (.socket m a) s s') :
    Due t m a number after left s' := by
  obtain ⟨⟨x, hx, ho, hsub, hpassed⟩, hleft, hframes⟩ := h
  obtain ⟨x', hx', ho', hk⟩ := hr.queues number x hx ho
  obtain ⟨hsub', hsame⟩ := hk hsub
  exact ⟨⟨x', hx', ho', hsub', hsame.trans_le hpassed⟩, hleft, by rw [hr.frames]; exact hframes⟩

theorem Due.owned (h : Due t m a number after left s) : Owned (.socket m a) number s := by
  obtain ⟨x, hx, ho, -⟩ := h.queue
  exact ⟨x, hx, ho⟩

theorem Owned.rely (h : Owned p number s) (hr : Rely t p s s') : Owned p number s' := by
  obtain ⟨x, hx, ho⟩ := h
  obtain ⟨x', hx', ho', -⟩ := hr.queues number x hx ho
  exact ⟨x', hx', ho'⟩

theorem Inv.subscribe {o : Oracle} {r : Nat × List TaskEventCopy} (hs : Inv t first s)
    (hf : s.frames (.socket m a) = [])
    (ha : s.answer cfg t (.socket m a) o (.subscribe a) = some (r, s')) :
    Inv t first s' ∧ Guar t (.socket m a) s s' ∧ Due t m a r.1 a r.2 s' := by
  obtain ⟨rfl, rfl⟩ := Prod.mk.inj (Option.some.inj ha)
  refine ⟨?_, fun q hq => ?_, ?_⟩
  · constructor
    case version => exact hs.version
    case kept => exact hs.kept
    case unpublished => exact hs.unpublished
    case idle => exact hs.idle
    case queues =>
      intro k x hx hsub
      replace hx : (s.queues ++ [⟨.socket m a, [], true⟩])[k]? = some x := hx
      rw [List.getElem?_append] at hx
      split at hx
      · exact hs.queues k x hx hsub
      · obtain rfl := List.mem_singleton.mp (List.mem_of_getElem? hx)
        exact .nil _
    case frames => exact hs.frames
    case client => exact hs.client
  · refine ⟨fun k x hx ho => ?_, rfl, fun _ => ⟨rfl, rfl⟩⟩
    have hlt : k < s.queues.length := (List.getElem?_eq_some_iff.mp hx).1
    refine ⟨x, ?_, ho, fun hsub => ⟨hsub, rfl⟩⟩
    show (s.queues ++ _)[k]? = _
    rw [List.getElem?_append_left hlt, hx]
  · have hcursors := cursors_listEventCopies (t := t) hs.kept a
    have hlen : (listEventCopies t a s.ledger).length = count t s.ledger - a := by
      rw [← List.length_map (f := TaskEventCopy.cursor), hcursors, List.length_range']
    refine ⟨⟨⟨.socket m a, [], true⟩, ?_, rfl, rfl, ?_⟩, ?_, ?_⟩
    · show (s.queues ++ _)[s.queues.length]? = _
      rw [List.getElem?_append_right (Nat.le_refl _), Nat.sub_self]
      rfl
    · show count t s.ledger - s.unpublished.length - 0 ≤ a + (listEventCopies t a s.ledger).length
      omega
    · rw [hlen]
      exact hcursors
    · show a = a + (s.frames (.socket m a)).length
      rw [hf]
      rfl

/-- What a coroutine does to its own queue. -/
theorem Inv.modify {f : Subscriber → Subscriber} {x : Subscriber} (hs : Inv t first s)
    (hx : s.queues[number]? = some x) (ho : x.owner = p)
    (hlast : (f x).subscribed = true → Last (published t s) (f x).items) :
    Inv t first (s.modify number f) ∧ Guar t p s (s.modify number f) := by
  refine ⟨?_, fun q hq => ⟨fun k y hy hoy => ?_, rfl, fun _ => ⟨rfl, rfl⟩⟩⟩
  · constructor
    case version => exact hs.version
    case kept => exact hs.kept
    case unpublished => exact hs.unpublished
    case idle => exact hs.idle
    case queues =>
      intro k y hy hsub
      replace hy : (s.queues.modify number f)[k]? = some y := hy
      rw [List.getElem?_modify] at hy
      by_cases hk : number = k
      · subst hk
        simp only [if_pos, hx, Option.map_eq_map, Option.map_some] at hy
        obtain rfl := Option.some.inj hy
        exact hlast hsub
      · simp only [if_neg hk, id_map'] at hy
        exact hs.queues k y hy hsub
    case frames => exact hs.frames
    case client => exact hs.client
  · have hk : number ≠ k := by
      rintro rfl
      rw [hx] at hy
      obtain rfl := Option.some.inj hy
      exact hq (hoy.symm.trans ho)
    refine ⟨y, ?_, hoy, fun hsub => ⟨hsub, rfl⟩⟩
    show (s.queues.modify number f)[k]? = some y
    simp only [List.getElem?_modify, if_neg hk, id_map', hy]

theorem Inv.get {o : Oracle} (hs : Inv t first s) (hd : Due t m a number after [] s)
    (ha : s.answer cfg t (.socket m a) o (.get number) = some (copy, s')) :
    Inv t first s' ∧ Guar t (.socket m a) s s' ∧
      Due t m a number after (if copy.cursor ≤ after then [] else [copy]) s' := by
  obtain ⟨⟨x, hx, ho, hsub, hpassed⟩, -, hframes⟩ := hd
  simp only [State.answer] at ha
  split at ha
  next owner head items subscribed hx' =>
    obtain rfl := Option.some.inj (hx.symm.trans hx')
    obtain ⟨rfl, rfl⟩ := Prod.mk.inj (Option.some.inj ha)
    have hlast := hs.queues number _ hx hsub
    obtain ⟨hinv, hguar⟩ := hs.modify (f := fun x => { x with items }) hx ho fun _ => hlast.tail
    have hle := hlast.1
    have hcursor := hlast.head
    rw [List.length_cons] at hle
    replace hpassed : published t s - (items.length + 1) ≤ after + 0 := hpassed
    have hx₁ : (s.modify number fun x => { x with items }).queues[number]? =
        some ⟨owner, items, subscribed⟩ := by
      simp [State.modify, hx]
    refine ⟨hinv, hguar, ⟨⟨_, hx₁, ho, hsub, ?_⟩, ?_, hframes⟩⟩
    · show published t s - items.length ≤ _
      split <;> simp only [List.length_nil, List.length_singleton] <;> omega
    · split
      · rfl
      · rw [List.map_singleton, List.length_singleton, List.range'_one]
        congr 1
        omega
  next => cases ha

/-- What a socket has after it tried to send. -/
def Sent (t : TaskId) (m a number after : Nat) (left : List TaskEventCopy) :
    Except SocketExn Unit → State → Prop
  | .ok (), s => Due t m a number after left s
  | .error _, s => Owned (.socket m a) number s

theorem Inv.send {o : Oracle} {r : Except SocketExn Unit} (hs : Inv t first s)
    (hd : Due t m a number after (copy :: left) s)
    (ha : s.answer cfg t (.socket m a) o (.send copy) = some (r, s')) :
    Inv t first s' ∧ Guar t (.socket m a) s s' ∧ Sent t m a number copy.cursor left r s' := by
  simp only [State.answer] at ha
  split at ha
  · obtain ⟨rfl, rfl⟩ := Prod.mk.inj (Option.some.inj ha)
    exact ⟨hs, fun q _ => .refl t q s, hd.owned⟩
  split at ha
  · obtain ⟨rfl, rfl⟩ := Prod.mk.inj (Option.some.inj ha)
    exact ⟨hs, fun q _ => .refl t q s, hd.owned⟩
  · obtain ⟨rfl, rfl⟩ := Prod.mk.inj (Option.some.inj ha)
    obtain ⟨⟨x, hx, ho, hsub, hpassed⟩, hleft, hframes⟩ := hd
    rw [List.map_cons, List.length_cons, List.range'_succ] at hleft
    obtain ⟨hcursor, hrest⟩ := List.cons.inj hleft
    have hself : (s.sent (.socket m a) copy).frames (.socket m a) =
        s.frames (.socket m a) ++ [copy] := Function.update_self ..
    refine ⟨?_, fun q hq => ⟨fun k y hy hoy => ⟨y, hy, hoy, fun h => ⟨h, rfl⟩⟩,
      Function.update_of_ne hq .., fun _ => ⟨rfl, rfl⟩⟩, ⟨x, hx, ho, hsub, ?_⟩, ?_, ?_⟩
    · constructor
      case version => exact hs.version
      case kept => exact hs.kept
      case unpublished => exact hs.unpublished
      case idle => exact hs.idle
      case queues => exact hs.queues
      case frames =>
        intro n b
        by_cases hp : Pid.socket n b = .socket m a
        · obtain ⟨rfl, rfl⟩ := Pid.socket.inj hp
          rw [hself, List.map_append, hs.frames, List.length_append, List.length_singleton,
            List.range'_concat, List.map_singleton, hcursor, hframes]
          congr 2
          omega
        · have hother : (s.sent (.socket m a) copy).frames (.socket n b) = s.frames (.socket n b) :=
            Function.update_of_ne hp ..
          rw [hother]
          exact hs.frames n b
      case client => exact hs.client
    · replace hpassed : passed t s x ≤ after + (left.length + 1) := hpassed
      show passed t s x ≤ copy.cursor + left.length
      omega
    · rw [hcursor]
      exact hrest
    · rw [hself, List.length_append, List.length_singleton, hcursor, hframes]
      rfl

/-! ### Programs -/

open Co (Keeps)

/-- The contract of a coroutine while queues have room. -/
def pidContract (cfg : Config) (t : TaskId) (first : Nat) (p : Pid) :
    Prog.Contract Call.Out (State × Hist) :=
  Machine.contract (M := sockets cfg t) (roomy cfg t) (Inv t first) (Rely t) (Guar t) p

/-- The obligation of one call. -/
theorem safe_ask {c : Call} {P : c.Out → State → Prop} {exn : SocketExn → State × Hist → Prop}
    {h : Hist} (H : ∀ s₁ o r s₂, Inv t first s₁ → Rely t p s s₁ →
      (roomy cfg t).call p h c s₁ r = true → s₁.answer cfg t p o c = some (r, s₂) →
      Inv t first s₂ ∧ Guar t p s₁ s₂ ∧ P r s₂) :
    Safe (pidContract cfg t first p) (ask c) (fun r w => P r w.1) exn (s, h) := by
  rintro ⟨s₁, h₁⟩ hinv ⟨hrely, hh⟩ r ⟨s₂, h₂⟩ ⟨hroom, ⟨o, ho⟩, hh₂⟩
  obtain rfl : h₁ = h := hh
  obtain rfl : h₂ = _ := hh₂
  obtain ⟨hinv₂, hguar, hP⟩ := H s₁ o r s₂ hinv hrely hroom ho
  exact ⟨hinv₂, ⟨hguar, Machine.Cond.last_trivial p _⟩, hP⟩

theorem safe_result {E : Prog.Contract Call.Out (State × Hist)} {α : Type}
    {r : Except SocketExn α} {post : α → State × Hist → Prop}
    {exn : SocketExn → State × Hist → Prop} {w : State × Hist}
    (h : match r with | .ok a => post a w | .error x => exn x w) :
    Safe E (result r) post exn w := by
  cases r with
  | ok a => exact h
  | error x => exact h

theorem keeps_result {E : Prog.Contract Call.Out (State × Hist)} {A : State × Hist → Prop}
    {α : Type} (r : Except SocketExn α) : Keeps E A (result r) := by
  cases r with
  | ok a => exact .pure a
  | error x => exact .throw x

/-- The calls that change nothing. -/
def Call.quiet : Call → Bool
  | .nextRound | .eventSourceCursor _ | .conversationEvents _ _ _ | .admission | .close _
  | .rounds | .never => true
  | _ => false

theorem answer_quiet {o : Oracle} {c : Call} {r : c.Out} (hc : c.quiet = true)
    (h : s.answer cfg t p o c = some (r, s')) : s' = s := by
  cases c <;> simp only [Call.quiet, Bool.false_eq_true] at hc
  case never => cases h
  case conversationEvents =>
    simp only [State.answer] at h
    split at h
    · exact (Prod.mk.inj (Option.some.inj h)).2.symm
    · split at h <;> exact (Prod.mk.inj (Option.some.inj h)).2.symm
  case eventSourceCursor =>
    simp only [State.answer, State.transact] at h
    split at h <;> exact (Prod.mk.inj (Option.some.inj h)).2.symm
  all_goals exact (Prod.mk.inj (Option.some.inj h)).2.symm

/-- What neither the others nor a call without effect can break. -/
theorem safe_quiet {c : Call} {A : State → Prop} {exn : SocketExn → State × Hist → Prop} {h : Hist}
    (hc : c.quiet = true) (hA : ∀ s', Rely t p s s' → A s') :
    Safe (pidContract cfg t first p) (ask c) (fun _ w => A w.1) exn (s, h) := by
  refine safe_ask (P := fun _ => A) fun s₁ o r s₂ hinv hrely _ ho => ?_
  obtain rfl := answer_quiet hc ho
  exact ⟨hinv, fun q _ => .refl t q s₂, hA s₂ hrely⟩

theorem keeps_loop {E : Prog.Contract Call.Out (State × Hist)} {A : State × Hist → Prop}
    {α β : Type} {a : α} {body : α → Routine (α ⊕ β)} (hrounds : Keeps E A (ask .rounds))
    (hbody : ∀ a, Keeps E A (body a)) : Keeps E A (loop a body) := by
  refine Keeps.bind hrounds fun n w hw => ?_
  refine Safe.loopFrom (I := fun _ => A) (fun w => ?_) (fun a w hw => ?_) n a w hw
  · intro w₁ _ _ r
    exact nomatch r
  · refine Safe.mono (hbody a w hw) (fun r w hr => ?_) fun _ _ h => h
    cases r with
    | inl a => exact hr
    | inr b => exact hr

/-- What the loop keeps from round to round. -/
abbrev KeepsBetween (cfg : Config) (t : TaskId) (first : Nat) {α : Type} (p : Routine α) : Prop :=
  Keeps (pidContract cfg t first .loop) (fun w => Between w.1) p

theorem keeps_quiet {c : Call} (hc : c.quiet = true) : KeepsBetween cfg t first (ask c) :=
  fun ⟨_, _⟩ hs => safe_quiet hc fun _ hr => hs.rely hr

theorem keeps_copyPage (c : ConversationId) (events : List Event) :
    KeepsBetween cfg t first (copyPage c events) := by
  rintro ⟨s, h⟩ hs
  have hcommit : Safe (pidContract cfg t first .loop) (ask (.copyTaskEventPage c events))
      (fun r w => Committed c r w.1) (fun _ w => Between w.1) (s, h) := by
    refine safe_ask (c := .copyTaskEventPage c events) (P := Committed c)
      fun s₁ o r s₂ hinv hrely _ ho => ?_
    exact hinv.copyTaskEventPage (hs.rely hrely) ho
  refine Safe.seq hcommit fun r w hw => ?_
  obtain ⟨s₁, h₁⟩ := w
  cases r with
  | error x => exact hw
  | ok inserted =>
      obtain ⟨hlooping, hunpublished⟩ := hw
      refine safe_ask (P := fun _ => Between) fun s₂ o r s₃ hinv hrely hroom ho => ?_
      obtain ⟨hlooping₂, hunpublished₂⟩ := hrely.loop rfl
      have hcopies : copiesOf c inserted = s₂.unpublished := (hunpublished₂.trans hunpublished).symm
      rw [hcopies] at ho hroom
      have hroom' : ∀ x ∈ s₂.queues, x.subscribed = true →
          x.items.length + s₂.unpublished.length ≤ queueSize := by
        intro x hx hsub
        have hall := List.all_eq_true.mp hroom x hx
        rw [hsub] at hall
        exact of_decide_eq_true hall
      obtain ⟨hinv₃, hguar, hlooping₃, hnone⟩ := hinv.publish hroom' ho
      exact ⟨hinv₃, hguar, hlooping₃.trans (hlooping₂.trans hlooping), hnone⟩

theorem keeps_syncEvents (c : ConversationId) : KeepsBetween cfg t first (syncEvents c) := by
  have hround : ∀ after, KeepsBetween cfg t first (syncRound c after) := by
    intro after
    refine Keeps.bind (keeps_quiet rfl) fun reply => ?_
    refine Keeps.bind (keeps_result reply) fun page => ?_
    cases page with
    | notFound => exact .pure _
    | page es =>
        cases es with
        | nil => exact .pure _
        | cons e es =>
            show KeepsBetween cfg t first (ite _ _ _)
            split
            · exact .throw _
            · refine Keeps.bind (keeps_copyPage c (e :: es)) fun _ => ?_
              show KeepsBetween cfg t first (ite _ _ _)
              split
              · exact .pure _
              · exact .pure _
  refine Keeps.bind (keeps_quiet rfl) fun cursor => ?_
  refine Keeps.bind (keeps_result cursor) fun after => ?_
  exact keeps_loop (keeps_quiet rfl) hround

theorem keeps_superviseRound (u : Unit) : KeepsBetween cfg t first (superviseRound u) := by
  refine Keeps.bind (keeps_quiet rfl) fun next => ?_
  cases next with
  | none => exact .pure _
  | some c =>
      refine Keeps.bind (Keeps.attempt (keeps_syncEvents c)) fun r => ?_
      unfold afterSync
      split
      · split
        · exact .pure _
        · exact .throw _
      · exact .throw _
      · exact .pure _

theorem safe_supervise {h : Hist} (hs : Between s) :
    supervise.run.Safe (pidContract cfg t first .loop) (fun _ _ => True) (s, h) := by
  have hrun : Safe (pidContract cfg t first .loop) supervise (fun _ _ => True) (fun _ _ => True)
      (s, h) := by
    have hloop := Keeps.attempt (keeps_loop (a := ()) (keeps_quiet rfl)
      (@keeps_superviseRound cfg t first))
    refine Safe.bind (Safe.mono (hloop (s, h) hs) (fun _ w hw => ?_) fun _ _ _ => trivial)
    obtain ⟨s₁, h₁⟩ := w
    refine safe_ask (P := fun _ _ => True) fun s₂ o r s₃ hinv hrely _ ho => ?_
    have hb : Between s₂ := Between.rely hw hrely
    obtain ⟨-, rfl⟩ := Prod.mk.inj (Option.some.inj ho)
    refine ⟨⟨hinv.version, hinv.kept, hinv.unpublished, fun _ => hb.2, hinv.queues, hinv.frames,
      hinv.client⟩, fun q hq => .of_same rfl rfl rfl fun h => absurd h hq, trivial⟩
  refine Prog.Safe.mono hrun fun r w hr => trivial

/-! ### The program of a socket -/

theorem safe_sendJson {h : Hist} (hd : Due t m a number after (copy :: left) s) :
    Safe (pidContract cfg t first (.socket m a)) (sendJson copy)
      (fun _ w => Due t m a number copy.cursor left w.1)
      (fun _ w => Owned (.socket m a) number w.1) (s, h) := by
  have hsend : Safe (pidContract cfg t first (.socket m a)) (ask (.send copy))
      (fun r w => Sent t m a number copy.cursor left r w.1)
      (fun _ w => Owned (.socket m a) number w.1) (s, h) := by
    refine safe_ask (c := .send copy) (P := Sent t m a number copy.cursor left)
      fun s₁ o r s₂ hinv hrely _ ho => ?_
    exact hinv.send (hd.rely hrely) ho
  refine Safe.seq hsend fun r w hw => safe_result ?_
  cases r with
  | ok u => exact hw
  | error x => exact hw

theorem safe_replay {h : Hist} (hd : Due t m a number after left s) :
    Safe (pidContract cfg t first (.socket m a)) (replay left after)
      (fun after w => Due t m a number after [] w.1)
      (fun _ w => Owned (.socket m a) number w.1) (s, h) := by
  induction left generalizing s h after with
  | nil => exact hd
  | cons copy left ih => exact Safe.seq (safe_sendJson hd) fun _ w hw => ih hw

theorem safe_forward {h : Hist} (hd : Due t m a number after [] s) :
    Safe (pidContract cfg t first (.socket m a)) (forward number after)
      (fun r w => match r with
        | .inl after => Due t m a number after [] w.1
        | .inr _ => Owned (.socket m a) number w.1)
      (fun _ w => Owned (.socket m a) number w.1) (s, h) := by
  have hget : Safe (pidContract cfg t first (.socket m a)) (ask (.get number))
      (fun (copy : TaskEventCopy) w =>
        Due t m a number after (if copy.cursor ≤ after then [] else [copy]) w.1)
      (fun _ w => Owned (.socket m a) number w.1) (s, h) := by
    refine safe_ask (c := .get number) (P := fun (copy : TaskEventCopy) s =>
      Due t m a number after (if copy.cursor ≤ after then [] else [copy]) s)
      fun s₁ o r s₂ hinv hrely _ ho => ?_
    exact hinv.get (hd.rely hrely) ho
  refine Safe.seq hget fun copy w hw => ?_
  show Safe _ (ite _ _ _) _ _ _
  split
  next hle =>
    rw [if_pos hle] at hw
    exact hw
  next hlt =>
    rw [if_neg hlt] at hw
    obtain ⟨s₁, h₁⟩ := w
    exact Safe.seq (safe_sendJson hw) fun _ w hw => hw

theorem safe_connected {h : Hist} (hd : Due t m a number after left s) :
    Safe (pidContract cfg t first (.socket m a)) (connected number after left)
      (fun _ w => Owned (.socket m a) number w.1)
      (fun _ w => Owned (.socket m a) number w.1) (s, h) := by
  refine Safe.seq (safe_replay hd) fun after w hw => ?_
  obtain ⟨s₁, h₁⟩ := w
  refine Safe.seq (Q := fun _ w => Due t m a number after [] w.1)
    (safe_quiet rfl fun s' hr => Due.rely hw hr) fun n w hw => ?_
  refine Safe.loopFrom (I := fun after w => Due t m a number after [] w.1) (fun w => ?_)
    (fun after w hw => ?_) n after w hw
  · intro w₁ _ _ r
    exact nomatch r
  · obtain ⟨s₂, h₂⟩ := w
    refine Safe.mono (safe_forward hw) (fun r w hr => ?_) fun _ _ h => h
    cases r with
    | inl after => exact hr
    | inr _ => exact hr

theorem safe_disconnected {h : Hist} (ho : Owned (.socket m a) number s)
    (r : Except SocketExn Unit) :
    Safe (pidContract cfg t first (.socket m a)) (disconnected number r) (fun _ _ => True)
      (fun _ _ => True) (s, h) := by
  have hask : Safe (pidContract cfg t first (.socket m a)) (ask (.unsubscribe number))
      (fun _ _ => True) (fun _ _ => True) (s, h) := by
    refine safe_ask (P := fun _ _ => True) fun s₁ o r s₂ hinv hrely _ ha => ?_
    obtain ⟨x, hx, hox⟩ := ho.rely hrely
    obtain ⟨-, rfl⟩ := Prod.mk.inj (Option.some.inj ha)
    obtain ⟨hinv₂, hguar⟩ :=
      hinv.modify (f := fun x => { x with subscribed := false }) hx hox fun h => by cases h
    exact ⟨hinv₂, hguar, trivial⟩
  refine Safe.seq hask fun _ w _ => ?_
  split
  · trivial
  · exact safe_result (by split <;> trivial)

theorem safe_streamTaskEvents {h : Hist} (hf : s.frames (.socket m a) = []) :
    (streamTaskEvents a).run.Safe (pidContract cfg t first (.socket m a)) (fun _ _ => True)
      (s, h) := by
  have hrun : Safe (pidContract cfg t first (.socket m a)) (streamTaskEvents a) (fun _ _ => True)
      (fun _ _ => True) (s, h) := by
    refine Safe.seq (Q := fun _ w => w.1.frames (.socket m a) = [])
      (safe_quiet rfl fun s' hr => hr.frames.trans hf) fun admitted w hw => ?_
    obtain ⟨s₁, h₁⟩ := w
    cases admitted with
    | false =>
        exact safe_quiet (A := fun _ => True) rfl fun _ _ => trivial
    | true =>
        have hsub : Safe (pidContract cfg t first (.socket m a)) (ask (.subscribe a))
            (fun (r : Nat × List TaskEventCopy) w => Due t m a r.1 a r.2 w.1)
            (fun _ _ => True) (s₁, h₁) := by
          refine safe_ask (c := .subscribe a)
            (P := fun (r : Nat × List TaskEventCopy) s => Due t m a r.1 a r.2 s)
            fun s₂ o r s₃ hinv hrely _ ho => ?_
          exact hinv.subscribe (hrely.frames.trans hw) ho
        refine Safe.seq hsub fun r w hw => ?_
        obtain ⟨number, copies⟩ := r
        obtain ⟨s₂, h₂⟩ := w
        refine Safe.seq (Safe.attempt_either (safe_connected hw)) fun r w hw => ?_
        exact safe_disconnected hw r
  exact Prog.Safe.mono hrun fun r w hr => trivial

/-! ### Every run -/

theorem Inv.mirror {e : Mirror.Happening} (hs : Inv t first s)
    (h : (Happening.mirror e).apply cfg t s = some s') :
    Inv t first s' ∧ ((sockets cfg t).kills (.mirror e) = false → ∀ p, Rely t p s s') := by
  obtain ⟨mirror, hm, rfl⟩ := Option.map_eq_some_iff.mp h
  have hsame : mirror.store = s.mirror.store →
      Inv t first { s with mirror } ∧ ∀ p, Rely t p s { s with mirror } := by
    intro hstore
    have hledger : mirror.store.ledger = s.ledger := by rw [hstore]
    exact hs.moved (hstore ▸ hs.version) (hledger ▸ hs.kept) (by rw [hledger])
  cases e with
  | append u c kind payload =>
      obtain rfl := Option.some.inj hm
      exact ⟨(hsame rfl).1, fun _ => (hsame rfl).2⟩
  | tick n =>
      obtain rfl := Option.some.inj hm
      exact ⟨(hsame rfl).1, fun _ => (hsame rfl).2⟩
  | ledger op =>
      simp only [Mirror.Happening.apply] at hm
      split at hm
      next hop =>
        obtain ⟨store, hstore, rfl⟩ := Option.map_eq_some_iff.mp hm
        have hstill := Mirror.still_apply hs.version hop hstore
        have hcount : count t store.ledger = count t s.ledger := by
          rw [count, identitiesOf, hstill.identities]
          rfl
        have hmoved := hs.moved (w := { s.mirror with store })
          (version_applyAll hs.version hstore)
          (hs.kept.still hstill.counters hstill.identities hstill.copies) hcount
        exact ⟨hmoved.1, fun _ => hmoved.2⟩
      next => cases hm
  | crash =>
      obtain rfl := Option.some.inj hm
      refine ⟨?_, fun hkill => by cases hkill⟩
      constructor
      case version => exact hs.version
      case kept => exact hs.kept
      case unpublished => exact .nil _
      case idle => exact fun _ => rfl
      case queues => exact fun k x hx => by cases hx
      case frames => exact hs.frames
      case client => exact hs.client

/-- The frames of a connection have the cursors after the one it was opened with. -/
theorem Inv.frame {k : Nat} (hs : Inv t first s)
    (h : (s.frames (.socket number after))[k]? = some copy) : copy.cursor = after + 1 + k := by
  have hcursor : ((s.frames (.socket number after)).map TaskEventCopy.cursor)[k]? =
      some copy.cursor := by rw [List.getElem?_map, h]; rfl
  rw [hs.frames, List.getElem?_range' (List.getElem?_eq_some_iff.mp h).1] at hcursor
  have hcursor := Option.some.inj hcursor
  omega

theorem Reached.receive {x : TaskEventSubscription} (hx : Reached first x)
    (hcursor : copy.cursor = x.cursor + 1) : Reached first (x.receive copy) := by
  have hlen : (x.receive copy).received.length = x.received.length + 1 := by
    simp [TaskEventSubscription.receive]
  have hmax : (x.receive copy).cursor = x.cursor + 1 := by
    simp [TaskEventSubscription.receive, hcursor]
  constructor
  case received =>
    show x.received ++ [copy.cursor] = _
    rw [hlen, List.range'_concat, ← hx.received, hcursor, hx.cursor]
    congr 2
    omega
  case cursor =>
    rw [hmax, hlen, hx.cursor]
    omega
  case connection =>
    intro number after hc
    rw [hmax, hx.connection number after hc]
    rfl

theorem Inv.client_moved {client : TaskEventSubscription} (hs : Inv t first s)
    (hc : Reached first client) :
    Inv t first { s with client } ∧ ∀ p, Rely t p s { s with client } :=
  ⟨⟨hs.version, hs.kept, hs.unpublished, hs.idle, hs.queues, hs.frames, hc⟩,
    fun _ => .of_same rfl rfl rfl fun _ => ⟨rfl, rfl⟩⟩

theorem Inv.happening {e : Happening} (hs : Inv t first s) (h : e.apply cfg t s = some s') :
    Inv t first s' ∧ ((sockets cfg t).kills e = false → ∀ p, Rely t p s s') := by
  cases e with
  | mirror e => exact hs.mirror h
  | otherPage u c events =>
      simp only [Happening.apply] at h
      split at h
      next => cases h
      next hu =>
        obtain rfl := Option.some.inj h
        rcases hs.kept.numbered.copyTaskEventPage s.mirror.clock u c cfg.eventPayload events with
          ⟨x, hx⟩ | ⟨ins, l', hx, hcop⟩
        · rw [hx]
          exact ⟨hs, fun _ p => .refl t p s⟩
        · rw [hx]
          have hmoved := hs.moved (w := s.mirror.withLedger l') hs.version
            (hs.kept.copied hcop) (count_other hcop hu)
          exact ⟨hmoved.1, fun _ => hmoved.2⟩
  | openConnection number =>
      obtain rfl := Option.some.inj h
      have hclient : Reached first (s.client.openConnection number) := by
        refine ⟨hs.client.received, hs.client.cursor, fun n b hc => ?_⟩
        obtain ⟨rfl, rfl⟩ := Prod.mk.inj (Option.some.inj hc)
        rfl
      have hmoved := hs.client_moved hclient
      exact ⟨hmoved.1, fun _ => hmoved.2⟩
  | receive =>
      simp only [Happening.apply] at h
      split at h
      next => cases h
      next number after hc =>
        obtain ⟨copy, hcopy, rfl⟩ := Option.map_eq_some_iff.mp h
        have hcursor : copy.cursor = s.client.cursor + 1 := by
          rw [hs.frame hcopy, hs.client.connection number after hc]
          omega
        have hmoved := hs.client_moved (hs.client.receive hcursor)
        exact ⟨hmoved.1, fun _ => hmoved.2⟩

theorem sound_sockets (cfg : Config) (t : TaskId) (first : Nat) :
    Machine.Sound (M := sockets cfg t) (roomy cfg t) (Inv t first) (Rely t) (Guar t)
      (fun _ _ _ => True) where
  rely_trans := fun _ _ _ _ h h' => h.trans h'
  guar_rely := fun _ q _ _ hne h => h q hne
  job := by
    intro p j s prog s' hs hj
    cases p with
    | loop =>
        cases j with
        | stream => cases hj
        | supervise =>
            simp only [sockets, Job.program] at hj
            split at hj
            next => cases hj
            next hidle =>
              obtain ⟨rfl, rfl⟩ := Prod.mk.inj (Option.some.inj hj)
              have hnone := hs.idle (by simpa using hidle)
              refine ⟨⟨hs.version, hs.kept, hs.unpublished, fun _ => hnone, hs.queues, hs.frames,
                hs.client⟩, fun q hq => .of_same rfl rfl rfl fun h => absurd h hq, ?_⟩
              exact safe_supervise ⟨rfl, hnone⟩
    | socket m a =>
        cases j with
        | supervise => cases hj
        | stream =>
            simp only [sockets, Job.program] at hj
            split at hj
            next hnew =>
              obtain ⟨rfl, rfl⟩ := Prod.mk.inj (Option.some.inj hj)
              exact ⟨hs, fun q _ => .refl t q s, safe_streamTaskEvents hnew⟩
            next => cases hj
  event := fun _ _ _ hs _ h => hs.happening h

theorem inv_start (t : TaskId) (first : Nat) : Inv t first (start first).shared where
  version := rfl
  kept := ⟨numbered_initialized, rfl⟩
  unpublished := .nil _
  idle := fun _ => rfl
  queues := fun _ _ hx => by cases hx
  frames := fun _ _ => rfl
  client := ⟨rfl, rfl, fun _ _ hc => by cases hc⟩

/-- The frames of every socket have the cursors after that of its request, without a gap, and
what the client has received are all the cursors up to its own. -/
structure Gapless (first : Nat) (s : State) : Prop where
  sent : ∀ number after, (s.frames (.socket number after)).map TaskEventCopy.cursor =
    List.range' (after + 1) (s.frames (.socket number after)).length
  reached : first ≤ s.client.cursor
  received : s.client.received = List.range' (first + 1) (s.client.cursor - first)

/-- While every page that is published finds room in the queues, no socket leaves out a
cursor, and a client that connects again from its own has missed none. -/
theorem sockets_gapless {cfg : Config} {t : TaskId} {first : Nat} {acts : List (sockets cfg t).Act}
    {w : Pool Pid Call.Out (Except SocketExn Unit) State}
    (hr : (sockets cfg t).run (start first) acts = some w)
    (hK : Machine.keeps (roomy cfg t) (start first) acts = true) : Gapless first w.shared := by
  have hok : Machine.Ok (M := sockets cfg t) (roomy cfg t) (Inv t first) (Rely t) (Guar t)
      (fun _ _ _ => True) (start first) :=
    ⟨inv_start t first, fun _ _ _ _ hth => nomatch hth⟩
  have hw := ((sound_sockets cfg t first).run (fun p s => .refl t p s) hok hK hr).1
  have hcursor := hw.client.cursor
  have hlen : w.shared.client.cursor - first = w.shared.client.received.length := by omega
  exact ⟨hw.frames, by omega, hlen ▸ hw.client.received⟩

end

/-- A task with two events. The first socket subscribes between the commit and the publishing
of the first page, and its replay has the copy that is published to it as well. -/
def racing (cfg : Config) : List (sockets cfg 1).Act :=
  let socket : Pid := .socket 0 0
  [.event (.mirror (.ledger (.store (.submit 1 Records.evidenceRequest)))),
   .event (.mirror (.append 1 5 "a" [])), .start .loop .supervise,
   .call .loop { fault := { rounds := 3 } }, .call .loop { conversation := some 5 },
   .call .loop {}, .call .loop { fault := { rounds := 3 } }, .call .loop {}, .call .loop {},
   .event (.openConnection 0), .start socket .stream, .call socket {}, .call socket {},
   .call .loop {}, .call socket {}, .call socket { fault := { rounds := 3 } },
   .event (.mirror (.append 1 5 "b" [])), .call .loop { conversation := some 5 },
   .call .loop {}, .call .loop { fault := { rounds := 3 } }, .call .loop {}, .call .loop {},
   .call .loop {}, .call socket {}, .call socket {}, .call socket {}, .event .receive,
   .event .receive]

theorem sockets_gapless_racing :
    ∃ w, (sockets Events.overlappingConfig 1).run (start 0) (racing Events.overlappingConfig) =
        some w ∧ w.shared.client.received = [1, 2] ∧
      (w.shared.frames (.socket 0 0)).map TaskEventCopy.cursor = [1, 2] ∧ Gapless 0 w.shared := by
  have hall : ((sockets Events.overlappingConfig 1).run (start 0)
      (racing Events.overlappingConfig)).any (fun w =>
        decide (w.shared.client.received = [1, 2]) &&
        decide ((w.shared.frames (.socket 0 0)).map TaskEventCopy.cursor = [1, 2])) = true := by
    decide +kernel
  have hroomy : Machine.keeps (roomy Events.overlappingConfig 1) (start 0)
      (racing Events.overlappingConfig) = true := by
    decide +kernel
  obtain ⟨w, hw, hseen⟩ := (Option.any_eq_true _ _).mp hall
  rw [Bool.and_eq_true, decide_eq_true_eq, decide_eq_true_eq] at hseen
  exact ⟨w, hw, hseen.1, hseen.2, sockets_gapless hw hroomy⟩

end GgAgent.TaskSocket
