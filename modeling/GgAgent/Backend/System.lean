import GgAgent.Backend.Service
import GgAgent.Lib.Pool

/-!
The whole backend as a pool of coroutines: one scheduler, one supervision loop
for each task, and any number of requests, over one database, one clock, the
locks of the process and the provider's sandboxes.

The provider, the sandboxes and the credential sources answer as an oracle of the
act says; nothing is assumed of the answers here. The effect of a create request
is part of its answer, so a request that is cut off by a crash has taken effect
before the crash or not at all. A transaction commits when its call is answered,
and its thread goes on at some later act: the commit and the coroutine's next
statement are separate points, as they are for a worker thread.

A crash keeps the database file. `restore` replaces it by the last confirmed
snapshot, which is what a restart in a fresh container does.
-/

namespace GgAgent.Backend

open GgAgent.Lib

/-- The coroutines of the process. -/
inductive Pid
  | scheduler
  | loop (t : TaskId)
  | request (n : Nat)
  deriving DecidableEq, Repr

/-- What became of a program that has ended. -/
inductive Ending
  | done
  | next (n : Next)
  | sent (t : TaskId) (receipt : MessageReceipt)
  | cancelled (t : TaskId) (record : TaskRecord)
  /-- A route has answered with success. -/
  | answered (a : Answer)
  | raised (e : Exn)
  deriving DecidableEq, Repr

def Routine.ending {α : Type} (f : α → Ending) (r : Routine α) : Prog Call.Out Ending := do
  match ← r.run with
  | .ok a => pure (f a)
  | .error e => pure (.raised e)

/-- The life of the process. -/
inductive Phase
  | down | starting | up | stopping
  deriving DecidableEq, Repr

structure Sandbox where
  id : ProviderId
  tags : Tags
  deriving DecidableEq, Repr

structure Shared where
  ledger : Ledger
  clock : Time
  /-- The snapshot being uploaded, and the last one that is confirmed. -/
  published : Option Ledger
  confirmed : Option Ledger
  phase : Phase
  /-- The scheduler's stop flag. -/
  stop : Bool
  loops : TaskId → Bool
  locks : Lock → Option Pid
  live : List Sandbox
  /-- Provider ids and task ids handed out so far. -/
  providerIds : List ProviderId
  taskIds : List TaskId
  /-- The tasks of the create requests, and the keys of the start requests, made so far. -/
  creates : List TaskId
  starts : List StartKey
  /-- The messages whose receipts were recorded as failed so far. -/
  refused : List (TaskId × MessageId)

def Shared.init : Shared where
  ledger := .empty
  clock := 0
  published := none
  confirmed := none
  phase := .down
  stop := false
  loops := fun _ => false
  locks := fun _ => none
  live := []
  providerIds := []
  taskIds := []
  creates := []
  starts := []
  refused := []

/-- The answers of the outside to the next call of a thread. -/
structure Oracle where
  ext : (c : ExtCall) → c.Out
  /-- The wait for a confirmed snapshot succeeds. -/
  durable : Bool
  /-- The `uuid4` that a submission draws. -/
  uuid : TaskId := 0

namespace Shared

/-- A sandbox comes to life under a provider id that was never used before. -/
def launch (s : Shared) (t : TaskId) (box : Sandbox) : Option Shared :=
  if box.id ∈ s.providerIds then none
  else some { s with live := box :: s.live, providerIds := box.id :: s.providerIds,
                     creates := t :: s.creates }

/-- The effect of an outside call that was answered by `r`. -/
def outside (s : Shared) : (c : ExtCall) → c.Out → Option Shared
  | .providerCreate _ tags _, .created id => s.launch tags.taskId ⟨id, tags⟩
  | .providerCreate _ tags _, .lost id _ => s.launch tags.taskId ⟨id, tags⟩
  | .providerCreate _ tags _, .refused _ => some { s with creates := tags.taskId :: s.creates }
  | .providerTerminate id, r =>
    if r.effect then some { s with live := s.live.filter fun box => box.id ≠ id } else some s
  | .startExecution request _, _ => some { s with starts := request.startKey :: s.starts }
  | _, _ => some s

/-- A task is submitted under the id `id`. A task id is a `uuid4`: it is never handed
out twice. -/
def enrol (s : Shared) (id : TaskId) (r : Submission) :
    Option (Except Exn (TaskRecord × Bool) × Shared) :=
  if id ∈ s.taskIds then none
  else
    let a := s.ledger.submit s.clock id r.idempotencyKey r.repository r.prompt r.baseRef r.retryOf
      r.model r.ownerId
    some (a.1, { s with ledger := a.2, taskIds := id :: s.taskIds })

/-- The message that a transaction has recorded as failed. -/
def refusal : (c : LedgerCall) → Except Exn c.Out → List (TaskId × MessageId)
  | .saveTaskMessageReceipt t r, .ok _ => if r.status = .failed then [(t, r.id)] else []
  | _, _ => []

/-- The snapshot with revision `r` is confirmed. -/
def covered (s : Shared) (r : Nat) : Bool := s.confirmed.any fun l => r ≤ l.revision

/-- The answer to a call. -/
def answer (p : Pid) (o : Oracle) : (c : Call) → Shared → Option (c.Out × Shared)
  | .db c, s =>
    let a := c.exec s.clock s.ledger
    some (a.1, { s with ledger := a.2, refused := refusal c a.1 ++ s.refused })
  | .submit r, s => s.enrol o.uuid r
  | .ext c, s => (s.outside c (o.ext c)).map fun s' => (o.ext c, s')
  | .now, s => some (s.clock, s)
  | .acquire l, s =>
    if s.locks l = none then some ((), { s with locks := Function.update s.locks l (some p) })
    else none
  | .release l, s => some ((), { s with locks := Function.update s.locks l none })
  | .ensureLoop t, s => some ((), { s with loops := Function.update s.loops t true })
  | .exitLoop t, s => some ((), { s with loops := Function.update s.loops t false })
  | .recovered, s => some ((), { s with phase := .up })
  | .stopIsSet, s => some (s.stop, s)
  | .awaitConfirmed r, s =>
    if !o.durable then some (.error (.httpException 503 "state persistence unavailable"), s)
    else if s.covered r then some (.ok (), s)
    else none
  | .never, _ => none

end Shared

/-! ### Programs -/

inductive Job
  | boot
  | cycle
  | shutdown
  | iterate
  | message (t : TaskId) (m : MessageId) (content : String)
  | cancel (t : TaskId) (ownerId : Option OwnerId)
  | route (r : Route)
  deriving DecidableEq, Repr

/-- The program of a job, and when it may be started. -/
def Job.start (cfg : Config) :
    Pid → Job → Shared → Option (Prog Call.Out Ending × Shared)
  | .scheduler, .boot, s =>
    if s.phase = .down then
      some (App.lifespan.ending fun _ => .done, { s with phase := .starting })
    else none
  | .scheduler, .cycle, s =>
    if s.phase = .up ∧ s.stop = false then
      some ((Scheduler.dispatchOnce cfg).ending fun _ => .done, s)
    else none
  | .scheduler, .shutdown, s =>
    if s.phase = .up ∧ s.stop = true then
      some (Scheduler.stop.ending fun _ => .done, { s with phase := .stopping })
    else none
  | .loop t, .iterate, s =>
    if s.loops t then some ((App.activation cfg t).ending .next, s) else none
  | .request _, .message t m content, s =>
    if s.phase = .up then
      some ((Manager.sendMessage cfg t m content).ending (.sent t), s)
    else none
  | .request _, .cancel t ownerId, s =>
    if s.phase = .up then some ((Service.cancel t ownerId).ending (.cancelled t), s) else none
  | .request _, .route r, s =>
    if s.phase = .up then some ((Routes.handle cfg r).ending .answered, s) else none
  | _, _, _ => none

/-! ### Events -/

/-- What happens to the process from outside. -/
inductive Happening
  | tick (n : Nat)
  | submit (id : TaskId) (request : Submission)
  | recordBaseSha (t : TaskId) (baseSha : String)
  | sandboxEnds (id : ProviderId)
  | publish
  | confirm
  | requestStop
  | crash
  | restore
  deriving DecidableEq, Repr

def Happening.apply : Happening → Shared → Option Shared
  | .tick n, s => some { s with clock := s.clock + n }
  | .submit id r, s => (s.enrol id r).map Prod.snd
  | .recordBaseSha t baseSha, s =>
    some { s with ledger := (s.ledger.recordBaseSha s.clock t (some baseSha)).2 }
  | .sandboxEnds id, s => some { s with live := s.live.filter fun box => box.id ≠ id }
  | .publish, s => some { s with published := some s.ledger }
  | .confirm, s =>
    match s.published with
    | some l => some { s with confirmed := some l, published := none }
    | none => none
  | .requestStop, s => if s.phase = .up then some { s with stop := true } else none
  | .crash, s =>
    some { s with phase := .down, stop := false, loops := fun _ => false, locks := fun _ => none,
                  published := none }
  | .restore, s =>
    if s.phase = .down then s.confirmed.map fun l => { s with ledger := l, published := none }
    else none

/-- Nothing of the process survives a crash, and nothing runs in a container that
is about to be filled from a snapshot. -/
def Happening.kills : Happening → Bool
  | .crash | .restore => true
  | _ => false

/-! ### The machine -/

def backend (cfg : Config) : Machine Pid Call.Out Ending Shared where
  Oracle := Oracle
  Job := Job
  Event := Happening
  answer := Shared.answer
  job := Job.start cfg
  event := Happening.apply
  kills := Happening.kills

abbrev System := Pool Pid Call.Out Ending Shared

/-- Nothing has happened yet, and nothing runs. -/
def System.init : System := ⟨.init, fun _ => none⟩

/-- An act of the backend. -/
abbrev Act (cfg : Config) := (backend cfg).Act

end GgAgent.Backend
