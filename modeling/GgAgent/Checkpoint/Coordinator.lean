import GgAgent.Lib.Pool

/-!
The checkpoint coordinator: local writes to the database, snapshots published
beside it, and the commits that make a published snapshot durable.

A database is its revision and its rows, of any type. A write runs its statements
in one transaction and counts one revision; with `skip_unchanged` it counts none
when `total_changes` is zero. Writes come from worker threads and happen at any
point. The coroutines of the coordinator are programs over the points at which
they touch its fields or wait; every wait may be answered by a cancellation, as
often as somebody likes to cancel.

What a commit does between its start and its end is outside: when it ends well, the
file that lies at the snapshot's path has been persisted.
-/

namespace GgAgent.Checkpoint

open GgAgent.Lib
open GgAgent.Lib.Co (attempt)

/-! ### The database -/

structure Database (ρ : Type) where
  revision : Nat
  rows : List ρ

inductive Statement (ρ : Type)
  | insert (r : ρ)
  | update (p : ρ → Bool) (f : ρ → ρ)
  | delete (p : ρ → Bool)

variable {ρ : Type}

/-- The rows after a statement, and the number of rows it changed. -/
def Statement.exec : Statement ρ → List ρ → List ρ × Nat
  | .insert r, rows => (rows ++ [r], 1)
  | .update p f, rows => (rows.map fun r => if p r then f r else r, rows.countP p)
  | .delete p, rows => (rows.filter fun r => !p r, rows.countP p)

/-- The statements of a transaction: the rows they leave, and `total_changes`. -/
def execute : List (Statement ρ) → List ρ → List ρ × Nat
  | [], rows => (rows, 0)
  | q :: body, rows =>
    let a := q.exec rows
    let b := execute body a.1
    (b.1, a.2 + b.2)

/-- `SQLiteDB.write`. The revision assigned to the write is that of the result. -/
def Database.write (skipUnchanged : Bool) (body : List (Statement ρ)) (d : Database ρ) :
    Database ρ :=
  let a := execute body d.rows
  if skipUnchanged ∧ a.2 = 0 then { d with rows := a.1 }
  else { revision := d.revision + 1, rows := a.1 }

/-! ### The coordinator -/

/-- `asyncio.CancelledError`, `ValueError`, or another exception by its name. -/
inductive Exn
  | cancelled
  | valueError
  | failed (name : String)
  deriving DecidableEq, Repr

/-- `type(exc).__name__`. -/
def Exn.typeName : Exn → String
  | .cancelled => "CancelledError"
  | .valueError => "ValueError"
  | .failed n => n

inductive CommitStatus
  | running
  | succeeded
  | failed (name : String)
  | cancelled
  deriving DecidableEq, Repr

/-- The serialization lock, and the lock of the condition. -/
inductive Lock
  | serial
  | condition
  deriving DecidableEq, Repr

abbrev Pid := Nat

/-- A committed write: its statements and the revision assigned to it. -/
structure Write (ρ : Type) where
  revision : Nat
  body : List (Statement ρ)

structure State (ρ : Type) where
  db : Database ρ
  /-- The file at the snapshot's path. -/
  published : Option (Database ρ)
  /-- What the successful commits have persisted, the last first. -/
  persisted : List (Database ρ)
  /-- The commit tasks, in the order of their creation. -/
  commits : List CommitStatus
  confirmedRevision : Int
  lastError : Option String
  holder : Lock → Option Pid
  /-- The coroutines that wait for a notification of the condition. -/
  waiting : List Pid
  /-- The database at the start of the process and the writes since then. -/
  start : Database ρ
  log : List (Write ρ)
  /-- Whether the checkpoint that a coroutine is in has set `confirmed_revision`, and
  for each checkpoint that has raised, whether it had done so. -/
  moved : Pid → Bool
  failures : List (Pid × Bool)

def State.init (d : Database ρ) : State ρ where
  db := d
  published := none
  persisted := []
  commits := []
  confirmedRevision := -1
  lastError := none
  holder := fun _ => none
  waiting := []
  start := d
  log := []
  moved := fun _ => false
  failures := []

/-! ### Calls -/

inductive Call
  | revision
  | confirmedRevision
  | lastError
  | acquire (l : Lock)
  | release (l : Lock)
  /-- `publish_snapshot`: the revision is read from the completed copy. -/
  | publish
  | createCommit
  /-- `await asyncio.shield(commit)`. -/
  | shield (commit : Nat)
  | commitDone (commit : Nat)
  /-- Set `confirmed_revision`, clear `last_error`, notify all. -/
  | confirm (revision : Nat)
  /-- A checkpoint has raised: set `last_error`. -/
  | raised (name : String)
  /-- Join the waiters of the condition, and the wait for the notification. -/
  | enlist
  | notified
  | sleep
  /-- The guess of the number of rounds of a loop. -/
  | rounds
  /-- A wait that never ends. -/
  | never
  deriving DecidableEq, Repr

@[reducible] def Call.Out : Call → Type
  | .revision => Nat
  | .confirmedRevision => Int
  | .lastError => Option String
  | .acquire _ | .shield _ | .notified | .sleep => Except Exn Unit
  | .release _ | .confirm _ | .raised _ | .enlist => Unit
  | .publish => Except Exn Nat
  | .createCommit => Nat
  | .commitDone _ => Bool
  | .rounds => Nat
  | .never => Empty

/-- What the outside decides of a call: that the wait is cancelled; that publishing
fails, and whether the file was already replaced then; the guess of a loop. -/
structure Oracle where
  cancel : Bool
  failure : Option String
  replaced : Bool
  rounds : Nat

namespace State

def answer (p : Pid) (o : Oracle) : (c : Call) → State ρ → Option (c.Out × State ρ)
  | .revision, s => some (s.db.revision, s)
  | .confirmedRevision, s => some (s.confirmedRevision, s)
  | .lastError, s => some (s.lastError, s)
  | .acquire l, s =>
    let s := { s with moved := if l = .serial then Function.update s.moved p false else s.moved }
    if o.cancel then some (.error .cancelled, s)
    else if s.holder l = none then
      some (.ok (), { s with holder := Function.update s.holder l (some p) })
    else none
  | .release l, s => some ((), { s with holder := Function.update s.holder l none })
  | .publish, s =>
    match o.failure with
    | some name =>
      some (.error (.failed name),
        { s with published := if o.replaced then some s.db else s.published })
    | none => some (.ok s.db.revision, { s with published := some s.db })
  | .createCommit, s => some (s.commits.length, { s with commits := s.commits ++ [.running] })
  | .shield i, s =>
    if o.cancel then some (.error .cancelled, s)
    else match s.commits[i]? with
      | some .succeeded => some (.ok (), s)
      | some (.failed name) => some (.error (.failed name), s)
      | some .cancelled => some (.error .cancelled, s)
      | _ => none
  | .commitDone i, s => some (s.commits[i]? ≠ some .running, s)
  | .confirm r, s =>
    some ((), { s with confirmedRevision := r, lastError := none, waiting := [],
                       moved := Function.update s.moved p true })
  | .raised name, s =>
    some ((), { s with lastError := some name, failures := (p, s.moved p) :: s.failures })
  | .enlist, s => some ((), { s with waiting := p :: s.waiting })
  | .notified, s =>
    if o.cancel then some (.error .cancelled, { s with waiting := s.waiting.erase p })
    else if p ∈ s.waiting then none
    else some (.ok (), s)
  | .sleep, s => if o.cancel then some (.error .cancelled, s) else some (.ok (), s)
  | .rounds, s => some (o.rounds, s)
  | .never, _ => none

end State

/-! ### Programs -/

abbrev Routine (α : Type) := Co Call.Out Exn α

/-- A call that answers a value. -/
def ask (c : Call) : Routine c.Out := ExceptT.mk (Prog.call c fun r => .ret (.ok r))

/-- `asyncio.Lock.acquire`. -/
def acquire (l : Lock) : Routine Unit := ExceptT.mk (Prog.perform (Call.acquire l))

def publish : Routine Nat := ExceptT.mk (Prog.perform Call.publish)

def shield (commit : Nat) : Routine Unit := ExceptT.mk (Prog.perform (Call.shield commit))

def loop {α β : Type} (a : α) (body : α → Routine (α ⊕ β)) : Routine β := do
  Co.loopFrom (ExceptT.mk (Prog.call Call.never fun r => nomatch r)) body (← ask .rounds) a

/-- `async with lock`. -/
def withLock {α : Type} (l : Lock) (body : Routine α) : Routine α := do
  acquire l
  let r ← attempt body
  ask (.release l)
  match r with
  | .ok a => pure a
  | .error e => throw e

/-- Keep the serialization lock until the commit in flight settles. -/
def settle (commit : Nat) : Routine Unit :=
  loop () fun _ => do
    if ← ask (.commitDone commit) then pure (.inr ())
    else
      match ← attempt (shield commit) with
      | .ok () | .error .cancelled => pure (.inl ())
      | .error _ => pure (.inr ())

/-- `_checkpoint`, with the serialization lock held. -/
def checkpointLocked (requiredRevision : Option Int) : Routine Int := do
  let confirmed ← ask .confirmedRevision
  if requiredRevision.any (· ≤ confirmed) then pure confirmed
  else
    let revision ← publish
    let commit ← ask .createCommit
    match ← attempt (shield commit) with
    | .ok () =>
      withLock .condition (ask (.confirm revision))
      pure revision
    | .error .cancelled =>
      settle commit
      throw .cancelled
    | .error e => throw e

def checkpoint (requiredRevision : Option Int) : Routine Int := do
  match ← attempt (withLock .serial (checkpointLocked requiredRevision)) with
  | .ok revision => pure revision
  | .error e =>
    ask (.raised e.typeName)
    throw e

/-- The argument must name a committed local write. -/
def requireCommitted (revision : Int) : Routine Unit := do
  let current ← ask .revision
  if revision < 0 ∨ (current : Int) < revision then throw .valueError else pure ()

def ensureDurable (revision : Int) : Routine Unit := do
  requireCommitted revision
  loop () fun _ => do
    if (← ask .confirmedRevision) < revision then
      let _ ← checkpoint (some revision)
      pure (.inl ())
    else pure (.inr ())

/-- `asyncio.Condition.wait`: the lock is acquired again also after a cancellation. -/
def conditionWait : Routine Unit := do
  ask .enlist
  ask (.release .condition)
  let woken ← attempt (ExceptT.mk (Prog.perform Call.notified))
  let r ← loop woken fun r => do
    match ← attempt (acquire .condition) with
    | .ok () => pure (.inr r)
    | .error e => pure (.inl (.error e))
  match r with
  | .ok () => pure ()
  | .error e => throw e

/-- Passive waiter; failures and cancellation do not release it as successful. -/
def waitUntilConfirmed (revision : Int) : Routine Unit := do
  requireCommitted revision
  withLock .condition do
    loop () fun _ => do
      if revision ≤ (← ask .confirmedRevision) then pure (.inr ())
      else
        conditionWait
        pure (.inl ())

/-- `run`: the background checkpoint. It ends only by a cancellation. -/
def background : Routine Unit :=
  loop () fun _ => do
    ExceptT.mk (Prog.perform Call.sleep)
    let revision ← ask .revision
    let confirmed ← ask .confirmedRevision
    let failed ← ask .lastError
    if confirmed < (revision : Int) ∨ failed.isSome then
      match ← attempt (checkpoint none) with
      | .error .cancelled => throw .cancelled
      | _ => pure (.inl ())
    else pure (.inl ())

/-! ### The machine -/

inductive Job
  | checkpoint (requiredRevision : Option Int)
  | ensureDurable (revision : Int)
  | waitUntilConfirmed (revision : Int)
  | background
  deriving DecidableEq, Repr

/-- How a coroutine has ended. -/
inductive Ending
  | checkpointed (revision : Int)
  | durable (revision : Int)
  | confirmed (revision : Int)
  | stopped
  | raised (e : Exn)
  deriving DecidableEq, Repr

def Routine.ending {α : Type} (f : α → Ending) (r : Routine α) : Prog Call.Out Ending := do
  match ← r.run with
  | .ok a => pure (f a)
  | .error e => pure (.raised e)

def Job.program : Job → Prog Call.Out Ending
  | .checkpoint r => (Checkpoint.checkpoint r).ending .checkpointed
  | .ensureDurable r => (Checkpoint.ensureDurable r).ending fun _ => .durable r
  | .waitUntilConfirmed r => (Checkpoint.waitUntilConfirmed r).ending fun _ => .confirmed r
  | .background => Checkpoint.background.ending fun _ => .stopped

/-- A local write commits, or a commit task ends. -/
inductive Happening (ρ : Type)
  | write (skipUnchanged : Bool) (body : List (Statement ρ))
  | commitEnds (commit : Nat) (result : CommitStatus)

def Happening.apply : Happening ρ → State ρ → Option (State ρ)
  | .write skip body, s =>
    let d := s.db.write skip body
    some { s with db := d, log := s.log ++ [⟨d.revision, body⟩] }
  | .commitEnds i result, s =>
    if s.commits[i]? = some .running ∧ result ≠ .running then
      some { s with
        commits := s.commits.set i result
        persisted := if result = .succeeded then s.published.toList ++ s.persisted
                     else s.persisted }
    else none

def coordinator (ρ : Type) : Machine Pid Call.Out Ending (State ρ) where
  Oracle := Oracle
  Job := Job
  Event := Happening ρ
  answer := State.answer
  job _ j s := some (j.program, s)
  event := Happening.apply
  kills _ := false

end GgAgent.Checkpoint
