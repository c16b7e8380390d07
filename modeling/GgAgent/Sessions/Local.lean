import GgAgent.Checkpoint.Coordinator

/-!
Local sessions: the login of a browser, the session it gets, and what makes both durable.

The tables of users, sessions and login flows lie in the database of the checkpoint
coordinator, beside rows of other components of which nothing is known here. Each block of
the source between two waits is one call. A session is durable when the revision of its
insertion is confirmed; until then its owner's entry in `identity_revisions` has a candidate
for that revision, also when the transaction was rolled back after all.

A crash forgets the process and restores a snapshot that was persisted, none older than the
last confirmed one.
-/

namespace GgAgent.Sessions

open GgAgent.Lib
open GgAgent.Lib.Co (attempt)
open GgAgent.Checkpoint (Database Statement Pid)

abbrev Time := Nat

/-! ### The tables -/

structure LocalUser where
  id : String
  googleSub : String
  email : String
  deriving DecidableEq, Repr

structure LocalSession where
  tokenHash : String
  ownerId : String
  expiresAt : Time
  revoked : Bool
  deriving DecidableEq, Repr

inductive FlowStatus
  | pending
  | claimed
  | completed
  | failed
  deriving DecidableEq, Repr

structure GoogleFlow where
  state : String
  browserHash : String
  nonce : String
  verifier : String
  returnTo : String
  expiresAt : Time
  status : FlowStatus
  sessionHash : Option String
  completionRevision : Option Nat
  deriving DecidableEq, Repr

/-- A row of one of the three tables, or of a table of another component. -/
inductive Row (ω : Type)
  | user (u : LocalUser)
  | session (x : LocalSession)
  | flow (f : GoogleFlow)
  | other (o : ω)
  deriving DecidableEq, Repr

variable {ω : Type}

def users (rows : List (Row ω)) : List LocalUser :=
  rows.filterMap fun
    | .user u => some u
    | _ => none

def sessions (rows : List (Row ω)) : List LocalSession :=
  rows.filterMap fun
    | .session x => some x
    | _ => none

def flows (rows : List (Row ω)) : List GoogleFlow :=
  rows.filterMap fun
    | .flow f => some f
    | _ => none

/-- `SELECT 1 FROM local_sessions WHERE token_hash = ?`. -/
def hasSession (rows : List (Row ω)) (hash : String) : Bool :=
  (sessions rows).any fun x => x.tokenHash = hash

/-- The user of a session that is neither revoked nor expired. -/
def sessionUser (rows : List (Row ω)) (hash : String) (now : Time) : Option LocalUser :=
  ((sessions rows).find? fun x => x.tokenHash = hash && !x.revoked && now < x.expiresAt).bind
    fun x => (users rows).find? fun u => u.id = x.ownerId

/-- `UPDATE local_users SET email = ? WHERE google_sub = ?`. -/
def setEmail (sub email : String) : Statement (Row ω) :=
  .update
    (fun
      | .user u => u.googleSub = sub
      | _ => false)
    (fun
      | .user u => .user { u with email := email }
      | r => r)

/-- `UPDATE local_sessions SET revoked = 1 WHERE token_hash = ?`. -/
def setRevoked (hash : String) : Statement (Row ω) :=
  .update
    (fun
      | .session x => x.tokenHash = hash
      | _ => false)
    (fun
      | .session x => .session { x with revoked := true }
      | r => r)

/-- An update of the flow with this state, if it satisfies `p`. -/
def setFlow (state : String) (p : GoogleFlow → Bool) (change : GoogleFlow → GoogleFlow) :
    Statement (Row ω) :=
  .update
    (fun
      | .flow f => f.state = state && p f
      | _ => false)
    (fun
      | .flow f => .flow (change f)
      | r => r)

/-- A statement of another component: it sees the rows of its own tables. -/
def foreign : Statement ω → Statement (Row ω)
  | .insert o => .insert (.other o)
  | .update p f =>
    .update
      (fun
        | .other o => p o
        | _ => false)
      (fun
        | .other o => .other (f o)
        | r => r)
  | .delete p => .delete fun
    | .other o => p o
    | _ => false

/-! ### The process -/

inductive Exn
  | cancelled
  | valueError (text : String)
  | typeError
  /-- `sqlite3.Error`, by the name of its class. -/
  | sqlite (name : String)
  | http (statusCode : Nat) (detail : String) (headers : List (String × String) := [])
  deriving DecidableEq, Repr

/-- What the code takes from the standard library and the settings. -/
structure Settings where
  /-- `hashlib.sha256(token.encode()).hexdigest()`. -/
  tokenHash : String → String
  /-- `hmac.new(key.encode(), text.encode(), hashlib.sha256).hexdigest()`. -/
  hmac : String → String → String
  configured : Bool

def sessionSeconds : Time := 7 * 24 * 60 * 60

def flowSeconds : Time := 600

structure State (ω : Type) where
  coord : Checkpoint.State (Row ω)
  startupRevision : Nat
  /-- Owner by owner, the candidates by the hash of their session. -/
  identityRevisions : String → List (String × Nat)
  callbackLock : Option Pid
  /-- The flows whose code was sent to the identity provider. Observed, through every crash. -/
  asked : List String
  /-- The flows that a session was committed for. Observed, through every crash. -/
  opened : List String

/-- A process that has opened a restored snapshot. -/
def State.boot (d : Database (Row ω)) : State ω where
  coord := { Checkpoint.State.init d with persisted := [d] }
  startupRevision := d.revision
  identityRevisions := fun _ => []
  callbackLock := none
  asked := []
  opened := []

/-- Whether a transaction is rolled back: no, before it records a candidate, or after. -/
inductive Failure
  | never
  | early
  | late
  deriving DecidableEq, Repr

structure GoogleUser where
  sub : String
  email : String
  deriving DecidableEq, Repr

/-- What the outside decides: the coordinator's part, the clock, the random texts, the
failures of the database and the answer of the identity provider. -/
structure Oracle where
  coord : Checkpoint.Oracle
  now : Time
  uuid : String
  token : String
  state : String
  browser : String
  nonce : String
  verifier : String
  failure : Failure
  exchanged : Option GoogleUser

namespace State

/-- A transaction commits. -/
def commit (body : List (Statement (Row ω))) (s : State ω) : State ω :=
  let d := s.coord.db.write false body
  { s with coord := { s.coord with db := d, log := s.coord.log ++ [⟨d.revision, body⟩] } }

/-- Remember the revision that the commit of this session will have. -/
def record (owner hash : String) (s : State ω) : State ω :=
  let others := (s.identityRevisions owner).filter fun x => x.1 ≠ hash
  let revisions := others ++ [(hash, s.coord.db.revision + 1)]
  { s with identityRevisions := Function.update s.identityRevisions owner revisions }

/-- The candidates that are not confirmed and whose session was inserted. -/
def unconfirmed (s : State ω) (owner : String) : List (String × Nat) :=
  (s.identityRevisions owner).filter fun x =>
    s.coord.confirmedRevision < (x.2 : Int) && hasSession s.coord.db.rows x.1

end State

/-- The statements of `insert`, and the owner of the session. -/
def insertStatements (cfg : Settings) (o : Oracle) (user : GoogleUser) (token : String)
    (rows : List (Row ω)) : Except Exn (String × List (Statement (Row ω))) :=
  let session := fun owner =>
    Statement.insert (.session ⟨cfg.tokenHash token, owner, o.now + sessionSeconds, false⟩)
  if user.sub = "" ∨ user.email = "" then .error (.valueError "Google identity is required")
  else if hasSession rows (cfg.tokenHash token) then .error (.sqlite "IntegrityError")
  else match (users rows).find? fun u => u.googleSub = user.sub with
    | some u => .ok (u.id, [setEmail user.sub user.email, session u.id])
    | none =>
      if (users rows).any fun u => u.id = o.uuid then .error (.sqlite "IntegrityError")
      else .ok (o.uuid, [.insert (.user ⟨o.uuid, user.sub, user.email⟩), session o.uuid])

/-- `insert`, as part of a transaction that goes on with `rest`. -/
def insert (cfg : Settings) (o : Oracle) (user : GoogleUser) (token : String)
    (rest : List (Statement (Row ω))) (s : State ω) : Except Exn Nat × State ω :=
  match insertStatements cfg o user token s.coord.db.rows with
  | .error e => (.error e, s)
  | .ok (owner, body) =>
    let s := s.record owner (cfg.tokenHash token)
    if o.failure = .late then (.error (.sqlite "OperationalError"), s)
    else (.ok (s.coord.db.revision + 1), s.commit (body ++ rest))

/-- A transaction without an `insert`. -/
def transact (o : Oracle) (body : List (Statement (Row ω))) (s : State ω) :
    Except Exn Nat × State ω :=
  if o.failure = .never then (.ok (s.coord.db.revision + 1), s.commit body)
  else (.error (.sqlite "OperationalError"), s)

/-! ### Calls -/

/-- What the first part of `user` comes to. -/
inductive Found
  | absent
  | pending (revision : Nat)
  | user (id email : String)
  deriving DecidableEq, Repr

/-- What the first part of `callback` comes to. -/
inductive Decision
  /-- The login was completed, and its completion is not confirmed. -/
  | recover (returnTo token : String) (revision : Nat)
  /-- The login was claimed or has failed. -/
  | consumed (revision : Nat)
  | fresh (flow : GoogleFlow) (token : String)
  deriving DecidableEq, Repr

structure Started where
  state : String
  browser : String
  nonce : String
  verifier : String
  deriving DecidableEq, Repr

inductive Call
  | checkpoint (c : Checkpoint.Call)
  /-- The transaction of `create`. -/
  | createSession (user : GoogleUser)
  | lookup (token : String)
  | revoke (token : String)
  | startFlow (returnTo : String)
  | acquireCallback
  | releaseCallback
  | readFlow (state browser : String)
  | claimFlow (state : String)
  /-- The exchange of the code of a flow, and the check of the identity. -/
  | exchange (state code verifier nonce : String)
  | completeFlow (state token : String) (user : Option GoogleUser)
  deriving DecidableEq, Repr

@[reducible] def Call.Out : Call → Type
  | .checkpoint c => c.Out
  | .createSession _ => Except Exn (String × Nat)
  | .lookup _ => Except Exn Found
  | .revoke _ => Except Exn Nat
  | .startFlow _ => Except Exn (Started × Nat)
  | .acquireCallback => Except Exn Unit
  | .releaseCallback => Unit
  | .readFlow _ _ => Except Exn Decision
  | .claimFlow _ => Except Exn (Bool × Nat)
  | .exchange _ _ _ _ => Except Exn (Option GoogleUser)
  | .completeFlow _ _ _ => Except Exn Nat

/-- `user`, up to its wait. -/
def lookup (cfg : Settings) (now : Time) (token : String) (s : State ω) : Found × State ω :=
  match sessionUser s.coord.db.rows (cfg.tokenHash token) now with
  | none => (.absent, s)
  | some u =>
    let pending := s.unconfirmed u.id
    let revision := pending.foldl (fun r x => max r x.2) s.startupRevision
    let s := { s with identityRevisions := Function.update s.identityRevisions u.id pending }
    if s.coord.confirmedRevision < (revision : Int) then (.pending revision, s)
    else (.user u.id u.email, s)

/-- `callback`, up to its first wait or transaction. -/
def readFlow (cfg : Settings) (now : Time) (state browser : String) (s : State ω) :
    Except Exn Decision :=
  match (flows s.coord.db.rows).find? fun f => f.state = state with
  | none => .error (.http 400 "invalid or expired login")
  | some flow =>
    if browser = "" ∨ flow.browserHash ≠ cfg.tokenHash browser ∨ flow.expiresAt ≤ now then
      .error (.http 400 "invalid or expired login")
    else
      let token := cfg.hmac browser ("gg-session:" ++ state)
      match flow.status with
      | .pending => .ok (.fresh flow token)
      | .claimed | .failed => .ok (.consumed s.coord.db.revision)
      | .completed =>
        match flow.completionRevision with
        | none => .error .typeError
        | some revision =>
          if (revision : Int) ≤ s.coord.confirmedRevision ∨ revision ≤ s.startupRevision then
            .error (.http 400 "login already consumed")
          else .ok (.recover flow.returnTo token revision)

/-- A new flow. -/
def Oracle.flow (cfg : Settings) (o : Oracle) (returnTo : String) : GoogleFlow where
  state := o.state
  browserHash := cfg.tokenHash o.browser
  nonce := o.nonce
  verifier := o.verifier
  returnTo := returnTo
  expiresAt := o.now + flowSeconds
  status := .pending
  sessionHash := none
  completionRevision := none

/-- The end of a flow. -/
def finishFlow (cfg : Settings) (state token : String) (user : Option GoogleUser) (revision : Nat) :
    Statement (Row ω) :=
  setFlow state (fun _ => true) fun f => { f with
    status := if user.isSome then .completed else .failed
    sessionHash := if user.isSome then some (cfg.tokenHash token) else none
    completionRevision := some revision
    verifier := "" }

def State.answer (cfg : Settings) (p : Pid) (o : Oracle) :
    (c : Call) → State ω → Option (c.Out × State ω)
  | .checkpoint c, s =>
    (Checkpoint.State.answer p o.coord c s.coord).map fun a => (a.1, { s with coord := a.2 })
  | .createSession user, s =>
    if o.failure = .early then some (.error (.sqlite "OperationalError"), s)
    else
      let a := insert cfg o user o.token [] s
      some (a.1.map fun revision => (o.token, revision), a.2)
  | .lookup token, s =>
    if o.failure = .never then
      let a := lookup cfg o.now token s
      some (.ok a.1, a.2)
    else some (.error (.sqlite "OperationalError"), s)
  | .revoke token, s => some (transact o [setRevoked (cfg.tokenHash token)] s)
  | .startFlow returnTo, s =>
    if (flows s.coord.db.rows).any fun f => f.state = o.state then
      some (.error (.sqlite "IntegrityError"), s)
    else
      let a := transact o [.insert (.flow (o.flow cfg returnTo))] s
      some (a.1.map fun revision => (⟨o.state, o.browser, o.nonce, o.verifier⟩, revision), a.2)
  | .acquireCallback, s =>
    if o.coord.cancel then some (.error .cancelled, s)
    else if s.callbackLock = none then some (.ok (), { s with callbackLock := some p })
    else none
  | .releaseCallback, s => some ((), { s with callbackLock := none })
  | .readFlow state browser, s =>
    if o.failure = .never then some (readFlow cfg o.now state browser s, s)
    else some (.error (.sqlite "OperationalError"), s)
  | .claimFlow state, s =>
    let claimed := (flows s.coord.db.rows).any fun f => f.state = state && f.status = .pending
    let a := transact o [setFlow state (fun f => f.status = .pending)
      fun f => { f with status := .claimed }] s
    some (a.1.map fun revision => (claimed, revision), a.2)
  | .exchange state _ _ _, s =>
    let s := { s with asked := s.asked ++ [state] }
    if o.coord.cancel then some (.error .cancelled, s) else some (.ok o.exchanged, s)
  | .completeFlow state token user, s =>
    let rest := [finishFlow cfg state token user (s.coord.db.revision + 1)]
    match user with
    | none => some (transact o rest s)
    | some u =>
      if o.failure = .early then some (.error (.sqlite "OperationalError"), s)
      else
        let a := insert cfg o u token rest s
        match a.1 with
        | .ok revision => some (.ok revision, { a.2 with opened := a.2.opened ++ [state] })
        | .error e => some (.error e, a.2)

/-! ### Programs -/

abbrev Routine (α : Type) := Co Call.Out Exn α

def ask (c : Call) : Routine c.Out := ExceptT.mk (Prog.call c fun r => .ret (.ok r))

/-- A routine of the coordinator. -/
def coordinated {α : Type} (p : Prog Checkpoint.Call.Out α) : Prog Call.Out α :=
  p.lift Call.checkpoint fun _ r => r

/-- `HTTPException`, when the checkpoint cannot be had. -/
def unavailable : Exn :=
  .http 503 "state persistence unavailable" [("Cache-Control", "no-store"), ("Retry-After", "1")]

def durable (revision : Nat) : Routine Unit :=
  ExceptT.mk (coordinated (Checkpoint.ensureDurable revision).run >>= fun
    | .ok () => .ret (.ok ())
    | .error .cancelled => .ret (.error .cancelled)
    | .error _ => .ret (.error unavailable))

def loop {α β : Type} (a : α) (body : α → Routine (α ⊕ β)) : Routine β := do
  Co.loopFrom (ExceptT.mk (Prog.call (Call.checkpoint .never) fun r => nomatch r)) body
    (← ask (.checkpoint .rounds)) a

def createSession (user : GoogleUser) : Routine (String × Nat) :=
  ExceptT.mk (Prog.perform (Call.createSession user))

def create (sub email : String) : Routine String := do
  let created ← createSession ⟨sub, email⟩
  durable created.2
  pure created.1

def found (token : String) : Routine Found := ExceptT.mk (Prog.perform (Call.lookup token))

/-- `user`. It enters itself again after its wait. -/
def user (token : String) : Routine (String × String) :=
  loop () fun _ => do
    match ← found token with
    | .absent => throw (.http 401 "session expired or absent")
    | .pending revision =>
      durable revision
      pure (.inl ())
    | .user id email => pure (.inr (id, email))

def revokeSession (token : String) : Routine Nat :=
  ExceptT.mk (Prog.perform (Call.revoke token))

def revoke (token : String) : Routine Unit := do
  let revision ← revokeSession token
  durable revision

def notConfigured : Exn := .http 503 "web login is not configured"

/-- `GoogleAuth.configured`. -/
def configured (cfg : Settings) : Routine Unit :=
  if cfg.configured then pure () else throw notConfigured

def startFlow (returnTo : String) : Routine (Started × Nat) :=
  ExceptT.mk (Prog.perform (Call.startFlow returnTo))

/-- `GoogleAuth.start`, for a path that is safe to return to. -/
def start (cfg : Settings) (returnTo : String) : Routine Started := do
  configured cfg
  let started ← startFlow returnTo
  durable started.2
  pure started.1

def completeFlow (state token : String) (user : Option GoogleUser) : Routine Nat :=
  ExceptT.mk (Prog.perform (Call.completeFlow state token user))

/-- A text that is there and not empty. -/
def truthy (x : Option String) : Bool := x.any fun t => t ≠ ""

/-- The identity behind the code, if there is one. -/
def exchange (flow : GoogleFlow) (code error : Option String) : Routine (Option GoogleUser) :=
  if truthy code && !truthy error then
    ExceptT.mk (Prog.perform (Call.exchange flow.state (code.getD "") flow.verifier flow.nonce))
  else pure none

/-- Where the browser goes, and its session. -/
def destination (flow : GoogleFlow) (token : String) (error : Option String) :
    Option GoogleUser → String × Option String
  | some _ => (flow.returnTo, some token)
  | none => (if truthy error then "/?auth=cancelled" else "/?auth=failed", none)

/-- The rest of `callback`, for a claim that is made at `claim.2`. -/
def login (flow : GoogleFlow) (token : String) (code error : Option String) (claim : Bool × Nat) :
    Routine (String × Option String) :=
  if claim.1 then do
    durable claim.2
    let user ← exchange flow code error
    let revision ← completeFlow flow.state token user
    durable revision
    pure (destination flow token error user)
  else throw (.http 400 "login already consumed")

def decision (state browser : String) : Routine Decision :=
  ExceptT.mk (Prog.perform (Call.readFlow state browser))

def claimFlow (state : String) : Routine (Bool × Nat) :=
  ExceptT.mk (Prog.perform (Call.claimFlow state))

/-- `callback`, with its lock held. -/
def callbackLocked (state browser : String) (code error : Option String) :
    Routine (String × Option String) := do
  match ← decision state browser with
  | .recover returnTo token revision =>
    durable revision
    let _ ← user token
    pure (returnTo, some token)
  | .consumed revision =>
    durable revision
    throw (.http 400 "login already consumed; start again")
  | .fresh flow token =>
    let claim ← claimFlow state
    login flow token code error claim

/-- The body of `async with`, after which the lock is released. -/
def released {α : Type} (r : Except Exn α) : Routine α := do
  ask .releaseCallback
  match r with
  | .ok a => pure a
  | .error e => throw e

def callback (cfg : Settings) (state browser : String) (code error : Option String) :
    Routine (String × Option String) := do
  configured cfg
  ExceptT.mk (Prog.perform Call.acquireCallback)
  let r ← attempt (callbackLocked state browser code error)
  released r

/-! ### The machine -/

inductive Job
  | coordinator (j : Checkpoint.Job)
  | create (sub email : String)
  | user (token : String)
  | revoke (token : String)
  | start (returnTo : String)
  | callback (state browser : String) (code error : Option String)
  deriving DecidableEq, Repr

inductive Ending
  | coordinator (e : Checkpoint.Ending)
  | created (token : String)
  | user (token id email : String)
  | revoked (token : String)
  | started (x : Started)
  | callback (path : String) (token : Option String)
  | raised (e : Exn)
  deriving DecidableEq, Repr

def Routine.ending {α : Type} (f : α → Ending) (r : Routine α) : Prog Call.Out Ending := do
  match ← r.run with
  | .ok a => pure (f a)
  | .error e => pure (.raised e)

def Job.program (cfg : Settings) : Job → Prog Call.Out Ending
  | .coordinator j => do
    let e ← coordinated j.program
    pure (.coordinator e)
  | .create sub email => (Sessions.create sub email).ending .created
  | .user token => (Sessions.user token).ending fun u => .user token u.1 u.2
  | .revoke token => (Sessions.revoke token).ending fun _ => .revoked token
  | .start returnTo => (Sessions.start cfg returnTo).ending .started
  | .callback state browser code error =>
    (Sessions.callback cfg state browser code error).ending fun x => .callback x.1 x.2

/-- A write of another component, the end of a commit, or a crash, with the persisted
snapshot that is restored. -/
inductive Happening (ω : Type)
  | write (skipUnchanged : Bool) (body : List (Statement ω))
  | commitEnds (commit : Nat) (result : Checkpoint.CommitStatus)
  | crash (snapshot : Nat)

def Happening.apply : Happening ω → State ω → Option (State ω)
  | .write skip body, s =>
    (Checkpoint.Happening.apply (.write skip (body.map foreign)) s.coord).map fun coord =>
      { s with coord := coord }
  | .commitEnds i result, s =>
    (Checkpoint.Happening.apply (.commitEnds i result) s.coord).map fun coord =>
      { s with coord := coord }
  | .crash i, s =>
    match s.coord.persisted[i]? with
    | some d =>
      if s.coord.confirmedRevision ≤ (d.revision : Int) then
        some { State.boot d with asked := s.asked, opened := s.opened }
      else none
    | none => none

def Happening.kills : Happening ω → Bool
  | .crash _ => true
  | _ => false

def process (cfg : Settings) (ω : Type) : Machine Pid Call.Out Ending (State ω) where
  Oracle := Oracle
  Job := Job
  Event := Happening ω
  answer := State.answer cfg
  job _ j s := some (j.program cfg, s)
  event := Happening.apply
  kills := Happening.kills

abbrev System (ω : Type) := Pool Pid Call.Out Ending (State ω)

/-- A process that has opened a restored snapshot, with nothing under way. -/
def System.boot (d : Database (Row ω)) : System ω := ⟨.boot d, fun _ => none⟩

end GgAgent.Sessions
