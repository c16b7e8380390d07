import GgAgent.Lib.Table
import Mathlib.Algebra.Order.Ring.Int

/-!
The links between local users and GitHub: `SQLiteGitHubConnections`.

A connection row has the token and a status; the installations of the GitHub App that its
owner can see are rows of their own. The status is kept by hand: each operation that
changes the installations also changes the status of the owners they belong to. One owner
has one connection, and one GitHub account is linked to one owner.

An operation is one transaction: it goes through, or it raises and changes nothing. The
token is stored as its Fernet encryption, of which only the token itself is kept here.
-/

namespace GgAgent.Github

open GgAgent.Lib

inductive ConnectionStatus
  | connected | pending | revoked
  deriving DecidableEq, Repr

def ConnectionStatus.value : ConnectionStatus → String
  | .connected => "connected"
  | .pending => "pending"
  | .revoked => "revoked"

inductive InstallationStatus
  | active | removed | suspended
  deriving DecidableEq, Repr

/-- The encryption of a token. -/
structure Ciphertext where
  plain : String
  deriving DecidableEq, Repr

/-- A row of `github_connections`. -/
structure Connection where
  ownerId : String
  githubUserId : Int
  login : String
  tokenCiphertext : Option Ciphertext
  status : ConnectionStatus
  deriving DecidableEq, Repr

instance : Keyed Connection String := ⟨Connection.ownerId⟩

/-- A row of `github_installations`. -/
structure Installation where
  ownerId : String
  installationId : Int
  accountLogin : String
  accountType : String
  status : InstallationStatus
  deriving DecidableEq, Repr

instance : Keyed Installation (String × Int) := ⟨fun i => (i.ownerId, i.installationId)⟩

/-- An installation in an answer of GitHub. -/
structure Item where
  id : Int
  accountLogin : String
  accountType : String
  deriving DecidableEq, Repr

/-- A row of `github_oauth_flows`. -/
structure Flow where
  stateHash : String
  ownerId : String
  sessionId : String
  expiresAt : Int
  deriving DecidableEq, Repr

instance : Keyed Flow String := ⟨Flow.stateHash⟩

/-- A row of `local_sessions`. -/
structure Session where
  tokenHash : String
  ownerId : String
  expiresAt : Int
  revoked : Bool
  deriving DecidableEq, Repr

instance : Keyed Session String := ⟨Session.tokenHash⟩

structure Store where
  /-- The ids of `local_users`. -/
  users : List String
  sessions : Table Session
  connections : Table Connection
  installations : Table Installation
  flows : Table Flow
  /-- `github_webhook_deliveries`. -/
  deliveries : List String

inductive Exn
  | integrity (constraint : String)
  | overflow
  | http (status : Nat) (detail : String)
  deriving DecidableEq, Repr

namespace Store

def init : Store := ⟨[], .empty, .empty, .empty, .empty, []⟩

/-- `SQLiteDB.write`. -/
def write {α : Type} (body : Store → Except Exn (α × Store)) (s : Store) : Except Exn α × Store :=
  match body s with
  | .ok (a, s') => (.ok a, s')
  | .error e => (.error e, s)

/-- An integer that SQLite can store. -/
def fits (n : Int) : Bool := -2 ^ 63 ≤ n && n < 2 ^ 63

def FLOW_SECONDS : Int := 600

/-- The session is there, and is good. -/
def signedIn (now : Int) (ownerId sessionId : String) (s : Store) : Bool :=
  (s.sessions.find? sessionId).any fun x => x.ownerId = ownerId && !x.revoked && now < x.expiresAt

def begin (hash : String → String) (now : Int) (ownerId sessionId state : String) :
    Store → Except Exn Unit × Store :=
  write fun s =>
    if s.signedIn now ownerId sessionId = false then
      .error (.http 401 "session expired or absent")
    else if ownerId ∉ s.users then .error (.integrity "FOREIGN KEY constraint failed")
    else if (s.flows.find? (hash state)).isSome then
      .error (.integrity "UNIQUE constraint failed: github_oauth_flows.state_hash")
    else .ok ((), { s with
      flows := s.flows.insert ⟨hash state, ownerId, sessionId, now + FLOW_SECONDS⟩ })

def consume (hash : String → String) (now : Int) (ownerId sessionId state : String) :
    Store → Except Exn Bool × Store :=
  write fun s =>
    match s.flows.find? (hash state) with
    | some x =>
      if x.ownerId = ownerId && x.sessionId = sessionId && now < x.expiresAt &&
          s.signedIn now ownerId sessionId then
        .ok (true, { s with flows := s.flows.erase (hash state) })
      else .ok (false, s)
    | none => .ok (false, s)

/-- The upsert of a connection. -/
def putConnection (r : Connection) (s : Store) : Except Exn Store :=
  if fits r.githubUserId = false then .error .overflow
  else if r.githubUserId ≤ 0 then .error (.integrity "CHECK constraint failed: github_user_id > 0")
  else if r.ownerId ∉ s.users then .error (.integrity "FOREIGN KEY constraint failed")
  else if s.connections.rows.any fun x =>
      x.githubUserId = r.githubUserId && x.ownerId ≠ r.ownerId then
    .error (.integrity "UNIQUE constraint failed: github_connections.github_user_id")
  else .ok { s with connections := s.connections.put r }

/-- The upsert of an installation. -/
def putInstallation (ownerId : String) (s : Store) (item : Item) : Except Exn Store :=
  if fits item.id = false then .error .overflow
  else if item.id ≤ 0 then .error (.integrity "CHECK constraint failed: installation_id > 0")
  else if (s.connections.find? ownerId).isNone then
    .error (.integrity "FOREIGN KEY constraint failed")
  else .ok { s with installations :=
    s.installations.put ⟨ownerId, item.id, item.accountLogin, item.accountType, .active⟩ }

/-- All installations of some owners are gone. -/
def removeInstallations (owners : String → Bool) (s : Store) : Store :=
  { s with installations :=
    s.installations.modifyWhere (fun i => owners i.ownerId) fun i => { i with status := .removed } }

/-- `_replace_installations`. -/
def replaceInstallations (ownerId : String) (items : List Item) (s : Store) : Except Exn Store :=
  items.foldlM (putInstallation ownerId) (s.removeInstallations fun o => o = ownerId)

/-- The status of a connection with these installations. -/
def statusFor (items : List Item) : ConnectionStatus :=
  if items = [] then .pending else .connected

def connect (ownerId : String) (githubId : Int) (login token : String) (items : List Item) :
    Store → Except Exn Unit × Store :=
  write fun s => do
    let s ← s.putConnection ⟨ownerId, githubId, login, some ⟨token⟩, statusFor items⟩
    let s ← s.replaceInstallations ownerId items
    pure ((), s)

/-- What the status route returns. -/
structure Report where
  status : String
  login : Option String
  installations : List Item
  deriving DecidableEq, Repr

def current (ownerId : String) (s : Store) :
    Option (Int × String × Option String × ConnectionStatus) :=
  (s.connections.find? ownerId).map fun r =>
    (r.githubUserId, r.login, r.tokenCiphertext.map Ciphertext.plain, r.status)

/-- The row that an answer about this account may refresh. -/
def refreshable (ownerId : String) (githubId : Int) (s : Store) : Option Connection :=
  (s.connections.find? ownerId).filter fun r => r.githubUserId = githubId && r.status ≠ .revoked

def refresh (ownerId : String) (githubId : Int) (items : List Item) :
    Store → Except Exn Report × Store :=
  write fun s =>
    match s.refreshable ownerId githubId with
    | none => .ok (⟨"revoked", none, []⟩, s)
    | some r => do
      let s ← s.replaceInstallations ownerId items
      pure (⟨(statusFor items).value, some r.login, items⟩, { s with
        connections := s.connections.modify ownerId fun r => { r with status := statusFor items } })

/-- The connections lose their tokens. -/
def revoke (accounts : Connection → Bool) (s : Store) : Store :=
  { s with connections := s.connections.modifyWhere accounts fun r =>
    { r with status := .revoked, tokenCiphertext := none } }

def markRevoked (ownerId : String) : Store → Except Exn Unit × Store :=
  write fun s =>
    .ok ((), (s.revoke fun r => r.ownerId = ownerId).removeInstallations fun o => o = ownerId)

/-- The deletion of a connection takes its installations with it. -/
def disconnect (ownerId : String) : Store → Except Exn Unit × Store :=
  write fun s => .ok ((), { s with
    connections := s.connections.erase ownerId
    installations := s.installations.filter fun i => i.ownerId ≠ ownerId
    flows := s.flows.filter fun x => x.ownerId ≠ ownerId })

/-- An installation of the owner is active. -/
def hasActive (ownerId : String) (s : Store) : Bool :=
  s.installations.rows.any fun i => i.ownerId = ownerId && i.status = .active

/-- The installation is not active any more, for none of its owners. -/
def suspend (status : InstallationStatus) (installationId : Option Int) (s : Store) : Store :=
  { s with installations :=
    s.installations.modifyWhere (fun i => some i.installationId = installationId) fun i =>
      { i with status := status } }

/-- Connections without an active installation are pending. -/
def settle (s : Store) : Store :=
  { s with connections :=
    s.connections.modifyWhere (fun r => r.status = .connected && !s.hasActive r.ownerId) fun r =>
      { r with status := .pending } }

/-- The account has withdrawn its authorization. -/
def unauthorize (githubId : Option Int) (s : Store) : Store :=
  let owners := fun o => (s.connections.find? o).any fun r => some r.githubUserId = githubId
  (s.removeInstallations owners).revoke fun r => some r.githubUserId = githubId

/-- What an event of GitHub changes. -/
def applyEvent (event action : String) (installationId githubId : Option Int) (s : Store) : Store :=
  let s := if event = "installation" ∧ (action = "deleted" ∨ action = "suspend") then
      (s.suspend (if action = "deleted" then .removed else .suspended) installationId).settle
    else s
  if event = "github_app_authorization" ∧ action = "revoked" then s.unauthorize githubId else s

def webhook (deliveryId event action : String) (installationId githubId : Option Int) :
    Store → Except Exn Bool × Store :=
  write fun s =>
    if deliveryId ∈ s.deliveries then .ok (false, s)
    else if event = "installation" ∧ (action = "deleted" ∨ action = "suspend") ∧
        installationId.all fits = false ∨
        event = "github_app_authorization" ∧ action = "revoked" ∧ githubId.all fits = false then
      .error .overflow
    else .ok (true, { s with deliveries := s.deliveries ++ [deliveryId] }.applyEvent event action
      installationId githubId)

/-! ### What the operations do to the installations -/

/-- A sequence that goes through. -/
theorem of_bind {α β : Type} {x : Except Exn α} {f : α → Except Exn β} {b : β}
    (h : (x >>= f) = .ok b) : ∃ a, x = .ok a ∧ f a = .ok b := by
  cases x with
  | ok a => exact ⟨a, rfl, h⟩
  | error e => cases h

/-- The active installation with this id, as GitHub reported it. -/
def activeItem (ownerId : String) (id : Int) (s : Store) : Option Item :=
  ((s.installations.find? (ownerId, id)).filter fun i => i.status = .active).map fun i =>
    ⟨id, i.accountLogin, i.accountType⟩

theorem hasActive_iff {ownerId : String} {s : Store} :
    s.hasActive ownerId = true ↔ ∃ id x, s.activeItem ownerId id = some x := by
  simp only [hasActive, List.any_eq_true, Bool.and_eq_true, decide_eq_true_eq]
  constructor
  · rintro ⟨i, hi, rfl, hactive⟩
    refine ⟨i.installationId, ⟨i.installationId, i.accountLogin, i.accountType⟩, ?_⟩
    have hfind : s.installations.find? (i.ownerId, i.installationId) = some i := Table.find?_of_mem hi
    simp [activeItem, hfind, hactive]
  · rintro ⟨id, x, hx⟩
    obtain ⟨i, hi, -⟩ := Option.map_eq_some_iff.mp hx
    obtain ⟨hfind, hactive⟩ := Option.filter_eq_some_iff.mp hi
    have hkey : (i.ownerId, i.installationId) = (ownerId, id) := Table.key_of_find? hfind
    exact ⟨i, Table.mem_of_find? hfind, (Prod.mk.inj hkey).1, of_decide_eq_true hactive⟩

/-- Owners with the same active installations. -/
theorem hasActive_congr {ownerId : String} {s s' : Store}
    (h : ∀ id, s'.activeItem ownerId id = s.activeItem ownerId id) :
    s'.hasActive ownerId = s.hasActive ownerId := by
  rw [Bool.eq_iff_iff, hasActive_iff, hasActive_iff]
  simp only [h]

theorem hasActive_eq_false {ownerId : String} {s : Store}
    (h : ∀ id, s.activeItem ownerId id = none) : s.hasActive ownerId = false := by
  rw [← Bool.not_eq_true, hasActive_iff]
  rintro ⟨id, x, hx⟩
  rw [h id] at hx
  cases hx

/-- The last entry of a list with this id. -/
def listed (items : List Item) (id : Int) : Option Item := items.reverse.find? fun x => x.id = id

theorem listed_cons (x : Item) (items : List Item) (id : Int) :
    listed (x :: items) id = (listed items id).or (if x.id = id then some x else none) := by
  simp only [listed, List.reverse_cons, List.find?_append, List.find?_singleton, decide_eq_true_eq]

theorem listed_eq_none {items : List Item} : (∀ id, listed items id = none) ↔ items = [] := by
  constructor
  · intro h
    cases items with
    | nil => rfl
    | cons x items =>
        have hx := h x.id
        rw [listed_cons] at hx
        simp at hx
  · rintro rfl id
    rfl

/-- The row of an installation that GitHub has reported. -/
def rowOf (ownerId : String) (x : Item) : Installation :=
  ⟨ownerId, x.id, x.accountLogin, x.accountType, .active⟩

theorem putInstallation_eq {ownerId : String} {s s' : Store} {x : Item}
    (h : s.putInstallation ownerId x = .ok s') : s.connections.find? ownerId ≠ none ∧
      s' = { s with installations := s.installations.put (rowOf ownerId x) } := by
  unfold putInstallation at h
  split at h
  next => cases h
  next =>
    split at h
    next => cases h
    next =>
      split at h
      next => cases h
      next hsome =>
        refine ⟨fun hnone => hsome (by rw [hnone]; rfl), ?_⟩
        rw [← Except.ok.inj h]
        rfl

/-- The installations after all of a list are stored. -/
theorem putAll_spec {ownerId : String} {items : List Item} {s s' : Store}
    (h : items.foldlM (putInstallation ownerId) s = .ok s') :
    (∃ installations, s' = { s with installations := installations }) ∧
    (items ≠ [] → s.connections.find? ownerId ≠ none) ∧
    ∀ o id, s'.installations.find? (o, id) =
      if o = ownerId then ((listed items id).map (rowOf o)).or (s.installations.find? (o, id))
      else s.installations.find? (o, id) := by
  induction items generalizing s with
  | nil =>
      obtain rfl := Except.ok.inj h
      exact ⟨⟨_, rfl⟩, fun h => absurd rfl h, fun o id => by simp [listed]⟩
  | cons x items ih =>
      rw [List.foldlM_cons] at h
      cases hput : s.putInstallation ownerId x with
      | error e =>
          rw [hput] at h
          cases h
      | ok s₁ =>
          rw [hput] at h
          obtain ⟨hsome, rfl⟩ := putInstallation_eq hput
          obtain ⟨⟨installations, rfl⟩, -, hfind⟩ := ih h
          refine ⟨⟨_, rfl⟩, fun _ => hsome, fun o id => ?_⟩
          rw [hfind o id, listed_cons]
          have hkey : key (rowOf ownerId x) = (ownerId, x.id) := rfl
          simp only [Table.find?_put, hkey, Prod.mk.injEq]
          by_cases ho : o = ownerId
          · subst ho
            cases listed items id with
            | some y => simp
            | none =>
                by_cases hid : id = x.id
                · simp [hid]
                · simp [hid, Ne.symm hid]
          · simp [ho]

theorem replace_spec {ownerId : String} {items : List Item} {s s' : Store}
    (h : s.replaceInstallations ownerId items = .ok s') :
    (∃ installations, s' = { s with installations := installations }) ∧
    (items ≠ [] → s.connections.find? ownerId ≠ none) ∧
    ∀ o id, s'.installations.find? (o, id) =
      if o = ownerId then ((listed items id).map (rowOf o)).or
        ((s.installations.find? (o, id)).map fun i => { i with status := .removed })
      else s.installations.find? (o, id) := by
  obtain ⟨⟨installations, rfl⟩, hsome, hfind⟩ := putAll_spec h
  refine ⟨⟨_, rfl⟩, hsome, fun o id => ?_⟩
  rw [hfind o id]
  have hremoved : (s.removeInstallations fun o => o = ownerId).installations.find? (o, id) =
      (s.installations.find? (o, id)).map fun i =>
        if i.ownerId = ownerId then { i with status := .removed } else i := by
    simp [removeInstallations, Table.find?_modifyWhere]
  rw [hremoved]
  cases hi : s.installations.find? (o, id) with
  | none => simp
  | some i =>
      have ho : i.ownerId = o := (Prod.mk.inj (Table.key_of_find? hi)).1
      by_cases h : o = ownerId
      · simp [h, ho]
      · simp [h, ho]

theorem listed_id {items : List Item} {id : Int} {x : Item} (h : listed items id = some x) :
    x.id = id := by
  simpa using List.find?_some h

/-- The active installations are the ones of the list. -/
theorem activeItem_replace {ownerId : String} {items : List Item} {s s' : Store}
    (h : s.replaceInstallations ownerId items = .ok s') (o : String) (id : Int) :
    s'.activeItem o id = if o = ownerId then listed items id else s.activeItem o id := by
  have hfind := (replace_spec h).2.2 o id
  unfold activeItem
  rw [hfind]
  by_cases ho : o = ownerId
  · subst ho
    cases hx : listed items id with
    | some x =>
        obtain rfl := listed_id hx
        simp [rowOf]
    | none =>
        cases s.installations.find? (o, id) <;> simp
  · simp [ho]

theorem find?_modifyWhere_none {T : Table Installation} {k : String × Int} (h : T.find? k = none)
    {p : Installation → Bool} {status : InstallationStatus} :
    (T.modifyWhere p fun i => { i with status := status }).find? k = none := by
  rw [Table.find?_modifyWhere, h]
  rfl

theorem activeItem_modifyWhere {s : Store} {p : Installation → Bool} {status : InstallationStatus}
    (hstatus : status ≠ .active) (o : String) (id : Int) :
    activeItem o id { s with installations :=
      s.installations.modifyWhere p fun i => { i with status := status } } =
      (((s.installations.find? (o, id)).filter fun i => i.status = .active && !p i).map fun i =>
        ⟨id, i.accountLogin, i.accountType⟩) := by
  unfold activeItem
  rw [Table.find?_modifyWhere]
  cases s.installations.find? (o, id) with
  | none => rfl
  | some i => by_cases hp : p i <;> simp [Option.filter, hp, hstatus]

theorem activeItem_remove (owners : String → Bool) (s : Store) (o : String) (id : Int) :
    (s.removeInstallations owners).activeItem o id =
      if owners o then none else s.activeItem o id := by
  rw [removeInstallations, activeItem_modifyWhere (by decide)]
  unfold activeItem
  cases hi : s.installations.find? (o, id) with
  | none => simp
  | some i =>
      have ho : i.ownerId = o := (Prod.mk.inj (Table.key_of_find? hi)).1
      by_cases howns : owners o <;> simp [Option.filter, ho, howns]

theorem activeItem_suspend {status : InstallationStatus} (hstatus : status ≠ .active)
    {installationId : Option Int} {s : Store} (o : String) (id : Int) :
    (s.suspend status installationId).activeItem o id =
      if some id = installationId then none else s.activeItem o id := by
  rw [suspend, activeItem_modifyWhere hstatus]
  unfold activeItem
  cases hi : s.installations.find? (o, id) with
  | none => simp
  | some i =>
      have hid : i.installationId = id := (Prod.mk.inj (Table.key_of_find? hi)).2
      by_cases hsame : some id = installationId <;> simp [Option.filter, hid, hsame]

/-! ### The invariant -/

/-- A connection and its installations, of which one is active or none. -/
structure Consistent (s : Store) : Prop where
  token : ∀ o r, s.connections.find? o = some r → (r.tokenCiphertext = none ↔ r.status = .revoked)
  active : ∀ o r, s.connections.find? o = some r →
    (r.status = .connected ↔ s.hasActive o = true)
  foreign : ∀ o id, s.installations.find? (o, id) ≠ none → s.connections.find? o ≠ none

theorem consistent_init : Consistent init where
  token _ _ h := by cases h
  active _ _ h := by cases h
  foreign _ _ h := absurd rfl h

/-- Only the two tables matter. -/
theorem Consistent.congr {s s' : Store} (hs : Consistent s) (hc : s'.connections = s.connections)
    (hi : s'.installations = s.installations) : Consistent s' := by
  obtain ⟨users, sessions, connections, installations, flows, deliveries⟩ := s
  obtain ⟨users', sessions', connections', installations', flows', deliveries'⟩ := s'
  obtain rfl : connections' = connections := hc
  obtain rfl : installations' = installations := hi
  exact ⟨hs.token, hs.active, hs.foreign⟩

/-- What holds of every result of a transaction, and of the state before it. -/
theorem write_spec {α : Type} {body : Store → Except Exn (α × Store)} {s : Store}
    {P : Store → Prop} (hs : P s) (hbody : ∀ a s', body s = .ok (a, s') → P s') :
    P (write body s).2 := by
  unfold write
  split
  next a s' h => exact hbody a s' h
  next => exact hs

theorem hasActive_listed {ownerId : String} {items : List Item} {s : Store}
    (h : ∀ id, s.activeItem ownerId id = listed items id) :
    s.hasActive ownerId = true ↔ statusFor items = .connected := by
  have hnone : (∀ id, listed items id = none) ↔ items = [] := listed_eq_none
  rw [hasActive_iff, statusFor]
  simp only [h]
  constructor
  · rintro ⟨id, x, hx⟩
    rw [if_neg]
    intro hempty
    rw [hnone.mpr hempty id] at hx
    cases hx
  · intro hstatus
    by_contra hno
    rw [if_pos] at hstatus
    · cases hstatus
    · refine hnone.mp fun id => ?_
      cases hx : listed items id with
      | none => rfl
      | some x => exact absurd ⟨id, x, hx⟩ hno

/-- An owner has a token and just the installations of a list; for the others nothing has
changed. -/
theorem consistent_listed {ownerId : String} {items : List Item} {s s' : Store} {r : Connection}
    (hs : Consistent s) (htoken : r.tokenCiphertext ≠ none) (hstatus : r.status = statusFor items)
    (hc : ∀ o, s'.connections.find? o = if o = ownerId then some r else s.connections.find? o)
    (hactive : ∀ o id, s'.activeItem o id =
      if o = ownerId then listed items id else s.activeItem o id)
    (hforeign : ∀ o id, o ≠ ownerId →
      s'.installations.find? (o, id) = s.installations.find? (o, id)) : Consistent s' := by
  have hother : ∀ o, o ≠ ownerId → s'.hasActive o = s.hasActive o := fun o ho =>
    hasActive_congr fun id => by rw [hactive, if_neg ho]
  refine ⟨fun o r' hr' => ?_, fun o r' hr' => ?_, fun o id hi => ?_⟩
  · rw [hc] at hr'
    split at hr'
    next =>
      obtain rfl := Option.some.inj hr'
      refine ⟨fun h => absurd h htoken, fun h => ?_⟩
      rw [hstatus, statusFor] at h
      split at h <;> cases h
    next => exact hs.token o r' hr'
  · rw [hc] at hr'
    split at hr'
    next ho =>
      obtain rfl := Option.some.inj hr'
      subst ho
      rw [hstatus]
      exact (hasActive_listed fun id => by rw [hactive, if_pos rfl]).symm
    next ho =>
      rw [hother o ho]
      exact hs.active o r' hr'
  · rw [hc]
    split
    next => simp
    next ho =>
      rw [hforeign o id ho] at hi
      exact hs.foreign o id hi

theorem putConnection_eq {r : Connection} {s s' : Store} (h : s.putConnection r = .ok s') :
    s' = { s with connections := s.connections.put r } := by
  unfold putConnection at h
  split at h
  next => cases h
  next =>
    split at h
    next => cases h
    next =>
      split at h
      next => cases h
      next =>
        split at h
        next => cases h
        next => exact (Except.ok.inj h).symm

theorem consistent_connect {ownerId login token : String} {githubId : Int} {items : List Item}
    {s : Store} (hs : Consistent s) : Consistent (s.connect ownerId githubId login token items).2 := by
  refine write_spec hs fun a s' h => ?_
  obtain ⟨s₁, hput, h⟩ := of_bind h
  obtain ⟨s₂, hrep, h⟩ := of_bind h
  obtain ⟨-, rfl⟩ := Prod.mk.inj (Except.ok.inj h)
  obtain rfl := putConnection_eq hput
  have hspec := replace_spec hrep
  obtain ⟨⟨installations, rfl⟩, -, hfind⟩ := hspec
  refine consistent_listed hs (r := ⟨ownerId, githubId, login, some ⟨token⟩, statusFor items⟩)
    (by simp) rfl (fun o => ?_) (fun o id => activeItem_replace hrep o id) fun o id ho => ?_
  · exact Table.find?_put s.connections _ o
  · rw [hfind, if_neg ho]

theorem consistent_refresh {ownerId : String} {githubId : Int} {items : List Item} {s : Store}
    (hs : Consistent s) : Consistent (s.refresh ownerId githubId items).2 := by
  refine write_spec hs fun a s' h => ?_
  split at h
  next =>
    obtain ⟨-, rfl⟩ := Prod.mk.inj (Except.ok.inj h)
    exact hs
  next r hr =>
    obtain ⟨s₁, hrep, h⟩ := of_bind h
    obtain ⟨-, rfl⟩ := Prod.mk.inj (Except.ok.inj h)
    obtain ⟨hr, hgood⟩ := Option.filter_eq_some_iff.mp hr
    simp only [Bool.and_eq_true, decide_eq_true_eq] at hgood
    obtain ⟨⟨installations, rfl⟩, -, hfind⟩ := replace_spec hrep
    refine consistent_listed hs (r := { r with status := statusFor items })
      (fun hnone => hgood.2 ((hs.token _ r hr).mp hnone)) rfl (fun o => ?_)
      (fun o id => activeItem_replace hrep o id) fun o id ho => ?_
    · simp only [Table.find?_modify]
      split
      next ho => rw [ho, hr]; rfl
      next => rfl
    · rw [hfind, if_neg ho]

/-- Some accounts lose their token and their owners all installations. -/
theorem consistent_revoke (accounts : Connection → Bool) (owners : String → Bool) {s : Store}
    (hs : Consistent s)
    (hsame : ∀ o r, s.connections.find? o = some r → accounts r = owners o) :
    Consistent ((s.removeInstallations owners).revoke accounts) := by
  have hactive := activeItem_remove owners s
  have hfind : ∀ o, ((s.removeInstallations owners).revoke accounts).connections.find? o =
      (s.connections.find? o).map fun r =>
        if accounts r then { r with status := .revoked, tokenCiphertext := none } else r :=
    fun o => Table.find?_modifyWhere s.connections accounts
      (fun r => { r with status := .revoked, tokenCiphertext := none }) (fun _ => rfl) o
  have hgone : ∀ o, owners o = true →
      ((s.removeInstallations owners).revoke accounts).hasActive o = false := fun o ho =>
    hasActive_eq_false fun id => (hactive o id).trans (if_pos ho)
  have hother : ∀ o, owners o = false →
      ((s.removeInstallations owners).revoke accounts).hasActive o = s.hasActive o := fun o ho =>
    hasActive_congr fun id => (hactive o id).trans (if_neg (by simp [ho]))
  refine ⟨fun o r' hr' => ?_, fun o r' hr' => ?_, fun o id hi => ?_⟩
  · rw [hfind] at hr'
    obtain ⟨r, hr, rfl⟩ := Option.map_eq_some_iff.mp hr'
    split
    next => simp
    next => exact hs.token o r hr
  · rw [hfind] at hr'
    obtain ⟨r, hr, rfl⟩ := Option.map_eq_some_iff.mp hr'
    have ho := hsame o r hr
    by_cases haccount : accounts r
    · rw [if_pos haccount, hgone o (ho ▸ haccount)]
      simp
    · rw [if_neg haccount, hother o (by rw [← ho]; simpa using haccount)]
      exact hs.active o r hr
  · rw [hfind, ne_eq, Option.map_eq_none_iff]
    exact hs.foreign o id fun hnone => hi (find?_modifyWhere_none hnone)

theorem consistent_markRevoked {ownerId : String} {s : Store} (hs : Consistent s) :
    Consistent (s.markRevoked ownerId).2 := by
  refine (consistent_revoke (fun r => r.ownerId = ownerId) (fun o => o = ownerId) hs
    fun o r hr => ?_).congr rfl rfl
  rw [show r.ownerId = o from Table.key_of_find? hr]

theorem consistent_disconnect {ownerId : String} {s : Store} (hs : Consistent s) :
    Consistent (s.disconnect ownerId).2 := by
  have hfind : ∀ o, (s.disconnect ownerId).2.connections.find? o =
      if o = ownerId then none else s.connections.find? o := Table.find?_erase s.connections ownerId
  have hi : ∀ o id, (s.disconnect ownerId).2.installations.find? (o, id) =
      if o = ownerId then none else s.installations.find? (o, id) := by
    intro o id
    show (s.installations.filter _).find? (o, id) = _
    rw [Table.find?_filter]
    cases hi : s.installations.find? (o, id) with
    | none => simp
    | some i =>
        have ho : i.ownerId = o := (Prod.mk.inj (Table.key_of_find? hi)).1
        by_cases h : o = ownerId <;> simp [Option.filter, ho, h]
  have hother : ∀ o, o ≠ ownerId → (s.disconnect ownerId).2.hasActive o = s.hasActive o :=
    fun o ho => hasActive_congr fun id => by
      unfold activeItem
      rw [hi, if_neg ho]
  refine ⟨fun o r hr => ?_, fun o r hr => ?_, fun o id hid => ?_⟩
  · rw [hfind] at hr
    split at hr
    next => cases hr
    next => exact hs.token o r hr
  · rw [hfind] at hr
    split at hr
    next => cases hr
    next ho =>
      rw [hother o ho]
      exact hs.active o r hr
  · rw [hi] at hid
    rw [hfind]
    split at hid
    next => exact absurd rfl hid
    next ho =>
      rw [if_neg ho]
      exact hs.foreign o id hid

theorem consistent_unauthorize {githubId : Option Int} {s : Store} (hs : Consistent s) :
    Consistent (s.unauthorize githubId) :=
  consistent_revoke _ _ hs fun o r hr => by simp [hr]

/-- An installation goes, and the owners that have no other one become pending. -/
theorem consistent_settle {status : InstallationStatus} (hstatus : status ≠ .active)
    {installationId : Option Int} {s : Store} (hs : Consistent s) :
    Consistent (s.suspend status installationId).settle := by
  let t := s.suspend status installationId
  have hactive : ∀ o, t.settle.hasActive o = t.hasActive o := fun _ => rfl
  have hless : ∀ o, t.hasActive o = true → s.hasActive o = true := by
    intro o ho
    obtain ⟨id, x, hx⟩ := hasActive_iff.mp ho
    rw [activeItem_suspend hstatus] at hx
    split at hx
    next => cases hx
    next => exact hasActive_iff.mpr ⟨id, x, hx⟩
  have hfind : ∀ o, t.settle.connections.find? o = (s.connections.find? o).map fun r =>
      if r.status = .connected && !t.hasActive r.ownerId then { r with status := .pending } else r :=
    fun o => Table.find?_modifyWhere s.connections _ (fun r => { r with status := .pending })
      (fun _ => rfl) o
  refine ⟨fun o r' hr' => ?_, fun o r' hr' => ?_, fun o id hi => ?_⟩
  · rw [hfind] at hr'
    obtain ⟨r, hr, rfl⟩ := Option.map_eq_some_iff.mp hr'
    have htoken := hs.token o r hr
    split
    next h =>
      simp only [Bool.and_eq_true, decide_eq_true_eq] at h
      simp [htoken, h.1]
    next => exact htoken
  · rw [hfind] at hr'
    obtain ⟨r, hr, rfl⟩ := Option.map_eq_some_iff.mp hr'
    have ho : r.ownerId = o := Table.key_of_find? hr
    rw [hactive, ho]
    by_cases hconnected : r.status = .connected
    · by_cases hstill : t.hasActive o = true
      · simp [hconnected, hstill]
      · simp only [Bool.not_eq_true] at hstill
        simp [hconnected, hstill]
    · have hnone : t.hasActive o = false := by
        rw [← Bool.not_eq_true]
        exact fun h => hconnected ((hs.active o r hr).mpr (hless o h))
      simp [hconnected, hnone]
  · rw [hfind, ne_eq, Option.map_eq_none_iff]
    exact hs.foreign o id fun hnone => hi (find?_modifyWhere_none hnone)

theorem consistent_applyEvent {event action : String} {installationId githubId : Option Int}
    {s : Store} (hs : Consistent s) :
    Consistent (s.applyEvent event action installationId githubId) := by
  have hfirst : Consistent (if event = "installation" ∧ (action = "deleted" ∨ action = "suspend")
      then (s.suspend (if action = "deleted" then .removed else .suspended) installationId).settle
      else s) := by
    split
    next => exact consistent_settle (by split <;> decide) hs
    next => exact hs
  by_cases hrevoked : event = "github_app_authorization" ∧ action = "revoked"
  · simp only [applyEvent, if_pos hrevoked]
    exact consistent_unauthorize hfirst
  · simp only [applyEvent, if_neg hrevoked]
    exact hfirst

theorem consistent_webhook {deliveryId event action : String} {installationId githubId : Option Int}
    {s : Store} (hs : Consistent s) :
    Consistent (s.webhook deliveryId event action installationId githubId).2 := by
  refine write_spec hs fun a s' h => ?_
  split at h
  next =>
    obtain ⟨-, rfl⟩ := Prod.mk.inj (Except.ok.inj h)
    exact hs
  next =>
    split at h
    next => cases h
    next =>
      obtain ⟨-, rfl⟩ := Prod.mk.inj (Except.ok.inj h)
      exact consistent_applyEvent (hs.congr rfl rfl)

/-- A delivery that is there already. -/
theorem webhook_seen {deliveryId : String} {s : Store} (hseen : deliveryId ∈ s.deliveries)
    (event action : String) (installationId githubId : Option Int) :
    s.webhook deliveryId event action installationId githubId = (.ok false, s) := by
  simp [webhook, write, hseen]

/-! ### Every sequence of operations -/

end Store

/-- The operations of the store, and a new user or session. -/
inductive Operation
  | register (ownerId : String)
  | signIn (session : Session)
  | begin (hash : String → String) (now : Int) (ownerId sessionId state : String)
  | consume (hash : String → String) (now : Int) (ownerId sessionId state : String)
  | connect (ownerId : String) (githubId : Int) (login token : String) (items : List Item)
  | refresh (ownerId : String) (githubId : Int) (items : List Item)
  | markRevoked (ownerId : String)
  | disconnect (ownerId : String)
  | webhook (deliveryId event action : String) (installationId githubId : Option Int)

def Operation.apply : Operation → Store → Store
  | .register ownerId, s => { s with users := s.users ++ [ownerId] }
  | .signIn session, s => { s with sessions := s.sessions.put session }
  | .begin hash now ownerId sessionId state, s => (s.begin hash now ownerId sessionId state).2
  | .consume hash now ownerId sessionId state, s => (s.consume hash now ownerId sessionId state).2
  | .connect ownerId githubId login token items, s =>
    (s.connect ownerId githubId login token items).2
  | .refresh ownerId githubId items, s => (s.refresh ownerId githubId items).2
  | .markRevoked ownerId, s => (s.markRevoked ownerId).2
  | .disconnect ownerId, s => (s.disconnect ownerId).2
  | .webhook deliveryId event action installationId githubId, s =>
    (s.webhook deliveryId event action installationId githubId).2

def run : Store → List Operation → Store := List.foldl fun s op => op.apply s

namespace Store

theorem begin_same {hash : String → String} {now : Int} {ownerId sessionId state : String}
    {s : Store} : (s.begin hash now ownerId sessionId state).2.connections = s.connections ∧
      (s.begin hash now ownerId sessionId state).2.installations = s.installations := by
  refine write_spec (P := fun s' => s'.connections = s.connections ∧
    s'.installations = s.installations) ⟨rfl, rfl⟩ fun a s' h => ?_
  split at h
  next => cases h
  next =>
    split at h
    next => cases h
    next =>
      split at h
      next => cases h
      next =>
        obtain ⟨-, rfl⟩ := Prod.mk.inj (Except.ok.inj h)
        exact ⟨rfl, rfl⟩

theorem consume_same {hash : String → String} {now : Int} {ownerId sessionId state : String}
    {s : Store} : (s.consume hash now ownerId sessionId state).2.connections = s.connections ∧
      (s.consume hash now ownerId sessionId state).2.installations = s.installations := by
  refine write_spec (P := fun s' => s'.connections = s.connections ∧
    s'.installations = s.installations) ⟨rfl, rfl⟩ fun a s' h => ?_
  split at h
  next =>
    split at h
    next =>
      obtain ⟨-, rfl⟩ := Prod.mk.inj (Except.ok.inj h)
      exact ⟨rfl, rfl⟩
    next =>
      obtain ⟨-, rfl⟩ := Prod.mk.inj (Except.ok.inj h)
      exact ⟨rfl, rfl⟩
  next =>
    obtain ⟨-, rfl⟩ := Prod.mk.inj (Except.ok.inj h)
    exact ⟨rfl, rfl⟩

end Store

open Store in
theorem consistent_apply {s : Store} (hs : s.Consistent) (op : Operation) :
    (op.apply s).Consistent := by
  cases op with
  | register ownerId => exact hs.congr rfl rfl
  | signIn session => exact hs.congr rfl rfl
  | begin hash now ownerId sessionId state => exact hs.congr begin_same.1 begin_same.2
  | consume hash now ownerId sessionId state => exact hs.congr consume_same.1 consume_same.2
  | connect ownerId githubId login token items => exact consistent_connect hs
  | refresh ownerId githubId items => exact consistent_refresh hs
  | markRevoked ownerId => exact consistent_markRevoked hs
  | disconnect ownerId => exact consistent_disconnect hs
  | webhook deliveryId event action installationId githubId => exact consistent_webhook hs

theorem consistent_run {s : Store} (hs : s.Consistent) (ops : List Operation) :
    (run s ops).Consistent := by
  induction ops generalizing s with
  | nil => exact hs
  | cons op ops ih => exact ih (consistent_apply hs op)

/-- After every sequence of operations the status of a connection says whether it has a
token and an active installation, and a delivery counts once. -/
theorem connections_consistent (ops : List Operation) :
    (∀ r ∈ (run .init ops).connections.rows,
      (r.tokenCiphertext = none ↔ r.status = .revoked) ∧
      (r.status = .connected ↔ r.tokenCiphertext ≠ none ∧
        ∃ i ∈ (run .init ops).installations.rows, i.ownerId = r.ownerId ∧ i.status = .active) ∧
      (r.status = .pending ∨ r.status = .revoked →
        ∀ i ∈ (run .init ops).installations.rows, i.ownerId = r.ownerId → i.status ≠ .active)) ∧
    (∀ i ∈ (run .init ops).installations.rows,
      ∃ r ∈ (run .init ops).connections.rows, r.ownerId = i.ownerId) ∧
    ∀ deliveryId ∈ (run .init ops).deliveries, ∀ event action installationId githubId,
      (run .init ops).webhook deliveryId event action installationId githubId =
        (.ok false, run .init ops) := by
  have hs := consistent_run Store.consistent_init ops
  generalize run .init ops = s at hs
  refine ⟨fun r hr => ?_, fun i hi => ?_, fun d hd event action installationId githubId =>
    Store.webhook_seen hd event action installationId githubId⟩
  · have hfind : s.connections.find? r.ownerId = some r := Table.find?_of_mem hr
    have htoken := hs.token _ r hfind
    have hactive := hs.active _ r hfind
    have hrows : s.hasActive r.ownerId = true ↔
        ∃ i ∈ s.installations.rows, i.ownerId = r.ownerId ∧ i.status = .active := by
      simp [Store.hasActive]
    rw [hrows] at hactive
    refine ⟨htoken, ⟨fun h => ⟨fun hnone => ?_, hactive.mp h⟩, fun h => hactive.mpr h.2⟩,
      fun h i hi howner hon => ?_⟩
    · rw [htoken.mp hnone] at h
      cases h
    · rw [hactive.mpr ⟨i, hi, howner, hon⟩] at h
      rcases h with h | h <;> cases h
  · have hfind : s.installations.find? (i.ownerId, i.installationId) = some i :=
      Table.find?_of_mem hi
    obtain ⟨r, hr⟩ := Option.ne_none_iff_exists'.mp
      (hs.foreign i.ownerId i.installationId (by rw [hfind]; simp))
    exact ⟨r, Table.mem_of_find? hr, Table.key_of_find? hr⟩

end GgAgent.Github
