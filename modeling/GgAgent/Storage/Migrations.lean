import Mathlib.Data.List.Basic
import Mathlib.Logic.Function.Basic

/-!
The schema of the backend's database and its migrations.

A migration is one transaction: its statements, the revision, and the version in
`user_version`, and before the commit the whole schema is compared with the texts of the
migrations. The call may be cut off at any statement, and it may be made again after that.
What is proved is that this changes nothing: a database that went through any number of
attempts that were cut off is brought to the same state by the next one, and in between it
is at one of the versions, with everything of that version and nothing of a later one.

A statement is its text, as the words of it, together with what the engine does for it. The
words are what the code compares (`" ".join(text.split())`). A name is compared by the engine
without case and by the code with it.
-/

namespace GgAgent.Migrations

/-! ### The database -/

inductive SqlValue
  | null
  | int (i : Int)
  | real (bits : UInt64)
  | text (s : String)
  | blob (bytes : List UInt8)
  deriving DecidableEq

abbrev Row := List SqlValue

/-- The text of a statement, as its words. -/
abbrev Sql := List String

inductive Kind
  | table
  | index
  | view
  | trigger
  deriving DecidableEq

/-- A row of `sqlite_master`. The indexes that the engine makes by itself have no text, and
nothing looks at them. -/
structure SchemaRow where
  kind : Kind
  name : String
  sql : Sql
  deriving DecidableEq

structure Database where
  /-- `PRAGMA user_version` -/
  userVersion : Int
  master : List SchemaRow
  /-- The rows of a table. -/
  rows : String → List Row

def fold (name : String) : List Char := name.toList.map Char.toLower

/-- An object of that name exists, as the engine sees it. -/
def Database.has (db : Database) (name : String) : Bool :=
  db.master.any fun r => r.kind ≠ .trigger && fold r.name = fold name

def Database.hasTable (db : Database) (name : String) : Bool :=
  db.master.any fun r => r.kind = .table && fold r.name = fold name

/-- `SELECT sql FROM sqlite_master WHERE type = ? AND name = ?` -/
def Database.stored (db : Database) (kind : Kind) (name : String) : Option Sql :=
  (db.master.find? fun r => r.kind = kind && r.name = name).map (·.sql)

/-! ### The statements -/

/-- What the engine does for a statement of a migration. A unique index is only made for a
table of the same migration, which has no rows. -/
inductive Effect
  | table (name : String)
  | index (name table : String)
  | insert (table : String) (row : Row)

structure Statement where
  sql : Sql
  effect : Effect

structure Migration where
  version : Nat
  statements : List Statement

/-- `text.split()` -/
def words (text : String) : List String :=
  ((text.toList.splitOnP Char.isWhitespace).filter fun w => !w.isEmpty).map String.ofList

/-- What a statement does if the engine takes it. -/
def Statement.run (s : Statement) (db : Database) : Database :=
  match s.effect with
  | .table name =>
    { db with
      master := db.master ++ [⟨.table, name, s.sql⟩]
      rows := Function.update db.rows name [] }
  | .index name _ => { db with master := db.master ++ [⟨.index, name, s.sql⟩] }
  | .insert table row =>
    { db with rows := Function.update db.rows table (db.rows table ++ [row]) }

/-- The engine takes it: a name is free, a table exists, the primary key is new. -/
def Statement.allowed (s : Statement) (db : Database) : Bool :=
  match s.effect with
  | .table name => !db.has name
  | .index name table => !db.has name && db.hasTable table
  | .insert table row =>
    db.hasTable table && (db.rows table).all fun r => r.head? ≠ row.head?

/-- `connection.execute(statement)`; without a result it raises. -/
def Statement.execute (s : Statement) (db : Database) : Option Database :=
  if s.allowed db then some (s.run db) else none

/-- `revision + 1`, unless the sum leaves the 64-bit integers and the check of the column
fails. -/
def bumpRow : Row → Option Row
  | [singleton, .int revision] =>
    if revision + 1 < 9223372036854775808 then some [singleton, .int (revision + 1)] else none
  | _ => none

/-- `UPDATE runtime_metadata SET revision = revision + 1` -/
def bumpRevision (db : Database) : Option Database :=
  if db.hasTable "runtime_metadata" then
    ((db.rows "runtime_metadata").mapM bumpRow).map fun rows =>
      { db with rows := Function.update db.rows "runtime_metadata" rows }
  else none


def METADATA_SQL : Sql :=
  ["CREATE", "TABLE", "runtime_metadata"] ++ words "( singleton INTEGER PRIMARY KEY CHECK
    (singleton = 1), revision INTEGER NOT NULL CHECK (typeof(revision) = 'integer' AND
    revision >= 0) )"

def MIGRATIONS : List Migration := [
  ⟨1, [
    ⟨METADATA_SQL, .table "runtime_metadata"⟩,
    ⟨["INSERT", "INTO", "runtime_metadata"] ++ words "VALUES (1, 0)",
      .insert "runtime_metadata" [.int 1, .int 0]⟩]⟩,
  ⟨2, [
    ⟨["CREATE", "TABLE", "ledger_counters"] ++ words "(name TEXT PRIMARY KEY NOT NULL, value
      INTEGER NOT NULL CHECK (value >= 0)) STRICT",
      .table "ledger_counters"⟩,
    ⟨["INSERT", "INTO", "ledger_counters"] ++ words "VALUES ('task_seq', 0)",
      .insert "ledger_counters" [.text "task_seq", .int 0]⟩,
    ⟨["CREATE", "TABLE", "tasks"] ++ words "( id TEXT PRIMARY KEY NOT NULL, seq INTEGER UNIQUE
      NOT NULL CHECK (seq > 0), state TEXT NOT NULL CHECK (state IN
   ('queued','starting','running','idle','sleeping','finalizing','completed','failed','cancelled')),
      idempotency_key TEXT NOT NULL, owner_id TEXT, repository TEXT NOT NULL, prompt TEXT NOT
      NULL, base_ref TEXT, base_sha TEXT, retry_of TEXT, model TEXT NOT NULL, created_at TEXT
      NOT NULL, updated_at TEXT NOT NULL, outcome_detail TEXT, check_status TEXT,
      sandbox_cleanup_status TEXT, payload_expired INTEGER NOT NULL DEFAULT 0 CHECK
      (payload_expired IN (0,1)), workspace_expired INTEGER NOT NULL DEFAULT 0 CHECK
      (workspace_expired IN (0,1)), workspace_last_activity_at TEXT ) STRICT",
      .table "tasks"⟩,
    ⟨["CREATE", "UNIQUE", "INDEX", "tasks_admin_key"] ++ words "ON tasks(idempotency_key)
      WHERE owner_id IS NULL",
      .index "tasks_admin_key" "tasks"⟩,
    ⟨["CREATE", "UNIQUE", "INDEX", "tasks_owner_key"] ++ words "ON tasks(owner_id,
      idempotency_key) WHERE owner_id IS NOT NULL",
      .index "tasks_owner_key" "tasks"⟩,
    ⟨["CREATE", "INDEX", "tasks_owner_seq"] ++ words "ON tasks(owner_id, seq)",
      .index "tasks_owner_seq" "tasks"⟩,
    ⟨["CREATE", "TABLE", "task_reservations"] ++ words "( task_id TEXT PRIMARY KEY NOT NULL
      REFERENCES tasks(id), phase TEXT NOT NULL CHECK (phase IN
      ('starting','running','finalizing','termination_pending','unresolved_creation')),
      condition TEXT, reserved_at TEXT NOT NULL, updated_at TEXT NOT NULL ) STRICT",
      .table "task_reservations"⟩]⟩,
  ⟨3, [
    ⟨["CREATE", "TABLE", "sandbox_creations"] ++ words "( task_id TEXT PRIMARY KEY NOT NULL
      REFERENCES tasks(id), deployment TEXT NOT NULL, sandbox_name TEXT NOT NULL, tags_json
      TEXT NOT NULL CHECK (json_valid(tags_json)), session_api_key TEXT NOT NULL,
      credential_version INTEGER CHECK (credential_version > 0), provider_id TEXT,
      provider_state TEXT NOT NULL CHECK (provider_state IN
      ('creating','running','stopped','unknown')), detail TEXT, created_at TEXT NOT NULL,
      updated_at TEXT NOT NULL, UNIQUE(deployment, sandbox_name) ) STRICT",
      .table "sandbox_creations"⟩,
    ⟨["CREATE", "TABLE", "task_supervisions"] ++ words "( task_id TEXT PRIMARY KEY NOT NULL
      REFERENCES tasks(id), execution_id TEXT NOT NULL, task_branch TEXT NOT NULL, start_key
      TEXT UNIQUE NOT NULL, conversation_id TEXT, cancel_requested INTEGER NOT NULL DEFAULT 0
      CHECK (cancel_requested IN (0,1)), tail_gap_possible INTEGER NOT NULL DEFAULT 0 CHECK
      (tail_gap_possible IN (0,1)), created_at TEXT NOT NULL, updated_at TEXT NOT NULL )
      STRICT",
      .table "task_supervisions"⟩,
    ⟨["CREATE", "TABLE", "publication_intents"] ++ words "( task_id TEXT PRIMARY KEY NOT NULL
      REFERENCES tasks(id), repository TEXT NOT NULL, task_branch TEXT NOT NULL, base_ref TEXT
      NOT NULL, task_marker TEXT NOT NULL, commit_sha TEXT, state TEXT NOT NULL, check_outcome
      TEXT NOT NULL, agent_outcome TEXT NOT NULL, pr_number INTEGER, pr_url TEXT, pr_draft
      INTEGER CHECK (pr_draft IN (0,1)), pr_author TEXT, pr_state TEXT, detail TEXT,
      created_at TEXT NOT NULL, updated_at TEXT NOT NULL ) STRICT",
      .table "publication_intents"⟩,
    ⟨["CREATE", "TABLE", "task_message_receipts"] ++ words "( task_id TEXT NOT NULL REFERENCES
      tasks(id), message_id TEXT NOT NULL, content TEXT NOT NULL, status TEXT NOT NULL, detail
      TEXT, created_at TEXT NOT NULL, updated_at TEXT NOT NULL, PRIMARY KEY(task_id,
      message_id) ) STRICT",
      .table "task_message_receipts"⟩]⟩,
  ⟨4, [
    ⟨["CREATE", "TABLE", "task_event_counters"] ++ words "( task_id TEXT PRIMARY KEY NOT NULL,
      value INTEGER NOT NULL CHECK (value >= 0) ) STRICT",
      .table "task_event_counters"⟩,
    ⟨["CREATE", "TABLE", "task_event_identities"] ++ words "( task_id TEXT NOT NULL, source_id
      TEXT NOT NULL, source_seq INTEGER NOT NULL, cursor_seq INTEGER NOT NULL CHECK
      (cursor_seq > 0), PRIMARY KEY(task_id, source_id, source_seq), UNIQUE(task_id,
      cursor_seq) ) STRICT",
      .table "task_event_identities"⟩,
    ⟨["CREATE", "TABLE", "task_event_copies"] ++ words "( task_id TEXT NOT NULL REFERENCES
      tasks(id), cursor_seq INTEGER NOT NULL, source_id TEXT NOT NULL, source_seq INTEGER NOT
      NULL, event_json TEXT NOT NULL CHECK (json_valid(event_json)), created_at TEXT NOT NULL,
      PRIMARY KEY(task_id, cursor_seq), UNIQUE(task_id, source_id, source_seq) ) STRICT",
      .table "task_event_copies"⟩,
    ⟨["CREATE", "TABLE", "task_results"] ++ words "( task_id TEXT PRIMARY KEY NOT NULL
      REFERENCES tasks(id), execution_id TEXT, manifest_json TEXT CHECK
      (json_valid(manifest_json)), evidence_complete INTEGER NOT NULL CHECK (evidence_complete
      IN (0,1)), evidence_detail TEXT, archived_at TEXT ) STRICT",
      .table "task_results"⟩,
    ⟨["CREATE", "TABLE", "retention_tombstones"] ++ words "( task_id TEXT PRIMARY KEY NOT
      NULL, remote_effect_json TEXT CHECK (json_valid(remote_effect_json)), expires_at TEXT
      NOT NULL ) STRICT",
      .table "retention_tombstones"⟩,
    ⟨["CREATE", "TABLE", "task_idempotency"] ++ words "( task_id TEXT PRIMARY KEY NOT NULL,
      owner_id TEXT, idempotency_key TEXT NOT NULL, seq INTEGER UNIQUE NOT NULL,
      terminal_state TEXT NOT NULL, model TEXT NOT NULL, created_at TEXT NOT NULL, updated_at
      TEXT NOT NULL ) STRICT",
      .table "task_idempotency"⟩,
    ⟨["CREATE", "UNIQUE", "INDEX", "idempotency_admin_key"] ++ words "ON
      task_idempotency(idempotency_key) WHERE owner_id IS NULL",
      .index "idempotency_admin_key" "task_idempotency"⟩,
    ⟨["CREATE", "UNIQUE", "INDEX", "idempotency_owner_key"] ++ words "ON
      task_idempotency(owner_id, idempotency_key) WHERE owner_id IS NOT NULL",
      .index "idempotency_owner_key" "task_idempotency"⟩]⟩,
  ⟨5, [
    ⟨["CREATE", "TABLE", "local_users"] ++ words "(id TEXT PRIMARY KEY NOT NULL, google_sub
      TEXT UNIQUE NOT NULL, email TEXT NOT NULL) STRICT",
      .table "local_users"⟩,
    ⟨["CREATE", "TABLE", "local_sessions"] ++ words "(token_hash TEXT PRIMARY KEY NOT NULL,
      owner_id TEXT NOT NULL REFERENCES local_users(id), expires_at INTEGER NOT NULL, revoked
      INTEGER NOT NULL DEFAULT 0 CHECK (revoked IN (0,1))) STRICT",
      .table "local_sessions"⟩]⟩,
  ⟨6, [
    ⟨["CREATE", "TABLE", "google_flows"] ++ words "(state TEXT PRIMARY KEY NOT NULL,
      browser_hash TEXT NOT NULL, nonce TEXT NOT NULL, verifier TEXT NOT NULL, return_to TEXT
      NOT NULL, expires_at INTEGER NOT NULL, status TEXT NOT NULL CHECK (status IN
      ('pending','claimed','completed','failed')), session_hash TEXT REFERENCES
      local_sessions(token_hash), completion_revision INTEGER) STRICT",
      .table "google_flows"⟩]⟩,
  ⟨7, [
    ⟨["CREATE", "TABLE", "openrouter_credentials"] ++ words "(owner_id TEXT PRIMARY KEY NOT
      NULL REFERENCES local_users(id), ciphertext BLOB, mask TEXT, credential_version INTEGER
      NOT NULL CHECK (credential_version > 0), CHECK ((ciphertext IS NULL) = (mask IS NULL)))
      STRICT",
      .table "openrouter_credentials"⟩]⟩,
  ⟨8, [
    ⟨["CREATE", "TABLE", "github_connections"] ++ words "(owner_id TEXT PRIMARY KEY NOT NULL
      REFERENCES local_users(id), github_user_id INTEGER UNIQUE NOT NULL CHECK (github_user_id
      > 0), login TEXT NOT NULL, token_ciphertext BLOB, status TEXT NOT NULL CHECK (status IN
      ('connected','pending','revoked'))) STRICT",
      .table "github_connections"⟩,
    ⟨["CREATE", "TABLE", "github_installations"] ++ words "(owner_id TEXT NOT NULL REFERENCES
      github_connections(owner_id) ON DELETE CASCADE, installation_id INTEGER NOT NULL CHECK
      (installation_id > 0), account_login TEXT NOT NULL, account_type TEXT NOT NULL, status
      TEXT NOT NULL CHECK (status IN ('active','removed','suspended')), PRIMARY KEY(owner_id,
      installation_id)) STRICT",
      .table "github_installations"⟩,
    ⟨["CREATE", "TABLE", "github_oauth_flows"] ++ words "(state_hash TEXT PRIMARY KEY NOT
      NULL, owner_id TEXT NOT NULL REFERENCES local_users(id), session_id TEXT NOT NULL
      REFERENCES local_sessions(token_hash), expires_at INTEGER NOT NULL) STRICT",
      .table "github_oauth_flows"⟩,
    ⟨["CREATE", "TABLE", "github_webhook_deliveries"] ++ words "(delivery_id TEXT PRIMARY KEY
      NOT NULL) STRICT",
      .table "github_webhook_deliveries"⟩]⟩,
  ⟨9, [
    ⟨["CREATE", "INDEX", "tasks_state_seq"] ++ words "ON tasks(state, seq)",
      .index "tasks_state_seq" "tasks"⟩,
    ⟨["CREATE", "INDEX", "tasks_sleeping_expiry"] ++ words "ON tasks(
      COALESCE(workspace_last_activity_at, updated_at), seq) WHERE state = 'sleeping' AND
      workspace_expired = 0",
      .index "tasks_sleeping_expiry" "tasks"⟩,
    ⟨["CREATE", "INDEX", "tasks_settlement"] ++ words "ON tasks(outcome_detail) WHERE
      sandbox_cleanup_status = 'confirmed_absent' AND state NOT IN ('completed', 'cancelled')",
      .index "tasks_settlement" "tasks"⟩,
    ⟨["CREATE", "INDEX", "reservations_order"] ++ words "ON task_reservations(reserved_at,
      task_id)",
      .index "reservations_order" "task_reservations"⟩]⟩,
  ⟨10, [
    ⟨["CREATE", "TABLE", "task_event_source_cursors"] ++ words "( task_id TEXT NOT NULL,
      source_id TEXT NOT NULL, source_seq INTEGER NOT NULL CHECK (source_seq >= 0), PRIMARY
      KEY(task_id, source_id)) STRICT",
      .table "task_event_source_cursors"⟩]⟩]


/-! ### The code -/

/-- What a call raises: `InvalidDatabase` with its text, or anything else. -/
inductive Failure
  | invalid (text : String)
  | raised
  deriving DecidableEq

/-- `statement.startswith("CREATE ")` -/
def isCreate (sql : Sql) : Bool := sql.head? = some "CREATE"

/-- The kind and the name that `validate_schema` reads out of the words. Without a result
`words.index` or the index after it raises. -/
def createdName (sql : Sql) : Option (Kind × String) :=
  let isIndex := (sql.take 3).contains "INDEX"
  let keyword := if isIndex then "INDEX" else "TABLE"
  let at? := sql.idxOf? keyword
  (at?.bind fun i => sql[i + 1]?).map fun word =>
    (if isIndex then .index else .table, String.ofList (word.toList.takeWhile (· ≠ '(')))

def checkStatement (db : Database) (sql : Sql) : Except Failure Unit :=
  if isCreate sql then
    match createdName sql with
    | none => .error .raised
    | some (kind, name) =>
      if db.stored kind name = some sql then .ok ()
      else .error (.invalid ("missing or incompatible " ++ name ++ " schema"))
  else .ok ()

def checkAll (db : Database) : List Statement → Except Failure Unit
  | [] => .ok ()
  | s :: ss => do
    checkStatement db s.sql
    checkAll db ss

def checkRevision (rows : List Row) : Except Failure Int :=
  match rows with
  | [[.int singleton, .int revision]] =>
    if singleton ≠ 1 ∨ revision < 0 then .error (.invalid "invalid runtime revision")
    else .ok revision
  | _ => .error (.invalid "invalid runtime revision")

/-- The statements of `MIGRATIONS[1:version]`. -/
def later (known : List Migration) (version : Nat) : List Statement :=
  ((known.take version).drop 1).flatMap (·.statements)

def validateSchema (known : List Migration) (db : Database) (version : Int) :
    Except Failure Int :=
  if db.userVersion ≠ version ∨ db.userVersion < 1 then
    .error (.invalid
      ("schema version " ++ toString db.userVersion ++ "; expected " ++ toString version))
  else if db.stored .table "runtime_metadata" ≠ some METADATA_SQL then
    .error (.invalid "missing or incompatible runtime metadata schema")
  else do
    checkAll db (later known version.toNat)
    checkRevision (db.rows "runtime_metadata")

/-- The calls of the connection after which an attempt is cut off; without it nothing is. -/
abbrev Fault := Option Nat

/-- The next `n` calls of the connection all return, or one of them raises. -/
def calls (n : Nat) : Fault → Except Failure Fault
  | none => .ok none
  | some k => if n ≤ k then .ok (some (k - n)) else .error .raised

/-- The calls of `validate_schema`. -/
def validateCalls (known : List Migration) (version : Int) : Nat :=
  3 + ((later known version.toNat).filter fun s => isCreate s.sql).length

def orRaise {α : Type} : Option α → Except Failure α
  | some a => .ok a
  | none => .error .raised

def executeAll : List Statement → Database → Fault → Except Failure (Database × Fault)
  | [], db, f => .ok (db, f)
  | s :: ss, db, f => do
    let f ← calls 1 f
    let db ← orRaise (s.execute db)
    executeAll ss db f

/-- The revision counts the migrations after the first. -/
def bumpAfterFirst (version : Nat) (db : Database) (f : Fault) :
    Except Failure (Database × Fault) :=
  if 1 < version then do
    let f ← calls 1 f
    let db ← orRaise (bumpRevision db)
    .ok (db, f)
  else .ok (db, f)

/-- One turn of the loop, from `BEGIN IMMEDIATE` to the commit. If it raises, the transaction
is rolled back. -/
def transact (known : List Migration) (m : Migration) (db : Database) (f : Fault) :
    Except Failure (Database × Fault) := do
  let f ← calls 1 f
  let (db, f) ← executeAll m.statements db f
  let (db, f) ← bumpAfterFirst m.version db f
  let f ← calls 1 f
  let db := { db with userVersion := m.version }
  let f ← calls (validateCalls known m.version) f
  let _ ← validateSchema known db m.version
  let f ← calls 1 f
  .ok (db, f)

/-- The loop of `apply_migrations`: how it ends, and the database that it leaves. -/
def migrateAll (known : List Migration) : List Migration → Database → Fault →
    Except Failure Unit × Database
  | [], db, _ => (.ok (), db)
  | m :: ms, db, f =>
    match transact known m db f with
    | .error e => (.error e, db)
    | .ok (db, f) => migrateAll known ms db f

/-- `migrations[-1].version` -/
def lastVersion (ms : List Migration) : Nat := (ms.getLast?.map (·.version)).getD 0

/-- The look at a database that has a version, or at one that has none. -/
def examineState (known : List Migration) (db : Database) (f : Fault) : Except Failure Fault :=
  if db.userVersion ≠ 0 then do
    let f ← calls (validateCalls known db.userVersion) f
    let _ ← validateSchema known db db.userVersion
    .ok f
  else do
    let f ← calls 1 f
    if db.master ≠ [] then .error (.invalid "unversioned or interrupted schema") else .ok f

/-- What `apply_migrations` looks at before the loop. -/
def examine (known ms : List Migration) (db : Database) (f : Fault) : Except Failure Fault :=
  if ms = [] ∨ ms.map (·.version) ≠ (List.range ms.length).map (· + 1) then
    .error (.invalid "migrations must be sequential starting at 1")
  else do
    let f ← calls 1 f
    if (lastVersion ms : Int) < db.userVersion then
      .error (.invalid ("future schema version " ++ toString db.userVersion))
    else examineState known db f

def applyMigrations (known ms : List Migration) (db : Database) (f : Fault) :
    Except Failure Unit × Database :=
  match examine known ms db f with
  | .error e => (.error e, db)
  | .ok f => migrateAll known (ms.drop db.userVersion.toNat) db f

/-! ### An attempt that is cut off

Nothing here is about what the statements are. A migration that is committed gives the same
database whether or not a later one is cut off, and it has just been validated. So the next
attempt goes on where the last one stopped. -/

theorem bind_eq_ok {α β : Type} {x : Except Failure α} {g : α → Except Failure β} {b : β} :
    x >>= g = .ok b ↔ ∃ a, x = .ok a ∧ g a = .ok b := by
  cases x with
  | error e =>
      constructor
      · intro h
        cases h
      · rintro ⟨a, h, -⟩
        cases h
  | ok a =>
      constructor
      · intro h
        exact ⟨a, rfl, h⟩
      · rintro ⟨a', h, hg⟩
        cases h
        exact hg

@[simp] theorem calls_none (n : Nat) : calls n none = .ok none := rfl

theorem executeAll_none {ss : List Statement} {db d : Database} {f f' : Fault}
    (h : executeAll ss db f = .ok (d, f')) : executeAll ss db none = .ok (d, none) := by
  induction ss generalizing db f with
  | nil =>
      cases h
      rfl
  | cons s ss ih =>
      rw [executeAll] at h
      obtain ⟨f₁, -, h⟩ := bind_eq_ok.mp h
      obtain ⟨db₁, hdb₁, h⟩ := bind_eq_ok.mp h
      rw [executeAll]
      exact bind_eq_ok.mpr ⟨none, rfl, bind_eq_ok.mpr ⟨db₁, hdb₁, ih h⟩⟩

theorem bumpAfterFirst_none {v : Nat} {db d : Database} {f f' : Fault}
    (h : bumpAfterFirst v db f = .ok (d, f')) : bumpAfterFirst v db none = .ok (d, none) := by
  unfold bumpAfterFirst at h ⊢
  split at h
  next hv =>
    obtain ⟨f₁, -, h⟩ := bind_eq_ok.mp h
    obtain ⟨db₁, hdb₁, h⟩ := bind_eq_ok.mp h
    cases h
    rw [if_pos hv]
    exact bind_eq_ok.mpr ⟨none, rfl, bind_eq_ok.mpr ⟨d, hdb₁, rfl⟩⟩
  next hv =>
    cases h
    rw [if_neg hv]

section Attempts

variable {known : List Migration}

/-- What a migration that commits has done. -/
structure Commits (known : List Migration) (m : Migration) (db d : Database) : Prop where
  done : ∃ d₁ d₂, executeAll m.statements db none = .ok (d₁, none) ∧
    bumpAfterFirst m.version d₁ none = .ok (d₂, none) ∧
    d = { d₂ with userVersion := m.version }
  valid : ∃ r, validateSchema known d m.version = .ok r

theorem commits_of_transact {m : Migration} {db d : Database} {f f' : Fault}
    (h : transact known m db f = .ok (d, f')) : Commits known m db d := by
  unfold transact at h
  obtain ⟨f₁, -, h⟩ := bind_eq_ok.mp h
  obtain ⟨⟨d₁, f₂⟩, hexecute, h⟩ := bind_eq_ok.mp h
  obtain ⟨⟨d₂, f₃⟩, hbump, h⟩ := bind_eq_ok.mp h
  obtain ⟨f₄, -, h⟩ := bind_eq_ok.mp h
  obtain ⟨f₅, -, h⟩ := bind_eq_ok.mp h
  obtain ⟨r, hvalid, h⟩ := bind_eq_ok.mp h
  obtain ⟨f₆, -, h⟩ := bind_eq_ok.mp h
  cases h
  exact ⟨⟨d₁, d₂, executeAll_none hexecute, bumpAfterFirst_none hbump, rfl⟩, r, hvalid⟩

theorem Commits.transact {m : Migration} {db d : Database} (h : Commits known m db d) :
    transact known m db none = .ok (d, none) := by
  obtain ⟨⟨d₁, d₂, hexecute, hbump, rfl⟩, r, hvalid⟩ := h
  unfold Migrations.transact
  refine bind_eq_ok.mpr ⟨none, rfl, bind_eq_ok.mpr ⟨_, hexecute, bind_eq_ok.mpr ⟨_, hbump, ?_⟩⟩⟩
  refine bind_eq_ok.mpr ⟨none, rfl, bind_eq_ok.mpr ⟨none, rfl, bind_eq_ok.mpr ⟨r, hvalid, ?_⟩⟩⟩
  exact bind_eq_ok.mpr ⟨none, rfl, rfl⟩

/-- The migrations are committed one after the other. -/
inductive Applied (known : List Migration) : List Migration → Database → Database → Prop
  | nil (db : Database) : Applied known [] db db
  | cons {m : Migration} {ms : List Migration} {db d₁ d : Database}
      (h : Commits known m db d₁) (hs : Applied known ms d₁ d) : Applied known (m :: ms) db d

/-- Wherever the loop is cut off, some of the migrations are applied and nothing else. -/
theorem migrateAll_stops (ms : List Migration) (db : Database) (f : Fault) :
    ∃ k, k ≤ ms.length ∧ Applied known (ms.take k) db (migrateAll known ms db f).2 ∧
      ((migrateAll known ms db f).1 = .ok () → k = ms.length) := by
  induction ms generalizing db f with
  | nil => exact ⟨0, Nat.le_refl _, .nil db, fun _ => rfl⟩
  | cons m ms ih =>
      rw [migrateAll]
      cases htransact : transact known m db f with
      | error e =>
          refine ⟨0, Nat.zero_le _, .nil db, ?_⟩
          intro h
          cases h
      | ok p =>
          obtain ⟨d₁, f₁⟩ := p
          obtain ⟨k, hk, hstops, hall⟩ := ih d₁ f₁
          refine ⟨k + 1, by simpa using hk, ?_, ?_⟩
          · exact .cons (commits_of_transact htransact) hstops
          · intro h
            rw [hall h, List.length_cons]

theorem Applied.migrateAll {as : List Migration} {db d : Database} (h : Applied known as db d)
    (bs : List Migration) :
    migrateAll known (as ++ bs) db none = migrateAll known bs d none := by
  induction h with
  | nil => rfl
  | cons hcommits _ ih =>
      rw [List.cons_append, Migrations.migrateAll, hcommits.transact]
      exact ih

/-- The version is that of the last migration, and the schema has been found valid at it. -/
theorem Applied.last {as : List Migration} {db d : Database} (h : Applied known as db d) :
    as = [] ∧ d = db ∨ ∃ m, as.getLast? = some m ∧ d.userVersion = m.version ∧
      ∃ r, validateSchema known d m.version = .ok r := by
  induction h with
  | nil => exact .inl ⟨rfl, rfl⟩
  | @cons m ms db d₁ d hcommits hs ih =>
      right
      rcases ih with ⟨rfl, rfl⟩ | ⟨m', hlast, hversion, hvalid⟩
      · obtain ⟨⟨_, _, -, -, rfl⟩, hvalid⟩ := hcommits
        exact ⟨m, rfl, rfl, hvalid⟩
      · exact ⟨m', by rw [List.getLast?_cons, hlast]; rfl, hversion, hvalid⟩

end Attempts

/-- The versions are 1, 2, 3 and so on. -/
def Sequential (ms : List Migration) : Prop :=
  ms.map (·.version) = (List.range ms.length).map (· + 1)

namespace Sequential

variable {ms : List Migration} (hms : Sequential ms)
include hms

theorem version {i : Nat} {m : Migration} (h : ms[i]? = some m) : m.version = i + 1 := by
  have hi : i < ms.length := (List.getElem?_eq_some_iff.mp h).1
  have hmap : (ms.map (·.version))[i]? = some m.version := by rw [List.getElem?_map, h]; rfl
  rw [show ms.map (·.version) = _ from hms, List.getElem?_map, List.getElem?_range hi] at hmap
  exact (Option.some.inj hmap).symm

theorem last (hne : ms ≠ []) : lastVersion ms = ms.length := by
  have hpos : 0 < ms.length := List.length_pos_iff.mpr hne
  have hlast : ms[ms.length - 1]? = some (ms.getLast hne) := by
    rw [← List.getLast?_eq_getElem?, List.getLast?_eq_some_getLast hne]
  rw [lastVersion, List.getLast?_eq_some_getLast hne, Option.map_some, Option.getD_some,
    hms.version hlast]
  omega

end Sequential

section Resume

variable {known ms : List Migration}

/-- What the look before the loop has found. -/
structure Examined (known ms : List Migration) (db : Database) : Prop where
  nonempty : ms ≠ []
  sequential : Sequential ms
  old : db.userVersion ≤ ms.length
  state : db.userVersion = 0 ∧ db.master = [] ∨
    ∃ r, validateSchema known db db.userVersion = .ok r

theorem version_of_valid {db : Database} {v r : Int} (h : validateSchema known db v = .ok r) :
    db.userVersion = v ∧ 1 ≤ v := by
  unfold validateSchema at h
  split at h
  next => cases h
  next hversion => omega

theorem examined_of_ok {db : Database} {f f' : Fault} (h : examine known ms db f = .ok f') :
    Examined known ms db := by
  unfold examine at h
  split at h
  next => cases h
  next hms =>
    have hne : ms ≠ [] := fun hnil => hms (.inl hnil)
    have hsequential : Sequential ms := not_not.mp fun hbad => hms (.inr hbad)
    obtain ⟨f₁, -, h⟩ := bind_eq_ok.mp h
    split at h
    next => cases h
    next hold =>
      rw [hsequential.last hne] at hold
      refine ⟨hne, hsequential, by omega, ?_⟩
      unfold examineState at h
      split at h
      next hversion =>
        obtain ⟨f₂, -, h⟩ := bind_eq_ok.mp h
        obtain ⟨r, hvalid, -⟩ := bind_eq_ok.mp h
        exact .inr ⟨r, hvalid⟩
      next hzero =>
        obtain ⟨f₂, -, h⟩ := bind_eq_ok.mp h
        split at h
        next => cases h
        next hmaster => exact .inl ⟨not_not.mp hzero, not_not.mp hmaster⟩

theorem Examined.examineState {db : Database} (h : Examined known ms db) :
    examineState known db none = .ok none := by
  unfold Migrations.examineState
  by_cases hzero : db.userVersion = 0
  · have hmaster : db.master = [] := by
      rcases h.state with ⟨-, hmaster⟩ | ⟨r, hvalid⟩
      · exact hmaster
      · have hpos := (version_of_valid hvalid).2
        omega
    rw [if_neg (not_not.mpr hzero)]
    refine bind_eq_ok.mpr ⟨none, rfl, ?_⟩
    rw [if_neg (not_not.mpr hmaster)]
  · rw [if_pos hzero]
    rcases h.state with ⟨hzero', -⟩ | ⟨r, hvalid⟩
    · exact absurd hzero' hzero
    · exact bind_eq_ok.mpr ⟨none, rfl, bind_eq_ok.mpr ⟨r, hvalid, rfl⟩⟩

theorem Examined.examine {db : Database} (h : Examined known ms db) :
    examine known ms db none = .ok none := by
  have hlist : ¬ (ms = [] ∨ ms.map (·.version) ≠ (List.range ms.length).map (· + 1)) := by
    rintro (hempty | hbad)
    · exact h.nonempty hempty
    · exact hbad h.sequential
  have hfuture : ¬ (lastVersion ms : Int) < db.userVersion := by
    rw [h.sequential.last h.nonempty]
    exact Int.not_lt.mpr h.old
  unfold Migrations.examine
  rw [if_neg hlist]
  refine bind_eq_ok.mpr ⟨none, rfl, ?_⟩
  rw [if_neg hfuture]
  exact h.examineState

theorem Examined.version_nonneg {db : Database} (h : Examined known ms db) :
    0 ≤ db.userVersion := by
  rcases h.state with ⟨hzero, -⟩ | ⟨r, hvalid⟩
  · omega
  · have hpos := (version_of_valid hvalid).2
    omega

theorem Examined.apply {db : Database} (h : Examined known ms db) :
    applyMigrations known ms db none =
      migrateAll known (ms.drop db.userVersion.toNat) db none := by
  unfold applyMigrations
  rw [h.examine]

/-- What an attempt leaves: the database as it was, if it was refused or cut off before the
first transaction, or the database after the first `k` of the migrations that it lacks. -/
theorem applyMigrations_stops (known ms : List Migration) (db : Database) (f : Fault) :
    (applyMigrations known ms db f).2 = db ∧ (applyMigrations known ms db f).1 ≠ .ok () ∨
      Examined known ms db ∧ ∃ k, k ≤ (ms.drop db.userVersion.toNat).length ∧
        Applied known ((ms.drop db.userVersion.toNat).take k) db
          (applyMigrations known ms db f).2 ∧
        ((applyMigrations known ms db f).1 = .ok () →
          k = (ms.drop db.userVersion.toNat).length) := by
  unfold applyMigrations
  cases hexamine : examine known ms db f with
  | error e =>
      left
      refine ⟨rfl, ?_⟩
      intro h
      cases h
  | ok f' =>
      right
      exact ⟨examined_of_ok hexamine, migrateAll_stops _ _ _⟩

/-- After some of the missing migrations the next attempt begins with the rest of them. -/
theorem Examined.applied {db d : Database} (h : Examined known ms db) {k : Nat}
    (hk : k ≤ (ms.drop db.userVersion.toNat).length)
    (hd : Applied known ((ms.drop db.userVersion.toNat).take k) db d) :
    Examined known ms d ∧ d.userVersion = db.userVersion + k := by
  have hpos := h.version_nonneg
  rcases hd.last with ⟨hnil, rfl⟩ | ⟨m, hlast, hversion, r, hvalid⟩
  · have hzero : k = 0 := by
      have hlength := congrArg List.length hnil
      rw [List.length_take, List.length_nil] at hlength
      omega
    subst hzero
    exact ⟨h, by simp⟩
  · rw [List.length_drop] at hk
    have hkpos : 0 < k := by
      by_contra hzero
      obtain rfl : k = 0 := by omega
      rw [List.take_zero] at hlast
      cases hlast
    have hlength : ((ms.drop db.userVersion.toNat).take k).length = k := by
      rw [List.length_take, List.length_drop]
      omega
    have hm : ms[db.userVersion.toNat + (k - 1)]? = some m := by
      rw [List.getLast?_eq_getElem?, hlength, List.getElem?_take_of_lt (by omega),
        List.getElem?_drop] at hlast
      exact hlast
    have hmversion := h.sequential.version hm
    have huser : d.userVersion = db.userVersion + k := by
      rw [hversion, hmversion]
      omega
    refine ⟨⟨h.nonempty, h.sequential, by omega, .inr ⟨r, ?_⟩⟩, huser⟩
    rw [hversion]
    exact hvalid

/-- **An attempt that was cut off leaves nothing behind.** Whatever the database was and
wherever the attempt stopped, the next one does what it would have done alone. -/
theorem applyMigrations_resume (known ms : List Migration) (db : Database) (f : Fault) :
    applyMigrations known ms (applyMigrations known ms db f).2 none =
      applyMigrations known ms db none := by
  rcases applyMigrations_stops known ms db f with ⟨hsame, -⟩ | ⟨hdb, k, hk, happlied, -⟩
  · rw [hsame]
  · obtain ⟨hd, hversion⟩ := hdb.applied hk happlied
    have hrest : ms.drop (db.userVersion + k).toNat =
        (ms.drop db.userVersion.toNat).drop k := by
      rw [List.drop_drop]
      have hpos := hdb.version_nonneg
      congr 1
      omega
    rw [hd.apply, hdb.apply, hversion, hrest]
    conv_rhs => rw [← List.take_append_drop k (ms.drop db.userVersion.toNat)]
    rw [happlied.migrateAll]

/-- A number of attempts, each cut off at its own place. -/
def attempts (known ms : List Migration) (db : Database) (faults : List Nat) : Database :=
  faults.foldl (fun d k => (applyMigrations known ms d (some k)).2) db

theorem applyMigrations_attempts (known ms : List Migration) (db : Database)
    (faults : List Nat) :
    applyMigrations known ms (attempts known ms db faults) none =
      applyMigrations known ms db none := by
  induction faults generalizing db with
  | nil => rfl
  | cons k faults ih =>
      have hstep := ih (applyMigrations known ms db (some k)).2
      rw [applyMigrations_resume] at hstep
      exact hstep

end Resume

/-! ### What the migrations make of a database -/

def nextRevision : Row → Row
  | [singleton, .int revision] => [singleton, .int (revision + 1)]
  | row => row

/-- The database after a migration that has been committed. -/
def Migration.run (m : Migration) (db : Database) : Database :=
  let d := m.statements.foldl (fun d s => s.run d) db
  let metadata := d.rows "runtime_metadata"
  { d with
    userVersion := m.version
    rows :=
      if 1 < m.version then
        Function.update d.rows "runtime_metadata" (metadata.map nextRevision)
      else d.rows }

def upgrade (ms : List Migration) (db : Database) : Database :=
  ms.foldl (fun d m => m.run d) db

theorem executeAll_run {ss : List Statement} {db d : Database}
    (h : executeAll ss db none = .ok (d, none)) : d = ss.foldl (fun d s => s.run d) db := by
  induction ss generalizing db with
  | nil =>
      cases h
      rfl
  | cons s ss ih =>
      rw [executeAll] at h
      obtain ⟨f₁, hf₁, h⟩ := bind_eq_ok.mp h
      obtain ⟨db₁, hdb₁, h⟩ := bind_eq_ok.mp h
      cases hf₁
      rw [ih h]
      unfold Statement.execute at hdb₁
      split at hdb₁
      next =>
        cases hdb₁
        rfl
      next => cases hdb₁

theorem bumpRow_eq {row row' : Row} (h : bumpRow row = some row') : row' = nextRevision row := by
  unfold bumpRow at h
  split at h
  next =>
    split at h
    next =>
      cases h
      rfl
    next => cases h
  next => cases h

theorem mapM_bumpRow {rows rows' : List Row} (h : rows.mapM bumpRow = some rows') :
    rows' = rows.map nextRevision := by
  induction rows generalizing rows' with
  | nil =>
      cases h
      rfl
  | cons row rows ih =>
      rw [List.mapM_cons] at h
      obtain ⟨row', hrow, h⟩ := Option.bind_eq_some_iff.mp h
      obtain ⟨rest, hrest, h⟩ := Option.bind_eq_some_iff.mp h
      cases h
      rw [List.map_cons, bumpRow_eq hrow, ih hrest]

theorem Commits.eq_run {known : List Migration} {m : Migration} {db d : Database}
    (h : Commits known m db d) : d = m.run db := by
  obtain ⟨⟨d₁, d₂, hexecute, hbump, rfl⟩, -⟩ := h
  obtain rfl := executeAll_run hexecute
  unfold Migration.run
  unfold bumpAfterFirst at hbump
  split at hbump
  next hv =>
    obtain ⟨f₁, -, hbump⟩ := bind_eq_ok.mp hbump
    obtain ⟨d₃, hd₃, hbump⟩ := bind_eq_ok.mp hbump
    cases hbump
    unfold bumpRevision at hd₃
    split at hd₃
    next =>
      cases hrows : List.mapM bumpRow
          ((List.foldl (fun d s => s.run d) db m.statements).rows "runtime_metadata") with
      | none =>
          rw [hrows] at hd₃
          cases hd₃
      | some rows =>
          rw [hrows] at hd₃
          cases hd₃
          rw [mapM_bumpRow hrows]
          simp only [hv, if_true]
    next => cases hd₃
  next hv =>
    cases hbump
    simp only [hv, if_false]

/-- Nothing but whole migrations has happened. -/
theorem Applied.eq_upgrade {known as : List Migration} {db d : Database}
    (h : Applied known as db d) : d = upgrade as db := by
  induction h with
  | nil => rfl
  | cons hcommits _ ih =>
      rw [ih, hcommits.eq_run]
      rfl

/-- The migrations after version `v`, up to version `w`. -/
def between (ms : List Migration) (v w : Nat) : List Migration := (ms.drop v).take (w - v)

theorem between_append (ms : List Migration) {u v w : Nat} (huv : u ≤ v) (hvw : v ≤ w) :
    between ms u v ++ between ms v w = between ms u w := by
  unfold between
  rw [show w - u = (v - u) + (w - v) by omega, List.take_add, List.drop_drop,
    show u + (v - u) = v by omega]

/-- **All or nothing.** However many attempts are made on a database and wherever each of them
stops, the database is what the migrations up to some version make of it, or it was refused
from the start and nothing has changed. -/
theorem attempts_exact (known ms : List Migration) (db : Database) (faults : List Nat) :
    attempts known ms db faults = db ∨
      ∃ v w : Nat, db.userVersion = v ∧ v ≤ w ∧ w ≤ ms.length ∧
        (attempts known ms db faults).userVersion = w ∧
        attempts known ms db faults = upgrade (between ms v w) db := by
  induction faults generalizing db with
  | nil => exact .inl rfl
  | cons k faults ih =>
      have hstep : attempts known ms db (k :: faults) =
          attempts known ms (applyMigrations known ms db (some k)).2 faults := rfl
      rw [hstep]
      rcases applyMigrations_stops known ms db (some k) with ⟨hsame, -⟩ | ⟨hdb, j, hj, happlied, -⟩
      · rw [hsame]
        exact ih db
      · right
        obtain ⟨hd, hversion⟩ := hdb.applied hj happlied
        have hpos := hdb.version_nonneg
        have heq := happlied.eq_upgrade
        rw [List.length_drop] at hj
        have hold := hdb.old
        have hfirst : (ms.drop db.userVersion.toNat).take j =
            between ms db.userVersion.toNat (db.userVersion.toNat + j) := by
          unfold between
          rw [Nat.add_sub_cancel_left]
        rw [hfirst] at heq
        rcases ih (applyMigrations known ms db (some k)).2 with
          hnone | ⟨v, w, hv, hvw, hw, huser, hup⟩
        · rw [hnone]
          refine ⟨db.userVersion.toNat, db.userVersion.toNat + j, ?_, ?_, ?_, ?_, heq⟩
          all_goals omega
        · have hv' : v = db.userVersion.toNat + j := by omega
          refine ⟨db.userVersion.toNat, w, by omega, by omega, hw, huser, ?_⟩
          rw [hup, heq, hv']
          unfold upgrade
          rw [← List.foldl_append, between_append ms (by omega) (by omega)]

/-! ### Lists of migrations that go through -/

def Statement.creates (s : Statement) : Option (Kind × String) :=
  match s.effect with
  | .table name => some (.table, name)
  | .index name _ => some (.index, name)
  | .insert _ _ => none

/-- The validation reads out of the text what the engine does for it. -/
def Statement.faithful (s : Statement) : Bool :=
  match s.creates with
  | some (kind, name) => isCreate s.sql && createdName s.sql = some (kind, name)
  | none => !isCreate s.sql

def Statement.tables (s : Statement) : List String :=
  match s.effect with
  | .table name => [name]
  | _ => []

def tablesOf (ms : List Migration) : List String :=
  ms.flatMap fun m => m.statements.flatMap (·.tables)

/-- An index is made for a table that exists, and a row goes into the table that was made just
before it. -/
def ordered (tables : List String) (fresh : Option String) : List Statement → Bool
  | [] => true
  | s :: ss =>
    match s.effect with
    | .table name => ordered (name :: tables) (some name) ss
    | .index _ table => tables.contains table && ordered tables none ss
    | .insert table _ => fresh = some table && ordered tables none ss

/-- The name of what a statement creates, without case. -/
def Statement.key (s : Statement) : Option (List Char) := s.creates.map fun c => fold c.2

def statementsOf (ms : List Migration) : List Statement := ms.flatMap (·.statements)

structure WellFormed (ms : List Migration) : Prop where
  sequential : Sequential ms
  faithful : ∀ s ∈ statementsOf ms, s.faithful = true
  ordered : ∀ v m, ms[v]? = some m → ordered (tablesOf (ms.take v)) none m.statements = true
  distinct : ((statementsOf ms).filterMap (·.key)).Nodup
  first : ∃ sql, ms.head? = some ⟨1, [⟨METADATA_SQL, .table "runtime_metadata"⟩,
    ⟨sql, .insert "runtime_metadata" [.int 1, .int 0]⟩]⟩

theorem wellFormed_migrations : WellFormed MIGRATIONS where
  sequential := by
    unfold Sequential
    decide +kernel
  faithful := by decide +kernel
  ordered := by
    have hall : (List.range 10).all (fun v => (MIGRATIONS[v]?).all fun m =>
        Migrations.ordered (tablesOf (MIGRATIONS.take v)) none m.statements) = true := by
      decide +kernel
    intro v m hm
    have hv : v < 10 := (List.getElem?_eq_some_iff.mp hm).1
    have hone := List.all_eq_true.mp hall v (List.mem_range.mpr hv)
    rw [hm] at hone
    exact hone
  distinct := by decide +kernel
  first := ⟨_, rfl⟩

section Runs

variable {s : Statement} {db : Database} {name : String}

def Statement.row (s : Statement) : Option SchemaRow :=
  s.creates.map fun c => ⟨c.1, c.2, s.sql⟩

theorem master_run (s : Statement) (db : Database) :
    (s.run db).master = db.master ++ s.row.toList := by
  unfold Statement.run Statement.row Statement.creates
  cases s.effect with
  | table name => rfl
  | index name table => rfl
  | insert table row => exact (List.append_nil _).symm

theorem has_run_of_ne (h : s.key ≠ some (fold name)) : (s.run db).has name = db.has name := by
  unfold Database.has
  rw [master_run, List.any_append, Bool.or_eq_left_iff_imp]
  intro hany
  obtain ⟨row, hrow, hname⟩ := List.any_eq_true.mp hany
  rw [Option.mem_toList, Statement.row, Option.map_eq_some_iff] at hrow
  obtain ⟨c, hc, rfl⟩ := hrow
  rw [Bool.and_eq_true, decide_eq_true_eq, decide_eq_true_eq] at hname
  refine absurd ?_ h
  rw [Statement.key, hc, Option.map_some, hname.2]

theorem hasTable_run (h : db.hasTable name = true) : (s.run db).hasTable name = true := by
  unfold Database.hasTable
  rw [master_run, List.any_append, Bool.or_eq_true]
  exact .inl h

theorem hasTable_run_table (h : s.effect = .table name) :
    (s.run db).hasTable name = true := by
  unfold Database.hasTable
  rw [master_run, List.any_append, Bool.or_eq_true]
  right
  rw [Statement.row, Statement.creates, h]
  simp

theorem rows_run_of_notMem {table : String}
    (htable : ∀ name, s.effect = .table name → table ≠ name)
    (hinsert : ∀ name row, s.effect = .insert name row → table ≠ name) :
    (s.run db).rows table = db.rows table := by
  unfold Statement.run
  cases heffect : s.effect with
  | table name => exact Function.update_of_ne (htable name heffect) _ _
  | index name t => rfl
  | insert name row => exact Function.update_of_ne (hinsert name row heffect) _ _

theorem stored_run {kind : Kind} {sql : Sql} (h : db.stored kind name = some sql) :
    (s.run db).stored kind name = some sql := by
  unfold Database.stored at h ⊢
  obtain ⟨row, hrow, rfl⟩ := Option.map_eq_some_iff.mp h
  rw [master_run, List.find?_append, hrow]
  rfl

/-- What is created under a free name is found again. -/
theorem stored_run_new {kind : Kind} (hcreates : s.creates = some (kind, name))
    (hkind : kind ≠ .trigger) (hfree : db.has name = false) :
    (s.run db).stored kind name = some s.sql := by
  have hold : (db.master.find? fun r => r.kind = kind && r.name = name) = none := by
    rw [List.find?_eq_none]
    intro row hrow hsame
    rw [Bool.and_eq_true, decide_eq_true_eq, decide_eq_true_eq] at hsame
    unfold Database.has at hfree
    rw [List.any_eq_false] at hfree
    apply hfree row hrow
    rw [hsame.1, hsame.2]
    simp [hkind]
  unfold Database.stored
  rw [master_run, List.find?_append, hold, Statement.row, hcreates]
  simp

theorem hasTable_of_stored {sql : Sql} (h : db.stored .table name = some sql) :
    db.hasTable name = true := by
  unfold Database.stored at h
  obtain ⟨row, hrow, -⟩ := Option.map_eq_some_iff.mp h
  have hsame := List.find?_some hrow
  rw [Bool.and_eq_true, decide_eq_true_eq, decide_eq_true_eq] at hsame
  unfold Database.hasTable
  refine List.any_eq_true.mpr ⟨row, List.mem_of_find?_eq_some hrow, ?_⟩
  rw [hsame.1, hsame.2]
  simp

theorem kind_of_creates {kind : Kind} (h : s.creates = some (kind, name)) :
    kind ≠ .trigger := by
  unfold Statement.creates at h
  cases heffect : s.effect with
  | table name =>
      rw [heffect] at h
      cases h
      decide
  | index name t =>
      rw [heffect] at h
      cases h
      decide
  | insert name row =>
      rw [heffect] at h
      cases h

end Runs

/-- There is room in a database for the statements: their names are free and are not used
twice. -/
structure Room (ss : List Statement) (db : Database) : Prop where
  free : ∀ s ∈ ss, ∀ kind name, s.creates = some (kind, name) → db.has name = false
  distinct : (ss.filterMap (·.key)).Nodup

theorem key_of_creates {s : Statement} {kind : Kind} {name : String}
    (h : s.creates = some (kind, name)) : s.key = some (fold name) := by
  rw [Statement.key, h]
  rfl

theorem Room.run {s : Statement} {ss : List Statement} {db : Database} (h : Room (s :: ss) db) :
    Room ss (s.run db) := by
  have hdistinct := h.distinct
  constructor
  · intro s' hs' kind name hcreates
    rw [has_run_of_ne]
    · exact h.free s' (List.mem_cons_of_mem _ hs') kind name hcreates
    · intro hkey
      rw [List.filterMap_cons_some hkey] at hdistinct
      refine (List.nodup_cons.mp hdistinct).1 (List.mem_filterMap.mpr ⟨s', hs', ?_⟩)
      exact key_of_creates hcreates
  · cases hkey : s.key with
    | none =>
        rw [List.filterMap_cons_none hkey] at hdistinct
        exact hdistinct
    | some key =>
        rw [List.filterMap_cons_some hkey] at hdistinct
        exact (List.nodup_cons.mp hdistinct).2

theorem Room.foldl {as bs : List Statement} {db : Database} (h : Room (as ++ bs) db) :
    Room bs (as.foldl (fun d s => s.run d) db) := by
  induction as generalizing db with
  | nil => exact h
  | cons s as ih => exact ih h.run

theorem Room.front {as bs : List Statement} {db : Database} (h : Room (as ++ bs) db) :
    Room as db where
  free s hs := h.free s (List.mem_append_left _ hs)
  distinct := by
    have hdistinct := h.distinct
    rw [List.filterMap_append] at hdistinct
    exact (List.nodup_append.mp hdistinct).1

/-- A well-ordered list of statements is taken by the engine if there is room for it. -/
theorem executeAll_ordered {ss : List Statement} {db : Database} {tables : List String}
    {fresh : Option String} (hroom : Room ss db) (hordered : ordered tables fresh ss = true)
    (htables : ∀ t ∈ tables, db.hasTable t = true)
    (hfresh : ∀ t, fresh = some t → db.rows t = [] ∧ db.hasTable t = true) :
    executeAll ss db none = .ok (ss.foldl (fun d s => s.run d) db, none) := by
  induction ss generalizing db tables fresh with
  | nil => rfl
  | cons s ss ih =>
      have hfree := hroom.free s List.mem_cons_self
      have hnext : s.allowed db = true ∧ ∃ tables' fresh', ordered tables' fresh' ss = true ∧
          (∀ t ∈ tables', (s.run db).hasTable t = true) ∧
          ∀ t, fresh' = some t → (s.run db).rows t = [] ∧ (s.run db).hasTable t = true := by
        rw [ordered] at hordered
        cases heffect : s.effect with
        | table name =>
            rw [heffect] at hordered
            have hname : db.has name = false :=
              hfree .table name (by rw [Statement.creates, heffect])
            have hallowed : s.allowed db = true := by
              rw [Statement.allowed, heffect]
              simp [hname]
            refine ⟨hallowed, _, _, hordered, ?_, ?_⟩
            · intro t ht
              rcases List.mem_cons.mp ht with rfl | ht
              · exact hasTable_run_table heffect
              · exact hasTable_run (htables t ht)
            · intro t ht
              cases ht
              refine ⟨?_, hasTable_run_table heffect⟩
              rw [Statement.run, heffect]
              exact Function.update_self ..
        | index name table =>
            rw [heffect, Bool.and_eq_true, List.contains_iff_mem] at hordered
            have hname : db.has name = false :=
              hfree .index name (by rw [Statement.creates, heffect])
            have htable := htables table hordered.1
            have hallowed : s.allowed db = true := by
              rw [Statement.allowed, heffect]
              simp [hname, htable]
            refine ⟨hallowed, _, _, hordered.2, ?_, ?_⟩
            · intro t ht
              exact hasTable_run (htables t ht)
            · intro t ht
              cases ht
        | insert table row =>
            rw [heffect, Bool.and_eq_true, decide_eq_true_eq] at hordered
            obtain ⟨hempty, htable⟩ := hfresh table hordered.1
            have hallowed : s.allowed db = true := by
              rw [Statement.allowed, heffect]
              simp [hempty, htable]
            refine ⟨hallowed, _, _, hordered.2, ?_, ?_⟩
            · intro t ht
              exact hasTable_run (htables t ht)
            · intro t ht
              cases ht
      obtain ⟨hallowed, tables', fresh', hordered', htables', hfresh'⟩ := hnext
      have hrest := ih hroom.run hordered' htables' hfresh'
      rw [executeAll]
      refine bind_eq_ok.mpr ⟨none, rfl, bind_eq_ok.mpr ⟨s.run db, ?_, hrest⟩⟩
      rw [Statement.execute, if_pos hallowed]
      rfl

theorem stored_foldl (ss : List Statement) {db : Database} {kind : Kind} {name : String}
    {sql : Sql} (h : db.stored kind name = some sql) :
    (ss.foldl (fun d s => s.run d) db).stored kind name = some sql := by
  induction ss generalizing db with
  | nil => exact h
  | cons s ss ih => exact ih (stored_run h)

theorem stored_foldl_new {ss : List Statement} {db : Database} (hroom : Room ss db)
    {s : Statement} (hs : s ∈ ss) {kind : Kind} {name : String}
    (hcreates : s.creates = some (kind, name)) :
    (ss.foldl (fun d s => s.run d) db).stored kind name = some s.sql := by
  induction ss generalizing db with
  | nil => cases hs
  | cons s' ss ih =>
      rcases List.mem_cons.mp hs with rfl | hs
      · rw [List.foldl_cons]
        refine stored_foldl ss (stored_run_new hcreates (kind_of_creates hcreates) ?_)
        exact hroom.free s List.mem_cons_self kind name hcreates
      · exact ih hroom.run hs

/-! ### What the validation accepts -/

section Validation

variable {known : List Migration} {db : Database}

theorem checkStatement_ok_iff {sql : Sql} :
    checkStatement db sql = .ok () ↔ (isCreate sql = true →
      ∃ kind name, createdName sql = some (kind, name) ∧ db.stored kind name = some sql) := by
  unfold checkStatement
  by_cases hcreate : isCreate sql = true
  · rw [if_pos hcreate]
    cases hname : createdName sql with
    | none =>
        constructor
        · intro h
          cases h
        · intro h
          obtain ⟨kind, name, hsome, -⟩ := h hcreate
          cases hsome
    | some c =>
        obtain ⟨kind, name⟩ := c
        by_cases hstored : db.stored kind name = some sql
        · simp [hstored]
        · simp [hstored, hcreate]
  · simp [hcreate]

theorem checkAll_ok_iff {ss : List Statement} :
    checkAll db ss = .ok () ↔ ∀ s ∈ ss, checkStatement db s.sql = .ok () := by
  induction ss with
  | nil => simp [checkAll]
  | cons s ss ih =>
      rw [checkAll, List.forall_mem_cons, ← ih]
      constructor
      · intro h
        obtain ⟨⟨⟩, hs, h⟩ := bind_eq_ok.mp h
        exact ⟨hs, h⟩
      · rintro ⟨hs, hss⟩
        exact bind_eq_ok.mpr ⟨(), hs, hss⟩

theorem checkRevision_ok_iff {rows : List Row} {r : Int} :
    checkRevision rows = .ok r ↔ rows = [[.int 1, .int r]] ∧ 0 ≤ r := by
  constructor
  · intro h
    unfold checkRevision at h
    split at h
    next singleton revision =>
      split at h
      next => cases h
      next hvalid =>
        cases h
        obtain rfl : singleton = 1 := by omega
        exact ⟨rfl, by omega⟩
    next => cases h
  · rintro ⟨rfl, hr⟩
    simp [checkRevision, hr]

/-- What `validate_schema` asks for. -/
structure Conforms (known : List Migration) (db : Database) (v : Nat) (r : Int) : Prop where
  version : db.userVersion = v
  versioned : 1 ≤ v
  metadata : db.stored .table "runtime_metadata" = some METADATA_SQL
  schema : ∀ s ∈ later known v, isCreate s.sql = true →
    ∃ kind name, createdName s.sql = some (kind, name) ∧ db.stored kind name = some s.sql
  revision : db.rows "runtime_metadata" = [[.int 1, .int r]]
  nonneg : 0 ≤ r

theorem validateSchema_ok_iff {v : Nat} {r : Int} :
    validateSchema known db v = .ok r ↔ Conforms known db v r := by
  unfold validateSchema
  constructor
  · intro h
    split at h
    next => cases h
    next hversion =>
      split at h
      next => cases h
      next hmetadata =>
        obtain ⟨⟨⟩, hschema, hrevision⟩ := bind_eq_ok.mp h
        obtain ⟨hrows, hr⟩ := checkRevision_ok_iff.mp hrevision
        refine ⟨by omega, by omega, not_not.mp hmetadata, ?_, hrows, hr⟩
        intro s hs
        exact checkStatement_ok_iff.mp (checkAll_ok_iff.mp hschema s hs)
  · intro h
    have hversion := h.version
    have hversioned := h.versioned
    rw [if_neg (by omega), if_neg (not_not.mpr h.metadata)]
    refine bind_eq_ok.mpr ⟨(), ?_, checkRevision_ok_iff.mpr ⟨h.revision, h.nonneg⟩⟩
    refine checkAll_ok_iff.mpr fun s hs => ?_
    exact checkStatement_ok_iff.mpr (h.schema s hs)

end Validation

/-! ### From one version to the next -/

theorem has_of_hasTable {db : Database} {name : String} (h : db.hasTable name = true) :
    db.has name = true := by
  unfold Database.hasTable at h
  obtain ⟨row, hrow, hname⟩ := List.any_eq_true.mp h
  rw [Bool.and_eq_true, decide_eq_true_eq] at hname
  unfold Database.has
  refine List.any_eq_true.mpr ⟨row, hrow, ?_⟩
  rw [hname.1, hname.2]
  rfl

theorem hasTable_foldl {ss : List Statement} {db : Database} {name : String}
    (h : db.hasTable name = true) :
    (ss.foldl (fun d s => s.run d) db).hasTable name = true := by
  induction ss generalizing db with
  | nil => exact h
  | cons s ss ih => exact ih (hasTable_run h)

/-- The statements of a migration do not touch the rows of a table that was there before. -/
theorem rows_ordered {ss : List Statement} {db : Database} {tables : List String}
    {fresh : Option String} {t : String} (hroom : Room ss db)
    (hordered : ordered tables fresh ss = true) (ht : db.hasTable t = true)
    (hfresh : fresh ≠ some t) :
    (ss.foldl (fun d s => s.run d) db).rows t = db.rows t := by
  induction ss generalizing db tables fresh with
  | nil => rfl
  | cons s ss ih =>
      have hfree := hroom.free s List.mem_cons_self
      rw [ordered] at hordered
      rw [List.foldl_cons]
      cases heffect : s.effect with
      | table name =>
          rw [heffect] at hordered
          have hne : t ≠ name := by
            rintro rfl
            have hname := hfree .table t (by rw [Statement.creates, heffect])
            rw [has_of_hasTable ht] at hname
            cases hname
          rw [ih hroom.run hordered (hasTable_run ht) fun h => hne (Option.some.inj h).symm,
            Statement.run, heffect]
          exact Function.update_of_ne hne _ _
      | index name table =>
          rw [heffect, Bool.and_eq_true] at hordered
          rw [ih hroom.run hordered.2 (hasTable_run ht) fun h => (by cases h), Statement.run,
            heffect]
      | insert table row =>
          rw [heffect, Bool.and_eq_true, decide_eq_true_eq] at hordered
          have hne : t ≠ table := by
            rintro rfl
            exact hfresh hordered.1
          rw [ih hroom.run hordered.2 (hasTable_run ht) fun h => (by cases h), Statement.run,
            heffect]
          exact Function.update_of_ne hne _ _

theorem Room.congr {ss : List Statement} {db d : Database} (h : Room ss db)
    (hd : d.master = db.master) : Room ss d where
  free s hs kind name hcreates := by
    have hfree := h.free s hs kind name hcreates
    unfold Database.has at hfree ⊢
    rw [hd]
    exact hfree
  distinct := h.distinct

theorem creates_of_isCreate {s : Statement} (h : s.faithful = true)
    (hcreate : isCreate s.sql = true) :
    ∃ kind name, s.creates = some (kind, name) ∧ createdName s.sql = some (kind, name) := by
  unfold Statement.faithful at h
  cases hcreates : s.creates with
  | none =>
      rw [hcreates] at h
      simp [hcreate] at h
  | some c =>
      obtain ⟨kind, name⟩ := c
      rw [hcreates] at h
      simp only [Bool.and_eq_true, decide_eq_true_eq] at h
      exact ⟨kind, name, rfl, h.2⟩

theorem isCreate_of_creates {s : Statement} {kind : Kind} {name : String}
    (h : s.faithful = true) (hcreates : s.creates = some (kind, name)) :
    isCreate s.sql = true ∧ createdName s.sql = some (kind, name) := by
  unfold Statement.faithful at h
  rw [hcreates] at h
  simp only [Bool.and_eq_true, decide_eq_true_eq] at h
  exact h

section Versions

variable {known : List Migration} {db : Database} {v : Nat} {r : Int}

theorem head_drop_one {m : Migration} (h : known.head? = some m) (hv : 1 ≤ v) :
    known.take v = m :: (known.take v).drop 1 := by
  cases known with
  | nil => cases h
  | cons m' ms =>
      cases h
      obtain ⟨n, rfl⟩ : ∃ n, v = n + 1 := ⟨v - 1, by omega⟩
      rfl

/-- All that the versions up to the valid one create is stored with its text. -/
theorem Conforms.stored (hw : WellFormed known) (h : Conforms known db v r) {s : Statement}
    (hs : s ∈ statementsOf (known.take v)) {kind : Kind} {name : String}
    (hcreates : s.creates = some (kind, name)) : db.stored kind name = some s.sql := by
  have hfaithful : s.faithful = true := by
    obtain ⟨m, hm, hs⟩ := List.mem_flatMap.mp hs
    exact hw.faithful s (List.mem_flatMap.mpr ⟨m, List.mem_of_mem_take hm, hs⟩)
  obtain ⟨sql, hfirst⟩ := hw.first
  rw [head_drop_one hfirst h.versioned, statementsOf, List.flatMap_cons, List.mem_append] at hs
  rcases hs with hs | hs
  · rcases List.mem_cons.mp hs with rfl | hs
    · cases hcreates
      exact h.metadata
    · obtain rfl := List.mem_singleton.mp hs
      cases hcreates
  · obtain ⟨hcreate, hname⟩ := isCreate_of_creates hfaithful hcreates
    obtain ⟨kind', name', hread, hstored⟩ := h.schema s hs hcreate
    rw [hname] at hread
    cases hread
    exact hstored

/-- The tables of the versions up to the valid one are there. -/
theorem Conforms.hasTable (hw : WellFormed known) (h : Conforms known db v r) {t : String}
    (ht : t ∈ tablesOf (known.take v)) : db.hasTable t = true := by
  obtain ⟨m, hm, ht⟩ := List.mem_flatMap.mp ht
  obtain ⟨s, hs, ht⟩ := List.mem_flatMap.mp ht
  have hcreates : s.creates = some (.table, t) := by
    unfold Statement.tables at ht
    split at ht
    next name heffect => rw [Statement.creates, heffect, List.mem_singleton.mp ht]
    next => cases ht
  exact hasTable_of_stored (h.stored hw (List.mem_flatMap.mpr ⟨m, hm, hs⟩) hcreates)

/-- A database that the migrations after version `v` can be applied to: it is empty, or it is
valid at version `v`; and what the later migrations create is not there yet. -/
structure Ready (known : List Migration) (v : Nat) (db : Database) (r : Int) : Prop where
  state : v = 0 ∧ db.userVersion = 0 ∧ db.master = [] ∧ r = 0 ∨ Conforms known db v r
  room : Room (statementsOf (known.drop v)) db

theorem drop_eq_cons {m : Migration} (hm : known[v]? = some m) :
    known.drop v = m :: known.drop (v + 1) := by
  obtain ⟨hv, rfl⟩ := List.getElem?_eq_some_iff.mp hm
  exact List.drop_eq_getElem_cons hv

theorem later_succ {m : Migration} (hm : known[v]? = some m) (hv : 1 ≤ v) :
    later known (v + 1) = later known v ++ m.statements := by
  have hlt := (List.getElem?_eq_some_iff.mp hm).1
  unfold later
  rw [List.take_add_one, hm, List.drop_append_of_le_length, List.flatMap_append]
  · simp
  · rw [List.length_take]
    omega

theorem Ready.executeAll (hw : WellFormed known) (h : Ready known v db r) {m : Migration}
    (hm : known[v]? = some m) :
    executeAll m.statements db none =
      .ok (m.statements.foldl (fun d s => s.run d) db, none) := by
  have hroom := h.room
  rw [drop_eq_cons hm, statementsOf, List.flatMap_cons] at hroom
  refine executeAll_ordered hroom.front (hw.ordered v m hm) ?_ ?_
  · intro t ht
    rcases h.state with ⟨rfl, -, -, -⟩ | hconforms
    · cases ht
    · exact hconforms.hasTable hw ht
  · intro t ht
    cases ht

/-- The first migration makes the metadata with revision 0. -/
theorem Ready.first (hw : WellFormed known) (h : Ready known 0 db r) {m : Migration}
    (hm : known[0]? = some m) :
    ∃ d, Commits known m db d ∧ Conforms known d 1 0 ∧
      d.master = (m.statements.foldl (fun d s => s.run d) db).master := by
  have hexecute := h.executeAll hw hm
  have hroom := h.room
  rw [drop_eq_cons hm, statementsOf, List.flatMap_cons] at hroom
  obtain ⟨sql, hfirst⟩ := hw.first
  rw [List.head?_eq_getElem?, hm] at hfirst
  obtain rfl := Option.some.inj hfirst
  generalize hd₁ : List.foldl (fun (d : Database) (s : Statement) => s.run d) db _ = d₁
    at hexecute
  have hconforms : Conforms known { d₁ with userVersion := (1 : Nat) } 1 0 := by
    subst hd₁
    refine ⟨rfl, Nat.le_refl 1, ?_, ?_, ?_, Int.le_refl 0⟩
    · exact stored_foldl_new hroom.front List.mem_cons_self rfl
    · intro s hs
      simp [later] at hs
    · simp [Statement.run]
  refine ⟨_, ⟨⟨d₁, d₁, hexecute, rfl, rfl⟩, 0, ?_⟩, hconforms, rfl⟩
  exact validateSchema_ok_iff.mpr hconforms

/-- A later migration advances the revision by one. -/
theorem Conforms.next (hw : WellFormed known) (h : Conforms known db v r)
    (hready : Ready known v db r) {m : Migration} (hm : known[v]? = some m)
    (hr : r + 1 < 9223372036854775808) :
    ∃ d, Commits known m db d ∧ Conforms known d (v + 1) (r + 1) ∧
      d.master = (m.statements.foldl (fun d s => s.run d) db).master := by
  have hexecute := hready.executeAll hw hm
  have hroom := hready.room
  rw [drop_eq_cons hm, statementsOf, List.flatMap_cons] at hroom
  have hversion : m.version = v + 1 := hw.sequential.version hm
  have hversioned := h.versioned
  have hmetadata : db.hasTable "runtime_metadata" = true := hasTable_of_stored h.metadata
  generalize hd₁ : m.statements.foldl (fun d s => s.run d) db = d₁ at hexecute
  have hrows : d₁.rows "runtime_metadata" = [[.int 1, .int r]] := by
    rw [← hd₁, rows_ordered hroom.front (hw.ordered v m hm) hmetadata fun h => (by cases h)]
    exact h.revision
  have hbump : bumpRevision d₁ = some { d₁ with
      rows := Function.update d₁.rows "runtime_metadata" [[.int 1, .int (r + 1)]] } := by
    have htable : d₁.hasTable "runtime_metadata" = true := by
      rw [← hd₁]
      exact hasTable_foldl hmetadata
    have hrow : bumpRow [.int 1, .int r] = some [.int 1, .int (r + 1)] := if_pos hr
    unfold bumpRevision
    rw [if_pos htable, hrows, List.mapM_cons, hrow]
    rfl
  have hconforms : Conforms known { d₁ with
      rows := Function.update d₁.rows "runtime_metadata" [[.int 1, .int (r + 1)]]
      userVersion := m.version } (v + 1) (r + 1) := by
    refine ⟨by rw [hversion], by omega, ?_, ?_, ?_, by have hnonneg := h.nonneg; omega⟩
    · have hstored := stored_foldl m.statements h.metadata
      rw [hd₁] at hstored
      exact hstored
    · intro s hs hcreate
      rw [later_succ hm hversioned, List.mem_append] at hs
      rcases hs with hs | hs
      · obtain ⟨kind, name, hname, hstored⟩ := h.schema s hs hcreate
        have hstored' := stored_foldl m.statements hstored
        rw [hd₁] at hstored'
        exact ⟨kind, name, hname, hstored'⟩
      · have hfaithful : s.faithful = true := by
          refine hw.faithful s (List.mem_flatMap.mpr ⟨m, ?_, hs⟩)
          exact List.mem_of_getElem? hm
        obtain ⟨kind, name, hcreates, hname⟩ := creates_of_isCreate hfaithful hcreate
        have hstored := stored_foldl_new hroom.front hs hcreates
        rw [hd₁] at hstored
        exact ⟨kind, name, hname, hstored⟩
    · exact Function.update_self "runtime_metadata" _ d₁.rows
  have hbumped : bumpAfterFirst m.version d₁ none = .ok ({ d₁ with
      rows := Function.update d₁.rows "runtime_metadata" [[.int 1, .int (r + 1)]] }, none) := by
    unfold bumpAfterFirst
    rw [if_pos (by omega), hbump]
    rfl
  have hvalid := validateSchema_ok_iff.mpr hconforms
  rw [← hversion] at hvalid
  exact ⟨_, ⟨⟨d₁, _, hexecute, hbumped, rfl⟩, r + 1, hvalid⟩, hconforms, rfl⟩

/-- One migration, from one version to the next. -/
theorem Ready.step (hw : WellFormed known) (h : Ready known v db r) {m : Migration}
    (hm : known[v]? = some m) (hr : r + 1 < 9223372036854775808) :
    Commits known m db (m.run db) ∧
      Ready known (v + 1) (m.run db) (if v = 0 then 0 else r + 1) := by
  have hroom := h.room
  rw [drop_eq_cons hm, statementsOf, List.flatMap_cons] at hroom
  have hnext : ∃ d, Commits known m db d ∧
      Conforms known d (v + 1) (if v = 0 then 0 else r + 1) ∧
      d.master = (m.statements.foldl (fun d s => s.run d) db).master := by
    rcases h.state with ⟨rfl, -, -, -⟩ | hconforms
    · exact h.first hw hm
    · have hversioned := hconforms.versioned
      rw [if_neg (by omega)]
      exact hconforms.next hw h hm hr
  obtain ⟨d, hcommits, hconforms, hmaster⟩ := hnext
  obtain rfl := hcommits.eq_run
  exact ⟨hcommits, .inr hconforms, hroom.foldl.congr hmaster⟩

end Versions

/-! ### Whole runs -/

/-- The rows of `sqlite_master` that the migrations add. -/
def created (ms : List Migration) : List SchemaRow := (statementsOf ms).filterMap (·.row)

theorem master_foldl (ss : List Statement) (db : Database) :
    (ss.foldl (fun d s => s.run d) db).master = db.master ++ ss.filterMap (·.row) := by
  induction ss generalizing db with
  | nil => exact (List.append_nil _).symm
  | cons s ss ih =>
      rw [List.foldl_cons, ih, master_run, List.append_assoc]
      congr 1
      cases hrow : s.row with
      | none => rw [List.filterMap_cons_none hrow]; rfl
      | some row => rw [List.filterMap_cons_some hrow]; rfl

theorem master_upgrade (ms : List Migration) (db : Database) :
    (upgrade ms db).master = db.master ++ created ms := by
  induction ms generalizing db with
  | nil => exact (List.append_nil _).symm
  | cons m ms ih =>
      have hm : (m.run db).master = db.master ++ m.statements.filterMap (·.row) :=
        master_foldl m.statements db
      have hstep : upgrade (m :: ms) db = upgrade ms (m.run db) := rfl
      rw [hstep, ih, hm, List.append_assoc, created, created, statementsOf, statementsOf,
        List.flatMap_cons, List.filterMap_append]

section Runs

variable {known : List Migration} {db : Database} {v : Nat} {r : Int}

theorem rows_migration (hw : WellFormed known) (h : Ready known v db r) {m : Migration}
    (hm : known[v]? = some m) {t : String} (ht : db.hasTable t = true)
    (hne : t ≠ "runtime_metadata") :
    (m.run db).rows t = db.rows t ∧ (m.run db).hasTable t = true := by
  have hroom := h.room
  rw [drop_eq_cons hm, statementsOf, List.flatMap_cons] at hroom
  have hrows := rows_ordered hroom.front (hw.ordered v m hm) ht fun h => (by cases h)
  refine ⟨?_, hasTable_foldl ht⟩
  rw [← hrows]
  unfold Migration.run
  dsimp only
  split
  next => exact Function.update_of_ne hne _ _
  next => rfl

/-- The revision of a database of version `w` that was at version `v` with revision `r`. -/
def revisionAt (v : Nat) (r : Int) (w : Nat) : Int := r + ((w - max v 1 : Nat) : Int)

/-- The next migrations go through, as many of them as there are. -/
theorem Ready.run (hw : WellFormed known) (h : Ready known v db r) {n : Nat}
    (hn : v + n ≤ known.length) (hr : r + n < 9223372036854775808) :
    Applied known ((known.drop v).take n) db (upgrade ((known.drop v).take n) db) ∧
      Ready known (v + n) (upgrade ((known.drop v).take n) db) (revisionAt v r (v + n)) ∧
      ∀ t, db.hasTable t = true → t ≠ "runtime_metadata" →
        (upgrade ((known.drop v).take n) db).rows t = db.rows t := by
  induction n generalizing v db r with
  | zero =>
      have hrevision : revisionAt v r (v + 0) = r := by
        unfold revisionAt
        omega
      rw [List.take_zero, hrevision]
      exact ⟨.nil db, h, fun t _ _ => rfl⟩
  | succ n ih =>
      have hv : v < known.length := by omega
      have hm : known[v]? = some known[v] := List.getElem?_eq_getElem hv
      obtain ⟨hcommits, hready⟩ := h.step hw hm (by omega)
      have hnonneg : v = 0 ∧ r = 0 ∨ v ≠ 0 := by
        rcases h.state with ⟨hv, -, -, hr⟩ | hconforms
        · exact .inl ⟨hv, hr⟩
        · have hversioned := hconforms.versioned
          exact .inr (by omega)
      have hroom : (if v = 0 then 0 else r + 1) + (n : Int) < 9223372036854775808 := by
        split
        next => omega
        next => omega
      have hrevision : revisionAt (v + 1) (if v = 0 then 0 else r + 1) (v + 1 + n) =
          revisionAt v r (v + (n + 1)) := by
        unfold revisionAt
        rcases hnonneg with ⟨rfl, rfl⟩ | hv
        · rw [if_pos rfl]
          omega
        · rw [if_neg hv]
          omega
      obtain ⟨happlied, hready', hrows⟩ := ih hready (by omega) hroom
      rw [drop_eq_cons hm, List.take_succ_cons]
      refine ⟨.cons hcommits happlied, ?_, ?_⟩
      · rw [← hrevision, show v + (n + 1) = v + 1 + n by omega]
        exact hready'
      · intro t ht hne
        obtain ⟨hone, hthere⟩ := rows_migration hw h hm ht hne
        rw [← hone]
        exact hrows t hthere hne

theorem Ready.examined (hw : WellFormed known) (h : Ready known v db r)
    (hv : v ≤ known.length) : Examined known known db ∧ db.userVersion = v := by
  obtain ⟨sql, hfirst⟩ := hw.first
  have hne : known ≠ [] := by
    rintro rfl
    cases hfirst
  rcases h.state with ⟨rfl, hversion, hmaster, -⟩ | hconforms
  · refine ⟨⟨hne, hw.sequential, by omega, .inl ⟨hversion, hmaster⟩⟩, hversion⟩
  · have hversion := hconforms.version
    refine ⟨⟨hne, hw.sequential, by omega, .inr ⟨r, ?_⟩⟩, hversion⟩
    rw [hversion]
    exact validateSchema_ok_iff.mpr hconforms

/-- What a database is that has been brought from version `v` to version `w`. -/
structure Upgraded (known : List Migration) (v w : Nat) (db : Database) (r : Int)
    (d : Database) : Prop where
  exact : d = upgrade (between known v w) db
  valid : 1 ≤ w → validateSchema known d w = .ok (revisionAt v r w)
  schema : d.master = db.master ++ created (between known v w)
  rows : ∀ t, db.hasTable t = true → t ≠ "runtime_metadata" → d.rows t = db.rows t

theorem Ready.upgraded (hw : WellFormed known) (h : Ready known v db r) {w : Nat} (hvw : v ≤ w)
    (hwl : w ≤ known.length) (hr : r + known.length < 9223372036854775808) :
    Applied known (between known v w) db (upgrade (between known v w) db) ∧
      Upgraded known v w db r (upgrade (between known v w) db) := by
  obtain ⟨n, rfl⟩ : ∃ n, w = v + n := ⟨w - v, by omega⟩
  have hbetween : between known v (v + n) = (known.drop v).take n := by
    unfold between
    rw [Nat.add_sub_cancel_left]
  obtain ⟨happlied, hready, hrows⟩ := h.run hw hwl (by omega)
  rw [← hbetween] at happlied hready hrows
  refine ⟨happlied, rfl, ?_, master_upgrade _ db, hrows⟩
  intro hone
  rcases hready.state with ⟨hzero, -⟩ | hconforms
  · omega
  · exact validateSchema_ok_iff.mpr hconforms

/-- **Migrations converge.** Take a database that the migrations can be applied to. However
many attempts were cut off, it is at one of the versions, valid there, with the rows of the
tables that it had; and the next attempt that is not cut off brings it to the last version. -/
theorem Ready.converge (hw : WellFormed known) (h : Ready known v db r) (hv : v ≤ known.length)
    (hr : r + known.length < 9223372036854775808) (faults : List Nat) :
    (∃ w, v ≤ w ∧ w ≤ known.length ∧ (attempts known known db faults).userVersion = w ∧
      Upgraded known v w db r (attempts known known db faults)) ∧
    (applyMigrations known known (attempts known known db faults) none).1 = .ok () ∧
    Upgraded known v known.length db r
      (applyMigrations known known (attempts known known db faults) none).2 := by
  obtain ⟨hexamined, hversion⟩ := h.examined hw hv
  refine ⟨?_, ?_⟩
  · rcases attempts_exact known known db faults with hsame | ⟨u, w, hu, huw, hwl, huser, hexact⟩
    · have hup := (h.upgraded hw (Nat.le_refl v) hv hr).2
      have hnone : between known v v = [] := by
        unfold between
        rw [Nat.sub_self, List.take_zero]
      rw [hnone] at hup
      rw [hsame]
      exact ⟨v, Nat.le_refl v, hv, hversion, hup⟩
    · obtain rfl : u = v := by omega
      rw [hexact] at huser ⊢
      exact ⟨w, huw, hwl, huser, (h.upgraded hw huw hwl hr).2⟩
  · obtain ⟨happlied, hup⟩ := h.upgraded hw hv (Nat.le_refl _) hr
    have hall : known.drop v = between known v known.length := by
      unfold between
      rw [List.take_of_length_le (Nat.le_of_eq List.length_drop)]
    have hrun := happlied.migrateAll []
    rw [List.append_nil] at hrun
    rw [applyMigrations_attempts, hexamined.apply, hversion, Int.toNat_natCast, hall, hrun]
    exact ⟨rfl, hup⟩

end Runs

/-- The migrations of the backend: any database of one of its versions, and an empty one, gets
to version 10 through any number of attempts. -/
theorem migrations_converge {db : Database} {v : Nat} {r : Int} (h : Ready MIGRATIONS v db r)
    (hv : v ≤ 10) (hr : r + 10 < 9223372036854775808) (faults : List Nat) :
    (∃ w, v ≤ w ∧ w ≤ 10 ∧ (attempts MIGRATIONS MIGRATIONS db faults).userVersion = w ∧
      Upgraded MIGRATIONS v w db r (attempts MIGRATIONS MIGRATIONS db faults)) ∧
    (applyMigrations MIGRATIONS MIGRATIONS (attempts MIGRATIONS MIGRATIONS db faults) none).1 =
      .ok () ∧
    Upgraded MIGRATIONS v 10 db r
      (applyMigrations MIGRATIONS MIGRATIONS
        (attempts MIGRATIONS MIGRATIONS db faults) none).2 :=
  h.converge wellFormed_migrations hv hr faults

theorem migrations_converge_empty :
    let db : Database := ⟨0, [], fun _ => []⟩
    Upgraded MIGRATIONS 0 10 db 0
      (applyMigrations MIGRATIONS MIGRATIONS
        (attempts MIGRATIONS MIGRATIONS db [0, 4, 30, 7]) none).2 := by
  have hready : Ready MIGRATIONS 0 ⟨0, [], fun _ => []⟩ 0 := by
    refine ⟨.inl ⟨rfl, rfl, rfl, rfl⟩, ?_, wellFormed_migrations.distinct⟩
    intro s hs kind name hcreates
    rfl
  exact (migrations_converge hready (by decide) (by decide) [0, 4, 30, 7]).2.2

/-- **What is not a database of the backend is refused and left alone**: one of a later
version, one without a version that is not empty, and one in which the text of a table or an
index of its versions is not the text of the migrations. -/
theorem migrations_refuse {db : Database} (f : Fault)
    (h : 10 < db.userVersion ∨ db.userVersion < 0 ∨ db.userVersion = 0 ∧ db.master ≠ [] ∨
      ∃ v : Nat, db.userVersion = v ∧ 1 ≤ v ∧ ∃ s ∈ statementsOf (MIGRATIONS.take v),
        ∃ kind name, s.creates = some (kind, name) ∧ db.stored kind name ≠ some s.sql) :
    (applyMigrations MIGRATIONS MIGRATIONS db f).2 = db ∧
      (applyMigrations MIGRATIONS MIGRATIONS db f).1 ≠ .ok () := by
  rcases applyMigrations_stops MIGRATIONS MIGRATIONS db f with hrefused | ⟨hexamined, -⟩
  · exact hrefused
  · have hold : db.userVersion ≤ (10 : Nat) := hexamined.old
    have hnonneg := hexamined.version_nonneg
    rcases h with hnew | hnegative | ⟨hzero, hmaster⟩ |
      ⟨v, hv, hversioned, s, hs, kind, name, hcreates, hne⟩
    · omega
    · omega
    · rcases hexamined.state with ⟨-, hempty⟩ | ⟨r, hvalid⟩
      · exact absurd hempty hmaster
      · have hone := (version_of_valid hvalid).2
        omega
    · rcases hexamined.state with ⟨hzero, -⟩ | ⟨r, hvalid⟩
      · omega
      · rw [hv] at hvalid
        have hconforms := validateSchema_ok_iff.mp hvalid
        exact absurd (hconforms.stored wellFormed_migrations hs hcreates) hne

theorem migrations_refuse_future :
    (applyMigrations MIGRATIONS MIGRATIONS ⟨11, [], fun _ => []⟩ none).2.userVersion = 11 := by
  rw [(migrations_refuse none (.inl (by decide))).1]

end GgAgent.Migrations
