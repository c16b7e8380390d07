import GgAgent.Backend.Effects
import GgAgent.Backend.System

/-!
The database file and the sequences of ledger operations on it, without the
programs that make them: any operation at any clock reading, transactions that
fail and are rolled back, the file closed and opened again, and `apply_migrations`
run over it by the administration command.

A run of the backend is one such sequence; what is proved here of all sequences
does not depend on who calls the ledger, nor in which order.
-/

namespace GgAgent.Records

open GgAgent.Lib GgAgent.Backend

/-- The file: its schema version (`PRAGMA user_version`) and its rows. `issued`
are the task ids drawn so far. -/
structure Store where
  version : Nat
  ledger : Ledger
  issued : List TaskId

/-! ### Migrations -/

/-- A schema version and what its statements do to the tables of the ledger. -/
structure Migration where
  version : Nat
  statements : Ledger → Ledger

/-- `MIGRATIONS`. The versions 5 to 8 create tables of accounts and credentials,
and version 9 creates indexes. -/
def migrations : List Migration :=
  [⟨1, fun l => { l with revision := 0 }⟩,
   ⟨2, fun l => { l with taskSeq := 0, tasks := .empty, reservations := .empty }⟩,
   ⟨3, fun l => { l with creations := .empty, supervisions := .empty, publications := .empty,
                         receipts := .empty }⟩,
   ⟨4, fun l => { l with eventCounters := .empty, eventIdentities := .empty,
                         eventCopies := .empty, results := .empty, tombstones := .empty,
                         retiredKeys := .empty }⟩,
   ⟨5, id⟩, ⟨6, id⟩, ⟨7, id⟩, ⟨8, id⟩, ⟨9, id⟩,
   ⟨10, fun l => { l with eventSourceCursors := .empty }⟩]

def schemaVersion : Nat := 10

/-- One version and its schema, committed together. -/
def Migration.apply (m : Migration) (s : Store) : Store :=
  let l := m.statements s.ledger
  { s with version := m.version, ledger := if 1 < m.version then l.commit else l }

/-- `apply_migrations`: the versions above the current one, in order. -/
def applyMigrations (s : Store) : Option Store :=
  if s.version ≤ schemaVersion then
    some ((migrations.drop s.version).foldl (fun s m => m.apply s) s)
  else none

theorem applyMigrations_current {s : Store} (h : s.version = schemaVersion) :
    applyMigrations s = some s := by
  simp [applyMigrations, h, migrations, schemaVersion]

/-- `initialize`: a new file at the last version, with revision 0. -/
def initialized : Store :=
  let s := migrations.foldl (fun s m => m.apply s) ⟨0, .empty, []⟩
  { s with ledger := { s.ledger with revision := 0 } }

/-! ### Operations -/

inductive Op
  | submit (id : TaskId) (request : Submission)
  | call (c : LedgerCall)
  /-- A transaction that raises, or whose process ends, before its commit. -/
  | rolledBack
  /-- The process closes the file, or dies, and another opens it. -/
  | reopen
  /-- `apply_migrations` is run over the file. -/
  | migrate

/-- The transaction of a submission. -/
def submission (now : Time) (id : TaskId) (r : Submission) : Tx (TaskRecord × Bool) :=
  Ledger.submit now id r.idempotencyKey r.repository r.prompt r.baseRef r.retryOf r.model r.ownerId

/-- The store after an operation at clock reading `now`. -/
def Op.apply (now : Time) : Op → Store → Option Store
  | .submit id r, s =>
    -- A task id is a `uuid4`: it is never drawn twice.
    if id ∈ s.issued then none
    else some { s with ledger := (submission now id r s.ledger).2, issued := id :: s.issued }
  | .call c, s => some { s with ledger := (c.exec now s.ledger).2 }
  | .rolledBack, s => some s
  | .reopen, s => if s.version = schemaVersion then some s else none
  | .migrate, s => applyMigrations s

def run : Store → List (Time × Op) → Option Store
  | s, [] => some s
  | s, (now, op) :: ops => (op.apply now s).bind fun s' => run s' ops

theorem run_append (s : Store) (ops ops' : List (Time × Op)) :
    run s (ops ++ ops') = (run s ops).bind fun s' => run s' ops' := by
  induction ops generalizing s with
  | nil => rfl
  | cons a ops ih =>
      obtain ⟨now, op⟩ := a
      simp only [List.cons_append, run]
      cases op.apply now s with
      | none => rfl
      | some s' => exact ih s'

theorem run_of_append {s s'' : Store} {ops ops' : List (Time × Op)}
    (h : run s (ops ++ ops') = some s'') :
    ∃ s', run s ops = some s' ∧ run s' ops' = some s'' := by
  rw [run_append] at h
  exact Option.bind_eq_some_iff.mp h

/-- What one operation keeps, every sequence keeps. -/
theorem run_keeps {I : Store → Prop}
    (hstep : ∀ now op s s', I s → Op.apply now op s = some s' → I s') :
    ∀ {ops : List (Time × Op)} {s s' : Store}, I s → run s ops = some s' → I s'
  | [], s, s', hs, h => by
      obtain rfl : s = s' := by simpa [run] using h
      exact hs
  | (now, op) :: ops, s, s', hs, h => by
      obtain ⟨s₁, hop, hrest⟩ := Option.bind_eq_some_iff.mp h
      exact run_keeps hstep (hstep now op s s₁ hs hop) hrest

/-- The schema is at its last version. -/
theorem version_apply {now : Time} {op : Op} {s s' : Store} (hs : s.version = schemaVersion)
    (h : op.apply now s = some s') : s'.version = schemaVersion := by
  cases op with
  | submit id r =>
      simp only [Op.apply] at h
      split at h
      · simp at h
      · obtain rfl := Option.some.inj h
        exact hs
  | call c =>
      obtain rfl := Option.some.inj h
      exact hs
  | rolledBack =>
      obtain rfl := Option.some.inj h
      exact hs
  | reopen =>
      simp only [Op.apply, hs, if_true] at h
      obtain rfl := Option.some.inj h
      exact hs
  | migrate =>
      simp only [Op.apply, applyMigrations_current hs] at h
      obtain rfl := Option.some.inj h
      exact hs

/-- What an operation on a file at the last version does to the rows: nothing, a
submission under a new id, or a ledger call. -/
theorem apply_cases {now : Time} {op : Op} {s s' : Store} (hs : s.version = schemaVersion)
    (h : op.apply now s = some s') :
    s' = s ∨ (∃ id r, op = .submit id r ∧ id ∉ s.issued ∧
        s' = { s with ledger := (submission now id r s.ledger).2, issued := id :: s.issued }) ∨
      ∃ c, op = .call c ∧ s' = { s with ledger := (c.exec now s.ledger).2 } := by
  cases op with
  | submit id r =>
      simp only [Op.apply] at h
      split at h
      · simp at h
      next hid =>
        obtain rfl := Option.some.inj h
        exact .inr (.inl ⟨id, r, rfl, hid, rfl⟩)
  | call c =>
      obtain rfl := Option.some.inj h
      exact .inr (.inr ⟨c, rfl, rfl⟩)
  | rolledBack =>
      obtain rfl := Option.some.inj h
      exact .inl rfl
  | reopen =>
      simp only [Op.apply, hs, if_true] at h
      obtain rfl := Option.some.inj h
      exact .inl rfl
  | migrate =>
      simp only [Op.apply, applyMigrations_current hs] at h
      obtain rfl := Option.some.inj h
      exact .inl rfl

end GgAgent.Records
