import GgAgent.Lib.Calendar
import GgAgent.Records.Admission

/-!
The ledger keeps its times as texts, and its queries compare and order the texts.

The rows of the model have the times themselves. Here each time column is the text that
`isoformat()` makes of it, and the comparison is the one of the database, which is a
comparison of bytes.
-/

namespace GgAgent.Records

open GgAgent.Lib GgAgent.Backend

/-- The column of a time, which is counted from the beginning of year 1. -/
def text (t : Time) : String :=
  if h : t < DateTime.lastInstant then (DateTime.ofInstant t h).isoformat else ""

/-- The comparison of two `TEXT` values (`BINARY` collation). -/
def sqlCompare (s t : String) : Ordering :=
  compare s.toByteArray.data.toList t.toByteArray.data.toList

theorem sqlCompare_text {t u : Time} (ht : t < DateTime.lastInstant) (hu : u < DateTime.lastInstant) :
    sqlCompare (text t) (text u) = compare t u := by
  rw [sqlCompare, text, text, dif_pos ht, dif_pos hu, DateTime.compare_isoformat,
    ← DateTime.compare_instant, DateTime.instant_ofInstant, DateTime.instant_ofInstant]

theorem text_lt {t u : Time} (ht : t < DateTime.lastInstant) (hu : u < DateTime.lastInstant) :
    sqlCompare (text t) (text u) = .lt ↔ t < u := by
  rw [sqlCompare_text ht hu]
  exact Nat.compare_eq_lt

theorem text_le {t u : Time} (ht : t < DateTime.lastInstant) (hu : u < DateTime.lastInstant) :
    (sqlCompare (text t) (text u)).isLE ↔ t ≤ u := by
  rw [sqlCompare_text ht hu]
  exact Nat.isLE_compare

theorem text_eq {t u : Time} (ht : t < DateTime.lastInstant) (hu : u < DateTime.lastInstant) :
    sqlCompare (text t) (text u) = .eq ↔ t = u := by
  rw [sqlCompare_text ht hu]
  exact Nat.compare_eq_eq

/-! ### The queries on the texts -/

/-- The rows of `sleeping_workspace_candidates`. -/
def candidatesByText (before : Time) (afterSeq limit : Nat) (l : Ledger) : List TaskRecord :=
  ((l.tasks.rows.filter fun r => r.state = .sleeping ∧ r.workspaceExpired = false ∧
      (sqlCompare ((r.workspaceLastActivityAt.map text).getD (text r.updatedAt))
        (text before)).isLE ∧ afterSeq < r.seq).insertionSort fun a b => a.seq ≤ b.seq).take limit

/-- The rows that `expire_terminal_payloads` selects. -/
def expirableByText (before : Time) (l : Ledger) : List TaskRecord :=
  l.tasks.rows.filter fun r => r.state.terminal && !r.payloadExpired &&
    (sqlCompare (text r.updatedAt) (text before) = .lt : Bool) &&
      (l.reservations.find? r.id).isNone

/-- The rows that `purge_expired_tombstones` selects. -/
def purgeableByText (before : Time) (l : Ledger) : List Tombstone :=
  l.tombstones.rows.filter fun k => (sqlCompare (text k.expiresAt) (text before) = .lt : Bool) &&
    (l.reservations.find? k.taskId).isNone

/-- `ORDER BY reserved_at, task_id`. -/
def reservationsByText (l : Ledger) : List ReservationRecord :=
  l.reservations.rows.insertionSort fun a b =>
    sqlCompare (text a.reservedAt) (text b.reservedAt) = .lt ∨
      sqlCompare (text a.reservedAt) (text b.reservedAt) = .eq ∧ a.taskId ≤ b.taskId

/-- `ORDER BY created_at, message_id`. -/
def receiptsByText (t : TaskId) (l : Ledger) : List MessageReceipt :=
  ((l.receipts.rows.filter fun r => r.taskId = t).map ReceiptRow.receipt).insertionSort fun a b =>
    sqlCompare (text a.createdAt) (text b.createdAt) = .lt ∨
      sqlCompare (text a.createdAt) (text b.createdAt) = .eq ∧ a.id ≤ b.id

/-- The times that the queries compare are before the year 10000. -/
structure Dated (l : Ledger) : Prop where
  updated : ∀ r ∈ l.tasks.rows, r.updatedAt < DateTime.lastInstant
  active : ∀ r ∈ l.tasks.rows, ∀ a, r.workspaceLastActivityAt = some a → a < DateTime.lastInstant
  expires : ∀ k ∈ l.tombstones.rows, k.expiresAt < DateTime.lastInstant
  reserved : ∀ r ∈ l.reservations.rows, r.reservedAt < DateTime.lastInstant
  created : ∀ r ∈ l.receipts.rows, r.receipt.createdAt < DateTime.lastInstant

theorem insertionSort_congr {α : Type} {r r' : α → α → Prop} [DecidableRel r] [DecidableRel r']
    {xs : List α} (h : ∀ a ∈ xs, ∀ b ∈ xs, r a b ↔ r' a b) :
    xs.insertionSort r = xs.insertionSort r' := by
  have hinsert : ∀ (a : α) (ys : List α), (∀ b ∈ ys, r a b ↔ r' a b) →
      ys.orderedInsert r a = ys.orderedInsert r' a := by
    intro a ys hys
    induction ys with
    | nil => rfl
    | cons b ys ih =>
        have hb := hys b List.mem_cons_self
        rw [List.orderedInsert_cons, List.orderedInsert_cons,
          ih fun c hc => hys c (List.mem_cons_of_mem b hc)]
        by_cases hab : r a b
        · rw [if_pos hab, if_pos (hb.mp hab)]
        · rw [if_neg hab, if_neg fun h' => hab (hb.mpr h')]
  induction xs with
  | nil => rfl
  | cons a xs ih =>
      rw [List.insertionSort_cons, List.insertionSort_cons,
        ih fun b hb c hc => h b (List.mem_cons_of_mem a hb) c (List.mem_cons_of_mem a hc)]
      apply hinsert
      intro b hb
      exact h a List.mem_cons_self b (List.mem_cons_of_mem a (by simpa using hb))

section

variable {l : Ledger}

theorem candidatesByText_eq (h : Dated l) {before : Time} (hb : before < DateTime.lastInstant)
    (afterSeq limit : Nat) :
    candidatesByText before afterSeq limit l =
      l.sleepingWorkspaceCandidates before afterSeq limit := by
  have hrow : ∀ r ∈ l.tasks.rows,
      (sqlCompare ((r.workspaceLastActivityAt.map text).getD (text r.updatedAt))
        (text before)).isLE ↔ r.lastActivity ≤ before := by
    intro r hr
    unfold TaskRecord.lastActivity
    cases ha : r.workspaceLastActivityAt with
    | none =>
        rw [Option.map_none, Option.getD_none, Option.getD_none]
        exact text_le (h.updated r hr) hb
    | some a =>
        rw [Option.map_some, Option.getD_some, Option.getD_some]
        exact text_le (h.active r hr a ha) hb
  unfold candidatesByText Ledger.sleepingWorkspaceCandidates
  congr 2
  apply List.filter_congr
  intro r hr
  exact decide_eq_decide.mpr (by rw [hrow r hr])

theorem expirableByText_eq (h : Dated l) {before : Time} (hb : before < DateTime.lastInstant) :
    expirableByText before l = l.tasks.rows.filter (l.expirable before) := by
  apply List.filter_congr
  intro r hr
  rw [Ledger.expirable, decide_eq_decide.mpr (text_lt (h.updated r hr) hb)]

theorem purgeableByText_eq (h : Dated l) {before : Time} (hb : before < DateTime.lastInstant) :
    purgeableByText before l = l.tombstones.rows.filter fun k =>
      k.expiresAt < before && (l.reservations.find? k.taskId).isNone := by
  apply List.filter_congr
  intro k hk
  rw [decide_eq_decide.mpr (text_lt (h.expires k hk) hb)]

theorem reservationsByText_eq (h : Dated l) : reservationsByText l = l.listReservations := by
  apply insertionSort_congr
  intro a ha b hb
  rw [text_lt (h.reserved a ha) (h.reserved b hb), text_eq (h.reserved a ha) (h.reserved b hb)]

theorem receiptsByText_eq (h : Dated l) (t : TaskId) :
    receiptsByText t l = l.listTaskMessageReceipts t := by
  have hcreated : ∀ q ∈ (l.receipts.rows.filter fun r => r.taskId = t).map ReceiptRow.receipt,
      q.createdAt < DateTime.lastInstant := by
    intro q hq
    obtain ⟨r, hr, rfl⟩ := List.mem_map.mp hq
    exact h.created r (List.mem_of_mem_filter hr)
  apply insertionSort_congr
  intro a ha b hb
  rw [text_lt (hcreated a ha) (hcreated b hb), text_eq (hcreated a ha) (hcreated b hb)]

end

/-- Two texts compare as the times, also where only one of them has a fraction, and the queries
of the ledger answer as if they compared the times. -/
theorem texts_in_time_order :
    (∀ a b : DateTime, sqlCompare a.isoformat b.isoformat = a.cmp b ∧
      sqlCompare a.isoformat b.isoformat = compare a.instant b.instant) ∧
    (∀ d : DateTime, d.isoformat.toByteArray.size = if d.microsecond = 0 then 25 else 32) ∧
    ∀ (l : Ledger) (before : Time), Dated l → before < DateTime.lastInstant →
      (∀ afterSeq limit, candidatesByText before afterSeq limit l =
        l.sleepingWorkspaceCandidates before afterSeq limit) ∧
      expirableByText before l = l.tasks.rows.filter (l.expirable before) ∧
      (purgeableByText before l = l.tombstones.rows.filter fun k =>
        k.expiresAt < before && (l.reservations.find? k.taskId).isNone) ∧
      reservationsByText l = l.listReservations ∧
      ∀ t, receiptsByText t l = l.listTaskMessageReceipts t := by
  refine ⟨fun a b => ?_, fun d => ?_, fun l before hl hb => ?_⟩
  · have hcmp : sqlCompare a.isoformat b.isoformat = a.cmp b := DateTime.compare_isoformat a b
    exact ⟨hcmp, hcmp.trans (DateTime.compare_instant a b).symm⟩
  · exact DateTime.size_isoformat d
  · exact ⟨fun afterSeq limit => candidatesByText_eq hl hb afterSeq limit,
      expirableByText_eq hl hb, purgeableByText_eq hl hb, reservationsByText_eq hl,
      receiptsByText_eq hl⟩

/-- A submitted task, whose row has the time 1, and a cutoff at time 5. -/
theorem texts_in_time_order_submitted :
    ∃ s, run initialized [(1, .submit 1 keyed)] = some s ∧ s.ledger.tasks.rows ≠ [] ∧
      expirableByText 5 s.ledger = s.ledger.tasks.rows.filter (s.ledger.expirable 5) := by
  have hearly : ∀ t : Time, t ≤ 5 → t < DateTime.lastInstant := by
    intro t ht
    rw [DateTime.lastInstant_eq]
    exact Nat.lt_of_le_of_lt ht (by decide)
  have hall : (run initialized [(1, .submit 1 keyed)]).any (fun s =>
      (s.ledger.tasks.rows.all fun r => r.updatedAt ≤ 5 ∧ r.workspaceLastActivityAt = none) &&
        (s.ledger.tombstones.rows.isEmpty && s.ledger.reservations.rows.isEmpty &&
          s.ledger.receipts.rows.isEmpty && !s.ledger.tasks.rows.isEmpty)) = true := by
    decide +kernel
  obtain ⟨s, hrun, hrest⟩ := (Option.any_eq_true _ _).mp hall
  simp only [Bool.and_eq_true, List.all_eq_true, decide_eq_true_eq, List.isEmpty_iff,
    Bool.not_eq_true', List.isEmpty_eq_false_iff] at hrest
  obtain ⟨htasks, ⟨⟨htombs, hres⟩, hreceipts⟩, hsome⟩ := hrest
  have hdated : Dated s.ledger := by
    constructor
    case updated => exact fun r hr => hearly _ (htasks r hr).1
    case active =>
      intro r hr a ha
      rw [(htasks r hr).2] at ha
      cases ha
    case expires => simp [htombs]
    case reserved => simp [hres]
    case created => simp [hreceipts]
  exact ⟨s, hrun, hsome, (texts_in_time_order.2.2 s.ledger 5 hdated (hearly 5 (le_refl 5))).2.1⟩

end GgAgent.Records
