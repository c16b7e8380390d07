import GgAgent.Records.Admission

/-!
Capacity and order of the claims. `reserve_next` is the only operation that adds a
reservation, and it adds one only below the capacity it is given, so the number of
reservations never exceeds the largest capacity used. It claims the queued task of
the smallest number, and a task that it has claimed cannot be claimed again before
its reservation was deleted: until then the task is not among the candidates.
-/

namespace GgAgent.Records

open GgAgent.Lib GgAgent.Backend

/-! ### The number of reservations -/

/-- The capacity that an operation claims with, if `reserve_next` accepts it. -/
def Op.capacity : Op → Nat
  | .call (.reserveNext c) => if 1 ≤ c ∧ c ≤ 10 then c else 0
  | _ => 0

/-- The largest capacity used by a sequence of operations. -/
def capacityUsed (ops : List (Time × Op)) : Nat :=
  (ops.map fun a => a.2.capacity).foldr max 0

/-- A claim finds fewer reservations than its capacity. -/
theorem length_reserveNext (now : Time) (c : Nat) (l : Ledger) :
    (l.reserveNext now c).2.reservations.rows.length ≤
      max l.reservations.rows.length (Op.call (.reserveNext c)).capacity := by
  simp only [Ledger.reserveNext, Op.capacity]
  split
  next hc =>
    split
    · exact le_max_left _ _
    next hfull =>
      split
      · exact le_max_left _ _
      next q _ =>
        have hlen := Table.length_insert l.reservations
          { taskId := q.id, phase := .starting, condition := none, reservedAt := now,
            updatedAt := now }
        exact le_max_of_le_right (hlen.trans (Nat.succ_le_of_lt (Nat.lt_of_not_le hfull)))
  · exact le_max_left _ _

theorem length_exec (now : Time) (c : LedgerCall) (l : Ledger) :
    (c.exec now l).2.reservations.rows.length ≤
      max l.reservations.rows.length (Op.call c).capacity := by
  cases hw : c.writesReservations with
  | false =>
      rw [(exec_frame now c l).reservations hw]
      exact le_max_left _ _
  | true =>
    cases c with
    | reserveNext n => exact length_reserveNext now n l
    | updateReservation t p d st =>
        have hlen := Table.length_modify l.reservations t
          (fun r => { r with phase := p, condition := d, updatedAt := now }) fun _ => rfl
        refine le_max_of_le_left ?_
        simp only [LedgerCall.exec, Ledger.updateReservation]
        split
        · exact le_rfl
        · split
          · exact hlen.le
          · exact hlen.le
    | releaseReservation t s => exact le_max_of_le_left (Table.length_erase l.reservations t)
    | markSandboxLost t d =>
        refine le_max_of_le_left ?_
        simp only [LedgerCall.exec, Ledger.markSandboxLost]
        split
        · exact le_rfl
        · exact Table.length_erase l.reservations t
    | _ => simp [LedgerCall.writesReservations] at hw

theorem length_apply {now : Time} {op : Op} {s s' : Store} (hs : s.version = schemaVersion)
    (h : op.apply now s = some s') :
    s'.ledger.reservations.rows.length ≤ max s.ledger.reservations.rows.length op.capacity := by
  rcases apply_cases hs h with rfl | ⟨id, q, rfl, -, rfl⟩ | ⟨c, rfl, rfl⟩
  · exact le_max_left _ _
  · rw [show (submission now id q s.ledger).2.reservations = s.ledger.reservations from
      (submit_cases now s.ledger id _ _ _ _ _ _ _).1]
    exact le_max_left _ _
  · exact length_exec now c s.ledger

theorem length_run {ops : List (Time × Op)} {s s' : Store} (hs : s.version = schemaVersion)
    (h : run s ops = some s') :
    s'.ledger.reservations.rows.length ≤
      max s.ledger.reservations.rows.length (capacityUsed ops) := by
  induction ops generalizing s with
  | nil =>
      obtain rfl : s = s' := by simpa [run] using h
      exact le_max_left _ _
  | cons a ops ih =>
      obtain ⟨now, op⟩ := a
      obtain ⟨s₁, hop, hrest⟩ := Option.bind_eq_some_iff.mp h
      calc s'.ledger.reservations.rows.length
          ≤ max s₁.ledger.reservations.rows.length (capacityUsed ops) :=
            ih (version_apply hs hop) hrest
        _ ≤ max (max s.ledger.reservations.rows.length op.capacity) (capacityUsed ops) :=
            max_le_max_right _ (length_apply hs hop)
        _ = max s.ledger.reservations.rows.length (capacityUsed ((now, op) :: ops)) :=
            max_assoc _ _ _

/-! ### What a claim answers -/

/-- A task that `reserve_next` may claim. -/
def Claimable (l : Ledger) (q : TaskRecord) : Prop :=
  l.tasks.find? q.id = some q ∧ q.state = .queued ∧ l.reservations.find? q.id = none

theorem mem_candidates {l : Ledger} {q : TaskRecord} :
    q ∈ l.tasks.rows.filter (fun r => decide (r.state = .queued ∧
      (l.reservations.find? r.id).isNone)) ↔ Claimable l q := by
  rw [List.mem_filter]
  constructor
  · rintro ⟨hmem, hp⟩
    simp only [decide_eq_true_eq] at hp
    exact ⟨Table.find?_of_mem hmem, hp.1, by simpa using hp.2⟩
  · rintro ⟨hfind, hq, hnone⟩
    exact ⟨Table.mem_of_find? hfind, by simp [hq, hnone]⟩

theorem nextQueued_none {l : Ledger} : l.nextQueued = none ↔ ∀ q, ¬ Claimable l q := by
  unfold Ledger.nextQueued
  rw [List.argmin_eq_none, List.eq_nil_iff_forall_not_mem]
  simp only [mem_candidates]

/-- The answer of a claim that is accepted: the first candidate when there is room. -/
theorem reserveNext_answer (now : Time) {c : Nat} (hc : 1 ≤ c ∧ c ≤ 10) {issued : List TaskId}
    {l : Ledger} (hl : Admitted issued l) :
    (∀ r, (l.reserveNext now c).1 = .ok (some r) → l.reservations.rows.length < c ∧
      ∃ q, Claimable l q ∧ r = { q with state := .starting, updatedAt := now } ∧
        ∀ q', Claimable l q' → q' ≠ q → q.seq < q'.seq) ∧
    ((l.reserveNext now c).1 = .ok none ↔
      c ≤ l.reservations.rows.length ∨ ∀ q, ¬ Claimable l q) ∧
    ∃ r, (l.reserveNext now c).1 = .ok r := by
  simp only [Ledger.reserveNext, if_pos hc]
  split
  next hfull => simp [hfull]
  next hroom =>
    cases hn : l.nextQueued with
    | none => simp [nextQueued_none.mp hn]
    | some q =>
        have hq : Claimable l q := mem_candidates.mp (List.argmin_mem hn)
        have hfind : ((l.tasks.modify q.id fun r => { r with state := .starting, updatedAt := now }).find?
            q.id) = some { q with state := .starting, updatedAt := now } := by
          simp [hq.1]
        simp only [Ledger.setTask, hfind]
        refine ⟨?_, ?_, _, rfl⟩
        · intro r hr
          obtain rfl := Option.some.inj (Except.ok.inj hr)
          refine ⟨Nat.lt_of_not_le hroom, q, hq, rfl, fun q' hq' hne => ?_⟩
          have hle : q.seq ≤ q'.seq := List.le_of_mem_argmin (mem_candidates.mpr hq') hn
          refine lt_of_le_of_ne hle fun heq => hne ?_
          -- Two rows of one number are one row.
          have hid := congrArg Binding.taskId
            (hl.seq (binds_of_task hq.1) (binds_of_task hq'.1) heq)
          have hid' : q.id = q'.id := hid
          have hsame := hq.1
          rw [hid', hq'.1] at hsame
          exact Option.some.inj hsame
        · constructor
          · intro h
            simp at h
          · rintro (hfull | hnone)
            · exact absurd hfull hroom
            · exact absurd hq (hnone q)

/-! ### Claims of one task -/

/-- The task holds a reservation. -/
def Reserved (t : TaskId) (s : Store) : Prop := s.ledger.reservations.find? t ≠ none

instance (t : TaskId) (s : Store) : Decidable (Reserved t s) := inferInstanceAs (Decidable (_ ≠ _))

/-- Somewhere in the sequence an operation deletes the reservation of `t`. -/
theorem exists_deletion {t : TaskId} {ops : List (Time × Op)} {s s' : Store} (hs : Reserved t s)
    (h : run s ops = some s') (hs' : ¬ Reserved t s') :
    ∃ ops₁ a ops₂ s₁ s₂, ops = ops₁ ++ a :: ops₂ ∧ run s ops₁ = some s₁ ∧
      a.2.apply a.1 s₁ = some s₂ ∧ Reserved t s₁ ∧ ¬ Reserved t s₂ := by
  induction ops generalizing s with
  | nil =>
      obtain rfl : s = s' := by simpa [run] using h
      exact absurd hs hs'
  | cons a ops ih =>
      obtain ⟨s₁, hop, hrest⟩ := Option.bind_eq_some_iff.mp h
      by_cases hs₁ : Reserved t s₁
      · obtain ⟨ops₁, a', ops₂, s₂, s₃, rfl, hrun, hop', hb, hd⟩ := ih hs₁ hrest
        refine ⟨a :: ops₁, a', ops₂, s₂, s₃, rfl, ?_, hop', hb, hd⟩
        simp only [run, hop]
        exact hrun
      · exact ⟨[], a, ops, s, s₁, rfl, rfl, hop, hs, hs₁⟩

/-- A claim reserves the task that it answers. -/
theorem reserved_of_claim {now : Time} {c : Nat} {l : Ledger} {r : TaskRecord}
    (h : (l.reserveNext now c).1 = .ok (some r)) :
    l.reservations.find? r.id = none ∧ (l.reserveNext now c).2.reservations.find? r.id ≠ none := by
  rcases reserveNext_find now c l with ⟨-, -, hno⟩ | ⟨q, -, -, hnone, hans, hfind⟩
  · exact absurd h (hno r)
  · obtain rfl := Option.some.inj (Except.ok.inj (hans.symm.trans h))
    refine ⟨hnone, ?_⟩
    rw [(hfind q.id).2, if_pos rfl]
    simp

/-- Capacity and order of the claims along every sequence of operations: the
reservations stay within the largest capacity used; a claim answers the claimable
task of the smallest number, and only below its capacity; it answers none exactly
when it is full or nothing is claimable; and between two claims of one task its
reservation was deleted. -/
theorem claims_within_capacity_in_order {ops : List (Time × Op)} {s : Store}
    (h : run initialized ops = some s) :
    s.ledger.reservations.rows.length ≤ capacityUsed ops ∧
    ∀ now c, 1 ≤ c ∧ c ≤ 10 →
      (∃ r, (s.ledger.reserveNext now c).1 = .ok r) ∧
      ((s.ledger.reserveNext now c).1 = .ok none ↔
        c ≤ s.ledger.reservations.rows.length ∨ ∀ q, ¬ Claimable s.ledger q) ∧
      ∀ r, (s.ledger.reserveNext now c).1 = .ok (some r) →
        (s.ledger.reservations.rows.length < c ∧
          ∃ q, Claimable s.ledger q ∧ r = { q with state := .starting, updatedAt := now } ∧
            ∀ q', Claimable s.ledger q' → q' ≠ q → q.seq < q'.seq) ∧
        ∀ s₁ later s₂ now' c' r', (Op.call (.reserveNext c)).apply now s = some s₁ →
          run s₁ later = some s₂ → (s₂.ledger.reserveNext now' c').1 = .ok (some r') →
          r'.id = r.id → ∃ ops₁ a ops₂ s₃ s₄, later = ops₁ ++ a :: ops₂ ∧
            run s₁ ops₁ = some s₃ ∧ a.2.apply a.1 s₃ = some s₄ ∧ Reserved r.id s₃ ∧
            ¬ Reserved r.id s₄ := by
  have hsound := (sound_initialized.run h).1
  refine ⟨?_, fun now c hc => ?_⟩
  · have hlen := length_run sound_initialized.1 h
    rwa [show initialized.ledger.reservations.rows.length = 0 from rfl, Nat.zero_max] at hlen
  · obtain ⟨hsome, hnone, hok⟩ := reserveNext_answer now hc hsound.2
    refine ⟨hok, hnone, fun r hr => ⟨hsome r hr, ?_⟩⟩
    intro s₁ later s₂ now' c' r' hop hlater hr' hid
    obtain rfl := Option.some.inj hop
    refine exists_deletion (reserved_of_claim hr).2 hlater fun hres => ?_
    rw [← hid] at hres
    exact hres (reserved_of_claim hr').1

/-- Two tasks are queued, and the first is claimed with capacity 1. -/
def claimed : List (Time × Op) :=
  [(1, .submit 1 keyed), (2, .submit 2 { keyed with idempotencyKey := "l" }),
   (3, .call (.reserveNext 1))]

/-- A task was claimed, and it is this one. -/
def claims (t : TaskId) : Except Exn (Option TaskRecord) → Bool
  | .ok (some r) => r.id = t
  | _ => false

/-- With capacity 2 the second task is claimed beside the first. -/
theorem claims_within_capacity_in_order_second :
    ∃ s r, run initialized claimed = some s ∧ capacityUsed claimed = 1 ∧
      s.ledger.reservations.rows.length ≤ 1 ∧ (s.ledger.reserveNext 4 2).1 = .ok (some r) ∧
      r.id = 2 ∧ s.ledger.reservations.rows.length < 2 := by
  have hrun : (run initialized claimed).any (fun s =>
      claims 2 (s.ledger.reserveNext 4 2).1) = true := by decide +kernel
  obtain ⟨s, hs, hclaim⟩ := (Option.any_eq_true _ _).mp hrun
  obtain ⟨hlen, hnext⟩ := claims_within_capacity_in_order hs
  obtain ⟨-, -, hsome⟩ := hnext 4 2 (by decide)
  unfold claims at hclaim
  split at hclaim
  next r hr => exact ⟨s, r, hs, rfl, hlen, hr, by simpa using hclaim, (hsome r hr).1.1⟩
  next => simp at hclaim

end GgAgent.Records
