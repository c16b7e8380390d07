import GgAgent.Backend.Calls

/-!
The rows of one task. `Ledger.only` is what a database holds of a task, as a database of
its own; a transaction is `Local` to a task when it answers from those rows and changes no
others. The transactions that a request makes for a task are.

A task without rows stays without them, whatever the transaction: rows are made for tasks
that have a payload, and only a submission makes the first one.
-/

namespace GgAgent.Backend

open GgAgent.Lib

/-! ### The rows of one task -/

namespace Ledger

/-- The rows of one task. The counters are left out. -/
def only (t : TaskId) (l : Ledger) : Ledger where
  tasks := l.tasks.part fun k => k = t
  reservations := l.reservations.part fun k => k = t
  creations := l.creations.part fun k => k = t
  supervisions := l.supervisions.part fun k => k = t
  publications := l.publications.part fun k => k = t
  receipts := l.receipts.part fun k => k.1 = t
  results := l.results.part fun k => k = t
  eventCounters := l.eventCounters.part fun k => k = t
  eventIdentities := l.eventIdentities.part fun k => k.1 = t
  eventCopies := l.eventCopies.part fun k => k.1 = t
  eventSourceCursors := l.eventSourceCursors.part fun k => k.1 = t
  tombstones := l.tombstones.part fun k => k = t
  retiredKeys := l.retiredKeys.part fun k => k = t
  taskSeq := 0
  revision := 0

@[simp] theorem only_commit (t : TaskId) (l : Ledger) : l.commit.only t = l.only t := rfl

@[simp] theorem only_only (t : TaskId) (l : Ledger) : (l.only t).only t = l.only t := by
  simp only [only, Table.part_part]

theorem find?_tasks_only (t : TaskId) (l : Ledger) :
    (l.only t).tasks.find? t = l.tasks.find? t := by
  simp [only, Table.find?_part]

theorem find?_supervisions_only (t : TaskId) (l : Ledger) :
    (l.only t).supervisions.find? t = l.supervisions.find? t := by
  simp [only, Table.find?_part]

theorem find?_receipts_only (t : TaskId) (m : MessageId) (l : Ledger) :
    (l.only t).receipts.find? (t, m) = l.receipts.find? (t, m) := by
  simp [only, Table.find?_part]

theorem hasPayload_only (t : TaskId) (l : Ledger) : (l.only t).hasPayload t = l.hasPayload t := by
  unfold hasPayload
  rw [find?_tasks_only]

/-- Rewriting the row of a task rewrites it among the rows of the task. -/
theorem only_tasks_modifyIf (t u : TaskId) (p : TaskRecord → Bool) (f : TaskRecord → TaskRecord)
    (hf : ∀ r, key (f r) = key r) (l : Ledger) :
    ({ l with tasks := l.tasks.modifyIf u p f hf } : Ledger).only t =
      { l.only t with tasks := (l.only t).tasks.modifyIf u p f hf } := by
  simp only [only, Table.part_modifyIf]

theorem only_setTask (t u : TaskId) (f : TaskRecord → TaskRecord) (hf : ∀ r, key (f r) = key r)
    (l : Ledger) : (l.setTask u f hf).only t = (l.only t).setTask u f hf := by
  simp only [setTask, only, Table.part_modify]

theorem only_setTask_of_ne {t u : TaskId} (h : t ≠ u) {f : TaskRecord → TaskRecord}
    {hf : ∀ r, key (f r) = key r} {l : Ledger} : (l.setTask u f hf).only t = l.only t := by
  simp only [setTask, only, Table.part_modify]
  rw [Table.modify_part_of_not (by simpa using Ne.symm h)]

end Ledger

/-- The task that a call is about which a request makes for a task of its own. -/
def LedgerCall.personal : LedgerCall → Option TaskId
  | .get t _ | .recordBaseSha t _ | .getSupervision t | .updateSupervision t _ _ _ _ _
  | .saveTaskMessageReceipt t _ | .getTaskMessageReceipt t _ | .cancelQueuedTask t
  | .queueWorkspaceMessage t | .touchWorkspace t | .expireWorkspace t => some t
  | _ => none

/-! ### Transactions about one task -/

/-- The transaction answers from the rows of `t`, and changes no others. -/
structure Local {α : Type} (t : TaskId) (tx : Tx α) : Prop where
  reply : ∀ l, (tx (l.only t)).1 = (tx l).1
  own : ∀ l, (tx (l.only t)).2.only t = (tx l).2.only t
  others : ∀ l u, u ≠ t → (tx l).2.only u = l.only u

namespace Local

variable {now : Time} {t : TaskId}

theorem read {α : Type} {f : Ledger → α} (h : ∀ l, f (l.only t) = f l) :
    Local t (Ledger.read f) where
  reply l := congrArg Except.ok (h l)
  own l := l.only_only t
  others _ _ _ := rfl

theorem recordBaseSha (sha : Option String) : Local t (Ledger.recordBaseSha now t sha) := by
  constructor
  case reply =>
    intro l
    simp only [Ledger.recordBaseSha, Ledger.find?_tasks_only]
    split <;> rfl
  case own =>
    intro l
    simp only [Ledger.recordBaseSha, Ledger.find?_tasks_only]
    split
    · exact l.only_only t
    · simp only [Ledger.only_commit, Ledger.only_setTask, Ledger.only_only]
  case others =>
    intro l u hu
    simp only [Ledger.recordBaseSha]
    split
    · rfl
    · rw [Ledger.only_commit, Ledger.only_setTask_of_ne hu]

theorem updateSupervision (e : Option ExecutionId) (k : Option StartKey) (v : Option ConversationId)
    (c g : Option Bool) : Local t (Ledger.updateSupervision now t e k v c g) := by
  constructor
  case reply =>
    intro l
    simp only [Ledger.updateSupervision, Ledger.find?_supervisions_only]
    split <;> rfl
  case own =>
    intro l
    simp only [Ledger.updateSupervision, Ledger.find?_supervisions_only]
    split
    · exact l.only_only t
    · simp only [Ledger.commit, Ledger.only, Table.part_modify, Table.part_part]
  case others =>
    intro l u hu
    simp only [Ledger.updateSupervision]
    split
    · rfl
    · simp only [Ledger.commit, Ledger.only, Table.part_modify]
      rw [Table.modify_part_of_not (by simpa using Ne.symm hu)]

theorem saveTaskMessageReceipt (r : MessageReceipt) :
    Local t (Ledger.saveTaskMessageReceipt t r) := by
  constructor
  case reply =>
    intro l
    simp only [Ledger.saveTaskMessageReceipt, Ledger.hasPayload_only, Ledger.find?_receipts_only]
    split
    · split
      · rfl
      · split <;> rfl
    · rfl
  case own =>
    intro l
    simp only [Ledger.saveTaskMessageReceipt, Ledger.hasPayload_only, Ledger.find?_receipts_only]
    split
    · split
      · simp only [Ledger.commit, Ledger.only, Table.part_insert, Table.part_part]
      · split
        · simp only [Ledger.commit, Ledger.only, Table.part_modify, Table.part_part]
        · exact l.only_only t
    · exact l.only_only t
  case others =>
    intro l u hu
    simp only [Ledger.saveTaskMessageReceipt]
    split
    · split
      · simp only [Ledger.commit, Ledger.only, Table.part_insert, key, Ne.symm hu, decide_false,
          Bool.false_eq_true, if_false]
      · split
        · simp only [Ledger.commit, Ledger.only, Table.part_modify]
          rw [Table.modify_part_of_not (by simpa using Ne.symm hu)]
        · rfl
    · rfl

/-- The transactions that rewrite the row of `tasks`, if it meets `p`. -/
theorem modifyTask {α : Type} {p : TaskRecord → Bool} {f : TaskRecord → TaskRecord}
    {hf : ∀ r, key (f r) = key r} {tx : Tx α} {g : Option TaskRecord → α}
    (htx : ∀ l, tx l = (.ok (g ((l.tasks.modifyIf t p f hf).find? t)),
      ({ l with tasks := l.tasks.modifyIf t p f hf } : Ledger).commit)) : Local t tx := by
  constructor
  case reply =>
    intro l
    simp only [htx, Table.find?_modifyIf, if_true, Ledger.find?_tasks_only]
  case own =>
    intro l
    simp only [htx, Ledger.only_commit, Ledger.only_tasks_modifyIf, Ledger.only_only]
  case others =>
    intro l u hu
    simp only [htx, Ledger.commit, Ledger.only, Table.part_modifyIf]
    rw [Table.modifyIf_part_of_not (by simpa using Ne.symm hu)]

end Local

theorem local_exec {now : Time} {c : LedgerCall} {t : TaskId} (hc : c.personal = some t) :
    Local t (c.exec now) := by
  cases c <;> try (simp [LedgerCall.personal] at hc)
  all_goals subst hc
  case get t owner => exact .read fun l => by simp only [Ledger.get, Ledger.find?_tasks_only]
  case getSupervision t => exact .read fun l => l.find?_supervisions_only t
  case getTaskMessageReceipt t m =>
    exact .read fun l => by simp only [Ledger.getTaskMessageReceipt, Ledger.find?_receipts_only]
  case recordBaseSha t sha => exact .recordBaseSha sha
  case updateSupervision t e k v c g => exact .updateSupervision e k v c g
  case saveTaskMessageReceipt t r => exact .saveTaskMessageReceipt r
  case cancelQueuedTask t => exact .modifyTask (g := id) fun l => rfl
  case queueWorkspaceMessage t => exact .modifyTask (g := fun _ => ()) fun l => rfl
  case touchWorkspace t => exact .modifyTask (g := fun _ => ()) fun l => rfl
  case expireWorkspace t => exact .modifyTask (g := fun _ => ()) fun l => rfl

/-! ### Tasks without rows -/

section Absent

variable {now : Time} {c : LedgerCall} {l : Ledger} {t u : TaskId}

theorem Ledger.ne_of_hasPayload (h : l.only u = .empty) (hp : l.hasPayload t = true) : t ≠ u := by
  rintro rfl
  rw [← Ledger.hasPayload_only, h] at hp
  simp [Ledger.hasPayload, Ledger.empty] at hp

theorem Ledger.ne_of_mem (h : l.only u = .empty) {r : TaskRecord} (hr : r ∈ l.tasks.rows) :
    r.id ≠ u := by
  rintro rfl
  have hfind : l.tasks.find? r.id = some r := Table.find?_of_mem hr
  rw [← Ledger.find?_tasks_only, h] at hfind
  simp [Ledger.empty] at hfind

/-! #### Pages of events -/

theorem only_insertTaskEvent {source : ConversationId} {seq : Nat} {payload : String}
    (hne : t ≠ u) : (l.insertTaskEvent now t source seq payload).2.only u = l.only u := by
  unfold Ledger.insertTaskEvent
  split
  · rfl
  · split
    · simp only [Ledger.only, Table.part_insert, key, hne, decide_false, Bool.false_eq_true,
        if_false]
      rw [Table.part_upsert_of_not (by simpa [key] using hne)]
    · rfl

theorem only_insertTaskEvents {payload : Event → Nat → String} {source : ConversationId}
    (hne : t ≠ u) : ∀ (es : List Event) (bytes : Nat) (done : List (Nat × String)) (l : Ledger),
      (l.insertTaskEvents now payload t source es bytes done).2.only u = l.only u
  | [], _, _, _ => rfl
  | e :: es, bytes, done, l => by
      have hone := @only_insertTaskEvent now l t u source e.seq (payload e bytes) hne
      simp only [Ledger.insertTaskEvents]
      split
      next h => rw [h] at hone; exact hone
      next l₁ h =>
        rw [h] at hone
        exact (only_insertTaskEvents hne es bytes done l₁).trans hone
      next l₁ h =>
        rw [h] at hone
        exact (only_insertTaskEvents hne es _ _ l₁).trans hone

theorem only_copyTaskEventPage {payload : Event → Nat → String} {source : ConversationId}
    {es : List Event} (h : l.only u = .empty) :
    (l.copyTaskEventPage now payload t source es).2.only u = .empty := by
  simp only [Ledger.copyTaskEventPage]
  split
  · exact h
  · split
    · split
      next hp =>
        have hne := Ledger.ne_of_hasPayload h hp
        have hpage := @only_insertTaskEvents now t u payload source hne es (l.logBytes t) [] l
        split
        · exact h
        next l₁ hl₁ =>
          rw [hl₁, h] at hpage
          rw [← hpage]
          simp only [Ledger.only, Ledger.commit]
          rw [Table.part_upsert_of_not (by simpa [key] using hne)]
      next => exact h
    · exact h

/-! #### Retention -/

theorem only_expirePayload {e : Time} {r : TaskRecord} {l' : Ledger} (hne : r.id ≠ u)
    (h : l.expirePayload e r = (.ok (), l')) : l'.only u = l.only u := by
  unfold Ledger.expirePayload at h
  split at h
  · simp at h
  · obtain ⟨-, rfl⟩ := Prod.mk.inj h
    have hkey : ∀ k, k = u → k ≠ r.id := fun k hk hkr => hne (hkr.symm.trans hk)
    have hout : decide (r.id = u) = false := by simpa using hne
    have hreceipts : (l.receipts.part fun k => k.1 = u).filter (fun c => c.taskId ≠ r.id) =
        l.receipts.part fun k => k.1 = u :=
      Table.filter_part_of fun x hx => by simpa using hkey x.taskId (of_decide_eq_true hx)
    have hcopies : (l.eventCopies.part fun k => k.1 = u).filter (fun c => c.taskId ≠ r.id) =
        l.eventCopies.part fun k => k.1 = u :=
      Table.filter_part_of fun x hx => by simpa using hkey x.taskId (of_decide_eq_true hx)
    simp only [Ledger.only, Table.part_erase, Table.part_filter, Table.part_insert,
      Table.part_modify, key, hne, decide_false, Bool.false_eq_true, if_false, hreceipts, hcopies]
    rw [Table.modify_part_of_not (by exact hout)]
    repeat rw [Table.erase_part_of_not (by exact hout)]

theorem only_expirePayloads {e : Time} {rows : List TaskRecord} {l l' : Ledger}
    (hne : ∀ r ∈ rows, r.id ≠ u) (h : l.expirePayloads e rows = (.ok (), l')) :
    l'.only u = l.only u := by
  induction rows generalizing l with
  | nil =>
      obtain ⟨-, rfl⟩ := Prod.mk.inj h
      rfl
  | cons r rows ih =>
      simp only [Ledger.expirePayloads] at h
      split at h
      · simp at h
      next l₁ h₁ =>
        have hrest := ih (fun q hq => hne q (List.mem_cons_of_mem _ hq)) h
        exact hrest.trans (only_expirePayload (hne r List.mem_cons_self) h₁)

theorem absent_purgeTombstones {rows : List Tombstone} {l l' : Ledger} (h : l.only u = .empty)
    (hp : l.purgeTombstones rows = (.ok (), l')) : l'.only u = .empty := by
  induction rows generalizing l with
  | nil =>
      obtain ⟨-, rfl⟩ := Prod.mk.inj hp
      exact h
  | cons r rows ih =>
      simp only [Ledger.purgeTombstones] at hp
      split at hp
      · simp at hp
      next l₁ h₁ =>
        refine ih ?_ hp
        simp only [Ledger.purgeTombstone] at h₁
        split at h₁
        · simp at h₁
        · obtain ⟨-, rfl⟩ := Prod.mk.inj h₁
          obtain ⟨h₁, h₂, h₃, h₄, h₅, h₆, h₇, h₈, h₉, h₁₀, h₁₁, h₁₂, h₁₃, -, -⟩ := Ledger.mk.inj h
          simp only [Ledger.only, Table.erase, Table.part_filter, h₁, h₂, h₃, h₄, h₅, h₆, h₇, h₈,
            h₉, h₁₀, h₁₁, h₁₂, h₁₃]
          rfl

/-! #### Every call -/

theorem absent_reserveNext {n : Nat} (h : l.only u = .empty) :
    (l.reserveNext now n).2.only u = .empty := by
  simp only [Ledger.reserveNext]
  split
  · split
    · exact h
    · cases hn : l.nextQueued with
      | none => exact h
      | some q =>
          have hq := List.argmin_mem hn
          have hne := Ledger.ne_of_mem h (List.mem_of_mem_filter hq)
          rw [← h]
          simp only [Ledger.only_commit]
          rw [Ledger.only_setTask_of_ne (Ne.symm hne)]
          simp only [Ledger.only, Table.part_insert, key, hne, decide_false, Bool.false_eq_true,
            if_false]
  · exact h

/-- No transaction makes rows for a task that has none. -/
theorem absent_exec (h : l.only u = .empty) : (c.exec now l).2.only u = .empty := by
  obtain ⟨h₁, h₂, h₃, h₄, h₅, h₆, h₇, h₈, h₉, h₁₀, h₁₁, h₁₂, h₁₃, -, -⟩ := Ledger.mk.inj h
  cases c
  case reserveNext n => exact absent_reserveNext h
  case copyTaskEventPage p t s es => exact only_copyTaskEventPage h
  case expireTerminalPayloads b n =>
    simp only [LedgerCall.exec, Ledger.expireTerminalPayloads]
    split
    · exact h
    next l' hx =>
      have hne : ∀ r ∈ l.tasks.rows.filter (l.expirable b), r.id ≠ u := fun r hr =>
        Ledger.ne_of_mem h (List.mem_of_mem_filter hr)
      exact (only_expirePayloads hne hx).trans h
  case purgeExpiredTombstones b =>
    simp only [LedgerCall.exec, Ledger.purgeExpiredTombstones]
    split
    · exact h
    next l' hx =>
      have hpurged := absent_purgeTombstones h hx
      exact hpurged
  case beginSandboxCreation t d n g k v =>
    simp only [LedgerCall.exec, Ledger.beginSandboxCreation]
    split
    next hp =>
      have hne := Ledger.ne_of_hasPayload h hp
      split
      · split <;> exact h
      · rw [← h]
        simp only [Ledger.only, Ledger.commit, Table.part_insert, key, hne, decide_false,
          Bool.false_eq_true, if_false]
    next => exact h
  case beginPublication t r b f m s c a =>
    simp only [LedgerCall.exec, Ledger.beginPublication]
    split
    next hp =>
      have hne := Ledger.ne_of_hasPayload h hp
      split
      · split
        · exact h
        · split <;> exact h
      · rw [← h]
        simp only [Ledger.only, Ledger.commit, Table.part_insert, key, hne, decide_false,
          Bool.false_eq_true, if_false]
    next => exact h
  case beginSupervision t e b k =>
    simp only [LedgerCall.exec, Ledger.beginSupervision]
    split
    next hp =>
      have hne := Ledger.ne_of_hasPayload h hp
      split
      · split <;> exact h
      · rw [← h]
        simp only [Ledger.only, Ledger.commit, Table.part_insert, key, hne, decide_false,
          Bool.false_eq_true, if_false]
    next => exact h
  case archiveTaskResult t e m c d =>
    simp only [LedgerCall.exec, Ledger.archiveTaskResult]
    split
    next hp =>
      have hne := Ledger.ne_of_hasPayload h hp
      rw [← h]
      simp only [Ledger.only, Ledger.commit]
      rw [Table.part_upsert_of_not (by simpa [key] using hne)]
    next => exact h
  case saveTaskMessageReceipt t r =>
    simp only [LedgerCall.exec, Ledger.saveTaskMessageReceipt]
    split
    next hp =>
      have hne := Ledger.ne_of_hasPayload h hp
      rw [← h]
      split
      · simp only [Ledger.only, Ledger.commit, Table.part_insert, key, hne, decide_false,
          Bool.false_eq_true, if_false]
      · split
        · simp only [Ledger.only, Ledger.commit, Table.part_modify]
          rw [Table.modify_part_of_not (by simpa [key] using hne)]
        · rfl
    next => exact h
  all_goals
    simp only [LedgerCall.exec, Ledger.read, Ledger.updateReservation, Ledger.releaseReservation,
      Ledger.markSandboxLost, Ledger.settleSuccessfulTasks, Ledger.recordBaseSha,
      Ledger.setSandboxCredentialVersion, Ledger.updateSandboxCreation,
      Ledger.resetSandboxForWake, Ledger.updateSupervision, Ledger.finishTask,
      Ledger.cancelQueuedTask, Ledger.queueWorkspaceMessage, Ledger.touchWorkspace,
      Ledger.expireWorkspace, Ledger.tryMarkSleeping]
    repeat' split
  -- What is left rewrites rows and removes them; there are none.
  all_goals first
    | exact h
    | (simp only [Ledger.commit, Ledger.setTask, Ledger.only, Table.part_modify,
        Table.part_modifyIf, Table.part_modifyWhere, Table.erase, Table.part_filter, h₁, h₂, h₃,
        h₄, h₅, h₆, h₇, h₈, h₉, h₁₀, h₁₁, h₁₂, h₁₃]
       rfl)

end Absent

end GgAgent.Backend
