import GgAgent.Backend.Calls

/-!
What a ledger call does to one row of a table, said once for each table.

`TaskStep`, `ReservationStep` and the others list the ways in which a row can
come out of a call, with the guard that the transaction has read. They leave out
nothing that a call can do, so an invariant of the database is proved by cases on
them and no later proof looks into a transaction again.
-/

namespace GgAgent.Backend

open GgAgent.Lib

variable {now : Time} {l : Ledger} {t : TaskId}

/-! ### Tasks -/

/-- The row that retention leaves of a task. -/
def TaskRecord.retired (r : TaskRecord) : TaskRecord :=
  { r with payloadExpired := true, prompt := "", repositoryText := "", baseRef := none,
           baseSha := none, retryOf := none, outcomeDetail := none, checkStatus := none }

theorem TaskRecord.key_retired (r : TaskRecord) : key r.retired = key r := rfl

/-- A call takes the row `r` of the database `l` to another row. -/
inductive TaskStep (now : Time) (l : Ledger) (r : TaskRecord) : LedgerCall → TaskRecord → Prop
  | same (c : LedgerCall) : TaskStep now l r c r
  | reserve (n : Nat) (hq : r.state = .queued) (hres : l.reservations.find? r.id = none) :
      TaskStep now l r (.reserveNext n) { r with state := .starting, updatedAt := now }
  | adopt (p : ReservationPhase) (c : Option String) (st : TaskState)
      (hres : l.reservations.find? r.id ≠ none) (hr : r.state.terminal = false) :
      TaskStep now l r (.updateReservation r.id p c (some st)) { r with state := st, updatedAt := now }
  | release (s : String) :
      TaskStep now l r (.releaseReservation r.id s)
        { r with sandboxCleanupStatus := some s, updatedAt := now }
  | lost (d : String) :
      TaskStep now l r (.markSandboxLost r.id d)
        { r with state := Ledger.stateWhenLost r, outcomeDetail := some (r.outcomeDetail.getD d),
                 sandboxCleanupStatus := some "confirmed_absent", updatedAt := now }
  | settle (hs : Ledger.settles r = true) :
      TaskStep now l r .settleSuccessfulTasks { r with state := .completed, updatedAt := now }
  | baseSha (sha : Option String) :
      TaskStep now l r (.recordBaseSha r.id sha) { r with baseSha := sha, updatedAt := now }
  | cancel (hq : r.state = .queued) :
      TaskStep now l r (.cancelQueuedTask r.id)
        { r with state := .cancelled, outcomeDetail := some "cancelled_before_allocation",
                 updatedAt := now }
  | finish (st : TaskState) (o c : Option String) :
      TaskStep now l r (.finishTask r.id st o c) (Ledger.finished now st o c r)
  | wake (hs : r.state = .sleeping) :
      TaskStep now l r (.queueWorkspaceMessage r.id) { r with state := .queued, updatedAt := now }
  | touch :
      TaskStep now l r (.touchWorkspace r.id)
        { r with updatedAt := now, workspaceLastActivityAt := some now }
  | sleep (hi : r.state = .idle) (hacc : l.hasAccepted r.id = false) :
      TaskStep now l r (.tryMarkSleeping r.id) { r with state := .sleeping, updatedAt := now }
  | workspaceExpired (hs : r.state = .sleeping) :
      TaskStep now l r (.expireWorkspace r.id) { r with workspaceExpired := true }
  | retire (b n : Time) (ht : r.state.terminal = true) (hp : r.payloadExpired = false)
      (hres : l.reservations.find? r.id = none) :
      TaskStep now l r (.expireTerminalPayloads b n) r.retired

/-! ### Passes over many rows -/

namespace Ledger

theorem expirePayload_ok {e : Time} {r : TaskRecord} {l' : Ledger}
    (h : l.expirePayload e r = (.ok (), l')) :
    l'.tasks = l.tasks.modify r.id TaskRecord.retired TaskRecord.key_retired ∧
      l'.reservations = l.reservations ∧
      l'.supervisions = l.supervisions.erase r.id ∧ l'.creations = l.creations.erase r.id ∧
      l'.receipts = l.receipts.filter (fun c => c.taskId ≠ r.id) := by
  unfold expirePayload at h
  split at h
  · simp at h
  · obtain ⟨-, rfl⟩ := Prod.mk.inj h
    exact ⟨rfl, rfl, rfl, rfl, rfl⟩

/-- What a payload pass over `rows` leaves of each table. -/
structure Expired (rows : List TaskRecord) (l l' : Ledger) : Prop where
  tasks : ∀ t, l'.tasks.find? t =
    (l.tasks.find? t).map fun r => if t ∈ rows.map TaskRecord.id then r.retired else r
  reservations : l'.reservations = l.reservations
  supervisions : ∀ t, l'.supervisions.find? t =
    if t ∈ rows.map TaskRecord.id then none else l.supervisions.find? t
  creations : ∀ t, l'.creations.find? t =
    if t ∈ rows.map TaskRecord.id then none else l.creations.find? t
  receipts : ∀ k, l'.receipts.find? k =
    if k.1 ∈ rows.map TaskRecord.id then none else l.receipts.find? k

theorem find?_receipts_filter (T : Table ReceiptRow) (t : TaskId) (k : TaskId × MessageId) :
    (T.filter fun c => c.taskId ≠ t).find? k = if k.1 = t then none else T.find? k := by
  rw [Table.find?_filter]
  cases h : T.find? k with
  | none => simp
  | some r =>
      have hk : r.taskId = k.1 := congrArg Prod.fst (Table.key_of_find? h)
      by_cases ht : k.1 = t <;> simp [Option.filter, hk, ht]

theorem expirePayloads_ok {e : Time} :
    ∀ {rows : List TaskRecord} {l l' : Ledger}, l.expirePayloads e rows = (.ok (), l') →
      Expired rows l l'
  | [], l, l', h => by
      obtain ⟨-, rfl⟩ := Prod.mk.inj h
      constructor <;> simp
  | r :: rows, l, l', h => by
      simp only [expirePayloads] at h
      split at h
      · simp at h
      next l₁ h₁ =>
        obtain ⟨htasks, hres, hsup, hcre, hrec⟩ := expirePayload_ok h₁
        have ih := expirePayloads_ok h
        constructor
        · intro t
          rw [ih.tasks t, htasks, Table.find?_modify]
          by_cases ht : t = r.id
          · subst ht
            cases l.tasks.find? r.id with
            | none => simp
            | some r' => by_cases hmem : r.id ∈ rows.map TaskRecord.id <;> simp [TaskRecord.retired]
          · simp [ht]
        · rw [ih.reservations, hres]
        · intro t
          rw [ih.supervisions t, hsup, Table.find?_erase]
          by_cases ht : t = r.id <;> simp [ht]
        · intro t
          rw [ih.creations t, hcre, Table.find?_erase]
          by_cases ht : t = r.id <;> simp [ht]
        · intro k
          rw [ih.receipts k, hrec, find?_receipts_filter]
          by_cases ht : k.1 = r.id <;> simp [ht]

theorem purgeTombstone_ok {l' : Ledger} (h : l.purgeTombstone t = (.ok (), l')) :
    l'.tasks = l.tasks.filter (fun r => !(r.id = t && r.payloadExpired)) ∧
      l'.reservations = l.reservations ∧ l'.supervisions = l.supervisions ∧
      l'.creations = l.creations ∧ l'.receipts = l.receipts := by
  simp only [purgeTombstone] at h
  split at h
  · simp at h
  · obtain ⟨-, rfl⟩ := Prod.mk.inj h
    exact ⟨rfl, rfl, rfl, rfl, rfl⟩

/-- What a purge of the tombstones `rows` leaves of each table. -/
structure Purged (rows : List Tombstone) (l l' : Ledger) : Prop where
  tasks : ∀ t, l'.tasks.find? t =
    (l.tasks.find? t).filter fun r => !(decide (t ∈ rows.map Tombstone.taskId) && r.payloadExpired)
  reservations : l'.reservations = l.reservations
  supervisions : l'.supervisions = l.supervisions
  creations : l'.creations = l.creations
  receipts : l'.receipts = l.receipts

theorem purgeTombstones_ok :
    ∀ {rows : List Tombstone} {l l' : Ledger}, l.purgeTombstones rows = (.ok (), l') →
      Purged rows l l'
  | [], l, l', h => by
      obtain ⟨-, rfl⟩ := Prod.mk.inj h
      refine ⟨fun t => ?_, rfl, rfl, rfl, rfl⟩
      cases l.tasks.find? t <;> simp [Option.filter]
  | k :: rows, l, l', h => by
      simp only [purgeTombstones] at h
      split at h
      · simp at h
      next l₁ h₁ =>
        obtain ⟨htasks, hres, hsup, hcre, hrec⟩ := purgeTombstone_ok h₁
        have ih := purgeTombstones_ok h
        refine ⟨?_, by rw [ih.reservations, hres], by rw [ih.supervisions, hsup],
          by rw [ih.creations, hcre], by rw [ih.receipts, hrec]⟩
        intro t
        rw [ih.tasks t, htasks, Table.find?_filter]
        cases h : l.tasks.find? t with
        | none => simp
        | some r =>
            have hid : r.id = t := Table.key_of_find? h
            by_cases ht : t = k.taskId <;> by_cases hm : t ∈ rows.map Tombstone.taskId <;>
              cases hp : r.payloadExpired <;> simp_all [Option.filter]

/-- Copied events are the only thing that an event page changes. -/
structure SameControl (l l' : Ledger) : Prop where
  tasks : l'.tasks = l.tasks
  reservations : l'.reservations = l.reservations
  supervisions : l'.supervisions = l.supervisions
  creations : l'.creations = l.creations
  receipts : l'.receipts = l.receipts

theorem SameControl.refl (l : Ledger) : SameControl l l := ⟨rfl, rfl, rfl, rfl, rfl⟩

theorem SameControl.trans {l l' l'' : Ledger} (h : SameControl l l') (h' : SameControl l' l'') :
    SameControl l l'' :=
  ⟨h'.tasks.trans h.tasks, h'.reservations.trans h.reservations,
    h'.supervisions.trans h.supervisions, h'.creations.trans h.creations,
    h'.receipts.trans h.receipts⟩

theorem sameControl_insertTaskEvent (source : ConversationId) (seq : Nat) (payload : String) :
    SameControl l (l.insertTaskEvent now t source seq payload).2 := by
  unfold insertTaskEvent
  split
  · exact .refl l
  · split
    · exact ⟨rfl, rfl, rfl, rfl, rfl⟩
    · exact .refl l

theorem sameControl_insertTaskEvents (payload : Event → Nat → String) (source : ConversationId) :
    ∀ (es : List Event) (bytes : Nat) (done : List (Nat × String)) (l : Ledger),
      SameControl l (l.insertTaskEvents now payload t source es bytes done).2
  | [], _, _, l => .refl l
  | e :: es, bytes, done, l => by
      have hone : SameControl l (l.insertTaskEvent now t source e.seq (payload e bytes)).2 :=
        sameControl_insertTaskEvent source e.seq (payload e bytes)
      simp only [insertTaskEvents]
      split
      next h => rw [h] at hone; exact hone
      next l₁ h =>
        rw [h] at hone
        exact hone.trans (sameControl_insertTaskEvents payload source es bytes done l₁)
      next l₁ h =>
        rw [h] at hone
        exact hone.trans (sameControl_insertTaskEvents payload source es _ _ l₁)

theorem sameControl_copyTaskEventPage (payload : Event → Nat → String) (source : ConversationId)
    (es : List Event) : SameControl l (l.copyTaskEventPage now payload t source es).2 := by
  have hins : SameControl l (l.insertTaskEvents now payload t source es (l.logBytes t) []).2 :=
    sameControl_insertTaskEvents payload source es (l.logBytes t) [] l
  unfold copyTaskEventPage
  split
  · exact .refl l
  · split
    · split
      · split
        · exact .refl l
        next l₁ h =>
          rw [h] at hins
          exact hins.trans ⟨rfl, rfl, rfl, rfl, rfl⟩
      · exact .refl l
    · exact .refl l

end Ledger

/-! ### Tables that a call leaves alone -/

def LedgerCall.writesTasks : LedgerCall → Bool
  | .reserveNext _ | .updateReservation _ _ _ _ | .releaseReservation _ _ | .markSandboxLost _ _
  | .settleSuccessfulTasks | .recordBaseSha _ _ | .cancelQueuedTask _ | .finishTask _ _ _ _
  | .queueWorkspaceMessage _ | .touchWorkspace _ | .tryMarkSleeping _ | .expireWorkspace _
  | .expireTerminalPayloads _ _ | .purgeExpiredTombstones _ => true
  | _ => false

def LedgerCall.writesReservations : LedgerCall → Bool
  | .reserveNext _ | .updateReservation _ _ _ _ | .releaseReservation _ _ | .markSandboxLost _ _ =>
    true
  | _ => false

def LedgerCall.writesCreations : LedgerCall → Bool
  | .beginSandboxCreation _ _ _ _ _ _ | .setSandboxCredentialVersion _ _
  | .updateSandboxCreation _ _ _ _ | .resetSandboxForWake _ | .expireTerminalPayloads _ _ => true
  | _ => false

def LedgerCall.writesSupervisions : LedgerCall → Bool
  | .beginSupervision _ _ _ _ | .updateSupervision _ _ _ _ _ _ | .expireTerminalPayloads _ _ => true
  | _ => false

def LedgerCall.writesReceipts : LedgerCall → Bool
  | .saveTaskMessageReceipt _ _ | .expireTerminalPayloads _ _ => true
  | _ => false

/-- The tables on which the control flow depends, each kept unless the call
writes it. -/
structure Frame (c : LedgerCall) (l l' : Ledger) : Prop where
  tasks : c.writesTasks = false → l'.tasks = l.tasks
  reservations : c.writesReservations = false → l'.reservations = l.reservations
  creations : c.writesCreations = false → l'.creations = l.creations
  supervisions : c.writesSupervisions = false → l'.supervisions = l.supervisions
  receipts : c.writesReceipts = false → l'.receipts = l.receipts

theorem Frame.of_sameControl {c : LedgerCall} {l' : Ledger} (h : Ledger.SameControl l l') :
    Frame c l l' :=
  ⟨fun _ => h.tasks, fun _ => h.reservations, fun _ => h.creations, fun _ => h.supervisions,
    fun _ => h.receipts⟩

theorem exec_frame (now : Time) (c : LedgerCall) (l : Ledger) : Frame c l (c.exec now l).2 := by
  cases c
  case copyTaskEventPage p t s es =>
    exact .of_sameControl (Ledger.sameControl_copyTaskEventPage p s es)
  case expireTerminalPayloads b n =>
    simp only [LedgerCall.exec, Ledger.expireTerminalPayloads]
    split
    · exact .of_sameControl (.refl l)
    next l' hx =>
      have hexp := Ledger.expirePayloads_ok hx
      constructor <;> intro hw
      case reservations => exact hexp.reservations
      all_goals simp [LedgerCall.writesTasks, LedgerCall.writesCreations,
        LedgerCall.writesSupervisions, LedgerCall.writesReceipts] at hw
  case purgeExpiredTombstones b =>
    simp only [LedgerCall.exec, Ledger.purgeExpiredTombstones]
    split
    · exact .of_sameControl (.refl l)
    next l' hx =>
      have hp := Ledger.purgeTombstones_ok hx
      constructor <;> intro hw
      case tasks => simp [LedgerCall.writesTasks] at hw
      case reservations => exact hp.reservations
      case creations => exact hp.creations
      case supervisions => exact hp.supervisions
      case receipts => exact hp.receipts
  all_goals
    constructor <;> intro hw <;> first
      | exact (Bool.noConfusion hw)
      | rfl
      | (simp only [LedgerCall.exec, Ledger.reserveNext, Ledger.updateReservation,
          Ledger.markSandboxLost, Ledger.recordBaseSha, Ledger.beginSandboxCreation,
          Ledger.setSandboxCredentialVersion, Ledger.updateSandboxCreation,
          Ledger.beginPublication, Ledger.beginSupervision, Ledger.updateSupervision,
          Ledger.saveTaskMessageReceipt, Ledger.archiveTaskResult, Ledger.finishTask,
          Ledger.tryMarkSleeping]
         repeat' split
         all_goals rfl)

/-! ### The row of a task -/

/-- A call that found the row `r` keeps it, takes a step of it, or purges it. -/
def TaskMoves (now : Time) (l : Ledger) (r : TaskRecord) (c : LedgerCall) (l' : Ledger) : Prop :=
  (∃ b, c = .purgeExpiredTombstones b ∧ r.payloadExpired = true ∧ l'.tasks.find? r.id = none) ∨
    ∃ r', l'.tasks.find? r.id = some r' ∧ TaskStep now l r c r'

section TaskMoves

variable {r : TaskRecord} {c : LedgerCall} {l' : Ledger}

theorem TaskMoves.of_eq (h : l.tasks.find? r.id = some r) (heq : l'.tasks = l.tasks) :
    TaskMoves now l r c l' :=
  .inr ⟨r, by rw [heq, h], .same c⟩

/-- The calls that rewrite the row of one task. -/
theorem TaskMoves.of_modifyIf {p : TaskRecord → Bool} {f : TaskRecord → TaskRecord}
    (h : l.tasks.find? r.id = some r)
    (h' : l'.tasks.rows = l.tasks.rows.map fun r => if decide (key r = t) && p r then f r else r)
    (hs : r.id = t → p r = true → TaskStep now l r c (f r))
    (hf : ∀ r, key (f r) = key r := by intro _; rfl) : TaskMoves now l r c l' := by
  have hfind : l'.tasks.find? r.id = if r.id = t then (l.tasks.find? r.id).map
      (fun r => if p r then f r else r) else l.tasks.find? r.id := by
    rw [show l'.tasks = l.tasks.modifyIf t p f hf from Table.ext h', Table.find?_modifyIf]
  by_cases ht : r.id = t
  · rw [if_pos ht, h, Option.map_some] at hfind
    by_cases hp : p r = true
    · exact .inr ⟨f r, by rw [hfind, if_pos hp], hs ht hp⟩
    · exact .inr ⟨r, by rw [hfind, if_neg hp], .same c⟩
  · exact .inr ⟨r, by rw [hfind, if_neg ht, h], .same c⟩

theorem TaskMoves.of_modify {f : TaskRecord → TaskRecord} (h : l.tasks.find? r.id = some r)
    (h' : l'.tasks.rows = l.tasks.rows.map fun r => if decide (key r = t) && true then f r else r)
    (hs : r.id = t → TaskStep now l r c (f r))
    (hf : ∀ r, key (f r) = key r := by intro _; rfl) : TaskMoves now l r c l' :=
  .of_modifyIf h h' (fun ht _ => hs ht) hf

end TaskMoves

/-- What `reserve_next` can do: nothing, or the claim of one queued task. -/
theorem reserveNext_cases (now : Time) (n : Nat) (l : Ledger) :
    ((l.reserveNext now n).2.tasks = l.tasks ∧
      (l.reserveNext now n).2.reservations = l.reservations ∧
      ∀ q, (l.reserveNext now n).1 ≠ .ok (some q)) ∨
    ∃ q : TaskRecord, l.tasks.find? q.id = some q ∧ q.state = .queued ∧
      l.reservations.find? q.id = none ∧
      (l.reserveNext now n).2.tasks =
        l.tasks.modify q.id (fun r => { r with state := .starting, updatedAt := now }) ∧
      (l.reserveNext now n).2.reservations = l.reservations.insert
        { taskId := q.id, phase := .starting, condition := none, reservedAt := now,
          updatedAt := now } ∧
      (l.reserveNext now n).1 = .ok (some { q with state := .starting, updatedAt := now }) := by
  unfold Ledger.reserveNext
  split
  · split
    · exact .inl ⟨rfl, rfl, by simp⟩
    · cases hn : l.nextQueued with
      | none => exact .inl ⟨rfl, rfl, by simp⟩
      | some q =>
          have hq := List.argmin_mem hn
          rw [List.mem_filter] at hq
          have hfind : l.tasks.find? q.id = some q := Table.find?_of_mem hq.1
          have hguard := hq.2
          simp only [decide_eq_true_eq] at hguard
          refine .inr ⟨q, hfind, hguard.1, by simpa using hguard.2, rfl, rfl, ?_⟩
          simp [Ledger.setTask, hfind]
  · exact .inl ⟨rfl, rfl, by simp⟩

theorem finishTask_snd (now : Time) (t : TaskId) (st : TaskState) (o c : Option String)
    (l : Ledger) :
    (l.finishTask now t st o c).2 = (l.setTask t (Ledger.finished now st o c)
      (Ledger.key_finished now st o c)).commit := by
  simp only [Ledger.finishTask]
  split <;> rfl

theorem finishTask_ok {st : TaskState} {o c : Option String} {r : TaskRecord}
    (h : (l.finishTask now t st o c).1 = .ok r) :
    (l.finishTask now t st o c).2.tasks.find? t = some r ∧ r.state = st := by
  simp only [Ledger.finishTask] at h ⊢
  cases hr : l.tasks.find? t with
  | none => simp [Ledger.setTask, Ledger.commit, hr] at h
  | some q =>
      simp only [Ledger.setTask, Ledger.commit, Table.find?_modify, hr, if_true,
        Option.map_some] at h ⊢
      obtain rfl := Except.ok.inj h
      exact ⟨by simp, rfl⟩

theorem mem_listReservations {q : ReservationRecord} (h : q ∈ l.listReservations) :
    l.reservations.find? q.taskId = some q := by
  unfold Ledger.listReservations at h
  rw [List.mem_insertionSort] at h
  exact Table.find?_of_mem h

/-- Different reservations of a list are of different tasks. -/
theorem listReservations_pairwise (l : Ledger) :
    l.listReservations.Pairwise fun q q' => q.taskId ≠ q'.taskId := by
  have hnodup : (l.listReservations.map ReservationRecord.taskId).Nodup :=
    ((List.perm_insertionSort _ _).map _).nodup_iff.mpr l.reservations.nodup
  exact List.pairwise_map.mp hnodup

/-- The tasks that a payload pass retires. -/
theorem expirable_of_mem {b : Time}
    (hm : t ∈ (l.tasks.rows.filter (l.expirable b)).map TaskRecord.id) :
    ∃ r, l.tasks.find? t = some r ∧ r.state.terminal = true ∧ r.payloadExpired = false ∧
      l.reservations.find? t = none := by
  obtain ⟨r, hr, rfl⟩ := List.mem_map.mp hm
  rw [List.mem_filter] at hr
  have hx := hr.2
  simp only [Ledger.expirable, Bool.and_eq_true, Bool.not_eq_true', Option.isNone_iff_eq_none] at hx
  exact ⟨r, Table.find?_of_mem hr.1, hx.1.1.1, hx.1.1.2, hx.2⟩

theorem exec_task (now : Time) (c : LedgerCall) {r : TaskRecord}
    (h : l.tasks.find? r.id = some r) : TaskMoves now l r c (c.exec now l).2 := by
  cases hw : c.writesTasks with
  | false => exact .of_eq h ((exec_frame now c l).tasks hw)
  | true =>
    cases c with
    | reserveNext n =>
        obtain ⟨heq, -, -⟩ | ⟨q, hq, hqueued, hres, htasks, -, -⟩ := reserveNext_cases now n l
        · exact .of_eq h heq
        · refine .of_modify h (congrArg Table.rows htasks) fun ht => ?_
          obtain rfl : q = r := by
            rw [← ht, h] at hq
            exact (Option.some.inj hq).symm
          exact .reserve n hqueued hres
    | updateReservation t p d st =>
        simp only [LedgerCall.exec, Ledger.updateReservation]
        cases hres : l.reservations.find? t with
        | none => exact .of_eq h rfl
        | some q =>
            cases st with
            | none => exact .of_eq h rfl
            | some st =>
                refine .of_modifyIf h rfl fun ht hterm => ?_
                subst ht
                exact .adopt p d st (by simp [hres]) (by simpa using hterm)
    | releaseReservation t s =>
        refine .of_modify h rfl fun ht => ?_
        subst ht
        exact .release s
    | markSandboxLost t d =>
        simp only [LedgerCall.exec, Ledger.markSandboxLost]
        split
        · exact .of_eq h rfl
        · refine .of_modify h rfl fun ht => ?_
          subst ht
          exact .lost d
    | settleSuccessfulTasks =>
        have hfind := Table.find?_modifyWhere l.tasks Ledger.settles
          (fun r => { r with state := .completed, updatedAt := now }) (fun _ => rfl) r.id
        rw [h, Option.map_some] at hfind
        refine .inr ⟨_, hfind, ?_⟩
        split
        next hs => exact .settle hs
        next => exact .same _
    | recordBaseSha t sha =>
        simp only [LedgerCall.exec, Ledger.recordBaseSha]
        split
        · exact .of_eq h rfl
        · refine .of_modify h rfl fun ht => ?_
          subst ht
          exact .baseSha sha
    | cancelQueuedTask t =>
        refine .of_modifyIf h rfl fun ht hq => ?_
        subst ht
        exact .cancel (by simpa using hq)
    | finishTask t st o d =>
        simp only [LedgerCall.exec, finishTask_snd]
        refine .of_modify h rfl fun ht => ?_
        subst ht
        exact .finish st o d
    | queueWorkspaceMessage t =>
        refine .of_modifyIf h rfl fun ht hs => ?_
        subst ht
        exact .wake (by simpa using hs)
    | touchWorkspace t =>
        refine .of_modify h rfl fun ht => ?_
        subst ht
        exact .touch
    | tryMarkSleeping t =>
        simp only [LedgerCall.exec, Ledger.tryMarkSleeping]
        split
        next => exact .of_eq h rfl
        next hacc =>
          refine .of_modifyIf h rfl fun ht hi => ?_
          subst ht
          exact .sleep (by simpa using hi) (by simpa using hacc)
    | expireWorkspace t =>
        refine .of_modifyIf h rfl fun ht hs => ?_
        subst ht
        exact .workspaceExpired (by simpa using hs)
    | expireTerminalPayloads b n =>
        simp only [LedgerCall.exec, Ledger.expireTerminalPayloads]
        split
        next => exact .of_eq h rfl
        next l' hx =>
          refine .inr ⟨_, ((Ledger.expirePayloads_ok hx).tasks r.id).trans (by rw [h]; rfl), ?_⟩
          split
          next hm =>
            obtain ⟨q, hq, hterm, hp, hres⟩ := expirable_of_mem hm
            obtain rfl : q = r := Option.some.inj (hq.symm.trans h)
            exact .retire b n hterm hp hres
          next => exact .same _
    | purgeExpiredTombstones b =>
        simp only [LedgerCall.exec, Ledger.purgeExpiredTombstones]
        split
        next => exact .of_eq h rfl
        next l' hx =>
          have hfind := (Ledger.purgeTombstones_ok hx).tasks r.id
          rw [h] at hfind
          cases hpe : r.payloadExpired with
          | false => exact .inr ⟨r, hfind.trans (by simp [Option.filter, hpe]), .same _⟩
          | true =>
              by_cases hm : r.id ∈ (l.tombstones.rows.filter fun k => k.expiresAt < b &&
                  (l.reservations.find? k.taskId).isNone).map Tombstone.taskId
              · exact .inl ⟨b, rfl, hpe, hfind.trans (by simp [Option.filter, hpe, hm])⟩
              · exact .inr ⟨r, hfind.trans (by simp [Option.filter, hm]), .same _⟩
    | _ => simp [LedgerCall.writesTasks] at hw

/-- No call makes a task. -/
theorem exec_task_none (now : Time) (c : LedgerCall) (h : l.tasks.find? t = none) :
    (c.exec now l).2.tasks.find? t = none := by
  by_contra hne
  obtain ⟨r', hr'⟩ := Option.ne_none_iff_exists'.mp hne
  cases hw : c.writesTasks with
  | false => rw [(exec_frame now c l).tasks hw, h] at hr'; simp at hr'
  | true =>
    cases c with
    | reserveNext n =>
        obtain ⟨heq, -, -⟩ | ⟨q, -, -, -, htasks, -, -⟩ := reserveNext_cases now n l
        · simp [LedgerCall.exec, heq, h] at hr'
        · simp [LedgerCall.exec, htasks, h] at hr'
    | updateReservation t' p d st =>
        simp only [LedgerCall.exec, Ledger.updateReservation] at hr'
        split at hr'
        · simp [h] at hr'
        · split at hr' <;> simp [Ledger.commit, Table.find?_modifyIf, h] at hr'
    | markSandboxLost t' d =>
        simp only [LedgerCall.exec, Ledger.markSandboxLost] at hr'
        split at hr' <;> simp [Ledger.commit, Ledger.setTask, h] at hr'
    | settleSuccessfulTasks =>
        simp [LedgerCall.exec, Ledger.settleSuccessfulTasks, Ledger.commit,
          Table.find?_modifyWhere, h] at hr'
    | recordBaseSha t' sha =>
        simp only [LedgerCall.exec, Ledger.recordBaseSha] at hr'
        split at hr' <;> simp [Ledger.commit, Ledger.setTask, h] at hr'
    | tryMarkSleeping t' =>
        simp only [LedgerCall.exec, Ledger.tryMarkSleeping] at hr'
        split at hr' <;> simp [Ledger.commit, Table.find?_modifyIf, h] at hr'
    | expireTerminalPayloads b n =>
        simp only [LedgerCall.exec, Ledger.expireTerminalPayloads] at hr'
        split at hr'
        next => simp [h] at hr'
        next l' hx => simp [Ledger.commit, (Ledger.expirePayloads_ok hx).tasks t, h] at hr'
    | purgeExpiredTombstones b =>
        simp only [LedgerCall.exec, Ledger.purgeExpiredTombstones] at hr'
        split at hr'
        next => simp [h] at hr'
        next l' hx => simp [Ledger.commit, (Ledger.purgeTombstones_ok hx).tasks t, h] at hr'
    | releaseReservation | cancelQueuedTask | queueWorkspaceMessage | touchWorkspace
    | expireWorkspace =>
        simp [LedgerCall.exec, Ledger.releaseReservation, Ledger.cancelQueuedTask,
          Ledger.queueWorkspaceMessage, Ledger.touchWorkspace, Ledger.expireWorkspace,
          Ledger.commit, Ledger.setTask, Table.find?_modifyIf, h] at hr'
    | finishTask t' st o d =>
        simp [LedgerCall.exec, finishTask_snd, Ledger.commit, Ledger.setTask, h] at hr'
    | _ => simp [LedgerCall.writesTasks] at hw

/-! ### The reservation of a task -/

/-- What a call leaves of the reservation of `t`. -/
inductive ReservationStep (now : Time) (l : Ledger) (t : TaskId) :
    LedgerCall → Option ReservationRecord → Prop
  | same (c : LedgerCall) : ReservationStep now l t c (l.reservations.find? t)
  | claim (n : Nat) (q : TaskRecord) (hq : l.tasks.find? t = some q) (hqueued : q.state = .queued)
      (hnone : l.reservations.find? t = none) :
      ReservationStep now l t (.reserveNext n)
        (some { taskId := t, phase := .starting, condition := none, reservedAt := now,
                updatedAt := now })
  | update (p : ReservationPhase) (d : Option String) (st : Option TaskState)
      (q : ReservationRecord) (hq : l.reservations.find? t = some q) :
      ReservationStep now l t (.updateReservation t p d st)
        (some { q with phase := p, condition := d, updatedAt := now })
  | release (s : String) : ReservationStep now l t (.releaseReservation t s) none
  | lost (d : String) : ReservationStep now l t (.markSandboxLost t d) none

theorem exec_reservation (now : Time) (c : LedgerCall) (l : Ledger) (t : TaskId) :
    ReservationStep now l t c ((c.exec now l).2.reservations.find? t) := by
  cases hw : c.writesReservations with
  | false =>
      rw [(exec_frame now c l).reservations hw]
      exact .same c
  | true =>
    cases c with
    | reserveNext n =>
        obtain ⟨-, heq, -⟩ | ⟨q, hq, hqueued, hnone, -, hres, -⟩ := reserveNext_cases now n l
        · simp only [LedgerCall.exec, heq]
          exact .same _
        · simp only [LedgerCall.exec, hres]
          rw [Table.find?_insert (by exact hnone)]
          split
          next ht =>
            obtain rfl : q.id = t := ht
            exact .claim n q hq hqueued hnone
          next => exact .same _
    | updateReservation t' p d st =>
        simp only [LedgerCall.exec, Ledger.updateReservation]
        split
        · exact .same _
        next q hq =>
          have hfind : ∀ T : Table ReservationRecord, T = l.reservations.modify t'
              (fun r => { r with phase := p, condition := d, updatedAt := now }) →
              ReservationStep now l t (.updateReservation t' p d st) (T.find? t) := by
            intro T hT
            rw [hT, Table.find?_modify]
            split
            next ht =>
              subst ht
              rw [hq]
              exact .update p d st q hq
            next => exact .same _
          split
          · exact hfind _ rfl
          · exact hfind _ rfl
    | releaseReservation t' s =>
        simp only [LedgerCall.exec, Ledger.releaseReservation, Ledger.commit, Ledger.setTask,
          Table.find?_erase]
        split
        next ht =>
          subst ht
          exact .release s
        next => exact .same _
    | markSandboxLost t' d =>
        simp only [LedgerCall.exec, Ledger.markSandboxLost]
        split
        · exact .same _
        · simp only [Ledger.commit, Ledger.setTask, Table.find?_erase]
          split
          next ht =>
            subst ht
            exact .lost d
          next => exact .same _
    | _ => simp [LedgerCall.writesReservations] at hw

/-! ### Calls that write a task and its reservation together -/

/-- What `update_reservation` makes of the task beside it. -/
def TaskRecord.adopted (now : Time) (st : Option TaskState) (r : TaskRecord) : TaskRecord :=
  match st with
  | some st => if r.state.terminal then r else { r with state := st, updatedAt := now }
  | none => r

theorem updateReservation_find (now : Time) (p : ReservationPhase) (d : Option String)
    (st : Option TaskState) {q : ReservationRecord} (hq : l.reservations.find? t = some q) (t' : TaskId) :
    (l.updateReservation now t p d st).2.reservations.find? t' =
        (if t' = t then some { q with phase := p, condition := d, updatedAt := now }
         else l.reservations.find? t') ∧
      (l.updateReservation now t p d st).2.tasks.find? t' =
        if t' = t then (l.tasks.find? t).map (TaskRecord.adopted now st) else l.tasks.find? t' := by
  unfold Ledger.updateReservation
  rw [hq]
  cases st with
  | none =>
      refine ⟨?_, ?_⟩
      · by_cases ht : t' = t
        · subst ht
          simp [Ledger.commit, hq]
        · simp [Ledger.commit, ht]
      · by_cases ht : t' = t
        · subst ht
          simp only [Ledger.commit, if_true]
          cases l.tasks.find? t' <;> rfl
        · simp [Ledger.commit, ht]
  | some st =>
      refine ⟨?_, ?_⟩
      · by_cases ht : t' = t
        · subst ht
          simp [Ledger.commit, hq]
        · simp [Ledger.commit, ht]
      · by_cases ht : t' = t
        · subst ht
          simp only [Ledger.commit, Table.find?_modifyIf, if_true]
          cases l.tasks.find? t' with
          | none => rfl
          | some r => cases hterm : r.state.terminal <;> simp [hterm, TaskRecord.adopted]
        · simp [Ledger.commit, Table.find?_modifyIf, ht]

theorem updateReservation_none {p : ReservationPhase} {d : Option String} {st : Option TaskState}
    (hq : l.reservations.find? t = none) : (l.updateReservation now t p d st).2 = l := by
  unfold Ledger.updateReservation
  rw [hq]

theorem releaseReservation_find (now : Time) (l : Ledger) (t : TaskId) (status : String)
    (t' : TaskId) :
    (l.releaseReservation now t status).2.reservations.find? t' =
        (if t' = t then none else l.reservations.find? t') ∧
      (l.releaseReservation now t status).2.tasks.find? t' =
        if t' = t then (l.tasks.find? t).map fun r =>
          { r with sandboxCleanupStatus := some status, updatedAt := now }
        else l.tasks.find? t' := by
  refine ⟨?_, ?_⟩
  · simp [Ledger.releaseReservation, Ledger.commit, Ledger.setTask]
  · by_cases ht : t' = t
    · subst ht
      simp [Ledger.releaseReservation, Ledger.commit, Ledger.setTask]
    · simp [Ledger.releaseReservation, Ledger.commit, Ledger.setTask, ht]

/-- The row that the loss of its sandbox leaves of a task. -/
def TaskRecord.lost (now : Time) (d : String) (r : TaskRecord) : TaskRecord :=
  { r with state := Ledger.stateWhenLost r, outcomeDetail := some (r.outcomeDetail.getD d),
           sandboxCleanupStatus := some "confirmed_absent", updatedAt := now }

theorem markSandboxLost_find (now : Time) {r : TaskRecord} (hr : l.tasks.find? t = some r)
    (d : String) (t' : TaskId) :
    (l.markSandboxLost now t d).2.reservations.find? t' =
        (if t' = t then none else l.reservations.find? t') ∧
      (l.markSandboxLost now t d).2.tasks.find? t' =
        if t' = t then some (r.lost now d) else l.tasks.find? t' := by
  unfold Ledger.markSandboxLost
  rw [hr]
  refine ⟨?_, ?_⟩
  · simp [Ledger.commit, Ledger.setTask]
  · by_cases ht : t' = t
    · subst ht
      simp [Ledger.commit, Ledger.setTask, hr, TaskRecord.lost]
    · simp [Ledger.commit, Ledger.setTask, ht]

theorem markSandboxLost_none (now : Time) (hr : l.tasks.find? t = none) (d : String) :
    (l.markSandboxLost now t d).2.reservations = l.reservations ∧
      (l.markSandboxLost now t d).2.tasks = l.tasks := by
  unfold Ledger.markSandboxLost
  rw [hr]
  exact ⟨rfl, rfl⟩

/-- The task that `reserve_next` claims, if it claims one, and its reservation. -/
theorem reserveNext_find (now : Time) (n : Nat) (l : Ledger) :
    ((l.reserveNext now n).2.tasks = l.tasks ∧
      (l.reserveNext now n).2.reservations = l.reservations ∧
      ∀ q, (l.reserveNext now n).1 ≠ .ok (some q)) ∨
    ∃ q : TaskRecord, l.tasks.find? q.id = some q ∧ q.state = .queued ∧
      l.reservations.find? q.id = none ∧
      (l.reserveNext now n).1 = .ok (some { q with state := .starting, updatedAt := now }) ∧
      ∀ t', (l.reserveNext now n).2.tasks.find? t' =
          (if t' = q.id then some { q with state := .starting, updatedAt := now }
           else l.tasks.find? t') ∧
        (l.reserveNext now n).2.reservations.find? t' =
          if t' = q.id then some { taskId := q.id, phase := .starting, condition := none,
                                   reservedAt := now, updatedAt := now }
          else l.reservations.find? t' := by
  obtain h | ⟨q, hq, hqueued, hnone, htasks, hres, hreply⟩ := reserveNext_cases now n l
  · exact .inl h
  · refine .inr ⟨q, hq, hqueued, hnone, hreply, fun t' => ⟨?_, ?_⟩⟩
    · rw [htasks, Table.find?_modify]
      by_cases ht : t' = q.id
      · subst ht
        simp [hq]
      · simp [ht]
    · rw [hres, Table.find?_insert (by exact hnone)]
      by_cases ht : t' = q.id
      · subst ht
        simp [key]
      · rw [if_neg ht, if_neg]
        exact fun h => ht h.symm

/-! ### The supervision row of a task -/

/-- What a call leaves of the supervision row of `t`. -/
inductive SupervisionStep (now : Time) (l : Ledger) (t : TaskId) :
    LedgerCall → Option SupervisionRecord → Prop
  | same (c : LedgerCall) : SupervisionStep now l t c (l.supervisions.find? t)
  | begin (e : ExecutionId) (b : String) (k : StartKey) (hp : l.hasPayload t = true)
      (hnone : l.supervisions.find? t = none) :
      SupervisionStep now l t (.beginSupervision t e b k)
        (some { taskId := t, executionId := e, taskBranch := b, startKey := k,
                conversationId := none, cancelRequested := false, tailGapPossible := false,
                createdAt := now, updatedAt := now })
  | update (e : Option ExecutionId) (k : Option StartKey) (v : Option ConversationId)
      (c g : Option Bool) (q : SupervisionRecord) (hq : l.supervisions.find? t = some q) :
      SupervisionStep now l t (.updateSupervision t e k v c g)
        (some (Ledger.patchSupervision now e k v c g q))
  | retire (b n : Time) (r : TaskRecord) (hr : l.tasks.find? t = some r)
      (hterm : r.state.terminal = true) (hres : l.reservations.find? t = none)
      (hgone : (LedgerCall.exec now (.expireTerminalPayloads b n) l).2.tasks.find? t =
        some r.retired) :
      SupervisionStep now l t (.expireTerminalPayloads b n) none

theorem exec_supervision (now : Time) (c : LedgerCall) (l : Ledger) (t : TaskId) :
    SupervisionStep now l t c ((c.exec now l).2.supervisions.find? t) := by
  cases hw : c.writesSupervisions with
  | false =>
      rw [(exec_frame now c l).supervisions hw]
      exact .same c
  | true =>
    cases c with
    | beginSupervision t' e b k =>
        simp only [LedgerCall.exec, Ledger.beginSupervision]
        split
        next hp =>
          split
          next => split <;> exact .same _
          next hnone =>
            have hfree : l.supervisions.find? t' = none := by
              rw [Table.find?_eq_none]
              intro r hr ht
              simpa [show r.taskId = t' from ht] using List.find?_eq_none.mp hnone r hr
            simp only [Ledger.commit]
            rw [Table.find?_insert (by exact hfree)]
            split
            next ht =>
              obtain rfl : t' = t := ht
              exact .begin e b k hp hfree
            next => exact .same _
        next => exact .same _
    | updateSupervision t' e k v d g =>
        simp only [LedgerCall.exec, Ledger.updateSupervision]
        split
        · exact .same _
        next q hq =>
          simp only [Ledger.commit, Table.find?_modify]
          split
          next ht =>
            subst ht
            rw [hq]
            exact .update e k v d g q hq
          next => exact .same _
    | expireTerminalPayloads b n =>
        cases hx : l.expirePayloads (now + n) (l.tasks.rows.filter (l.expirable b)) with
        | mk a l' =>
            cases a with
            | error x =>
                simp only [LedgerCall.exec, Ledger.expireTerminalPayloads, hx]
                exact .same _
            | ok u =>
                have hexp := Ledger.expirePayloads_ok hx
                have hl : (LedgerCall.exec now (.expireTerminalPayloads b n) l).2 = l'.commit := by
                  simp only [LedgerCall.exec, Ledger.expireTerminalPayloads, hx]
                rw [hl]
                simp only [Ledger.commit, hexp.supervisions t]
                split
                next hm =>
                  obtain ⟨r, hr, hterm, -, hres⟩ := expirable_of_mem hm
                  refine .retire b n r hr hterm hres ?_
                  rw [hl]
                  simp [Ledger.commit, hexp.tasks t, hr, hm]
                next => exact .same _
    | _ => simp [LedgerCall.writesSupervisions] at hw

/-! ### The sandbox identity of a task -/

/-- What an observation of the provider that was recorded answers with. -/
theorem updateSandboxCreation_ok {id : Option ProviderId} {st : SandboxProviderState}
    {d : Option String} {r : SandboxCreationRecord}
    (h : (l.updateSandboxCreation now t id st d).1 = .ok r) :
    ∃ q, l.creations.find? t = some q ∧ r.taskId = t ∧ r.providerId = (id <|> q.providerId) ∧
      r.providerState = st ∧ r.detail = d ∧
      (l.updateSandboxCreation now t id st d).2.creations.find? t = some r := by
  unfold Ledger.updateSandboxCreation at h ⊢
  cases hq : l.creations.find? t with
  | none => simp [hq] at h
  | some q =>
      have hkey : q.taskId = t := Table.key_of_find? hq
      simp only [hq] at h ⊢
      split at h
      next hsame =>
        obtain rfl := Except.ok.inj h
        exact ⟨q, rfl, hkey, hsame.1, hsame.2.1, hsame.2.2, by rw [if_pos hsame]; exact hq⟩
      next hsame =>
        obtain rfl := Except.ok.inj h
        refine ⟨q, rfl, hkey, rfl, rfl, rfl, ?_⟩
        rw [if_neg hsame]
        simp [Ledger.commit, hq]

/-- What a call leaves of the sandbox identity of `t`. -/
inductive CreationStep (now : Time) (l : Ledger) (t : TaskId) :
    LedgerCall → Option SandboxCreationRecord → Prop
  | same (c : LedgerCall) : CreationStep now l t c (l.creations.find? t)
  | begin (d n : String) (g : Tags) (k : String) (v : Option Nat) (hp : l.hasPayload t = true)
      (hnone : l.creations.find? t = none) :
      CreationStep now l t (.beginSandboxCreation t d n g k v)
        (some { taskId := t, deployment := d, sandboxName := n, tags := g, sessionApiKey := k,
                credentialVersion := v, providerId := none, providerState := .creating,
                detail := none, createdAt := now, updatedAt := now })
  | credential (v : Option Nat) (q : SandboxCreationRecord) (hq : l.creations.find? t = some q) :
      CreationStep now l t (.setSandboxCredentialVersion t v)
        (some { q with credentialVersion := v })
  | observe (id : Option ProviderId) (st : SandboxProviderState) (d : Option String)
      (q : SandboxCreationRecord) (hq : l.creations.find? t = some q) :
      CreationStep now l t (.updateSandboxCreation t id st d)
        (some { q with providerId := id <|> q.providerId, providerState := st, detail := d,
                       updatedAt := now })
  | reset (q : SandboxCreationRecord) (hq : l.creations.find? t = some q)
      (hst : q.providerState = .stopped) :
      CreationStep now l t (.resetSandboxForWake t)
        (some { q with providerId := none, providerState := .creating, detail := none,
                       updatedAt := now })
  | retire (b n : Time) (r : TaskRecord) (hr : l.tasks.find? t = some r)
      (hterm : r.state.terminal = true) (hres : l.reservations.find? t = none)
      (hgone : (LedgerCall.exec now (.expireTerminalPayloads b n) l).2.tasks.find? t =
        some r.retired) :
      CreationStep now l t (.expireTerminalPayloads b n) none

theorem exec_creation (now : Time) (c : LedgerCall) (l : Ledger) (t : TaskId) :
    CreationStep now l t c ((c.exec now l).2.creations.find? t) := by
  cases hw : c.writesCreations with
  | false =>
      rw [(exec_frame now c l).creations hw]
      exact .same c
  | true =>
    cases c with
    | beginSandboxCreation t' d n g k v =>
        simp only [LedgerCall.exec, Ledger.beginSandboxCreation]
        split
        next hp =>
          split
          next => split <;> exact .same _
          next hnone =>
            simp only [Ledger.commit]
            rw [Table.find?_insert (by exact hnone)]
            split
            next ht =>
              obtain rfl : t' = t := ht
              exact .begin d n g k v hp hnone
            next => exact .same _
        next => exact .same _
    | setSandboxCredentialVersion t' v =>
        have hl : ((LedgerCall.setSandboxCredentialVersion t' v).exec now l).2.creations =
            l.creations.modify t' fun r => { r with credentialVersion := v } := by
          simp only [LedgerCall.exec, Ledger.setSandboxCredentialVersion]
          split <;> rfl
        rw [hl, Table.find?_modify]
        split
        next ht =>
          subst ht
          cases hq : l.creations.find? t with
          | none =>
              rw [Option.map_none, ← hq]
              exact .same _
          | some q => exact .credential v q hq
        next => exact .same _
    | updateSandboxCreation t' id st d =>
        simp only [LedgerCall.exec, Ledger.updateSandboxCreation]
        split
        · exact .same _
        next q hq =>
          split
          · exact .same _
          · simp only [Ledger.commit, Table.find?_modify]
            split
            next ht =>
              subst ht
              rw [hq]
              exact .observe id st d q hq
            next => exact .same _
    | resetSandboxForWake t' =>
        simp only [LedgerCall.exec, Ledger.resetSandboxForWake, Ledger.commit,
          Table.find?_modifyIf]
        split
        next ht =>
          subst ht
          cases hq : l.creations.find? t with
          | none =>
              rw [Option.map_none, ← hq]
              exact .same _
          | some q =>
              rw [Option.map_some]
              split
              next hst => exact .reset q hq (by simpa using hst)
              next =>
                rw [← hq]
                exact .same _
        next => exact .same _
    | expireTerminalPayloads b n =>
        cases hx : l.expirePayloads (now + n) (l.tasks.rows.filter (l.expirable b)) with
        | mk a l' =>
            cases a with
            | error x =>
                simp only [LedgerCall.exec, Ledger.expireTerminalPayloads, hx]
                exact .same _
            | ok u =>
                have hexp := Ledger.expirePayloads_ok hx
                have hl : (LedgerCall.exec now (.expireTerminalPayloads b n) l).2 = l'.commit := by
                  simp only [LedgerCall.exec, Ledger.expireTerminalPayloads, hx]
                rw [hl]
                simp only [Ledger.commit, hexp.creations t]
                split
                next hm =>
                  obtain ⟨r, hr, hterm, -, hres⟩ := expirable_of_mem hm
                  refine .retire b n r hr hterm hres ?_
                  rw [hl]
                  simp [Ledger.commit, hexp.tasks t, hr, hm]
                next => exact .same _
    | _ => simp [LedgerCall.writesCreations] at hw

/-! ### The receipts of a task -/

/-- What a call leaves of the receipt of message `m` of task `t`. -/
inductive ReceiptStep (now : Time) (l : Ledger) (t : TaskId) (m : MessageId) :
    LedgerCall → Option ReceiptRow → Prop
  | same (c : LedgerCall) : ReceiptStep now l t m c (l.receipts.find? (t, m))
  | insert (q : MessageReceipt) (hm : q.id = m) (hp : l.hasPayload t = true)
      (hnone : l.receipts.find? (t, m) = none) :
      ReceiptStep now l t m (.saveTaskMessageReceipt t q) (some { taskId := t, receipt := q })
  | update (q : MessageReceipt) (row : ReceiptRow) (hm : q.id = m)
      (hrow : l.receipts.find? (t, m) = some row) :
      ReceiptStep now l t m (.saveTaskMessageReceipt t q)
        (some { row with receipt := { row.receipt with
          status := q.status, detail := q.detail, updatedAt := q.updatedAt } })
  | retire (b n : Time) (r : TaskRecord) (hr : l.tasks.find? t = some r)
      (hterm : r.state.terminal = true) (hres : l.reservations.find? t = none)
      (hgone : (LedgerCall.exec now (.expireTerminalPayloads b n) l).2.tasks.find? t =
        some r.retired) :
      ReceiptStep now l t m (.expireTerminalPayloads b n) none

theorem exec_receipt (now : Time) (c : LedgerCall) (l : Ledger) (t : TaskId) (m : MessageId) :
    ReceiptStep now l t m c ((c.exec now l).2.receipts.find? (t, m)) := by
  cases hw : c.writesReceipts with
  | false =>
      rw [(exec_frame now c l).receipts hw]
      exact .same c
  | true =>
    cases c with
    | saveTaskMessageReceipt t' q =>
        simp only [LedgerCall.exec, Ledger.saveTaskMessageReceipt]
        split
        next hp =>
          split
          next hnone =>
            simp only [Ledger.commit]
            rw [Table.find?_insert (by exact hnone)]
            split
            next hk =>
              obtain ⟨rfl, rfl⟩ := Prod.mk.inj hk
              exact .insert q rfl hp hnone
            next => exact .same _
          next row hrow =>
            split
            · simp only [Ledger.commit, Table.find?_modify]
              split
              next hk =>
                obtain ⟨rfl, rfl⟩ := Prod.mk.inj hk
                rw [hrow]
                exact .update q row rfl hrow
              next => exact .same _
            · exact .same _
        next => exact .same _
    | expireTerminalPayloads b n =>
        cases hx : l.expirePayloads (now + n) (l.tasks.rows.filter (l.expirable b)) with
        | mk a l' =>
            cases a with
            | error x =>
                simp only [LedgerCall.exec, Ledger.expireTerminalPayloads, hx]
                exact .same _
            | ok u =>
                have hexp := Ledger.expirePayloads_ok hx
                have hl : (LedgerCall.exec now (.expireTerminalPayloads b n) l).2 = l'.commit := by
                  simp only [LedgerCall.exec, Ledger.expireTerminalPayloads, hx]
                rw [hl]
                simp only [Ledger.commit, hexp.receipts (t, m)]
                split
                next hm =>
                  obtain ⟨r, hr, hterm, -, hres⟩ := expirable_of_mem hm
                  refine .retire b n r hr hterm hres ?_
                  rw [hl]
                  simp [Ledger.commit, hexp.tasks t, hr, hm]
                next => exact .same _
    | _ => simp [LedgerCall.writesReceipts] at hw

/-- A task has an accepted receipt. -/
theorem hasAccepted_iff : l.hasAccepted t = true ↔
    ∃ m row, l.receipts.find? (t, m) = some row ∧ row.receipt.status = .accepted := by
  simp only [Ledger.hasAccepted, List.any_eq_true, Bool.and_eq_true, decide_eq_true_eq]
  constructor
  · rintro ⟨row, hrow, rfl, hst⟩
    exact ⟨row.receipt.id, row, Table.find?_of_mem hrow, hst⟩
  · rintro ⟨m, row, hrow, hst⟩
    exact ⟨row, Table.mem_of_find? hrow, congrArg Prod.fst (Table.key_of_find? hrow), hst⟩

/-- A call that accepts no message of `t` leaves none waiting that was not. -/
theorem hasAccepted_exec (now : Time) (c : LedgerCall)
    (hc : ∀ q, c = .saveTaskMessageReceipt t q → q.status ≠ .accepted)
    (h : l.hasAccepted t = false) : (c.exec now l).2.hasAccepted t = false := by
  by_contra hne
  obtain ⟨m, row, hrow, hst⟩ := hasAccepted_iff.mp (by simpa using hne)
  have hstep := exec_receipt now c l t m
  rw [hrow] at hstep
  generalize hx : some row = x at hstep
  cases hstep with
  | same =>
      have := hasAccepted_iff.mpr ⟨m, row, hx.symm, hst⟩
      rw [h] at this
      simp at this
  | insert q _ _ _ =>
      obtain rfl := Option.some.inj hx
      exact hc q rfl hst
  | update q _ _ _ =>
      obtain rfl := Option.some.inj hx
      exact hc q rfl hst
  | retire => simp at hx

/-! ### Submission -/

/-- A submission binds its id to a queued task, or finds the key bound already. It
touches no other table. -/
theorem submit_cases (now : Time) (l : Ledger) (id : TaskId) (key : String)
    (repository : Option String) (prompt : String) (baseRef : Option String)
    (retryOf : Option TaskId) (model : String) (owner : Option OwnerId) :
    let l' := (l.submit now id key repository prompt baseRef retryOf model owner).2
    l'.reservations = l.reservations ∧ l'.creations = l.creations ∧
      l'.supervisions = l.supervisions ∧ l'.receipts = l.receipts ∧
      (l'.tasks = l.tasks ∨ ∃ row : TaskRecord, row.id = id ∧ row.state = .queued ∧
        row.outcomeDetail = none ∧ row.sandboxCleanupStatus = none ∧
        row.payloadExpired = false ∧ l'.tasks = l.tasks.insert row) := by
  dsimp only [Ledger.submit]
  split
  · exact ⟨rfl, rfl, rfl, rfl, .inl rfl⟩
  · split
    · exact ⟨rfl, rfl, rfl, rfl, .inl rfl⟩
    · exact ⟨rfl, rfl, rfl, rfl, .inr ⟨_, rfl, rfl, rfl, rfl, rfl, rfl⟩⟩

end GgAgent.Backend
