import GgAgent.Safety.Terminal

/-!
What `settle_successful_tasks` completes.

The update reads two columns, the cleanup status and the outcome. Both are written
by other transactions and outlive them: going to sleep stamps the first on a task
that keeps the outcome of its last run, and neither is cleared by a wake.
-/

namespace GgAgent.Safety

open GgAgent.Lib GgAgent.Backend
open GgAgent.Lib.Co (Makes Safe Keeps)

/-- The task can still be resumed: it is reserved, a message waits for it, or it
is parked or queued. -/
def resumable (l : Ledger) (t : TaskId) (st : TaskState) : Bool :=
  (l.reservations.find? t).isSome || l.hasAccepted t || decide (st = .sleeping) ||
    decide (st = .queued)

/-- The next settlement would complete the task. -/
def settlesNext (l : Ledger) (t : TaskId) : Bool := (l.tasks.find? t).any Ledger.settles

/-- The next settlement completes no task that can be resumed. -/
def SettlesFinished (l : Ledger) : Prop :=
  ∀ t r, l.tasks.find? t = some r → Ledger.settles r = true → resumable l t r.state = false

/-- The two columns come together only on finished work. A reservation released
as confirmed absent does not leave a successful outcome on a task that is parked,
queued or has a message; `finish_task` does not leave one beside a cleanup status
of an earlier sandbox on a task that can be resumed; and a task on which the two
have met is neither put to sleep nor sent a message. -/
def columnsApart (cfg : Config) : Cond cfg where
  call _ _ c s _ :=
    match c with
    | .db (.releaseReservation t status) => (s.ledger.tasks.find? t).all fun r =>
        !Ledger.settles { r with sandboxCleanupStatus := some status } ||
          !(s.ledger.hasAccepted t || decide (r.state = .sleeping) || decide (r.state = .queued))
    | .db (.finishTask t st o d) => (s.ledger.tasks.find? t).all fun r =>
        !Ledger.settles (Ledger.finished s.clock st o d r) || !resumable s.ledger t st
    | .db (.saveTaskMessageReceipt t q) => decide (q.status ≠ .accepted) || !settlesNext s.ledger t
    | .db (.tryMarkSleeping t) => !settlesNext s.ledger t
    | _ => true

/-- The loss of a sandbox is not described by one of the words for success. -/
def PlainLoss (c : Call) : Prop :=
  ∀ t d, c = .db (.markSandboxLost t d) → Ledger.settledSuccess (some d) = false

/-! ### One call -/

theorem settles_iff {r : TaskRecord} : Ledger.settles r = true ↔
    r.sandboxCleanupStatus = some "confirmed_absent" ∧ Ledger.settledSuccess r.outcomeDetail = true ∧
      r.state ≠ .completed ∧ r.state ≠ .cancelled := by
  simp [Ledger.settles, and_assoc]

/-- A step that rewrites only the state does not bring the two columns together. -/
theorem settles_of_move {r : TaskRecord} {st : TaskState} {n : Time}
    (h : Ledger.settles { r with state := st, updatedAt := n } = true) (hcomp : r.state ≠ .completed)
    (hcanc : r.state ≠ .cancelled) : Ledger.settles r = true := by
  rw [settles_iff] at h ⊢
  exact ⟨h.1, h.2.1, hcomp, hcanc⟩

theorem resumable_eq_false {l : Ledger} {t : TaskId} {st : TaskState} :
    resumable l t st = false ↔ l.reservations.find? t = none ∧ l.hasAccepted t = false ∧
      st ≠ .sleeping ∧ st ≠ .queued := by
  simp [resumable, and_assoc]

/-- A task that is out of reach of the scheduler and of messages stays so. -/
theorem resumable_after {cfg : Config} {p : Pid} {h : Hist} {c : LedgerCall} {s : Shared}
    {a : Except Exn c.Out} {t : TaskId} {r : TaskRecord}
    (hK : (columnsApart cfg).call p h (.db c) s a = true)
    (hr : s.ledger.tasks.find? t = some r) (hsettles : Ledger.settles r = true)
    (hold : resumable s.ledger t r.state = false) {st : TaskState} (hst : st = r.state) :
    resumable (after c s).ledger t st = false := by
  subst hst
  rw [resumable_eq_false] at hold ⊢
  obtain ⟨hres, hacc, hsleep, hqueue⟩ := hold
  refine ⟨?_, hasAccepted_exec s.clock c ?_ hacc, hsleep, hqueue⟩
  · have hstep := exec_reservation s.clock c s.ledger t
    change (c.exec s.clock s.ledger).2.reservations.find? t = none
    generalize (c.exec s.clock s.ledger).2.reservations.find? t = x at hstep
    cases hstep with
    | same => exact hres
    | claim n q hq hqueued =>
        obtain rfl := Option.some.inj (hr.symm.trans hq)
        exact absurd hqueued hqueue
    | update p d st q hq => rw [hres] at hq; simp at hq
    | release | lost => rfl
  · rintro q rfl hq
    simp [columnsApart, settlesNext, hr, hsettles, hq] at hK

theorem settlesFinished_after {cfg : Config} {p : Pid} {h : Hist} {c : LedgerCall} {s : Shared}
    {a : Except Exn c.Out} (hinv : SettlesFinished s.ledger)
    (hK : (columnsApart cfg).call p h (.db c) s a = true) (hplain : PlainLoss (.db c)) :
    SettlesFinished (after c s).ledger := by
  intro t r' hr' hsettles
  cases hr : s.ledger.tasks.find? t with
  | none =>
      have hnone : (after c s).ledger.tasks.find? t = none := exec_task_none s.clock c hr
      rw [hnone] at hr'
      simp at hr'
  | some r =>
      obtain rfl : r.id = t := Table.key_of_find? hr
      have hold := hinv r.id r hr
      obtain ⟨-, -, -, hnone⟩ | ⟨r₂, hr₂, hstep⟩ := exec_task s.clock c hr
      · have hnone' : (after c s).ledger.tasks.find? r.id = none := hnone
        rw [hnone'] at hr'
        simp at hr'
      · obtain rfl : r₂ = r' := Option.some.inj (hr₂.symm.trans hr')
        cases hstep with
        | same => exact resumable_after hK hr hsettles (hold hsettles) rfl
        | baseSha | touch =>
            have hs : Ledger.settles r = true := hsettles
            exact resumable_after hK hr hs (hold hs) rfl
        | workspaceExpired hq =>
            have hs : Ledger.settles r = true := hsettles
            exact resumable_after hK hr hs (hold hs) rfl
        | release status =>
            simp only [columnsApart, hr, Option.all_some, Bool.or_eq_true, Bool.not_eq_true',
              Bool.or_eq_false_iff, decide_eq_false_iff_not] at hK
            rcases hK with hno | ⟨⟨hacc, hsleep⟩, hqueue⟩
            · have hs : Ledger.settles { r with sandboxCleanupStatus := some status } = true :=
                hsettles
              rw [hno] at hs
              simp at hs
            · rw [resumable_eq_false]
              refine ⟨?_, hasAccepted_exec s.clock _ (by rintro q ⟨⟩) hacc, hsleep, hqueue⟩
              simp [after, LedgerCall.exec, Ledger.releaseReservation, Ledger.commit,
                Ledger.setTask]
        | finish st o d =>
            simp only [columnsApart, hr, Option.all_some, Bool.or_eq_true, Bool.not_eq_true'] at hK
            rcases hK with hno | hres
            · rw [hno] at hsettles
              simp at hsettles
            · rw [resumable_eq_false] at hres ⊢
              refine ⟨?_, hasAccepted_exec s.clock _ (by rintro q ⟨⟩) hres.2.1, hres.2.2⟩
              have hsame : (after (.finishTask r.id st o d) s).ledger.reservations =
                  s.ledger.reservations := (exec_frame s.clock _ s.ledger).reservations rfl
              rw [hsame]
              exact hres.1
        | lost d =>
            have hd : Ledger.settledSuccess (some d) = false := hplain r.id d rfl
            rw [settles_iff] at hsettles
            obtain ⟨-, hsucc, hcomp, hcanc⟩ := hsettles
            cases ho : r.outcomeDetail with
            | none => simp [ho, hd] at hsucc
            | some x =>
                simp only [ho, Option.getD_some] at hsucc
                simp only [Ledger.stateWhenLost, ho, hsucc, or_true, if_true] at hcomp hcanc
                split at hcomp
                · simp_all
                · simp at hcomp
        | reserve _ hq =>
            have hs := hold (settles_of_move hsettles (by simp [hq]) (by simp [hq]))
            exact absurd hq (resumable_eq_false.mp hs).2.2.2
        | adopt p d st hres hopen =>
            have hs := hold (settles_of_move hsettles (by rintro h; simp [h, TaskState.terminal] at hopen)
              (by rintro h; simp [h, TaskState.terminal] at hopen))
            exact absurd (resumable_eq_false.mp hs).1 hres
        | wake hq =>
            have hs := hold (settles_of_move hsettles (by simp [hq]) (by simp [hq]))
            exact absurd hq (resumable_eq_false.mp hs).2.2.1
        | sleep hq =>
            have hs := settles_of_move hsettles (by simp [hq]) (by simp [hq])
            simp [columnsApart, settlesNext, hr, hs] at hK
        | settle => rw [settles_iff] at hsettles; simp at hsettles
        | cancel => rw [settles_iff] at hsettles; simp at hsettles
        | retire => rw [settles_iff] at hsettles; simp [TaskRecord.retired, Ledger.settledSuccess] at hsettles

/-! ### Programs -/

/-- What holds along a run: the tasks are those submitted, and no snapshot has a
task that would be settled too early. -/
structure SettlesSafely (s : Shared) : Prop where
  issued : AllIssued s
  settles : Everywhere SettlesFinished s

theorem settlesFinished_submitted {s : Shared} {id : TaskId} {r : Submission}
    (hinv : SettlesSafely s) (hid : id ∉ s.taskIds) : SettlesFinished (submitted id r s).ledger := by
  obtain ⟨hres, -, -, hrec, -⟩ := submit_cases s.clock s.ledger id r.idempotencyKey r.repository
    r.prompt r.baseRef r.retryOf r.model r.ownerId
  intro t q hq hsettles
  obtain hsame | ⟨rfl, -, row, hrow, -, ho, -⟩ := submitted_task r hinv.issued.ledger hid t
  · rw [hsame] at hq
    have hold := hinv.settles.ledger t q hq hsettles
    rw [resumable_eq_false] at hold ⊢
    obtain ⟨hnone, hacc, hst⟩ := hold
    refine ⟨?_, ?_, hst⟩
    · exact (congrArg (fun T => Table.find? T t) hres).trans hnone
    · rw [← hacc]
      exact congrArg (fun T : Table ReceiptRow => T.rows.any fun r =>
        decide (r.taskId = t) && decide (r.receipt.status = .accepted)) hrec
  · obtain rfl : row = q := Option.some.inj (hrow.symm.trans hq)
    rw [settles_iff, ho] at hsettles
    simp [Ledger.settledSuccess] at hsettles

abbrev settlesContract (cfg : Config) (p : Pid) :=
  Machine.contract (columnsApart cfg) SettlesSafely (fun _ _ _ => True) (fun _ _ _ => True) p

section Programs

variable {cfg : Config} {p : Pid} {α : Type}

theorem settlesSafely_answer {o : Oracle} {c : Call} {s s' : Shared} {h : Hist} {a : c.Out}
    (hinv : SettlesSafely s) (hK : (columnsApart cfg).call p h c s a = true) (hplain : PlainLoss c)
    (ha : s.answer p o c = some (a, s')) : SettlesSafely s' := by
  refine ⟨allIssued_answer hinv.issued ha, hinv.settles.answer ha ?_ ?_⟩
  · rintro d rfl
    exact settlesFinished_after hinv.settles.ledger hK hplain
  · rintro id q rfl hid
    exact settlesFinished_submitted hinv hid

theorem keeps_of_plainLoss {r : Routine α} (hr : Makes PlainLoss r) :
    Keeps (settlesContract cfg p) (fun _ => True) r := by
  refine keeps_of_makes hr (fun _ _ _ _ _ => trivial) fun c s o a s' h hc _ hinv hK ha => ?_
  exact ⟨settlesSafely_answer hinv hK hc ha, trivial, trivial⟩

theorem plainLoss_of_inert {c : Call} (hc : c.inert = true) : PlainLoss c := by
  rintro t d rfl
  simp [Call.inert, LedgerCall.inert] at hc

theorem keeps_settles_inert {r : Routine α} (hr : Inert r) :
    Keeps (settlesContract cfg p) (fun _ => True) r :=
  keeps_of_plainLoss (hr.mono fun _ hc => plainLoss_of_inert hc)

/-- The detail of a sandbox that is reported stopped is not a word for success. -/
def PlainStop (snapshot : SandboxSnapshot) : Prop :=
  snapshot.state = .stopped → Ledger.settledSuccess snapshot.detail = false

theorem safe_updateSandboxCreation (t : TaskId) (id : Option ProviderId) (st : SandboxProviderState)
    (d : Option String) (w : Shared × Hist) :
    Safe (settlesContract cfg p) (db (.updateSandboxCreation t id st d))
      (fun r _ => r.providerState = st ∧ r.detail = d) (fun _ _ => True) w := by
  refine safe_db fun s₁ hinv _ hK => ⟨?_, trivial, ?_⟩
  · exact ⟨⟨issued_after hinv.issued.ledger, hinv.issued.published, hinv.issued.confirmed⟩,
      settlesFinished_after hinv.settles.ledger hK (by rintro _ _ ⟨⟩), hinv.settles.published,
      hinv.settles.confirmed⟩
  · cases hr : reply (.updateSandboxCreation t id st d) s₁ with
    | error e => trivial
    | ok r =>
        obtain ⟨q, -, -, -, hstate, hdetail, -⟩ := updateSandboxCreation_ok hr
        exact ⟨hstate, hdetail⟩

theorem settledSuccess_append (x : String) :
    Ledger.settledSuccess (some ("provider exit code " ++ x)) = false := by
  have hlen : ∀ y : String, y.length < 19 → "provider exit code " ++ x ≠ y := by
    intro y hy h
    have hlength := congrArg String.length h
    rw [String.length_append, show "provider exit code ".length = 19 from rfl] at hlength
    omega
  simp only [Ledger.settledSuccess, Ledger.settledSuccessOutcomes, List.contains_eq_mem,
    decide_eq_false_iff_not, List.mem_cons, List.not_mem_nil, or_false, not_or]
  exact ⟨hlen _ (by decide), hlen _ (by decide), hlen _ (by decide), hlen _ (by decide)⟩

/-- An observation of the provider that a routine returns. -/
theorem safe_observed {t : TaskId} {id : Option ProviderId} {st : SandboxProviderState}
    {d : Option String} {handle : Option ProviderId} (hd : st = .stopped → Ledger.settledSuccess d = false)
    (w : Shared × Hist) :
    Safe (settlesContract cfg p) (do
      let updated ← db (.updateSandboxCreation t id st d)
      pure (Lifecycle.snapshot updated, handle))
      (fun a _ => PlainStop a.1) (fun _ _ => True) w := by
  refine Safe.bind (Safe.mono (safe_updateSandboxCreation t id st d w) ?_ fun _ _ h => h)
  rintro r w ⟨hstate, hdetail⟩ hstop
  simp only [Lifecycle.snapshot] at hstop ⊢
  rw [hdetail]
  exact hd (hstate.symm.trans hstop)

theorem safe_pollHandle (t : TaskId) (id : ProviderId) (w : Shared × Hist) :
    Safe (settlesContract cfg p) (Lifecycle.pollHandle t id) (fun a _ => PlainStop a.1)
      (fun _ _ => True) w := by
  refine Safe.bind (Safe.mono (keeps_settles_inert (makes_ext rfl) w trivial) (fun reply w _ => ?_)
    fun _ _ h => h)
  split
  · exact safe_observed (by simp) w
  · exact safe_observed (by simp) w
  · exact safe_observed (fun _ => settledSuccess_append _) w

theorem safe_reconnectRecord (r : SandboxCreationRecord) (w : Shared × Hist) :
    Safe (settlesContract cfg p) (Lifecycle.reconnectRecord r) (fun a _ => PlainStop a.1)
      (fun _ _ => True) w := by
  unfold Lifecycle.reconnectRecord
  dsimp only
  split
  · refine Safe.bind (Safe.mono (keeps_settles_inert (makes_ext rfl) w trivial) (fun reply w _ => ?_)
      fun _ _ h => h)
    split
    · exact safe_pollHandle _ _ w
    · exact safe_observed (fun _ => by decide) w
    · exact safe_observed (by simp) w
  · refine Safe.bind (Safe.mono (keeps_settles_inert (makes_ext rfl) w trivial) (fun reply w _ => ?_)
      fun _ _ h => h)
    split
    · exact safe_observed (by simp) w
    · exact safe_observed (fun _ => by decide) w
    · exact Safe.bind (Safe.mono (safe_updateSandboxCreation _ _ _ _ w)
        (fun _ w _ => safe_pollHandle _ _ w) fun _ _ h => h)
    · exact Safe.bind (Safe.mono (safe_updateSandboxCreation _ _ _ _ w) (fun _ _ _ => trivial)
        fun _ _ h => h)

theorem safe_inspect (t : TaskId) (w : Shared × Hist) :
    Safe (settlesContract cfg p) (Lifecycle.inspect t) (fun a _ => PlainStop a) (fun _ _ => True)
      w := by
  refine Safe.bind (Safe.mono (keeps_settles_inert (Lifecycle.inert_record t) w trivial)
    (fun r w _ => ?_) fun _ _ h => h)
  exact Safe.bind (Safe.mono (safe_reconnectRecord r w) (fun _ _ h => h) fun _ _ h => h)

theorem safe_detach (t : TaskId) (w : Shared × Hist) :
    Safe (settlesContract cfg p) (Lifecycle.detach t) (fun a _ => PlainStop a) (fun _ _ => True)
      w := by
  refine Safe.bind (Safe.mono (keeps_settles_inert (Lifecycle.inert_record t) w trivial)
    (fun r w _ => ?_) fun _ _ h => h)
  refine Safe.bind (Safe.mono (safe_reconnectRecord r w) (fun a w ha => ?_) fun _ _ h => h)
  dsimp only
  split
  · exact ha
  · refine Safe.bind (Safe.mono (keeps_settles_inert (makes_ext rfl) w trivial) (fun reply w _ => ?_)
      fun _ _ h => h)
    split
    · exact ha
    · exact Safe.bind (Safe.mono (safe_updateSandboxCreation _ _ _ _ w) (fun _ _ _ => trivial)
        fun _ _ h => h)

theorem keeps_settles_db {c : LedgerCall} (hc : PlainLoss (.db c)) :
    Keeps (settlesContract cfg p) (fun _ => True) (db c) := keeps_of_plainLoss (makes_db hc)

/-- The detail under which a loss is recorded. -/
theorem keeps_markSandboxLost {t : TaskId} {snapshot : SandboxSnapshot} {default : String}
    (hs : PlainStop snapshot) (hstop : snapshot.state = .stopped)
    (hd : Ledger.settledSuccess (some default) = false) :
    Keeps (settlesContract cfg p) (fun _ => True)
      (db (.markSandboxLost t (snapshot.detail.getD default))) := by
  refine keeps_settles_db ?_
  rintro t' d ⟨⟩
  cases hdetail : snapshot.detail with
  | none => exact hd
  | some x =>
      have := hs hstop
      rwa [hdetail] at this

theorem keeps_reconcileStopped (r : ReservationRecord) (creation : SandboxCreationRecord)
    {snapshot : SandboxSnapshot} (hs : PlainStop snapshot) (hstop : snapshot.state = .stopped) :
    Keeps (settlesContract cfg p) (fun _ => True)
      (Scheduler.reconcileStopped r creation snapshot) := by
  refine Keeps.bind (keeps_settles_db (by rintro _ _ ⟨⟩)) fun task? => ?_
  split
  · exact keeps_settles_db (by rintro _ _ ⟨⟩)
  · refine Keeps.bind ?_ fun again => ?_
    · exact keeps_settles_inert (Scheduler.inert_createAgain r creation)
    · split
      · exact keeps_settles_db (by rintro _ _ ⟨⟩)
      · refine Keeps.bind (keeps_settles_db (by rintro _ _ ⟨⟩)) fun row? => ?_
        split
        · refine Keeps.bind (keeps_settles_db (by rintro _ _ ⟨⟩)) fun _ => ?_
          exact keeps_settles_db (by rintro _ _ ⟨⟩)
        · exact keeps_markSandboxLost hs hstop (by decide)

theorem keeps_settles_terminateReserved (t : TaskId) :
    Keeps (settlesContract cfg p) (fun _ => True) (Scheduler.terminateReserved t) := by
  refine Keeps.bind (keeps_settles_inert (Lifecycle.inert_terminate t)).attempt fun r => ?_
  split
  · split
    · exact keeps_settles_db (by rintro _ _ ⟨⟩)
    · exact Keeps.throw _
  · split
    · exact keeps_settles_db (by rintro _ _ ⟨⟩)
    · exact keeps_settles_db (by rintro _ _ ⟨⟩)

theorem keeps_reconcileReservation (r : ReservationRecord) :
    Keeps (settlesContract cfg p) (fun _ => True) (Scheduler.reconcileReservation r) := by
  have hdb : ∀ {c : LedgerCall}, (∀ t d, c ≠ .markSandboxLost t d) →
      Keeps (settlesContract cfg p) (fun _ => True) (db c) :=
    fun hc => keeps_settles_db fun t d h => absurd (Call.db.inj h) (hc t d)
  refine Keeps.bind (hdb (by rintro _ _ ⟨⟩)) fun creation? => ?_
  split
  · split
    · exact hdb (by rintro _ _ ⟨⟩)
    · exact hdb (by rintro _ _ ⟨⟩)
  next creation =>
    intro w _
    refine Safe.bind (Safe.attempt (Safe.mono (safe_inspect r.taskId w) (fun snapshot w hs => ?_)
      fun e w _ => ?_))
    · refine Keeps.bind (hdb (by rintro _ _ ⟨⟩)) (fun current? => ?_) w trivial
      split
      · exact Keeps.pure _
      · split
        · exact Keeps.pure _
        · split
          · exact hdb (by rintro _ _ ⟨⟩)
          · split
            next hstop => exact keeps_reconcileStopped _ creation hs hstop
            next =>
              unfold Scheduler.reconcileLive
              split
              · exact keeps_settles_terminateReserved _
              · exact Keeps.bind (hdb (by rintro _ _ ⟨⟩)) fun _ => hdb (by rintro _ _ ⟨⟩)
    · split
      next => exact hdb (by rintro _ _ ⟨⟩) w trivial
      next => exact hdb (by rintro _ _ ⟨⟩) w trivial
      next => trivial
      next => trivial

theorem keeps_settles_reconcile :
    Keeps (settlesContract cfg p) (fun _ => True) Scheduler.reconcile := by
  refine Keeps.bind (keeps_settles_db (by rintro _ _ ⟨⟩)) fun _ => ?_
  refine Keeps.bind (keeps_settles_db (by rintro _ _ ⟨⟩)) fun rs => ?_
  refine Keeps.bind (Keeps.forM fun r _ => keeps_reconcileReservation r) fun _ => ?_
  exact keeps_settles_inert Lifecycle.inert_ensureDurable

theorem keeps_settles_stop : Keeps (settlesContract cfg p) (fun _ => True) Scheduler.stop := by
  refine Keeps.bind (keeps_settles_db (by rintro _ _ ⟨⟩)) fun rs => Keeps.forM fun r _ => ?_
  refine Keeps.bind (keeps_settles_db (by rintro _ _ ⟨⟩)) fun creation? => ?_
  split
  · exact Keeps.pure _
  · refine Keeps.tryCatch ?_ fun e => ?_
    · intro w _
      refine Safe.bind (Safe.mono (safe_detach r.taskId w) (fun snapshot w hs => ?_) fun _ _ h => h)
      split
      next hstop =>
        split
        · exact keeps_settles_db (by rintro _ _ ⟨⟩) w trivial
        · exact keeps_markSandboxLost hs hstop (by decide) w trivial
      next =>
        split
        · exact keeps_settles_db (by rintro _ _ ⟨⟩) w trivial
        · trivial
    · split
      · exact keeps_settles_db (by rintro _ _ ⟨⟩)
      · exact Keeps.throw _

theorem plainLoss_of_admissionCall {c : Call} (hc : Scheduler.admissionCall c = true) :
    PlainLoss c := by
  rintro t d rfl
  simp [Scheduler.admissionCall, Scheduler.createCall, Scheduler.tendCall, Call.inert,
    LedgerCall.inert] at hc

theorem plainLoss_of_upkeepCall {c : Call} (hc : Scheduler.upkeepCall c = true) : PlainLoss c := by
  rintro t d rfl
  simp [Scheduler.upkeepCall, Scheduler.tendCall, Call.inert, LedgerCall.inert] at hc

theorem keeps_settles_dispatchOnce :
    Keeps (settlesContract cfg p) (fun _ => True) (Scheduler.dispatchOnce cfg) := by
  have hadm : ∀ {r : Routine Unit}, Makes (fun c => Scheduler.admissionCall c = true) r →
      Keeps (settlesContract cfg p) (fun _ => True) r :=
    fun hr => keeps_of_plainLoss (hr.mono fun _ hc => plainLoss_of_admissionCall hc)
  refine Keeps.bind (keeps_settles_inert Lifecycle.inert_ensureDurable) fun _ => ?_
  refine Keeps.bind keeps_settles_reconcile fun _ => ?_
  refine Keeps.bind (keeps_of_plainLoss ((Scheduler.makes_maintenance cfg).mono fun _ hc =>
    plainLoss_of_upkeepCall hc)) fun _ => ?_
  split
  · exact Keeps.pure _
  · refine Keeps.bind (keeps_settles_inert (makes_stopIsSet rfl)) fun stop => ?_
    split
    · exact Keeps.pure _
    · exact hadm (Scheduler.makes_admission cfg)

theorem keeps_settles_lifespan :
    Keeps (settlesContract cfg p) (fun _ => True) App.lifespan := by
  refine Keeps.bind (keeps_settles_inert Lifecycle.inert_ensureDurable) fun _ => ?_
  refine Keeps.bind keeps_settles_reconcile fun _ => Keeps.bind ?_ fun _ => ?_
  · exact keeps_of_plainLoss (Scheduler.makes_syncReservedTasks.mono fun _ hc =>
      plainLoss_of_admissionCall (Scheduler.admissionCall_of_tendCall hc))
  · exact keeps_of_plainLoss ⟨by rintro _ _ ⟨⟩, fun _ => trivial⟩

theorem plainLoss_of_loopCall {t : TaskId} {c : Call} (hc : Manager.loopCall t c = true) :
    PlainLoss c := by
  rintro t' d rfl
  simp [Manager.loopCall, Manager.driveCall, Manager.lockCall, Manager.startCall, Manager.followupCall,
    Manager.recordCall, Manager.saveCall, Manager.sendCall, Manager.failCall, Manager.cleanupCall, Call.inert,
    LedgerCall.inert] at hc

theorem plainLoss_of_messageCall {t : TaskId} {c : Call} (hc : Manager.messageCall t c = true) :
    PlainLoss c := by
  rintro t' d rfl
  simp [Manager.messageCall, Call.inert, LedgerCall.inert] at hc

theorem plainLoss_of_cancelCall {t : TaskId} {c : Call} (hc : Service.cancelCall t c = true) :
    PlainLoss c := by
  rintro t' d rfl
  simp [Service.cancelCall] at hc

theorem plainLoss_of_routeCall {q : Route} {c : Call} (hc : Routes.routeCall q c = true) :
    PlainLoss c := by
  rintro t' d rfl
  cases q <;> simp [Routes.routeCall, Service.submitCall, Manager.messageCall, Service.cancelCall,
      Call.inert, LedgerCall.inert] at hc

end Programs

/-! ### Runs -/

theorem sound_columnsApart (cfg : Config) :
    Machine.Sound (columnsApart cfg) SettlesSafely (fun _ _ _ => True) (fun _ _ _ => True)
      (fun _ _ _ => True) where
  rely_trans _ _ _ _ _ _ := trivial
  guar_rely _ _ _ _ _ _ := trivial
  job p j s prog s' hinv hj := by
    obtain ⟨hstarted, ph, rfl⟩ := start_cases hj
    refine ⟨⟨⟨hinv.issued.ledger, hinv.issued.published, hinv.issued.confirmed⟩,
      hinv.settles.ledger, hinv.settles.published, hinv.settles.confirmed⟩, trivial, ?_⟩
    cases hstarted with
    | boot => exact safe_ending (keeps_settles_lifespan _ trivial)
    | cycle => exact safe_ending (keeps_settles_dispatchOnce _ trivial)
    | shutdown => exact safe_ending (keeps_settles_stop _ trivial)
    | iterate t =>
        exact safe_ending (keeps_of_plainLoss ((App.makes_activation cfg t).mono fun _ hc =>
          plainLoss_of_loopCall hc) _ trivial)
    | message n t m content =>
        exact safe_ending (keeps_of_plainLoss ((Manager.makes_sendMessage cfg t m content).mono
          fun _ hc => plainLoss_of_messageCall hc) _ trivial)
    | cancel n t owner =>
        exact safe_ending (keeps_of_plainLoss ((Service.makes_cancel t owner).mono
          fun _ hc => plainLoss_of_cancelCall hc) _ trivial)
    | route n q =>
        exact safe_ending (keeps_of_plainLoss ((Routes.makes_handle cfg q).mono
          fun _ hc => plainLoss_of_routeCall hc) _ trivial)
  event e s s' hinv _ he := by
    refine ⟨⟨allIssued_event hinv.issued he, hinv.settles.event he ?_ ?_⟩, fun _ _ => trivial⟩
    · rintro id r rfl hid
      exact settlesFinished_submitted hinv hid
    · rintro t sha rfl
      have hK : (columnsApart cfg).call .scheduler [] (.db (.recordBaseSha t (some sha))) s
        (reply (.recordBaseSha t (some sha)) s) = true := rfl
      exact settlesFinished_after hinv.settles.ledger hK (by rintro _ _ ⟨⟩)

theorem settlesSafely_init : SettlesSafely Shared.init :=
  ⟨allIssued_init, fun _ _ h => by simp [Shared.init, Ledger.empty] at h, by simp [Shared.init],
    by simp [Shared.init]⟩

/-- In a run in which the two columns are kept apart, whatever state it has
reached, a settlement completes only tasks that nothing can resume. -/
theorem settles_only_finished {cfg : Config} {acts : List (Act cfg)} {w : System}
    (hw : Reaches cfg (columnsApart cfg) acts w) {t : TaskId} {r r' : TaskRecord}
    (hr : w.shared.ledger.tasks.find? t = some r)
    (hr' : (after .settleSuccessfulTasks w.shared).ledger.tasks.find? t = some r')
    (hbefore : r.state ≠ .completed) (hafter : r'.state = .completed) :
    w.shared.ledger.reservations.find? t = none ∧ w.shared.ledger.hasAccepted t = false ∧
      r.state ≠ .sleeping ∧ r.state ≠ .queued := by
  have hok := (sound_columnsApart cfg).run (fun _ _ => trivial) (ok_init settlesSafely_init)
    hw.keeps hw.run
  have hsettles : Ledger.settles r = true := by
    obtain rfl : r.id = t := Table.key_of_find? hr
    obtain ⟨b, hb, -⟩ | ⟨r₂, hr₂, hstep⟩ := exec_task w.shared.clock .settleSuccessfulTasks hr
    · simp at hb
    · obtain rfl : r₂ = r' := Option.some.inj (hr₂.symm.trans hr')
      cases hstep with
      | same => exact absurd hafter hbefore
      | settle hs => exact hs
  exact resumable_eq_false.mp (hok.1.settles.ledger t r hr hsettles)

/-- A successful workspace whose reservation was released while it was idle. -/
theorem settles_only_finished_raced :
    ∃ w r r', Reaches demo (columnsApart demo) raced w ∧
      w.shared.ledger.tasks.find? 1 = some r ∧
      (after .settleSuccessfulTasks w.shared).ledger.tasks.find? 1 = some r' ∧
      r.state = .idle ∧ r'.state = .completed ∧ w.shared.ledger.reservations.find? 1 = none ∧
      w.shared.ledger.hasAccepted 1 = false ∧ r.state ≠ .sleeping ∧ r.state ≠ .queued := by
  have h : taskState 1 ((backend demo).run System.init raced) = some .idle := by decide +kernel
  have h' : taskState 1 (((backend demo).run System.init raced).map fun w =>
      { w with shared := after .settleSuccessfulTasks w.shared }) = some .completed := by
    decide +kernel
  have hK : Machine.keeps (columnsApart demo) System.init raced = true := by decide +kernel
  obtain ⟨w, r, hw, hr, hst⟩ := of_taskState h
  rw [hw] at h'
  obtain ⟨w', r', hw', hr', hst'⟩ := of_taskState h'
  obtain rfl := Option.some.inj hw'
  have hreach : Reaches demo (columnsApart demo) raced w := ⟨hw, hK⟩
  exact ⟨w, r, r', hreach, hr, hr', hst, hst',
    settles_only_finished hreach hr hr' (by rw [hst]; simp) hst'⟩

/-- A successful task that has been put to sleep is completed by the next
settlement. -/
theorem settles_sleeping :
    ¬ ∀ (acts : List (Act demo)) (w : System) (t : TaskId) (r r' : TaskRecord),
      (backend demo).run System.init acts = some w → w.shared.ledger.tasks.find? t = some r →
      (after .settleSuccessfulTasks w.shared).ledger.tasks.find? t = some r' →
      r.state ≠ .completed → r'.state = .completed →
      w.shared.ledger.reservations.find? t = none ∧ w.shared.ledger.hasAccepted t = false ∧
        r.state ≠ .sleeping ∧ r.state ≠ .queued := by
  intro hclaim
  have h : taskState 1 ((backend demo).run System.init slept) = some .sleeping := by decide +kernel
  have h' : taskState 1 (((backend demo).run System.init slept).map fun w =>
      { w with shared := after .settleSuccessfulTasks w.shared }) = some .completed := by
    decide +kernel
  obtain ⟨w, r, hw, hr, hst⟩ := of_taskState h
  rw [hw] at h'
  obtain ⟨w', r', hw', hr', hst'⟩ := of_taskState h'
  obtain rfl := Option.some.inj hw'
  have hparked := hclaim slept w 1 r r' hw hr hr' (by rw [hst]; simp) hst'
  exact hparked.2.2.1 hst

end GgAgent.Safety
