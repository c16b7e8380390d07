import GgAgent.Safety.Terminal
import GgAgent.Safety.Rounds

/-!
A task that is being worked on holds a reservation.

The state of a task and its reservation are two rows. `reserve_next`,
`update_reservation` and `mark_sandbox_lost` write both in one transaction;
`finish_task` and `release_reservation` write one of them each, and the components
that go to sleep or let go of a lost VM decide about the second write before they
make the first.
-/

namespace GgAgent.Safety

open GgAgent.Lib GgAgent.Backend
open GgAgent.Lib.Co (Makes Safe Keeps)

/-- Somebody has to drive a task in this state. -/
def active : TaskState → Bool
  | .starting | .running | .idle | .finalizing => true
  | _ => false

theorem not_active_of_terminal {st : TaskState} (h : st.terminal = true) : active st = false := by
  cases st <;> simp_all [active, TaskState.terminal]

/-- The two tables agree: an active task is reserved, a reservation that waits for
termination is of an ended task, and only submitted tasks are reserved. -/
structure Agree (ids : List TaskId) (l : Ledger) : Prop where
  held : ∀ t r, l.tasks.find? t = some r → active r.state = true →
    (l.reservations.find? t).isSome = true
  pending : ∀ t q, l.reservations.find? t = some q → q.phase = .terminationPending →
    ∀ r, l.tasks.find? t = some r → r.state.terminal = true
  issued : ∀ t q, l.reservations.find? t = some q → t ∈ ids

/-! ### The condition -/

/-- What a thread's own call told it, or made, of the state of `t`. -/
def stateKnown (t : TaskId) : Entry Call.Out Shared → Option TaskState
  | ⟨.db (.get t' _), .ok (some r), _⟩ => if t' = t then some r.state else none
  | ⟨.db (.finishTask t' st _ _), .ok _, _⟩ => if t' = t then some st else none
  | ⟨.db (.tryMarkSleeping t'), .ok true, _⟩ => if t' = t then some .sleeping else none
  | _ => none

/-- The state of `t` as far as the thread knows it. -/
def lastKnown (t : TaskId) (h : Hist) : Option TaskState := h.findSome? (stateKnown t)

/-- `finish_task` does not reopen an ended task, and makes a task active only while
it is reserved. A component that found a task asleep, or put it to sleep, and
therefore releases its reservation, finds that nobody has made it active in
between. -/
def sleepUndisturbed (cfg : Config) : Cond cfg where
  call _ h c s _ :=
    match c with
    | .db (.finishTask t st _ _) => st.terminal || (!endedRow t s.ledger &&
        (!active st || (s.ledger.reservations.find? t).isSome))
    | .db (.releaseReservation t _) => decide (lastKnown t h ≠ some .sleeping) ||
        (s.ledger.tasks.find? t).all fun r => !active r.state
    | _ => true
  event := (guardedFinish cfg).event

/-! ### One call -/

/-- What a call needs that the condition does not give. -/
def Permits (c : Call) (s : Shared) : Prop :=
  match c with
  | .db (.releaseReservation t _) => ∀ r, s.ledger.tasks.find? t = some r → active r.state = false
  | .db (.updateReservation t .terminationPending _ _) => Ended t s
  | _ => True

theorem find?_writesTasks {c : LedgerCall} {s : Shared} (hw : c.writesReservations = false)
    (t : TaskId) :
    (after c s).ledger.reservations.find? t = s.ledger.reservations.find? t := by
  rw [show (after c s).ledger.reservations = s.ledger.reservations from
    (exec_frame s.clock c s.ledger).reservations hw]

/-- The calls that leave reservations alone make no task active, but for
`finish_task`. -/
theorem active_after {c : LedgerCall} {s : Shared} {t : TaskId} {r' : TaskRecord}
    (hw : c.writesReservations = false)
    (hfinish : ∀ st o d, c = .finishTask t st o d → active st = false)
    (hr' : (after c s).ledger.tasks.find? t = some r') (hact : active r'.state = true) :
    ∃ r, s.ledger.tasks.find? t = some r ∧ active r.state = true := by
  cases hr : s.ledger.tasks.find? t with
  | none =>
      have hnone : (after c s).ledger.tasks.find? t = none := exec_task_none s.clock c hr
      rw [hnone] at hr'
      simp at hr'
  | some r =>
      refine ⟨r, rfl, ?_⟩
      obtain rfl : r.id = t := Table.key_of_find? hr
      obtain ⟨-, -, -, hnone⟩ | ⟨r₂, hr₂, hstep⟩ := exec_task s.clock c hr
      · rw [show (after c s).ledger.tasks.find? r.id = none from hnone] at hr'
        simp at hr'
      · obtain rfl : r₂ = r' := Option.some.inj (hr₂.symm.trans hr')
        cases hstep with
        | same | baseSha | touch | workspaceExpired | retire => exact hact
        | settle | cancel => simp [active] at hact
        | wake | sleep => simp [active] at hact
        | finish st o d =>
            have hinactive := hfinish st o d rfl
            rw [show (Ledger.finished s.clock st o d r).state = st from rfl, hinactive] at hact
            simp at hact
        | reserve | adopt | release | lost => simp [LedgerCall.writesReservations] at hw

section Calls

variable {cfg : Config} {p : Pid} {h : Hist} {c : LedgerCall} {s : Shared} {a : Except Exn c.Out}

/-- The condition keeps ended tasks ended. -/
theorem ended_of_sleepUndisturbed {t : TaskId} (hK : (sleepUndisturbed cfg).call p h (.db c) s a = true)
    (ht : Ended t s) : Ended t (after c s) := by
  refine ended_after ht fun st o d hc => ?_
  subst hc
  simp only [sleepUndisturbed, Bool.or_eq_true, Bool.and_eq_true, Bool.not_eq_true'] at hK
  rcases hK with hterm | ⟨hopen, -⟩
  · exact .inl hterm
  · exact .inr hopen

theorem held_after (hinv : Agree s.taskIds s.ledger)
    (hK : (sleepUndisturbed cfg).call p h (.db c) s a = true) (hp : Permits (.db c) s) {t : TaskId}
    {r' : TaskRecord} (hr' : (after c s).ledger.tasks.find? t = some r')
    (hact : active r'.state = true) : ((after c s).ledger.reservations.find? t).isSome = true := by
  cases hw : c.writesReservations with
  | false =>
      rw [find?_writesTasks hw]
      by_cases hfin : ∃ st o d, c = .finishTask t st o d ∧ active st = true
      · obtain ⟨st, o, d, rfl, hst⟩ := hfin
        simp only [sleepUndisturbed, hst, Bool.or_eq_true, Bool.and_eq_true, Bool.not_true,
          Bool.false_eq_true, false_or] at hK
        rcases hK with hterm | ⟨-, hres⟩
        · rw [not_active_of_terminal hterm] at hst
          simp at hst
        · exact hres
      · have hfinish : ∀ st o d, c = .finishTask t st o d → active st = false := by
          intro st o d hc
          by_contra hst
          exact hfin ⟨st, o, d, hc, by simpa using hst⟩
        obtain ⟨r, hr, hract⟩ := active_after hw hfinish hr' hact
        exact hinv.held t r hr hract
  | true =>
    cases c with
    | reserveNext n =>
        obtain ⟨htasks, hres, -⟩ | ⟨q, -, -, -, -, hfind⟩ := reserveNext_find s.clock n s.ledger
        · have hr : s.ledger.tasks.find? t = some r' := by
            rw [← htasks]
            exact hr'
          have hheld := hinv.held t r' hr hact
          rw [← hres] at hheld
          exact hheld
        · have hrow := (hfind t).1.symm.trans hr'
          rw [show (after (.reserveNext n) s).ledger.reservations.find? t = _ from (hfind t).2]
          by_cases ht : t = q.id
          · simp [ht]
          · rw [if_neg ht] at hrow ⊢
            exact hinv.held t r' hrow hact
    | updateReservation t₀ p d st =>
        cases hq : s.ledger.reservations.find? t₀ with
        | none =>
            have hsame : (after (.updateReservation t₀ p d st) s).ledger = s.ledger :=
              updateReservation_none hq
            rw [hsame] at hr' ⊢
            exact hinv.held t r' hr' hact
        | some q =>
            have hfind := updateReservation_find s.clock p d st hq t
            rw [show (after (.updateReservation t₀ p d st) s).ledger.reservations.find? t = _ from
              hfind.1]
            by_cases ht : t = t₀
            · simp [ht]
            · have hrow := hfind.2.symm.trans hr'
              rw [if_neg ht] at hrow ⊢
              exact hinv.held t r' hrow hact
    | releaseReservation t₀ status =>
        have hfind := releaseReservation_find s.clock s.ledger t₀ status t
        have hrow := hfind.2.symm.trans hr'
        rw [show (after (.releaseReservation t₀ status) s).ledger.reservations.find? t = _ from
          hfind.1]
        by_cases ht : t = t₀
        · subst ht
          rw [if_pos rfl] at hrow
          obtain ⟨r, hr, rfl⟩ := Option.map_eq_some_iff.mp hrow
          have hinactive : active r.state = false := hp r hr
          rw [show active r.state = true from hact] at hinactive
          simp at hinactive
        · rw [if_neg ht] at hrow ⊢
          exact hinv.held t r' hrow hact
    | markSandboxLost t₀ d =>
        cases hr : s.ledger.tasks.find? t₀ with
        | none =>
            obtain ⟨hres, htasks⟩ := markSandboxLost_none s.clock hr d
            have hrow : s.ledger.tasks.find? t = some r' := by
              rw [← htasks]
              exact hr'
            have hheld := hinv.held t r' hrow hact
            rw [← hres] at hheld
            exact hheld
        | some r =>
            have hfind := markSandboxLost_find s.clock hr d t
            have hrow := hfind.2.symm.trans hr'
            rw [show (after (.markSandboxLost t₀ d) s).ledger.reservations.find? t = _ from hfind.1]
            by_cases ht : t = t₀
            · rw [if_pos ht] at hrow
              obtain rfl := Option.some.inj hrow
              have hinactive := not_active_of_terminal (stateWhenLost_terminal r)
              rw [show active (Ledger.stateWhenLost r) = true from hact] at hinactive
              simp at hinactive
            · rw [if_neg ht] at hrow ⊢
              exact hinv.held t r' hrow hact
    | _ => simp [LedgerCall.writesReservations] at hw

theorem agree_after (hissued : Issued s.taskIds s.ledger) (hinv : Agree s.taskIds s.ledger)
    (hK : (sleepUndisturbed cfg).call p h (.db c) s a = true) (hp : Permits (.db c) s) :
    Agree s.taskIds (after c s).ledger where
  held t r' hr' hact := held_after hinv hK hp hr' hact
  pending t q hq hphase r' hr' := by
    have hended : Ended t s := by
      have hstep := exec_reservation s.clock c s.ledger t
      rw [show (c.exec s.clock s.ledger).2.reservations.find? t = some q from hq] at hstep
      generalize hx : some q = x at hstep
      cases hstep with
      | same => exact ⟨hinv.issued t q hx.symm, hinv.pending t q hx.symm hphase⟩
      | claim =>
          obtain rfl := Option.some.inj hx
          simp at hphase
      | update ph d st q₀ hq₀ =>
          obtain rfl := Option.some.inj hx
          obtain rfl : ph = .terminationPending := hphase
          exact hp
      | release | lost => simp at hx
    exact (ended_of_sleepUndisturbed hK hended).2 r' hr'
  issued t q hq := by
    have hstep := exec_reservation s.clock c s.ledger t
    rw [show (c.exec s.clock s.ledger).2.reservations.find? t = some q from hq] at hstep
    generalize hx : some q = x at hstep
    cases hstep with
    | same => exact hinv.issued t q hx.symm
    | claim n r hr => exact hissued t r hr
    | update ph d st q₀ hq₀ => exact hinv.issued t q₀ hq₀
    | release | lost => simp at hx

end Calls

/-! ### Programs -/

/-- Along a run the tables agree, in the database and in its snapshots. -/
structure Agrees (s : Shared) : Prop where
  issued : AllIssued s
  agree : Everywhere (Agree s.taskIds) s

theorem agree_submit {id : TaskId} {r : Submission} {s : Shared} (hissued : Issued s.taskIds s.ledger)
    (hinv : Agree s.taskIds s.ledger) (hid : id ∉ s.taskIds) :
    Agree (submitted id r s).taskIds (submitted id r s).ledger := by
  obtain ⟨hres, -⟩ := submit_cases s.clock s.ledger id r.idempotencyKey r.repository r.prompt
    r.baseRef r.retryOf r.model r.ownerId
  have hfind : ∀ t, (submitted id r s).ledger.reservations.find? t =
      s.ledger.reservations.find? t := fun t => congrArg (fun T => Table.find? T t) hres
  refine ⟨fun t row hrow hact => ?_, fun t q hq hphase row hrow => ?_, fun t q hq => ?_⟩
  · rw [hfind]
    obtain hsame | ⟨-, -, row', hrow', hstate, -⟩ := submitted_task r hissued hid t
    · exact hinv.held t row (hsame.symm.trans hrow) hact
    · obtain rfl := Option.some.inj (hrow'.symm.trans hrow)
      rw [hstate] at hact
      simp [active] at hact
  · rw [hfind] at hq
    obtain hsame | ⟨rfl, -⟩ := submitted_task r hissued hid t
    · exact hinv.pending t q hq hphase row (hsame.symm.trans hrow)
    · exact absurd (hinv.issued t q hq) hid
  · rw [hfind] at hq
    exact List.mem_cons_of_mem _ (hinv.issued t q hq)

theorem Agree.mono {ids ids' : List TaskId} {l : Ledger} (h : Agree ids l)
    (hids : ∀ t, t ∈ ids → t ∈ ids') : Agree ids' l :=
  ⟨h.held, h.pending, fun t q hq => hids t (h.issued t q hq)⟩

theorem agrees_event (cfg : Config) {e : Happening} {s s' : Shared} (hinv : Agrees s)
    (h : e.apply s = some s') : Agrees s' := by
  have hids : ∀ t, t ∈ s.taskIds → t ∈ s'.taskIds := taskIds_event h
  refine ⟨allIssued_event hinv.issued h, ?_⟩
  refine Everywhere.event (hinv.agree.mono fun l hl => hl.mono hids) h ?_ ?_
  · rintro id r rfl hid
    obtain rfl := apply_submit h
    exact agree_submit hinv.issued.ledger hinv.agree.ledger hid
  · rintro t sha rfl
    obtain rfl := Option.some.inj h
    have hK : (sleepUndisturbed cfg).call .scheduler [] (.db (.recordBaseSha t (some sha))) s
        (reply (.recordBaseSha t (some sha)) s) = true := rfl
    exact agree_after hinv.issued.ledger hinv.agree.ledger hK trivial

abbrev agreeContract (cfg : Config) (p : Pid) :=
  Machine.contract (sleepUndisturbed cfg) Agrees (fun _ => KeepsEnded) (fun _ => KeepsEnded) p

/-- A call that neither releases a reservation nor marks one for termination. -/
def Quiet (c : Call) : Prop :=
  (∀ t status, c ≠ .db (.releaseReservation t status)) ∧
    ∀ t d st, c ≠ .db (.updateReservation t .terminationPending d st)

/-- An assertion about ended tasks. -/
def Stable (A : Shared → Prop) : Prop := ∀ s s', A s → KeepsEnded s s' → A s'

theorem stable_true : Stable fun _ => True := fun _ _ _ _ => trivial

theorem stable_ended (t : TaskId) : Stable (Ended t) := fun _ _ h hkeep => hkeep t h

section Programs

variable {cfg : Config} {p : Pid} {t : TaskId} {α : Type} {r : Routine α} {A : Shared → Prop}

theorem permits_of_quiet {c : Call} {s : Shared} (hc : Quiet c) : Permits c s := by
  unfold Permits
  split
  · exact absurd rfl (hc.1 _ _)
  · exact absurd rfl (hc.2 _ _ _)
  · trivial

theorem agrees_answer {o : Oracle} {c : Call} {s s' : Shared} {h : Hist} {a : c.Out}
    (hinv : Agrees s) (hK : (sleepUndisturbed cfg).call p h c s a = true) (hp : Permits c s)
    (ha : s.answer p o c = some (a, s')) : Agrees s' ∧ KeepsEnded s s' := by
  obtain ⟨d, rfl, rfl⟩ | ⟨id, q, rfl, he⟩ | ⟨-, hsame⟩ := answer_cases ha
  · refine ⟨⟨allIssued_answer hinv.issued ha, ?_⟩, fun t ht => ended_of_sleepUndisturbed hK ht⟩
    exact ⟨agree_after hinv.issued.ledger hinv.agree.ledger hK hp, hinv.agree.published,
      hinv.agree.confirmed⟩
  · exact ⟨agrees_event cfg hinv he, keepsEnded_event cfg hinv.issued rfl he⟩
  · refine ⟨⟨allIssued_answer hinv.issued ha, ?_, ?_, ?_⟩, .of_sameStore hsame⟩
    · rw [hsame.taskIds, hsame.ledger]
      exact hinv.agree.ledger
    · rw [hsame.taskIds, hsame.published]
      exact hinv.agree.published
    · rw [hsame.taskIds, hsame.confirmed]
      exact hinv.agree.confirmed

theorem keeps_of_quiet (hA : Stable A) (hr : Makes Quiet r) :
    Keeps (agreeContract cfg p) (fun w => A w.1) r := by
  refine keeps_of_makes hr (fun s s' _ hs hrely => hA s s' hs hrely)
    fun c s o a s' h hc hs hinv hK ha => ?_
  obtain ⟨hinv', hkeep⟩ := agrees_answer hinv hK (permits_of_quiet hc) ha
  exact ⟨hinv', hkeep, hA s s' hs hkeep⟩

theorem quiet_of_inert {c : Call} (hc : c.inert = true) : Quiet c := by
  refine ⟨?_, ?_⟩
  · rintro t status rfl
    simp [Call.inert, LedgerCall.inert] at hc
  · rintro t d st rfl
    simp [Call.inert, LedgerCall.inert] at hc

theorem quiet_of_recordCall {c : Call} (hc : Manager.recordCall t c = true) : Quiet c := by
  refine ⟨?_, ?_⟩
  · rintro t' status rfl
    simp [Manager.recordCall, Call.inert, LedgerCall.inert] at hc
  · rintro t' d st rfl
    simp [Manager.recordCall, Call.inert, LedgerCall.inert] at hc

theorem keeps_agree_inert (hA : Stable A) (hr : Inert r) :
    Keeps (agreeContract cfg p) (fun w => A w.1) r :=
  keeps_of_quiet hA (hr.mono fun _ hc => quiet_of_inert hc)

/-- A reservation of an ended task is released or marked for termination. -/
theorem keeps_agree_ended {c : LedgerCall} (hc : (∃ status, c = .releaseReservation t status) ∨
      ∃ d, c = .updateReservation t .terminationPending d none) :
    Keeps (agreeContract cfg p) (fun w => Ended t w.1) (db c) := by
  refine keeps_call (fun s s' _ hs hrely => hrely t hs) (fun s o a s' h hs hinv hK ha => ?_)
    fun a => ?_
  · have hp : Permits (.db c) s := by
      rcases hc with ⟨status, rfl⟩ | ⟨d, rfl⟩
      · exact fun r hr => not_active_of_terminal (hs.2 r hr)
      · exact hs
    obtain ⟨hinv', hkeep⟩ := agrees_answer hinv hK hp ha
    exact ⟨hinv', hkeep, hkeep t hs⟩
  · cases a with
    | ok a => exact Keeps.pure a
    | error e => exact Keeps.throw e

/-- The obligation of a ledger call. -/
theorem safe_agree_db {c : LedgerCall} {post : c.Out → Shared × Hist → Prop}
    {exn : Exn → Shared × Hist → Prop} {s : Shared} {h : Hist}
    (hp : ∀ s₁, KeepsEnded s s₁ → (sleepUndisturbed cfg).call p h (.db c) s₁ (reply c s₁) = true →
      Permits (.db c) s₁)
    (H : ∀ s₁, Agrees s₁ → KeepsEnded s s₁ → KeepsEnded s (after c s₁) → Agrees (after c s₁) →
        match reply c s₁ with
        | .ok a => post a (after c s₁, ⟨.db c, .ok a, s₁⟩ :: h)
        | .error e => exn e (after c s₁, ⟨.db c, .error e, s₁⟩ :: h)) :
    Safe (agreeContract cfg p) (db c) post exn (s, h) := by
  refine safe_db fun s₁ hinv hrely hK => ?_
  have hkeep : KeepsEnded s₁ (after c s₁) := fun t ht => ended_of_sleepUndisturbed hK ht
  have hinv' : Agrees (after c s₁) :=
    ⟨⟨issued_after hinv.issued.ledger, hinv.issued.published, hinv.issued.confirmed⟩,
      agree_after hinv.issued.ledger hinv.agree.ledger hK (hp s₁ hrely hK), hinv.agree.published,
      hinv.agree.confirmed⟩
  exact ⟨hinv', hkeep, H s₁ hinv hrely (keepsEnded_trans _ _ _ hrely hkeep) hinv'⟩

/-- A task that `finish_task` has ended. -/
theorem safe_finish_ended {st : TaskState} {o d : Option String} (hst : st.terminal = true)
    (w : Shared × Hist) :
    Safe (agreeContract cfg p) (db (.finishTask t st o d)) (fun _ w => Ended t w.1)
      (fun _ _ => True) w := by
  refine safe_agree_db (fun _ _ _ => trivial) fun s₁ _ _ _ hinv => ?_
  cases hr : reply (.finishTask t st o d) s₁ with
  | error e => trivial
  | ok r =>
      obtain ⟨hrow, hstate⟩ := finishTask_ok hr
      have hrow' : (after (.finishTask t st o d) s₁).ledger.tasks.find? t = some r := hrow
      refine ⟨hinv.issued.ledger t r hrow', fun r' hr' => ?_⟩
      obtain rfl := Option.some.inj (hrow'.symm.trans hr')
      rw [hstate]
      exact hst

/-- A reservation that waits for termination is read. -/
theorem safe_getReservation (w : Shared × Hist) :
    Safe (agreeContract cfg p) (db (.getReservation t))
      (fun q? w => ∀ q, q? = some q → q.taskId = t ∧ (q.phase = .terminationPending → Ended t w.1))
      (fun _ _ => True) w := by
  refine safe_agree_db (fun _ _ _ => trivial) fun s₁ hinv _ _ _ q hq => ?_
  have hfind : s₁.ledger.reservations.find? t = some q := hq
  exact ⟨Table.key_of_find? hfind, fun hphase =>
    ⟨hinv.agree.ledger.issued t q hfind, hinv.agree.ledger.pending t q hfind hphase⟩⟩

/-- The reservations of a list that wait for termination are of ended tasks. -/
def PendingEnded (rs : List ReservationRecord) (s : Shared) : Prop :=
  ∀ q ∈ rs, q.phase = .terminationPending → Ended q.taskId s

theorem stable_pendingEnded (rs : List ReservationRecord) : Stable (PendingEnded rs) :=
  fun _ _ h hkeep q hq hphase => hkeep _ (h q hq hphase)

theorem safe_listReservations (w : Shared × Hist) :
    Safe (agreeContract cfg p) (db .listReservations) (fun rs w => PendingEnded rs w.1)
      (fun _ _ => True) w := by
  refine safe_agree_db (fun _ _ _ => trivial) fun s₁ hinv _ _ _ q hq hphase => ?_
  have hfind := mem_listReservations hq
  exact ⟨hinv.agree.ledger.issued _ q hfind, hinv.agree.ledger.pending _ q hfind hphase⟩

/-- A component that has put the task to sleep, or found it asleep, releases its
reservation. -/
theorem safe_release_sleeping {status : String} {w : Shared × Hist}
    (hw : lastKnown t w.2 = some .sleeping) :
    Safe (agreeContract cfg p) (db (.releaseReservation t status)) (fun _ _ => True)
      (fun _ _ => True) w := by
  refine safe_agree_db (fun s₁ _ hK => ?_) fun s₁ _ _ _ _ => trivial
  intro r hr
  have hw' : lastKnown t w.2 = some .sleeping := hw
  simpa [sleepUndisturbed, hw', hr] using hK

theorem keeps_quiet_db {c : LedgerCall} (hc : Quiet (.db c)) :
    Keeps (agreeContract cfg p) (fun _ => True) (db c) :=
  keeps_of_quiet stable_true (makes_db hc)

theorem quiet_db {c : LedgerCall} (h : ∀ t status, c ≠ .releaseReservation t status)
    (h' : ∀ t d st, c ≠ .updateReservation t .terminationPending d st) : Quiet (.db c) :=
  ⟨fun t status hc => h t status (Call.db.inj hc), fun t d st hc => h' t d st (Call.db.inj hc)⟩

/-! #### The supervision loop -/

theorem keeps_agree_attemptCleanup :
    Keeps (agreeContract cfg p) (fun w => Ended t w.1) (Manager.attemptCleanup t) := by
  refine Keeps.bind (keeps_agree_inert (stable_ended t) (Lifecycle.inert_terminate t)).attempt
    fun r => ?_
  split
  · split
    · exact keeps_agree_ended (.inr ⟨_, rfl⟩)
    · exact Keeps.throw _
  · split
    · exact keeps_agree_ended (.inl ⟨_, rfl⟩)
    · exact keeps_agree_ended (.inr ⟨_, rfl⟩)

/-- What is done with a task that has just been ended. -/
theorem safe_end_then {st : TaskState} {o d : Option String} {f : TaskRecord → Routine α}
    (hst : st.terminal = true)
    (hf : ∀ r, Keeps (agreeContract cfg p) (fun w => Ended t w.1) (f r)) :
    Keeps (agreeContract cfg p) (fun _ => True) (do f (← db (.finishTask t st o d))) := by
  intro w _
  refine Safe.bind (Safe.mono (safe_finish_ended hst w) (fun r w hw => ?_) fun _ _ h => h)
  exact Safe.mono (hf r w hw) (fun _ _ _ => trivial) fun _ _ _ => trivial

theorem keeps_agree_failExecutionStart (detail : String) :
    Keeps (agreeContract cfg p) (fun _ => True) (Manager.failExecutionStart t detail) := by
  refine safe_end_then rfl fun _ => ?_
  refine Keeps.bind (keeps_agree_ended (.inr ⟨_, rfl⟩)) fun _ => ?_
  refine Keeps.bind (keeps_agree_inert (stable_ended t) Lifecycle.inert_ensureDurable) fun _ => ?_
  exact keeps_agree_attemptCleanup

theorem keeps_agree_plain (hr : Inert r) : Keeps (agreeContract cfg p) (fun _ => True) r :=
  keeps_agree_inert stable_true hr

theorem stateKnown_of_inert {e : Entry Call.Out Shared} (he : e.call.inert = true) :
    stateKnown t e = none := by
  unfold stateKnown
  split
  · simp [Call.inert, LedgerCall.inert] at he
  · simp [Call.inert, LedgerCall.inert] at he
  · simp [Call.inert, LedgerCall.inert] at he
  · rfl

theorem keeps_lastKnown_inert {st : Option TaskState} (hr : Inert r) :
    Keeps (agreeContract cfg p) (fun w => lastKnown t w.2 = st) r := by
  refine keeps_of_makes hr (fun _ _ _ hs _ => hs) fun c s o a s' h hc hs hinv hK ha => ?_
  obtain ⟨hinv', hkeep⟩ := agrees_answer hinv hK (permits_of_quiet (quiet_of_inert hc)) ha
  refine ⟨hinv', hkeep, ?_⟩
  have he : stateKnown t ⟨c, a, s⟩ = none := stateKnown_of_inert hc
  simpa [lastKnown, he] using hs

/-- The handler of `_sleep_workspace` always raises. -/
theorem safe_sleepFailed {post : Unit → Shared × Hist → Prop} (e : Exn) (w : Shared × Hist) :
    Safe (agreeContract cfg p) (Manager.sleepFailed t e) post (fun _ _ => True) w := by
  refine Safe.bind (Safe.mono (keeps_quiet_db (quiet_db (by simp) (by simp)) w trivial)
    (fun task? w _ => ?_) fun _ _ h => h)
  split
  · trivial
  · split
    · exact Safe.bind (Safe.mono (keeps_quiet_db (quiet_db (by simp) (by simp)) w trivial)
        (fun _ _ _ => trivial) fun _ _ h => h)
    · trivial

theorem keeps_agree_locked {l : Lock} (hr : Keeps (agreeContract cfg p) (fun _ => True) r) :
    Keeps (agreeContract cfg p) (fun _ => True) (withLock l r) := by
  refine keeps_withLock (fun _ _ _ _ _ => trivial) (fun c s o a s' h hc _ hinv hK ha => ?_) hr
  have hquiet : Quiet c := by
    rcases hc with rfl | rfl
    · exact ⟨by rintro _ _ ⟨⟩, by rintro _ _ _ ⟨⟩⟩
    · exact ⟨by rintro _ _ ⟨⟩, by rintro _ _ _ ⟨⟩⟩
  obtain ⟨hinv', hkeep⟩ := agrees_answer hinv hK (permits_of_quiet hquiet) ha
  exact ⟨hinv', hkeep, trivial⟩

theorem keeps_agree_sleepWorkspace :
    Keeps (agreeContract cfg p) (fun _ => True) (Manager.sleepWorkspace t) := by
  refine keeps_agree_locked fun w _ => ?_
  refine Safe.bind (safe_agree_db (fun _ _ _ => trivial) fun s₁ _ _ _ _ => ?_)
  cases hmark : reply (.tryMarkSleeping t) s₁ with
  | error e => trivial
  | ok marked =>
      dsimp only
      cases marked with
      | false => trivial
      | true =>
          have hknown : lastKnown t (⟨.db (.tryMarkSleeping t), .ok true, s₁⟩ :: w.2) =
            some .sleeping := by simp [lastKnown, stateKnown]
          refine Safe.bind (Safe.tryCatch (Safe.mono (keeps_lastKnown_inert
            (Manager.inert_putToSleep t) _ hknown) (fun _ w hw => safe_release_sleeping hw) ?_))
          exact fun e w _ => safe_sleepFailed e w

theorem keeps_agree_settleRun (row : SupervisionRecord) (manifest : Option TaskResultManifest) :
    Keeps (agreeContract cfg p) (fun _ => True) (Manager.settleRun t row manifest) := by
  refine Keeps.bind (keeps_agree_plain (makes_db rfl)) fun _ => ?_
  dsimp only
  split
  · exact safe_end_then rfl fun _ => keeps_agree_ended (.inr ⟨_, rfl⟩)
  · exact Keeps.bind (keeps_quiet_db (quiet_db (by simp) (by simp))) fun _ =>
      keeps_quiet_db (quiet_db (by simp) (by simp))

theorem quiet_of_followCall {c : Call} (hc : followCall t c = true) : Quiet c := by
  refine ⟨?_, ?_⟩
  · rintro t' status rfl
    simp [followCall, Manager.followupCall, Manager.recordCall, Manager.saveCall, Manager.sendCall, Call.inert,
      LedgerCall.inert] at hc
  · rintro t' d st rfl
    simp [followCall, Manager.followupCall, Manager.recordCall, Manager.saveCall, Manager.sendCall, Call.inert,
      LedgerCall.inert] at hc

theorem drives_agree : Drives (agreeContract cfg p) t (fun _ => True) (fun _ => True) where
  escape _ h := h
  follow hr := keeps_of_quiet stable_true (hr.mono fun _ hc => quiet_of_followCall hc)
  fail detail := keeps_agree_failExecutionStart detail
  sleep := keeps_agree_sleepWorkspace

/-- The task is read, and what is done with an ended one is done. -/
theorem safe_get_ended (w : Shared × Hist) :
    Safe (agreeContract cfg p) (db (.get t none))
      (fun task? w => if task?.any fun r => r.state.terminal then Ended t w.1 else True)
      (fun _ _ => True) w := by
  refine safe_agree_db (fun _ _ _ => trivial) fun s₁ hinv _ _ _ => ?_
  have hreply : reply (.get t none) s₁ = .ok (s₁.ledger.get t none) := rfl
  rw [hreply]
  cases htask : s₁.ledger.get t none with
  | none => simp
  | some task =>
      have hrow : s₁.ledger.tasks.find? t = some task := (Option.filter_eq_some_iff.mp htask).1
      dsimp only
      split
      next hterm =>
        refine ⟨hinv.issued.ledger t task hrow, fun r hr => ?_⟩
        obtain rfl := Option.some.inj (hrow.symm.trans hr)
        exact hterm
      next => trivial

theorem finalizes_agree : Finalizes (agreeContract cfg p) t (fun _ => True) (fun w => Ended t w.1)
    (fun _ => True) (fun _ => True) where
  find w _ := safe_get_ended w
  ended w hw := Safe.mono (keeps_of_quiet (stable_ended t) (makes_db (quiet_db (by simp) (by simp)))
    w hw) (fun _ _ h => h) fun _ _ _ => trivial
  record hr := keeps_of_quiet stable_true (hr.mono fun _ hc => quiet_of_recordCall hc)
  escape _ h := h
  cleanup w hw := Safe.mono (keeps_agree_attemptCleanup w hw) (fun _ _ _ => trivial)
    fun _ _ _ => trivial
  lose _ _ := safe_end_then rfl fun _ => keeps_agree_ended (.inr ⟨_, rfl⟩)
  settle row manifest := keeps_agree_settleRun row manifest

theorem keeps_agree_activation :
    Keeps (agreeContract cfg p) (fun _ => True) (App.activation cfg t) := by
  have hround : ∀ w, True → Safe (agreeContract cfg p) (Manager.round cfg t) (fun _ _ => True)
      (fun _ _ => True) w := by
    intro w hw
    refine safe_round (I := fun _ => True) (B := fun w => Ended t w.1) (F := fun _ => True)
      (fun w _ => ?_) (fun w hw => ?_) (fun w _ => ?_)
      (fun w hw => drives_agree.driveRunning hw) hw
    · exact Safe.mono (safe_getReservation w) (fun q? w hq q h =>
        ⟨(hq q h).2, fun _ => trivial, fun _ => trivial⟩) fun _ _ h => h
    · exact Safe.mono (keeps_agree_attemptCleanup w hw) (fun _ _ _ => trivial) fun _ _ _ => trivial
    · exact keeps_agree_locked (fun w hw => finalizes_agree.finalizeLocked hw) w trivial
  intro w hw
  refine safe_activation hround (fun detail w _ => ?_) ?_ hw
  · exact keeps_quiet_db (quiet_db (by simp) (by simp)) w trivial
  · exact keeps_of_quiet stable_true ⟨⟨by rintro _ _ ⟨⟩, by rintro _ _ _ ⟨⟩⟩, fun _ => trivial⟩

/-! #### The scheduler -/

theorem keeps_agree_terminateReserved :
    Keeps (agreeContract cfg p) (fun w => Ended t w.1) (Scheduler.terminateReserved t) := by
  refine Keeps.bind (keeps_agree_inert (stable_ended t) (Lifecycle.inert_terminate t)).attempt
    fun r => ?_
  split
  · split
    · exact keeps_agree_ended (.inr ⟨_, rfl⟩)
    · exact Keeps.throw _
  · split
    · exact keeps_agree_ended (.inl ⟨_, rfl⟩)
    · exact keeps_agree_ended (.inr ⟨_, rfl⟩)

/-- A reservation that waits for termination is of an ended task. -/
def PendingOf (q : ReservationRecord) (s : Shared) : Prop :=
  q.phase = .terminationPending → Ended q.taskId s

theorem stable_pendingOf (q : ReservationRecord) : Stable (PendingOf q) :=
  fun _ _ h hkeep hphase => hkeep _ (h hphase)

theorem safe_release_pending {q : ReservationRecord} {w : Shared × Hist} (hw : PendingOf q w.1)
    (hphase : q.phase = .terminationPending) :
    Safe (agreeContract cfg p) (db (.releaseReservation q.taskId "confirmed_absent"))
      (fun _ _ => True) (fun _ _ => True) w :=
  Safe.mono (keeps_agree_ended (.inl ⟨_, rfl⟩) w (hw hphase)) (fun _ _ _ => trivial)
    fun _ _ _ => trivial

/-- The VM of a task has stopped, and the task is put to sleep. -/
theorem keeps_agree_vmStopped {detail : Option String} :
    Keeps (agreeContract cfg p) (fun _ => True) (do
      let _ ← db (.finishTask t .sleeping detail none)
      db (.releaseReservation t "confirmed_absent")) := by
  intro w _
  refine Safe.bind (safe_agree_db (fun _ _ _ => trivial) fun s₁ _ _ _ _ => ?_)
  cases hr : reply (.finishTask t .sleeping detail none) s₁ with
  | error e => trivial
  | ok r => exact safe_release_sleeping (by simp [lastKnown, stateKnown])

theorem safe_reconcileStopped {q : ReservationRecord} {creation : SandboxCreationRecord}
    {snapshot : SandboxSnapshot} {w : Shared × Hist} (hw : PendingOf q w.1) :
    Safe (agreeContract cfg p) (Scheduler.reconcileStopped q creation snapshot) (fun _ _ => True)
      (fun _ _ => True) w := by
  refine Safe.bind (safe_agree_db (fun _ _ _ => trivial) fun s₁ _ _ hkeep _ => ?_)
  have hw₁ : PendingOf q (after (.get q.taskId none) s₁) := stable_pendingOf q _ _ hw hkeep
  have hreply : reply (.get q.taskId none) s₁ = .ok (s₁.ledger.get q.taskId none) := rfl
  rw [hreply]
  by_cases hphase : q.phase = .terminationPending
  · simp only [hphase, true_or, if_true]
    exact safe_release_pending hw₁ hphase
  · simp only [hphase, false_or]
    split
    next hsleep =>
      refine safe_release_sleeping ?_
      cases htask : s₁.ledger.get q.taskId none with
      | none => simp [htask] at hsleep
      | some task => simpa [lastKnown, stateKnown, htask] using hsleep
    next =>
      refine Keeps.bind (keeps_agree_plain (Scheduler.inert_createAgain q creation)) (fun again => ?_)
        _ trivial
      split
      · exact keeps_quiet_db (quiet_db (by simp) (by simp))
      · refine Keeps.bind (keeps_quiet_db (quiet_db (by simp) (by simp))) fun row? => ?_
        split
        · exact keeps_agree_vmStopped
        · exact keeps_quiet_db (quiet_db (by simp) (by simp))

theorem safe_reconcileLive {q : ReservationRecord} {w : Shared × Hist} (hw : PendingOf q w.1) :
    Safe (agreeContract cfg p) (Scheduler.reconcileLive q) (fun _ _ => True) (fun _ _ => True)
      w := by
  unfold Scheduler.reconcileLive
  split
  next hphase =>
    exact Safe.mono (keeps_agree_terminateReserved w (hw hphase)) (fun _ _ _ => trivial)
      fun _ _ _ => trivial
  next hphase =>
    refine Keeps.bind (keeps_quiet_db (quiet_db (by simp) (by simp))) (fun task? => ?_) w trivial
    refine keeps_quiet_db (quiet_db (by simp) ?_)
    intro t d st hc
    injection hc with _ hp
    split at hp <;> simp at hp

theorem safe_reconcileReservation {q : ReservationRecord} {w : Shared × Hist}
    (hw : PendingOf q w.1) :
    Safe (agreeContract cfg p) (Scheduler.reconcileReservation q) (fun _ _ => True)
      (fun _ _ => True) w := by
  refine Safe.bind (Safe.mono (keeps_agree_inert (stable_pendingOf q) (makes_db rfl) w hw)
    (fun creation? w hw => ?_) fun _ _ _ => trivial)
  split
  · split
    next hphase => exact safe_release_pending hw hphase
    next => exact keeps_quiet_db (quiet_db (by simp) (by simp)) w trivial
  next creation =>
    refine Keeps.bind (keeps_agree_plain (Lifecycle.inert_inspect q.taskId)).attempt
      (fun reply => ?_) w trivial
    split
    · exact keeps_quiet_db (quiet_db (by simp) (by simp))
    · exact keeps_quiet_db (quiet_db (by simp) (by simp))
    · exact Keeps.throw _
    · intro w _
      refine Safe.bind (Safe.mono (safe_getReservation w) (fun current? w hw => ?_)
        fun _ _ h => h)
      split
      · trivial
      next current =>
        have hcur : PendingOf current w.1 := by
          intro hphase
          rw [(hw current rfl).1]
          exact (hw current rfl).2 hphase
        split
        · trivial
        · split
          · exact keeps_quiet_db (quiet_db (by simp) (by simp)) w trivial
          · split
            · exact safe_reconcileStopped hcur
            · exact safe_reconcileLive hcur

/-- Whatever the program does, what has ended stays ended. -/
theorem safe_stable {post : α → Shared × Hist → Prop} {exn : Exn → Shared × Hist → Prop}
    (hA : Stable A) {w : Shared × Hist} (h : Safe (agreeContract cfg p) r post exn w)
    (hw : A w.1) : Safe (agreeContract cfg p) r (fun a w => post a w ∧ A w.1)
      (fun e w => exn e w ∧ A w.1) w :=
  Safe.frame (E := agreeContract cfg p) (A := fun w => A w.1)
    (fun s s' hs hr => hA s.1 s'.1 hs hr.1) (fun s s' hs hg => hA s.1 s'.1 hs hg.1) h hw

/-- A round for every reservation that was listed. -/
theorem safe_forM_pending {f : ReservationRecord → Routine Unit} :
    ∀ {rs : List ReservationRecord} {w : Shared × Hist},
      (∀ q w, PendingOf q w.1 →
        Safe (agreeContract cfg p) (f q) (fun _ _ => True) (fun _ _ => True) w) →
      PendingEnded rs w.1 →
      Safe (agreeContract cfg p) (rs.forM f) (fun _ _ => True) (fun _ _ => True) w
  | [], _, _, _ => trivial
  | q :: rs, w, hf, hw => by
      have hround := safe_stable (stable_pendingEnded rs) (hf q w (hw q (by simp)))
        fun q' hq' => hw q' (by simp [hq'])
      exact Safe.bind (Safe.mono hround (fun _ _ h => safe_forM_pending hf h.2) fun _ _ _ => trivial)

theorem keeps_agree_reconcile :
    Keeps (agreeContract cfg p) (fun _ => True) Scheduler.reconcile := by
  refine Keeps.bind (keeps_quiet_db (quiet_db (by simp) (by simp))) fun _ => ?_
  intro w _
  refine Safe.bind (Safe.mono (safe_listReservations w) (fun rs w hw => ?_) fun _ _ h => h)
  refine Safe.bind (Safe.mono (safe_forM_pending (fun q w hq => safe_reconcileReservation hq) hw)
    (fun _ w _ => ?_) fun _ _ h => h)
  exact keeps_agree_plain Lifecycle.inert_ensureDurable w trivial

theorem safe_detachReservation {q : ReservationRecord} {w : Shared × Hist}
    (hw : PendingOf q w.1) :
    Safe (agreeContract cfg p) (Scheduler.detachReservation q) (fun _ _ => True) (fun _ _ => True)
      w := by
  -- The phase is written back as it was read: a pending one is of an ended task.
  have hback : ∀ d (w : Shared × Hist), PendingOf q w.1 → Safe (agreeContract cfg p)
      (db (.updateReservation q.taskId q.phase d none)) (fun _ _ => True) (fun _ _ => True) w := by
    intro d w hw
    by_cases hphase : q.phase = .terminationPending
    · rw [hphase]
      exact Safe.mono (keeps_agree_ended (.inr ⟨_, rfl⟩) w (hw hphase)) (fun _ _ _ => trivial)
        fun _ _ _ => trivial
    · refine keeps_quiet_db (quiet_db (by simp) ?_) w trivial
      intro t d st hc
      injection hc with _ hp
      exact hphase hp
  refine Safe.bind (Safe.mono (keeps_agree_inert (stable_pendingOf q) (makes_db rfl) w hw)
    (fun creation? w hw => ?_) fun _ _ _ => trivial)
  split
  · trivial
  · refine Safe.tryCatch ?_
    suffices hdetach : Safe (agreeContract cfg p) _ (fun _ _ => True) (fun _ _ => True) w from
      Safe.mono (safe_stable (stable_pendingOf q) hdetach hw) (fun _ _ _ => trivial) fun e w hw => by
        split
        · exact hback _ w hw.2
        · trivial
    refine Safe.bind (Safe.mono (keeps_agree_inert (stable_pendingOf q)
      (Lifecycle.inert_detach q.taskId) w hw) (fun snapshot w hw => ?_) fun _ _ _ => trivial)
    split
    · split
      next hphase => exact safe_release_pending hw hphase
      next => exact keeps_quiet_db (quiet_db (by simp) (by simp)) w trivial
    · split
      · exact hback _ w hw
      · trivial

theorem keeps_agree_stop : Keeps (agreeContract cfg p) (fun _ => True) Scheduler.stop := by
  intro w _
  refine Safe.bind (Safe.mono (safe_listReservations w) (fun rs w hw => ?_) fun _ _ h => h)
  exact safe_forM_pending (fun q w hq => safe_detachReservation hq) hw

theorem quiet_of_createCall {c : Call} (hc : Scheduler.createCall c = true) : Quiet c := by
  refine ⟨?_, ?_⟩
  · rintro t status rfl
    simp [Scheduler.createCall, Call.inert, LedgerCall.inert] at hc
  · rintro t d st rfl
    simp [Scheduler.createCall, Call.inert, LedgerCall.inert] at hc

theorem quiet_of_upkeepCall {c : Call} (hc : Scheduler.upkeepCall c = true) : Quiet c := by
  refine ⟨?_, ?_⟩
  · rintro t status rfl
    simp [Scheduler.upkeepCall, Scheduler.tendCall, Call.inert, LedgerCall.inert] at hc
  · rintro t d st rfl
    simp [Scheduler.upkeepCall, Scheduler.tendCall, Call.inert, LedgerCall.inert] at hc

theorem keeps_agree_upkeep (hr : Makes (fun c => Scheduler.upkeepCall c = true) r) :
    Keeps (agreeContract cfg p) (fun _ => True) r :=
  keeps_of_quiet stable_true (hr.mono fun _ hc => quiet_of_upkeepCall hc)

theorem keeps_agree_provision :
    Keeps (agreeContract cfg p) (fun _ => True) (Scheduler.provision cfg t) := by
  refine Keeps.bind (keeps_agree_plain Lifecycle.inert_ensureDurable) fun _ => ?_
  refine Keeps.bind (keeps_of_quiet stable_true ((Scheduler.makes_create cfg t).mono fun _ hc =>
    quiet_of_createCall hc)).attempt fun r => ?_
  split
  · exact safe_end_then rfl fun _ => keeps_agree_ended (.inl ⟨_, rfl⟩)
  · exact keeps_quiet_db (quiet_db (by simp) (by simp))
  · exact keeps_quiet_db (quiet_db (by simp) (by simp))
  · exact Keeps.throw _
  · split
    · exact keeps_quiet_db (quiet_db (by simp) (by simp))
    · exact keeps_quiet_db (quiet_db (by simp) (by simp))

theorem admits_agree : Admits (agreeContract cfg p) cfg (fun _ => True) (fun _ _ => True) where
  upkeep hr := keeps_agree_upkeep (hr.mono fun _ => Scheduler.upkeepCall_of_tendCall)
  maintain := keeps_agree_upkeep (Scheduler.makes_maintenance cfg)
  list w hw := Safe.mono (keeps_quiet_db (quiet_db (by simp) (by simp)) w hw)
    (fun _ _ _ => ⟨trivial, fun _ _ _ => trivial⟩) fun _ _ h => h
  reserve n w hw := Safe.mono (keeps_quiet_db (quiet_db (by simp) (by simp)) w hw)
    (fun _ _ _ => ⟨trivial, fun _ _ => trivial⟩) fun _ _ h => h
  stop ts w hw _ := Safe.mono (keeps_agree_plain (makes_stopIsSet rfl) w hw)
    (fun _ _ _ => ⟨trivial, fun _ _ => trivial⟩) fun _ _ h => h
  provision t ts w hw _ _ := Safe.mono (keeps_agree_provision w hw)
    (fun _ _ _ => ⟨trivial, fun _ _ => trivial⟩) fun _ _ h => h

theorem keeps_agree_lifespan : Keeps (agreeContract cfg p) (fun _ => True) App.lifespan :=
  admits_agree.lifespan keeps_agree_reconcile
    (keeps_of_quiet stable_true ⟨⟨by rintro _ _ ⟨⟩, by rintro _ _ _ ⟨⟩⟩, fun _ => trivial⟩)

/-! #### Requests -/

theorem quiet_of_messageCall {c : Call} (hc : Manager.messageCall t c = true) : Quiet c := by
  refine ⟨?_, ?_⟩
  · rintro t' status rfl
    simp [Manager.messageCall, Call.inert, LedgerCall.inert] at hc
  · rintro t' d st rfl
    simp [Manager.messageCall, Call.inert, LedgerCall.inert] at hc

theorem quiet_of_cancelCall {c : Call} (hc : Service.cancelCall t c = true) : Quiet c := by
  refine ⟨?_, ?_⟩
  · rintro t' status rfl
    simp [Service.cancelCall] at hc
  · rintro t' d st rfl
    simp [Service.cancelCall] at hc

theorem quiet_of_routeCall {q : Route} {c : Call} (hc : Routes.routeCall q c = true) : Quiet c := by
  refine ⟨?_, ?_⟩
  · rintro t' status rfl
    cases q <;> simp [Routes.routeCall, Service.submitCall, Manager.messageCall, Service.cancelCall,
        Call.inert, LedgerCall.inert] at hc
  · rintro t' d st rfl
    cases q <;> simp [Routes.routeCall, Service.submitCall, Manager.messageCall, Service.cancelCall,
        Call.inert, LedgerCall.inert] at hc

end Programs

/-! ### Runs -/

theorem sound_sleepUndisturbed (cfg : Config) :
    Machine.Sound (sleepUndisturbed cfg) Agrees (fun _ => KeepsEnded) (fun _ => KeepsEnded)
      (fun _ _ _ => True) where
  rely_trans _ := keepsEnded_trans
  guar_rely _ _ _ _ _ h := h
  job p j s prog s' hinv hj := by
    obtain ⟨hstarted, ph, rfl⟩ := start_cases hj
    refine ⟨⟨⟨hinv.issued.ledger, hinv.issued.published, hinv.issued.confirmed⟩,
      hinv.agree.ledger, hinv.agree.published, hinv.agree.confirmed⟩, fun _ ht => ht, ?_⟩
    cases hstarted with
    | boot => exact safe_ending (keeps_agree_lifespan _ trivial)
    | cycle => exact safe_ending (admits_agree.dispatchOnce keeps_agree_reconcile _ trivial)
    | shutdown => exact safe_ending (keeps_agree_stop _ trivial)
    | iterate t => exact safe_ending (keeps_agree_activation _ trivial)
    | message n t m content =>
        exact safe_ending (keeps_of_quiet stable_true ((Manager.makes_sendMessage cfg t m
          content).mono fun _ hc => quiet_of_messageCall hc) _ trivial)
    | cancel n t owner =>
        exact safe_ending (keeps_of_quiet stable_true ((Service.makes_cancel t owner).mono
          fun _ hc => quiet_of_cancelCall hc) _ trivial)
    | route n q =>
        exact safe_ending (keeps_of_quiet stable_true ((Routes.makes_handle cfg q).mono
          fun _ hc => quiet_of_routeCall hc) _ trivial)
  event e s s' hinv hK he :=
    ⟨agrees_event cfg hinv he, fun _ _ => keepsEnded_event cfg hinv.issued hK he⟩

theorem agrees_init : Agrees Shared.init := by
  have hempty : Agree [] Ledger.empty :=
    ⟨fun _ _ h => by simp [Ledger.empty] at h, fun _ _ h => by simp [Ledger.empty] at h,
      fun _ _ h => by simp [Ledger.empty] at h⟩
  exact ⟨allIssued_init, hempty, by simp [Shared.init], by simp [Shared.init]⟩

/-- In a run in which nobody disturbs a task that goes to sleep, a task without a
reservation is terminal, queued or asleep. -/
theorem active_task_reserved {cfg : Config} {acts : List (Act cfg)} {w : System}
    (hw : Reaches cfg (sleepUndisturbed cfg) acts w) {t : TaskId} {r : TaskRecord}
    (hr : w.shared.ledger.tasks.find? t = some r) (hterm : r.state.terminal = false)
    (hfree : w.shared.ledger.reservations.find? t = none) :
    r.state = .queued ∨ r.state = .sleeping := by
  have hok := (sound_sleepUndisturbed cfg).run (fun _ _ _ h => h) (ok_init agrees_init) hw.keeps
    hw.run
  have hinactive : active r.state = false := by
    by_contra hact
    have hheld := hok.1.agree.ledger.held t r hr (by simpa using hact)
    simp [hfree] at hheld
  cases hst : r.state with
  | queued => exact .inl rfl
  | sleeping => exact .inr rfl
  | starting | running | idle | finalizing => simp [hst, active] at hinactive
  | completed | failed | cancelled => simp [hst, TaskState.terminal] at hterm

/-- A task has no reservation at the end of a run. -/
def unreserved (t : TaskId) (w : Option System) : Bool :=
  w.any fun w => (w.shared.ledger.reservations.find? t).isNone

theorem active_task_reserved_slept :
    ∃ w r, Reaches demo (sleepUndisturbed demo) slept w ∧
      w.shared.ledger.tasks.find? 1 = some r ∧ r.state.terminal = false ∧
      w.shared.ledger.reservations.find? 1 = none ∧ (r.state = .queued ∨ r.state = .sleeping) := by
  have h : taskState 1 ((backend demo).run System.init slept) = some .sleeping := by
    decide +kernel
  have hfree : unreserved 1 ((backend demo).run System.init slept) = true := by decide +kernel
  have hK : Machine.keeps (sleepUndisturbed demo) System.init slept = true := by decide +kernel
  obtain ⟨w, r, hw, hr, hst⟩ := of_taskState h
  have hterm : r.state.terminal = false := by
    rw [hst]
    rfl
  have hnone : w.shared.ledger.reservations.find? 1 = none := by
    simpa [unreserved, hw] using hfree
  exact ⟨w, r, ⟨hw, hK⟩, hr, hterm, hnone, active_task_reserved ⟨hw, hK⟩ hr hterm hnone⟩

/-- Without the condition an idle task can be left without a reservation, with
nobody midway. -/
theorem active_task_unreserved :
    ¬ ∀ (acts : List (Act demo)) (w : System) (t : TaskId) (r : TaskRecord),
      (backend demo).run System.init acts = some w → Machine.AtRest w .scheduler →
      Machine.AtRest w (.loop t) → w.shared.ledger.tasks.find? t = some r →
      r.state.terminal = false → w.shared.ledger.reservations.find? t = none →
      r.state = .queued ∨ r.state = .sleeping := by
  intro hclaim
  have h : taskState 1 ((backend demo).run System.init raced) = some .idle := by decide +kernel
  have hfree : unreserved 1 ((backend demo).run System.init raced) = true := by decide +kernel
  have hrest : (((backend demo).run System.init raced).any fun w =>
      Machine.free w .scheduler && Machine.free w (.loop 1)) = true := by decide +kernel
  obtain ⟨w, r, hw, hr, hst⟩ := of_taskState h
  simp only [hw, Option.any_some, Bool.and_eq_true, unreserved, Option.isNone_iff_eq_none]
    at hfree hrest
  have hstate := hclaim raced w 1 r hw (Machine.free_iff.mp hrest.1) (Machine.free_iff.mp hrest.2)
    hr (by rw [hst]; rfl) hfree
  simp [hst] at hstate

end GgAgent.Safety
