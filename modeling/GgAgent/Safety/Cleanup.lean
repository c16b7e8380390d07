import GgAgent.Safety.Terminal

/-!
The cleanup status of a task.

`release_reservation` and `mark_sandbox_lost` write the status in the transaction that
deletes the reservation, and nothing ever clears it. So it is truthful until the task is
reserved again, which happens to a workspace that has been put to sleep and then woken by
a message. `TaskService.retry` takes the status for the absence of a reservation.
-/

namespace GgAgent.Safety

open GgAgent.Lib GgAgent.Backend
open GgAgent.Lib.Co (Makes Safe Keeps)

/-! ### The condition -/

def confirmedAbsent (r : TaskRecord) : Bool := r.sandboxCleanupStatus = some "confirmed_absent"

/-- Only tasks without a reservation have the status. -/
def Truthful (l : Ledger) : Prop :=
  ∀ t r, l.tasks.find? t = some r → confirmedAbsent r = true → l.reservations.find? t = none

/-- The task that `reserve_next` claims. -/
def claims (n : Nat) (l : Ledger) : Option TaskRecord :=
  if (1 ≤ n ∧ n ≤ 10) ∧ l.reservations.rows.length < n then l.nextQueued else none

/-- What `retry` asks of a predecessor. -/
def retriable (r : TaskRecord) : Bool := r.state.terminal && confirmedAbsent r

/-- `reserve_next` does not claim a task that has the status, and `finish_task` does not
reopen a task that can be retried. -/
def cleanupKept (cfg : Config) : Cond cfg where
  call _ _ c s _ :=
    match c with
    | .db (.reserveNext n) => (claims n s.ledger).all fun r => !confirmedAbsent r
    | .db (.finishTask t st _ _) => st.terminal || (s.ledger.tasks.find? t).all fun r => !retriable r
    | _ => true

/-! ### Retries -/

/-- How often the thread has read `t`. -/
def reads (t : TaskId) (h : Hist) : Nat :=
  h.countP fun e =>
    match e.call with
    | .db (.get t' _) => t' = t
    | _ => false

/-- Every submission looks up the task that it retries. A thread that submits after two
reads of it is one of `retry`, which read it first; it then submits only if the
predecessor is terminal, or no longer stored, and holds no reservation. -/
def retriesCleaned (cfg : Config) : Cond cfg where
  call _ h c s _ :=
    match c with
    | .submit q => q.retryOf.all fun t => reads t h < 2 ||
        ((s.ledger.reservations.find? t).isNone &&
          (s.ledger.tasks.find? t).all fun r => r.state.terminal)
    | _ => true

/-! ### One transaction -/

/-- What is claimed was the oldest queued task. -/
theorem claims_of_claimed (now : Time) (n : Nat) {l : Ledger} {t : TaskId}
    (hnone : l.reservations.find? t = none)
    (h : (l.reserveNext now n).2.reservations.find? t ≠ none) :
    ∃ r, claims n l = some r ∧ l.tasks.find? t = some r := by
  unfold Ledger.reserveNext at h
  split at h
  next hn =>
    split at h
    · exact absurd hnone h
    next hcap =>
      cases hq : l.nextQueued with
      | none =>
          rw [hq] at h
          exact absurd hnone h
      | some r =>
          have hr : l.tasks.find? r.id = some r :=
            Table.find?_of_mem (List.mem_filter.mp (List.argmin_mem hq)).1
          refine ⟨r, ?_, ?_⟩
          · rw [claims, if_pos ⟨hn, Nat.lt_of_not_le hcap⟩, hq]
          · rw [hq] at h
            have hfree : l.reservations.find? r.id = none := by
              have hg := (List.mem_filter.mp (List.argmin_mem hq)).2
              simp only [decide_eq_true_eq, Option.isNone_iff_eq_none] at hg
              exact hg.2
            by_cases ht : r.id = t
            · rw [← ht]
              exact hr
            · refine absurd ?_ h
              show (l.reservations.insert _).find? t = none
              rw [Table.find?_insert (by exact hfree), if_neg (by exact ht)]
              exact hnone
  next => exact absurd hnone h

theorem truthful_after {c : LedgerCall} {s : Shared}
    (hK : ∀ n, c = .reserveNext n → (claims n s.ledger).all (fun r => !confirmedAbsent r) = true)
    (h : Truthful s.ledger) : Truthful (after c s).ledger := by
  intro t r' hr' hst
  cases hr : s.ledger.tasks.find? t with
  | none =>
      have hnone : (after c s).ledger.tasks.find? t = none := exec_task_none s.clock c hr
      rw [hnone] at hr'
      simp at hr'
  | some r =>
      obtain rfl : r.id = t := Table.key_of_find? hr
      obtain ⟨-, -, -, hnone⟩ | ⟨r'', hr'', hstep⟩ := exec_task s.clock c hr
      · rw [show (after c s).ledger.tasks.find? r.id = none from hnone] at hr'
        simp at hr'
      · obtain rfl : r'' = r' := Option.some.inj (hr''.symm.trans hr')
        -- A status that was there before was of a task without a reservation.
        have hold : confirmedAbsent r = true → (after c s).ledger.reservations.find? r.id = none := by
          intro habs
          have hfree := h r.id r hr habs
          have hres := exec_reservation s.clock c s.ledger r.id
          generalize hx : (c.exec s.clock s.ledger).2.reservations.find? r.id = x at hres
          refine (show (after c s).ledger.reservations.find? r.id = x from hx).trans ?_
          cases hres with
          | same => exact hfree
          | claim n q hq =>
              obtain ⟨q', hclaims, hq'⟩ := claims_of_claimed s.clock n hfree
                (by rw [show (s.ledger.reserveNext s.clock n).2.reservations.find? r.id = _ from hx]
                    simp)
              have hK := hK n rfl
              rw [hclaims, Option.all_some] at hK
              rw [hr] at hq'
              obtain rfl := Option.some.inj hq'
              rw [habs] at hK
              simp at hK
          | update p d st q hq =>
              rw [hfree] at hq
              simp at hq
          | release => rfl
          | lost => rfl
        cases hstep with
        | release st => simp [after, LedgerCall.exec, Ledger.releaseReservation, Ledger.setTask,
            Ledger.commit]
        | lost d =>
            simp [after, LedgerCall.exec, Ledger.markSandboxLost, hr, Ledger.commit]
        | _ => exact hold hst

/-- A predecessor that can be retried, as long as it is stored. -/
structure Retriable (t : TaskId) (s : Shared) : Prop where
  issued : t ∈ s.taskIds
  row : ∀ r, s.ledger.tasks.find? t = some r → retriable r = true
  free : s.ledger.reservations.find? t = none

/-- The call stamps no other status. -/
def Stamps (c : LedgerCall) : Prop := ∀ t st, c = .releaseReservation t st → st = "confirmed_absent"

theorem retriable_after {c : LedgerCall} {s : Shared} {t : TaskId} (hc : Stamps c)
    (hK : ∀ st o d, c = .finishTask t st o d →
      (st.terminal || (s.ledger.tasks.find? t).all fun r => !retriable r) = true)
    (h : Retriable t s) : Retriable t (after c s) := by
  refine ⟨h.issued, fun r' hr' => ?_, ?_⟩
  case refine_2 =>
    have hres := exec_reservation s.clock c s.ledger t
    generalize hx : (c.exec s.clock s.ledger).2.reservations.find? t = x at hres
    refine (show (after c s).ledger.reservations.find? t = x from hx).trans ?_
    cases hres with
    | same => exact h.free
    | claim n q hq hqueued =>
        have hret := h.row q hq
        simp [retriable, hqueued, TaskState.terminal] at hret
    | update ph d st q hq => rw [h.free] at hq; simp at hq
    | release => rfl
    | lost => rfl
  cases hr : s.ledger.tasks.find? t with
  | none =>
      have hnone : (after c s).ledger.tasks.find? t = none := exec_task_none s.clock c hr
      rw [hnone] at hr'
      simp at hr'
  | some r =>
      obtain rfl : r.id = t := Table.key_of_find? hr
      have hret := h.row r hr
      have hterm : r.state.terminal = true := (Bool.and_eq_true_iff.mp hret).1
      have habs : confirmedAbsent r = true := (Bool.and_eq_true_iff.mp hret).2
      obtain ⟨-, -, -, hnone⟩ | ⟨r'', hr'', hstep⟩ := exec_task s.clock c hr
      · rw [show (after c s).ledger.tasks.find? r.id = none from hnone] at hr'
        simp at hr'
      · obtain rfl : r'' = r' := Option.some.inj (hr''.symm.trans hr')
        cases hstep with
        | same => exact hret
        | reserve n hq => rw [hq] at hterm; simp [TaskState.terminal] at hterm
        | adopt p d st hres hr => rw [hr] at hterm; simp at hterm
        | release st =>
            obtain rfl := hc r.id st rfl
            simpa [retriable, confirmedAbsent] using hterm
        | lost d => simp [retriable, confirmedAbsent, stateWhenLost_terminal]
        | settle => simpa [retriable, confirmedAbsent, TaskState.terminal] using habs
        | baseSha | touch | retire => exact hret
        | cancel hq => rw [hq] at hterm; simp [TaskState.terminal] at hterm
        | finish st o d =>
            have hst := hK st o d rfl
            rw [hr, Option.all_some, hret] at hst
            have hst : st.terminal = true := by simpa using hst
            simp only [retriable, Ledger.finished, hst, Bool.true_and]
            exact habs
        | wake hs => rw [hs] at hterm; simp [TaskState.terminal] at hterm
        | sleep hi => rw [hi] at hterm; simp [TaskState.terminal] at hterm
        | workspaceExpired => exact hret

/-! ### One call -/

structure CleanupKnown (s : Shared) : Prop where
  issued : AllIssued s
  truthful : Everywhere Truthful s

/-- What every thread keeps, and relies on. -/
def KeepsRetriable (s s' : Shared) : Prop := ∀ t, Retriable t s → Retriable t s'

theorem truthful_submitted {id : TaskId} {r : Submission} {s : Shared} (hissued : AllIssued s)
    (hid : id ∉ s.taskIds) (h : Truthful s.ledger) : Truthful (submitted id r s).ledger := by
  intro t q hq hst
  have hres : (submitted id r s).ledger.reservations = s.ledger.reservations :=
    (submit_cases s.clock s.ledger id r.idempotencyKey r.repository r.prompt r.baseRef r.retryOf
      r.model r.ownerId).1
  rw [hres]
  obtain hsame | ⟨-, -, row, hrow, -, -, hnone, -⟩ := submitted_task r hissued.ledger hid t
  · exact h t q (hsame ▸ hq) hst
  · rw [hrow] at hq
    obtain rfl := Option.some.inj hq
    simp [confirmedAbsent, hnone] at hst

theorem retriable_submitted {id : TaskId} {r : Submission} {s : Shared} (hissued : AllIssued s)
    (hid : id ∉ s.taskIds) : KeepsRetriable s (submitted id r s) := by
  intro t ht
  have hres : (submitted id r s).ledger.reservations = s.ledger.reservations :=
    (submit_cases s.clock s.ledger id r.idempotencyKey r.repository r.prompt r.baseRef r.retryOf
      r.model r.ownerId).1
  refine ⟨List.mem_cons_of_mem _ ht.issued, fun q hq => ?_, by rw [hres]; exact ht.free⟩
  obtain hsame | ⟨rfl, -⟩ := submitted_task r hissued.ledger hid t
  · exact ht.row q (hsame ▸ hq)
  · exact absurd ht.issued hid

theorem cleanup_event {e : Happening} {s s' : Shared} (hinv : CleanupKnown s)
    (h : e.apply s = some s') : CleanupKnown s' where
  issued := allIssued_event hinv.issued h
  truthful := hinv.truthful.event h
    (fun _ _ _ hid => truthful_submitted hinv.issued hid hinv.truthful.ledger)
    fun t sha _ => truthful_after (by simp) hinv.truthful.ledger

theorem Retriable.of_same {t : TaskId} {s s' : Shared} (hledger : s'.ledger = s.ledger)
    (hids : s'.taskIds = s.taskIds) (h : Retriable t s) : Retriable t s' :=
  ⟨hids ▸ h.issued, hledger ▸ h.row, hledger ▸ h.free⟩

theorem keepsRetriable_event {e : Happening} {s s' : Shared} (hinv : CleanupKnown s)
    (h : e.apply s = some s') (hkill : e.kills = false) : KeepsRetriable s s' := by
  intro t ht
  obtain ⟨id, r, rfl, hid, rfl⟩ | ⟨u, sha, rfl, rfl⟩ | ⟨l, rfl, -⟩ | ⟨hledger, hids⟩ := event_cases h
  · exact retriable_submitted hinv.issued hid t ht
  · exact retriable_after (by simp [Stamps]) (by simp) ht
  · simp [Happening.kills] at hkill
  · exact ht.of_same hledger hids

theorem cleanup_answer {cfg : Config} {p : Pid} {h : Hist} {o : Oracle} {c : Call} {s s' : Shared}
    {a : c.Out} (hinv : CleanupKnown s) (hK : (cleanupKept cfg).call p h c s a = true)
    (hc : ∀ d, c = .db d → Stamps d) (ha : s.answer p o c = some (a, s')) :
    CleanupKnown s' ∧ KeepsRetriable s s' := by
  have hreserve : ∀ d, c = .db d → ∀ n, d = .reserveNext n →
      (claims n s.ledger).all (fun r => !confirmedAbsent r) = true := by
    rintro d rfl n rfl
    exact hK
  refine ⟨⟨allIssued_answer hinv.issued ha, hinv.truthful.answer ha (fun d hd =>
    truthful_after (hreserve d hd) hinv.truthful.ledger) fun id q _ hid =>
      truthful_submitted hinv.issued hid hinv.truthful.ledger⟩, ?_⟩
  intro t ht
  obtain ⟨d, rfl, rfl⟩ | ⟨id, q, -, he⟩ | ⟨-, hsame⟩ := answer_cases ha
  · refine retriable_after (hc d rfl) ?_ ht
    rintro st o d rfl
    exact hK
  · exact keepsRetriable_event hinv he rfl t ht
  · exact ht.of_same hsame.ledger hsame.taskIds

/-! ### Programs -/

abbrev cleanupContract (cfg : Config) (p : Pid) :=
  Machine.contract (cleanupKept cfg) CleanupKnown (fun _ => KeepsRetriable) (fun _ => KeepsRetriable)
    p (retriesCleaned cfg)

/-- The call submits nothing and stamps no other status. -/
structure Ordinary (c : Call) : Prop where
  stamps : ∀ d, c = .db d → Stamps d
  submits : ∀ q, c ≠ .submit q

section Programs

variable {cfg : Config} {p : Pid} {α : Type} {r : Routine α}

theorem retriesCleaned_of_ordinary {h : Hist} {c : Call} {s : Shared} {a : c.Out}
    (hc : Ordinary c) : (retriesCleaned cfg).call p h c s a = true := by
  cases c with
  | submit q => exact absurd rfl (hc.submits q)
  | _ => rfl

theorem keeps_ordinary (hr : Makes Ordinary r) :
    Keeps (cleanupContract cfg p) (fun _ => True) r := by
  refine keeps_of_makes_owing hr (fun _ _ _ _ _ => trivial) fun c s o a s' h hc _ hinv hK ha => ?_
  obtain ⟨hinv', hguar⟩ := cleanup_answer hinv hK hc.stamps ha
  exact ⟨hinv', hguar, retriesCleaned_of_ordinary hc, trivial⟩

theorem ordinary_of_inert {c : Call} (hc : c.inert = true) : Ordinary c := by
  refine ⟨?_, ?_⟩
  · rintro d rfl t st rfl
    simp [Call.inert, LedgerCall.inert] at hc
  · rintro q rfl
    simp [Call.inert] at hc

theorem ordinary_of_schedulerCall {c : Call} (hc : Scheduler.schedulerCall c = true) :
    Ordinary c := by
  refine ⟨?_, ?_⟩
  · rintro d rfl t st rfl
    simpa [Scheduler.schedulerCall, Scheduler.recoveryCall, Scheduler.admissionCall,
      Scheduler.createCall, Scheduler.upkeepCall, Scheduler.tendCall, Call.inert,
      LedgerCall.inert] using hc
  · rintro q rfl
    simp [Scheduler.schedulerCall, Scheduler.recoveryCall, Scheduler.admissionCall,
      Scheduler.createCall, Scheduler.upkeepCall, Scheduler.tendCall, Call.inert] at hc

theorem ordinary_of_loopCall {t : TaskId} {c : Call} (hc : Manager.loopCall t c = true) :
    Ordinary c := by
  refine ⟨?_, ?_⟩
  · rintro d rfl u st rfl
    simp only [Manager.loopCall, Manager.startCall, Manager.followupCall, Manager.recordCall,
      Manager.saveCall, Manager.sendCall, Manager.failCall, Manager.cleanupCall, Manager.driveCall,
      Manager.lockCall, Call.inert, LedgerCall.inert] at hc
    have hc : u = t ∧ st = "confirmed_absent" := by simpa using hc
    exact hc.2
  · rintro q rfl
    simp [Manager.loopCall, Manager.startCall, Manager.followupCall, Manager.recordCall,
      Manager.saveCall, Manager.sendCall, Manager.failCall, Manager.cleanupCall, Manager.driveCall,
      Manager.lockCall, Call.inert] at hc

theorem ordinary_of_messageCall {t : TaskId} {c : Call} (hc : Manager.messageCall t c = true) :
    Ordinary c := by
  refine ⟨?_, ?_⟩
  · rintro d rfl t st rfl
    simp [Manager.messageCall, Call.inert, LedgerCall.inert] at hc
  · rintro q rfl
    simp [Manager.messageCall, Call.inert] at hc

theorem ordinary_of_cancelCall {t : TaskId} {c : Call} (hc : Service.cancelCall t c = true) :
    Ordinary c := by
  refine ⟨?_, ?_⟩
  · rintro d rfl t st rfl
    simp [Service.cancelCall] at hc
  · rintro q rfl
    simp [Service.cancelCall] at hc

/-! #### Submissions -/

/-- The task that the request retries can be retried, or the thread has read it at most
`n` times. -/
def Fit (n : Nat) (request : CreateTaskRequest) (w : Shared × Hist) : Prop :=
  ∀ t, request.retryOf = some t → Retriable t w.1 ∨ reads t w.2 ≤ n

variable {n : Nat} {request : CreateTaskRequest} {owner : Option OwnerId}

theorem Fit.rely {s s' : Shared} {h : Hist} (hfit : Fit n request (s, h))
    (hrely : KeepsRetriable s s') : Fit n request (s', h) :=
  fun t ht => (hfit t ht).imp (hrely t) id

theorem reads_cons_le (t : TaskId) (e : Entry Call.Out Shared) (h : Hist) :
    reads t (e :: h) ≤ reads t h + 1 := by
  unfold reads
  rw [List.countP_cons]
  refine Nat.add_le_add_left ?_ _
  generalize (match e.call with
    | .db (.get t' _) => decide (t' = t)
    | _ => false) = b
  cases b <;> simp

theorem reads_cons_of_ne (t : TaskId) {e : Entry Call.Out Shared} (h : Hist)
    (he : ∀ u o, e.call ≠ .db (.get u o)) : reads t (e :: h) = reads t h := by
  unfold reads
  refine List.countP_cons_of_neg ?_
  split
  next u o heq => exact absurd heq (he u o)
  next => simp

/-- What reads no task leaves the number of reads as it is. -/
theorem keeps_fit (hr : Makes (fun c => Ordinary c ∧ ∀ u o, c ≠ .db (.get u o)) r) :
    Keeps (cleanupContract cfg p) (Fit n request) r := by
  refine keeps_of_makes_owing hr (fun _ _ _ hfit hrely => hfit.rely hrely)
    fun c s o a s' h hc hfit hinv hK ha => ?_
  obtain ⟨hinv', hguar⟩ := cleanup_answer hinv hK hc.1.stamps ha
  refine ⟨hinv', hguar, retriesCleaned_of_ordinary hc.1, fun t ht => ?_⟩
  refine (hfit t ht).imp (hguar t) fun hreads => ?_
  rw [reads_cons_of_ne t h hc.2]
  exact hreads

theorem keeps_resolveBaseSha :
    Keeps (cleanupContract cfg p) (Fit n request) (Service.resolveBaseSha cfg request owner) := by
  unfold Service.resolveBaseSha
  split
  · split
    · exact Keeps.throw _
    · split
      · exact Keeps.throw _
      · refine Keeps.bind (keeps_fit (makes_ext ⟨ordinary_of_inert rfl, by simp⟩)) fun reply => ?_
        split
        · exact Keeps.pure _
        · exact Keeps.throw _
        · exact Keeps.throw _
  · exact Keeps.pure _

/-- The lookup of the predecessor is one read. -/
theorem safe_checkRetryOf {w : Shared × Hist} (hw : Fit n request w) :
    Safe (cleanupContract cfg p) (Service.checkRetryOf request owner)
      (fun _ => Fit (n + 1) request) (fun _ _ => True) w := by
  unfold Service.checkRetryOf
  split
  next hnone => exact fun t ht => by rw [hnone] at ht; simp at ht
  next u hu =>
    obtain ⟨s, h⟩ := w
    refine Safe.bind (safe_db_owing fun s₁ hinv hrely _ => ⟨hinv, fun _ h => h, rfl, ?_⟩)
    have hfit : Fit (n + 1) request (after (.get u owner) s₁, ⟨.db (.get u owner),
        reply (.get u owner) s₁, s₁⟩ :: h) := fun t ht =>
      ((hw.rely hrely) t ht).imp id fun hreads =>
        (reads_cons_le t _ h).trans (Nat.add_le_add_right hreads 1)
    show Safe _ _ _ _ _
    split
    · trivial
    · exact hfit

/-- A task is submitted with at most one read of its predecessor, or with a predecessor
that can be retried. -/
theorem safe_enrol {w : Shared × Hist} (hw : Fit 1 request w) :
    Safe (cleanupContract cfg p) (Backend.submit (request.submission owner)) (fun _ _ => True)
      (fun _ _ => True) w := by
  obtain ⟨s, h⟩ := w
  refine safe_call_owing fun s₁ o a s₂ hinv hrely hK ha => ?_
  obtain ⟨hinv', hguar⟩ := cleanup_answer hinv hK (by simp) ha
  refine ⟨hinv', hguar, ?_, ?_⟩
  · show (Option.all _ request.retryOf) = true
    cases hret : request.retryOf with
    | none => rfl
    | some t =>
        rw [Option.all_some, Bool.or_eq_true]
        rcases (hw.rely hrely) t hret with hclean | hreads
        · refine .inr ?_
          rw [hclean.free, Option.isNone_none, Bool.true_and]
          cases hrow : s₁.ledger.tasks.find? t with
          | none => rfl
          | some r =>
              have hr := hclean.row r hrow
              simp only [retriable, Bool.and_eq_true] at hr
              exact hr.1
        · exact .inl (decide_eq_true (Nat.lt_succ_of_le hreads))
  · cases a <;> trivial

theorem safe_submit {w : Shared × Hist} (hw : Fit 0 request w) :
    Safe (cleanupContract cfg p) (Service.submit cfg request owner) (fun _ _ => True)
      (fun _ _ => True) w := by
  unfold Service.submit
  split
  · trivial
  · refine Safe.seq (Safe.mono (keeps_resolveBaseSha w hw) (fun _ _ h => h) fun _ _ _ => trivial)
      fun baseSha w hw => ?_
    refine Safe.seq (safe_checkRetryOf hw) fun _ w hw => ?_
    have hpressure : Makes (fun c => Ordinary c ∧ ∀ u o, c ≠ .db (.get u o))
        Service.checkPressure := by
      refine Makes.bind (makes_ext ⟨ordinary_of_inert rfl, by simp⟩) fun pressure => ?_
      split <;> trivial
    refine Safe.seq (Safe.mono (keeps_fit hpressure w hw) (fun _ _ h => h) fun _ _ _ => trivial)
      fun _ w hw => ?_
    refine Safe.seq (safe_enrol hw) fun x w _ => ?_
    exact keeps_ordinary ((Service.inert_settleSubmission request baseSha x.1 x.2).mono fun _ =>
      ordinary_of_inert) w trivial

/-- `retry` has read a predecessor that can be retried. -/
theorem safe_retry (t : TaskId) (body : RetryTaskRequest) (w : Shared × Hist) :
    Safe (cleanupContract cfg p) (Service.retry cfg t body owner) (fun _ _ => True)
      (fun _ _ => True) w := by
  obtain ⟨s, h⟩ := w
  refine Safe.bind (safe_db_owing fun s₁ hinv _ _ => ⟨hinv, fun _ h => h, rfl, ?_⟩)
  have hreply : reply (.get t owner) s₁ = .ok (s₁.ledger.get t owner) := rfl
  rw [hreply]
  dsimp only
  split
  · trivial
  next r hr =>
    split
    · trivial
    next hterm =>
      split
      · trivial
      next hstatus =>
        split
        · trivial
        · refine safe_submit fun u hu => .inl ?_
          obtain rfl : t = u := Option.some.inj hu
          have hrow : s₁.ledger.tasks.find? t = some r := (Option.filter_eq_some_iff.mp hr).1
          have habs : confirmedAbsent r = true := by simpa [confirmedAbsent] using hstatus
          refine ⟨hinv.issued.ledger t r hrow, fun r' hr' => ?_,
            hinv.truthful.ledger t r hrow habs⟩
          obtain rfl : r = r' := Option.some.inj (hrow.symm.trans hr')
          simpa [retriable, habs] using hterm

/-! #### What marks a retry -/

/-- A submission of a successor of `t`, after two reads of `t`. -/
def readsTwice (cfg : Config) (t : TaskId) : Cond cfg where
  call _ h c _ _ :=
    match c with
    | .submit q => q.retryOf = some t && 2 ≤ reads t h
    | _ => true

abbrev readsContract (cfg : Config) (t : TaskId) (p : Pid) :=
  Machine.contract {} (fun _ => True) (fun _ _ _ => True) (fun _ _ _ => True) p (readsTwice cfg t)

theorem keeps_reads {t : TaskId} (hr : Makes (fun c => ∀ q, c ≠ .submit q) r) :
    Keeps (readsContract cfg t p) (fun w => n ≤ reads t w.2) r := by
  refine keeps_of_makes_owing hr (fun _ _ _ h _ => h) fun c s o a s' h hc hreads _ _ _ => ?_
  refine ⟨trivial, trivial, ?_, ?_⟩
  · cases c with
    | submit q => exact absurd rfl (hc q)
    | _ => rfl
  · refine Nat.le_trans hreads ?_
    unfold reads
    rw [List.countP_cons]
    exact Nat.le_add_right _ _

theorem safe_read {t : TaskId} {w : Shared × Hist} (hw : n ≤ reads t w.2) :
    Safe (readsContract cfg t p) (db (.get t owner)) (fun _ w => n + 1 ≤ reads t w.2)
      (fun _ _ => True) w := by
  obtain ⟨s, h⟩ := w
  refine safe_db_owing fun s₁ _ _ _ => ⟨trivial, trivial, rfl, ?_⟩
  show n + 1 ≤ reads t (⟨.db (.get t owner), _, s₁⟩ :: h)
  unfold reads
  rw [List.countP_cons_of_pos (by simp)]
  exact Nat.add_le_add_right hw 1

theorem safe_submit_reads {t : TaskId} (hret : request.retryOf = some t) {w : Shared × Hist}
    (hw : 1 ≤ reads t w.2) :
    Safe (readsContract cfg t p) (Service.submit cfg request owner) (fun _ _ => True)
      (fun _ _ => True) w := by
  have hno : ∀ {β : Type} {m : Nat} {r : Routine β}, Inert r →
      Keeps (readsContract cfg t p) (fun w => m ≤ reads t w.2) r :=
    fun hr => keeps_reads (hr.mono fun _ hc => (ordinary_of_inert hc).submits)
  unfold Service.submit
  split
  · trivial
  · refine Safe.seq (Safe.mono (hno (Service.inert_resolveBaseSha cfg request owner) w hw)
      (fun _ _ h => h) fun _ _ _ => trivial) fun baseSha w hw => ?_
    refine Safe.seq (Q := fun _ w => 2 ≤ reads t w.2) ?_ fun _ w hw => ?_
    · unfold Service.checkRetryOf
      rw [hret]
      refine Safe.seq (safe_read hw) fun found w hw => ?_
      split
      · trivial
      · exact hw
    · refine Safe.seq (Safe.mono (hno Service.inert_checkPressure w hw) (fun _ _ h => h)
        fun _ _ _ => trivial) fun _ w hw => ?_
      refine Safe.seq (Q := fun _ _ => True) ?_ fun x w _ => ?_
      · obtain ⟨s, h⟩ := w
        refine safe_call_owing fun s₁ o a s₂ _ _ _ _ => ⟨trivial, trivial, ?_, ?_⟩
        · show (decide (request.retryOf = some t) && decide (2 ≤ reads t h)) = true
          rw [hret]
          simpa using hw
        · cases a <;> trivial
      · exact Safe.mono (hno (Service.inert_settleSubmission request baseSha x.1 x.2) (m := 0) w
          (Nat.zero_le _)) (fun _ _ _ => trivial) fun _ _ _ => trivial

/-- Every submission by `retry` is marked by its reads. -/
theorem retry_reads_twice (t : TaskId) (body : RetryTaskRequest) (w : Shared × Hist) :
    Safe (readsContract cfg t p) (Service.retry cfg t body owner) (fun _ _ => True)
      (fun _ _ => True) w := by
  refine Safe.seq (safe_read (Nat.zero_le _)) fun task? w hw => ?_
  split
  · trivial
  · split
    · trivial
    · split
      · trivial
      · split
        · trivial
        · exact safe_submit_reads rfl hw

/-- A request has read nothing when it starts. -/
theorem safe_cleanup_handle (q : Route) (s : Shared) :
    Safe (cleanupContract cfg p) (Routes.handle cfg q) (fun _ _ => True) (fun _ _ => True)
      (s, []) := by
  have hdurable : ∀ {β : Type} (x : β) (w : Shared × Hist), Safe (cleanupContract cfg p)
      (do ensureDurable; pure x) (fun _ _ => True) (fun _ _ => True) w := by
    intro β x w
    refine keeps_ordinary (Makes.bind ?_ fun _ => ?_) w trivial
    · exact Lifecycle.inert_ensureDurable.mono fun _ => ordinary_of_inert
    · trivial
  cases q with
  | submitTask body owner =>
      exact Safe.seq (safe_submit fun t _ => .inr (Nat.le_refl 0)) fun x w _ =>
        hdurable (Answer.submitted x.1) w
  | retryTask t body owner =>
      exact Safe.seq (safe_retry t body _) fun x w _ => hdurable (Answer.submitted x.1) w
  | sendTaskMessage t m content owner =>
      refine keeps_ordinary ?_ _ trivial
      refine Makes.bind (makes_db ⟨?_, by simp⟩) fun task? => ?_
      · rintro d ⟨⟩ u st ⟨⟩
      · split
        · trivial
        · exact Makes.bind ((Manager.makes_sendMessage cfg t m content).mono fun _ =>
            ordinary_of_messageCall) fun _ => trivial
  | cancelTask t owner =>
      refine Safe.seq (keeps_ordinary ((Service.makes_cancel t owner).mono fun _ =>
        ordinary_of_cancelCall) _ trivial) fun record w _ => hdurable (Answer.cancelled record) w

end Programs

/-! ### Runs -/

theorem sound_cleanupKept (cfg : Config) :
    Machine.Sound (cleanupKept cfg) CleanupKnown (fun _ => KeepsRetriable) (fun _ => KeepsRetriable)
      (fun _ _ _ => True) (retriesCleaned cfg) where
  rely_trans _ _ _ _ h h' t ht := h' t (h t ht)
  guar_rely _ _ _ _ _ h := h
  job p j s prog s' hinv hj := by
    obtain ⟨hstarted, ph, rfl⟩ := start_cases hj
    refine ⟨⟨⟨hinv.issued.ledger, hinv.issued.published, hinv.issued.confirmed⟩,
      ⟨hinv.truthful.ledger, hinv.truthful.published, hinv.truthful.confirmed⟩⟩,
      fun t ht => ⟨ht.issued, ht.row, ht.free⟩, ?_⟩
    have hrun : ∀ {α : Type} {r : Routine α} {f : α → Ending}, Makes Ordinary r →
        (r.ending f).Safe (cleanupContract cfg p) (fun _ _ => True) ({ s with phase := ph }, []) :=
      fun hr => safe_ending (keeps_ordinary hr _ trivial)
    cases hstarted with
    | boot => exact hrun (Scheduler.makes_lifespan.mono fun _ => ordinary_of_schedulerCall)
    | cycle => exact hrun ((Scheduler.makes_dispatchOnce cfg).mono fun _ => ordinary_of_schedulerCall)
    | shutdown =>
        exact hrun (Scheduler.makes_stop.mono fun _ hc =>
          ordinary_of_schedulerCall (Scheduler.schedulerCall_of_recoveryCall hc))
    | iterate t => exact hrun ((App.makes_activation cfg t).mono fun _ => ordinary_of_loopCall)
    | message n t m content =>
        exact hrun ((Manager.makes_sendMessage cfg t m content).mono fun _ =>
          ordinary_of_messageCall)
    | cancel n t owner => exact hrun ((Service.makes_cancel t owner).mono fun _ => ordinary_of_cancelCall)
    | route n q => exact safe_ending (safe_cleanup_handle q _)
  event e s s' hinv _ he :=
    ⟨cleanup_event hinv he, fun hkill _ => keepsRetriable_event hinv he hkill⟩

theorem cleanupKnown_init : CleanupKnown Shared.init :=
  ⟨allIssued_init, ⟨by simp [Truthful, Shared.init, Ledger.empty], by simp [Shared.init],
    by simp [Shared.init]⟩⟩

/-- In every state of a run in which no task with the status is reserved again, the
status is truthful, and every retry was of a terminal task without a reservation. -/
theorem cleanup_status_truthful {cfg : Config} {acts : List (Act cfg)} {w : System}
    (h : Reaches cfg (cleanupKept cfg) acts w) :
    (∀ t r, w.shared.ledger.tasks.find? t = some r →
      r.sandboxCleanupStatus = some "confirmed_absent" →
      w.shared.ledger.reservations.find? t = none) ∧
    Machine.keeps (retriesCleaned cfg) System.init acts = true := by
  have hsound := sound_cleanupKept cfg
  have hrefl : ∀ (_ : Pid) (s : Shared), KeepsRetriable s s := fun _ _ _ h => h
  have hinit : Machine.Ok (cleanupKept cfg) CleanupKnown (fun _ => KeepsRetriable)
      (fun _ => KeepsRetriable) (fun _ _ _ => True) System.init (retriesCleaned cfg) :=
    ok_init cleanupKnown_init
  refine ⟨fun t r hr hst => ?_, hsound.keeps_duty hrefl (fun _ _ => rfl) hinit h.keeps⟩
  have hok := hsound.run hrefl hinit h.keeps h.run
  exact hok.1.truthful.ledger t r hr (by simp [confirmedAbsent, hst])

/-- Task 1 is lost with its sandbox, and then retried as task 2. -/
def retried : List (Act demo) :=
  started ++ [.event (.submit 1 { request with model := "z-ai/glm-5.3-flashx" }),
    .start .scheduler .cycle] ++ calls .scheduler 1 fine ++ snapshot ++ calls .scheduler 4 fine ++
    snapshot ++ calls .scheduler 12 fine ++ snapshot ++ calls .scheduler 8 fine ++ snapshot ++
    calls .scheduler 4 fine ++ snapshot ++ calls .scheduler 6 fine ++
    [.start .scheduler .cycle] ++ calls .scheduler 1 gone ++ snapshot ++ calls .scheduler 12 gone ++
    snapshot ++ calls .scheduler 7 gone ++
    [.start (.request 1) (.route (.retryTask 1 ⟨"again", none⟩ none))] ++
    calls (.request 1) 5 { fine with uuid := 2 }

theorem cleanup_status_truthful_retried :
    ∃ w, Reaches demo (cleanupKept demo) retried w ∧
      (w.shared.ledger.tasks.find? 2).map TaskRecord.retryOf = some (some 1) ∧
      (∀ t r, w.shared.ledger.tasks.find? t = some r →
        r.sandboxCleanupStatus = some "confirmed_absent" →
        w.shared.ledger.reservations.find? t = none) ∧
      Machine.keeps (retriesCleaned demo) System.init retried = true := by
  have hrow : ((backend demo).run System.init retried).map (fun w =>
      (w.shared.ledger.tasks.find? 2).map TaskRecord.retryOf) = some (some (some 1)) := by
    decide +kernel
  obtain ⟨w, hw, hretry⟩ := Option.map_eq_some_iff.mp hrow
  have hreach : Reaches demo (cleanupKept demo) retried w := ⟨hw, by decide +kernel⟩
  exact ⟨w, hreach, hretry, cleanup_status_truthful hreach⟩

/-- The execution has completed, and its checks have failed. -/
def checksFailed : Oracle :=
  { passed with ext := fun c =>
      match c with
      | .fetchManifest _ _ => .ok (some ⟨none, .failed, .succeeded, none⟩)
      | c => passed.ext c }

/-- Task 1 is put to sleep after a failed check, message 7 wakes it, and the next cycle
reserves it again. -/
def woken : List (Act demo) :=
  supervised ++ [.start (.loop 1) .iterate] ++ calls (.loop 1) 13 checksFailed ++ snapshot ++
    calls (.loop 1) 8 checksFailed ++ [.start (.loop 1) .iterate] ++
    calls (.loop 1) 15 checksFailed ++ [.event (.tick (minutes 45))] ++ parking ++ parkedAway ++
    [.start (.request 1) (.message 1 7 "more")] ++ calls (.request 1) 11 fine ++ snapshot ++
    calls (.request 1) 3 fine ++
    [.start .scheduler .cycle] ++ calls .scheduler 5 fine ++ snapshot ++ calls .scheduler 11 fine

/-- A task that is reserved has the status of its last sandbox. -/
theorem reserved_with_cleanup_status :
    ¬ ∀ (acts : List (Act demo)) (w : System), (backend demo).run System.init acts = some w →
      (∀ t r, w.shared.ledger.tasks.find? t = some r →
        r.sandboxCleanupStatus = some "confirmed_absent" →
        w.shared.ledger.reservations.find? t = none) ∧
      Machine.keeps (retriesCleaned demo) System.init acts = true := by
  intro hclaim
  have h : ((backend demo).run System.init woken).map (fun w =>
      ((w.shared.ledger.tasks.find? 1).map TaskRecord.sandboxCleanupStatus,
        (w.shared.ledger.reservations.find? 1).isSome)) =
      some (some (some "confirmed_absent"), true) := by decide +kernel
  obtain ⟨w, hw, hrow⟩ := Option.map_eq_some_iff.mp h
  obtain ⟨hstatus, hres⟩ := Prod.mk.inj hrow
  obtain ⟨r, hr, hst⟩ := Option.map_eq_some_iff.mp hstatus
  rw [(hclaim woken w hw).1 1 r hr hst] at hres
  simp at hres

end GgAgent.Safety
