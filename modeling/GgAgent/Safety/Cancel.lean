import GgAgent.Safety.Terminal

/-!
Recorded cancels.

A cancel that is acknowledged is recorded as the state of a queued task or as a
flag of the supervision row, and no write resets the flag. It can still be lost
before it is recorded: `cancel` reads the state in one transaction and acts in
another, and a task has no supervision row for some time after it has left the
queue.
-/

namespace GgAgent.Safety

open GgAgent.Lib GgAgent.Backend
open GgAgent.Lib.Co (Makes Safe Keeps)

/-- The supervision row of `t` carries a cancel request. -/
def flagged (t : TaskId) (l : Ledger) : Bool :=
  (l.supervisions.find? t).any SupervisionRecord.cancelRequested

theorem flagged_iff {t : TaskId} {l : Ledger} : flagged t l = true ↔
    ∃ row, l.supervisions.find? t = some row ∧ row.cancelRequested = true := by
  unfold flagged
  cases l.supervisions.find? t with
  | none => simp
  | some row => simp

/-- Retention has retired the rows of `t`, and nothing makes a new one. -/
def retired (t : TaskId) (l : Ledger) : Bool :=
  (l.supervisions.find? t).isNone && !l.hasPayload t

/-- A cancel request of `t` is on record, or the task has been retired. -/
def Recorded (t : TaskId) (s : Shared) : Prop :=
  flagged t s.ledger = true ∨ t ∈ s.taskIds ∧ retired t s.ledger = true

def KeepsRecorded (s s' : Shared) : Prop := ∀ t, Recorded t s → Recorded t s'

/-- What an acknowledgement of a cancel promises. -/
def Acknowledged (t : TaskId) (s : Shared) : Prop :=
  (∃ r, s.ledger.tasks.find? t = some r ∧ r.state = .cancelled) ∨ flagged t s.ledger = true

/-- The call does not reset a cancel flag. -/
def NoReset (c : Call) : Prop := ∀ t e k v g, c ≠ .db (.updateSupervision t e k v (some false) g)

/-! ### One call -/

theorem recorded_after {c : LedgerCall} {s : Shared} {t : TaskId} (hissued : AllIssued s)
    (hc : NoReset (.db c)) (h : Recorded t s) : Recorded t (after c s) := by
  have hstep := exec_supervision s.clock c s.ledger t
  generalize hx : (c.exec s.clock s.ledger).2.supervisions.find? t = x at hstep
  have hx' : (after c s).ledger.supervisions.find? t = x := hx
  rcases h with hflag | ⟨hmem, hret⟩
  · unfold flagged at hflag
    cases hstep with
    | same => exact .inl (by unfold flagged; rw [hx']; exact hflag)
    | begin e b k hp hnone => rw [hnone] at hflag; simp at hflag
    | update e k v d g q hq =>
        rw [hq] at hflag
        refine .inl ?_
        unfold flagged
        rw [hx']
        cases d with
        | none => exact hflag
        | some d =>
            cases d with
            | true => rfl
            | false => exact absurd rfl (hc t e k v g)
    | retire b n r hr hterm hres hgone =>
        refine .inr ⟨hissued.ledger t r hr, ?_⟩
        have hgone' : (after (.expireTerminalPayloads b n) s).ledger.tasks.find? t =
            some r.retired := hgone
        simp [retired, hx', Ledger.hasPayload, hgone', TaskRecord.retired]
  · simp only [retired, Bool.and_eq_true, Option.isNone_iff_eq_none, Bool.not_eq_true'] at hret
    refine .inr ⟨hmem, ?_⟩
    have hpay := hasPayload_after (c := c) hret.2
    have hnone : x = none := by
      cases hstep with
      | same => exact hret.1
      | begin e b k hp => rw [hret.2] at hp; simp at hp
      | update e k v d g q hq => rw [hret.1] at hq; simp at hq
      | retire => rfl
    simp [retired, hx', hnone, hpay]

/-! ### The condition -/

/-- The thread has recorded a cancel of `t`. -/
def cancelWritten (t : TaskId) (h : Hist) : Bool :=
  h.any fun e =>
    match e.call with
    | .db (.updateSupervision t' _ _ _ (some true) _) => decide (t' = t)
    | _ => false

/-- A snapshot that is restored has the cancels that were recorded, and the retired
tasks. -/
def cancelsSurvive (e : Happening) (s : Shared) : Bool :=
  match e with
  | .restore => s.confirmed.all fun l =>
      s.ledger.supervisions.rows.all (fun r => !r.cancelRequested || flagged r.taskId l) &&
        s.taskIds.all fun t => !retired t s.ledger || retired t l
  | _ => true

/-- A cancel meets the task as its request first saw it. A task that was queued is
still queued, or cancelled, when it is cancelled; a task that was being worked on
has a supervision row when the request looks for it; and its payload is not
retired before the request returns. -/
def cancelFindsTask (cfg : Config) : Cond cfg where
  call p h c s _ :=
    match p, c with
    | .request _, .db (.cancelQueuedTask t) => flagged t s.ledger ||
        (s.ledger.tasks.find? t).all fun r => r.state = .queued || r.state = .cancelled
    | .request _, .db (.getSupervision t) => (s.ledger.supervisions.find? t).isSome
    | .request _, .db (.get t none) => !cancelWritten t h || s.ledger.hasPayload t
    | _, _ => true
  event := cancelsSurvive

/-! ### Events -/

theorem keepsRecorded_event {e : Happening} {s s' : Shared} (hinv : AllIssued s)
    (hK : cancelsSurvive e s = true) (h : e.apply s = some s') :
    KeepsRecorded s s' := by
  cases e with
  | submit id r =>
      have hid := fresh_of_submit h
      obtain rfl := apply_submit h
      obtain ⟨-, -, hsup, -, -⟩ := submit_cases s.clock s.ledger id r.idempotencyKey r.repository
        r.prompt r.baseRef r.retryOf r.model r.ownerId
      have hsup' : (submitted id r s).ledger.supervisions = s.ledger.supervisions := hsup
      rintro t (hflag | ⟨hmem, hret⟩)
      · refine .inl ?_
        unfold flagged
        rw [hsup']
        exact hflag
      · refine .inr ⟨List.mem_cons_of_mem _ hmem, ?_⟩
        obtain hsame | ⟨rfl, -⟩ := submitted_task r hinv.ledger hid t
        · unfold retired Ledger.hasPayload
          rw [hsup', hsame]
          exact hret
        · exact absurd hmem hid
  | recordBaseSha t sha =>
      obtain rfl := Option.some.inj h
      exact fun t' ht' => recorded_after (c := .recordBaseSha t (some sha)) hinv
        (by rintro _ _ _ _ _ ⟨⟩) ht'
  | confirm =>
      simp only [Happening.apply] at h
      split at h
      · obtain rfl := Option.some.inj h
        exact fun _ ht => ht
      · simp at h
  | requestStop =>
      simp only [Happening.apply] at h
      split at h
      · obtain rfl := Option.some.inj h
        exact fun _ ht => ht
      · simp at h
  | restore =>
      simp only [Happening.apply] at h
      split at h
      · obtain ⟨l, hl, rfl⟩ := Option.map_eq_some_iff.mp h
        simp only [cancelsSurvive, hl, Option.all_some, Bool.and_eq_true, List.all_eq_true,
          Bool.or_eq_true, Bool.not_eq_true'] at hK
        rintro t (hflag | ⟨hmem, hret⟩)
        · obtain ⟨row, hrow, hset⟩ := flagged_iff.mp hflag
          obtain rfl : row.taskId = t := Table.key_of_find? hrow
          rcases hK.1 row (Table.mem_of_find? hrow) with hunset | hkept
          · rw [hset] at hunset
            simp at hunset
          · exact .inl hkept
        · rcases hK.2 t hmem with hnot | hkept
          · rw [hret] at hnot
            simp at hnot
          · exact .inr ⟨hmem, hkept⟩
      · simp at h
  | tick | sandboxEnds | publish | crash =>
      obtain rfl := Option.some.inj h
      exact fun _ ht => ht

/-! ### Programs -/

/-- A program that returns an acknowledgement has kept its promise. -/
def acknowledgedEnd (_ : Pid) (e : Ending) (w : Shared × Hist) : Prop :=
  match e with
  | .cancelled t _ => Acknowledged t w.1
  | _ => True

abbrev recordedContract (cfg : Config) (p : Pid) :=
  Machine.contract (cancelFindsTask cfg) AllIssued (fun _ => KeepsRecorded) (fun _ => KeepsRecorded) p

section Programs

variable {cfg : Config} {p : Pid} {t : TaskId} {α : Type} {s s' : Shared}

theorem recorded_of_sameStore (hs : SameStore s s') : KeepsRecorded s s' := by
  intro t ht
  unfold Recorded
  rw [hs.taskIds, hs.ledger]
  exact ht

theorem keepsRecorded_answer {o : Oracle} {c : Call} {a : c.Out} (hinv : AllIssued s)
    (hc : NoReset c) (ha : s.answer p o c = some (a, s')) : KeepsRecorded s s' := by
  obtain ⟨d, rfl, rfl⟩ | ⟨id, q, rfl, he⟩ | ⟨-, hsame⟩ := answer_cases ha
  · exact fun t ht => recorded_after hinv hc ht
  · exact keepsRecorded_event hinv rfl he
  · exact recorded_of_sameStore hsame

theorem keeps_of_noReset {r : Routine α} (hr : Makes NoReset r) :
    Keeps (recordedContract cfg p) (fun _ => True) r := by
  refine keeps_of_makes hr (fun _ _ _ _ _ => trivial) fun c s o a s' h hc _ hinv hK ha => ?_
  exact ⟨allIssued_answer hinv ha, keepsRecorded_answer hinv hc ha, trivial⟩

theorem noReset_of_inert {c : Call} (hc : c.inert = true) : NoReset c := by
  rintro t e k v g rfl
  cases e <;> cases k <;> simp [Call.inert, LedgerCall.inert] at hc

theorem noReset_of_loopCall {c : Call} (hc : Manager.loopCall t c = true) : NoReset c := by
  rintro t' e k v g rfl
  cases e <;> cases k <;> simp [Manager.loopCall, Manager.driveCall, Manager.lockCall, Manager.startCall,
    Manager.followupCall, Manager.recordCall, Manager.saveCall, Manager.sendCall, Manager.failCall,
    Manager.cleanupCall, Call.inert, LedgerCall.inert] at hc

theorem noReset_of_messageCall {c : Call} (hc : Manager.messageCall t c = true) : NoReset c := by
  rintro t' e k v g rfl
  cases e <;> cases k <;> simp [Manager.messageCall, Call.inert, LedgerCall.inert] at hc

theorem noReset_of_routeCall {r : Route} {c : Call} (hc : Routes.routeCall r c = true) :
    NoReset c := by
  rintro t' e k v g rfl
  cases r <;> cases e <;> cases k <;> cases v <;> cases g <;>
    simp [Routes.routeCall, Service.submitCall, Manager.messageCall, Service.cancelCall, Call.inert,
      LedgerCall.inert] at hc

theorem noReset_of_schedulerCall {c : Call} (hc : Scheduler.schedulerCall c = true) :
    NoReset c := by
  rintro t' e k v g rfl
  cases e <;> cases k <;> simp [Scheduler.schedulerCall, Scheduler.recoveryCall,
    Scheduler.admissionCall, Scheduler.createCall, Scheduler.upkeepCall, Scheduler.tendCall,
    Call.inert, LedgerCall.inert] at hc

/-- The obligation of a ledger call of `cancel`. -/
theorem safe_recorded {c : LedgerCall} {post : c.Out → Shared × Hist → Prop}
    {exn : Exn → Shared × Hist → Prop} {s : Shared} {h : Hist} (hc : NoReset (.db c))
    (H : ∀ s₁, AllIssued s₁ → KeepsRecorded s s₁ →
      (cancelFindsTask cfg).call p h (.db c) s₁ (reply c s₁) = true →
        match reply c s₁ with
        | .ok a => post a (after c s₁, ⟨.db c, .ok a, s₁⟩ :: h)
        | .error e => exn e (after c s₁, ⟨.db c, .error e, s₁⟩ :: h)) :
    Safe (recordedContract cfg p) (db c) post exn (s, h) := by
  refine safe_db fun s₁ hinv hrely hK => ⟨?_, ?_, H s₁ hinv hrely hK⟩
  · exact ⟨issued_after hinv.ledger, hinv.published, hinv.confirmed⟩
  · exact fun t ht => recorded_after hinv hc ht

/-- A queued task that is cancelled. -/
theorem acknowledged_cancelQueued {n : Nat} {h : Hist} {a : Except Exn (Option TaskRecord)}
    {q : TaskRecord} (hK : (cancelFindsTask cfg).call (.request n) h (.db (.cancelQueuedTask t)) s a = true)
    (hq : (after (.cancelQueuedTask t) s).ledger.tasks.find? t = some q) :
    Acknowledged t (after (.cancelQueuedTask t) s) := by
  simp only [cancelFindsTask, Bool.or_eq_true] at hK
  rcases hK with hflag | hstate
  · refine .inr ?_
    have hsame : (after (.cancelQueuedTask t) s).ledger.supervisions = s.ledger.supervisions :=
      (exec_frame s.clock _ s.ledger).supervisions rfl
    unfold flagged
    rw [hsame]
    exact hflag
  · refine .inl ⟨q, hq, ?_⟩
    have hfind : (after (.cancelQueuedTask t) s).ledger.tasks.find? t =
        (s.ledger.tasks.find? t).map fun r => if r.state = .queued then
          { r with state := .cancelled, outcomeDetail := some "cancelled_before_allocation",
                   updatedAt := s.clock } else r := by
      simp [after, LedgerCall.exec, Ledger.cancelQueuedTask, Ledger.commit, Table.find?_modifyIf]
    rw [hfind] at hq
    cases hr : s.ledger.tasks.find? t with
    | none => simp [hr] at hq
    | some r =>
        rw [hr, Option.map_some, Option.some.injEq] at hq
        subst hq
        by_cases hqueued : r.state = .queued
        · simp [hqueued]
        · rw [if_neg hqueued]
          simpa [hr, hqueued] using hstate

/-- The end of a cancel that has been recorded: the request looks at the task
once more and returns. -/
theorem safe_cancel_returns {n : Nat} {record : TaskRecord} {s : Shared} {h : Hist}
    (hrec : Recorded t s) (hwritten : cancelWritten t h = true) :
    Safe (recordedContract cfg (.request n)) (do
      pure ((← db (.get t none)).getD record))
      (fun _ w => Acknowledged t w.1) (fun _ _ => True) (s, h) := by
  refine Safe.bind (safe_recorded (by rintro _ _ _ _ _ ⟨⟩) fun s₁ _ hkeep hK => ?_)
  have hpay : s₁.ledger.hasPayload t = true := by
    simpa [cancelFindsTask, hwritten] using hK
  rcases hkeep t hrec with hflag | ⟨-, hret⟩
  · exact .inr hflag
  · simp [retired, hpay] at hret

/-- A cancel of a task that is being worked on. -/
theorem safe_cancel_working {n : Nat} {record : TaskRecord} (w : Shared × Hist) :
    Safe (recordedContract cfg (.request n)) (do
      let _ ← Service.requestTaskCancel t
      pure ((← db (.get t none)).getD record))
      (fun _ w => Acknowledged t w.1) (fun _ _ => True) w := by
  refine Safe.bind (Safe.bind (safe_recorded (by rintro _ _ _ _ _ ⟨⟩) fun s₁ _ _ hK => ?_))
  obtain ⟨row, hrow⟩ := Option.isSome_iff_exists.mp (show (s₁.ledger.supervisions.find? t).isSome from hK)
  have hreply : reply (.getSupervision t) s₁ = .ok (some row) := congrArg Except.ok hrow
  rw [hreply]
  refine Safe.bind (safe_recorded (by rintro _ _ _ _ _ ⟨⟩) fun s₂ _ _ _ => ?_)
  cases hq : s₂.ledger.supervisions.find? t with
  | none =>
      have hreply₂ : reply (.updateSupervision t none none none (some true) none) s₂ =
          .error (.keyError "no supervision record for task") := by
        simp [reply, LedgerCall.exec, Ledger.updateSupervision, hq]
      rw [hreply₂]
      trivial
  | some q =>
      have hreply₂ : ∃ q', reply (.updateSupervision t none none none (some true) none) s₂ =
          .ok q' := by
        simp [reply, LedgerCall.exec, Ledger.updateSupervision, hq]
      obtain ⟨q', hq'⟩ := hreply₂
      rw [hq']
      refine safe_cancel_returns (.inl ?_) ?_
      · simp [flagged, after, LedgerCall.exec, Ledger.updateSupervision, hq, Ledger.commit,
          Ledger.patchSupervision]
      · simp [cancelWritten]

theorem safe_cancel {n : Nat} (owner : Option OwnerId) (w : Shared × Hist) :
    Safe (recordedContract cfg (.request n)) (Service.cancel t owner)
      (fun _ w => Acknowledged t w.1) (fun _ _ => True) w := by
  refine Safe.bind (safe_recorded (by rintro _ _ _ _ _ ⟨⟩) fun s₁ _ _ _ => ?_)
  have hreply : reply (.get t owner) s₁ = .ok (s₁.ledger.get t owner) := rfl
  rw [hreply]
  cases hg : s₁.ledger.get t owner with
  | none => trivial
  | some record =>
      dsimp only
      split
      next hcancelled =>
        have hfind : s₁.ledger.tasks.find? t = some record := (Option.filter_eq_some_iff.mp hg).1
        exact .inl ⟨record, hfind, hcancelled⟩
      next =>
        split
        next =>
          refine Safe.bind (safe_recorded (by rintro _ _ _ _ _ ⟨⟩) fun s₂ _ _ hK => ?_)
          have hreply₂ : reply (.cancelQueuedTask t) s₂ =
            .ok ((after (.cancelQueuedTask t) s₂).ledger.tasks.find? t) := rfl
          rw [hreply₂]
          cases hq : (after (.cancelQueuedTask t) s₂).ledger.tasks.find? t with
          | none => trivial
          | some q => exact acknowledged_cancelQueued hK hq
        next =>
          split
          next => exact safe_cancel_working _
          next => trivial

end Programs

/-! ### Runs -/

theorem keepsRecorded_trans (a b c : Shared) (hab : KeepsRecorded a b) (hbc : KeepsRecorded b c) :
    KeepsRecorded a c := fun t ht => hbc t (hab t ht)

theorem sound_cancelFindsTask (cfg : Config) :
    Machine.Sound (cancelFindsTask cfg) AllIssued (fun _ => KeepsRecorded) (fun _ => KeepsRecorded)
      acknowledgedEnd where
  rely_trans _ := keepsRecorded_trans
  guar_rely _ _ _ _ _ h := h
  job p j s prog s' hinv hj := by
    obtain ⟨hstarted, ph, rfl⟩ := start_cases hj
    refine ⟨⟨hinv.ledger, hinv.published, hinv.confirmed⟩, fun _ ht => ht, ?_⟩
    cases hstarted with
    | boot =>
        exact safe_ending (keeps_of_noReset (Scheduler.makes_lifespan.mono fun _ hc =>
          noReset_of_schedulerCall hc) _ trivial)
    | cycle =>
        exact safe_ending (keeps_of_noReset ((Scheduler.makes_dispatchOnce cfg).mono fun _ hc =>
          noReset_of_schedulerCall hc) _ trivial)
    | shutdown =>
        exact safe_ending (keeps_of_noReset (Scheduler.makes_stop.mono fun _ hc =>
          noReset_of_schedulerCall (Scheduler.schedulerCall_of_recoveryCall hc)) _ trivial)
    | iterate t =>
        exact safe_ending (keeps_of_noReset ((App.makes_activation cfg t).mono fun _ hc =>
          noReset_of_loopCall hc) _ trivial)
    | message n t m content =>
        exact safe_ending (keeps_of_noReset ((Manager.makes_sendMessage cfg t m content).mono
          fun _ hc => noReset_of_messageCall hc) _ trivial)
    | cancel n t owner => exact safe_ending (safe_cancel owner _)
    | route n r =>
        exact safe_ending (keeps_of_noReset ((Routes.makes_handle cfg r).mono
          fun _ hc => noReset_of_routeCall hc) _ trivial)
  event e s s' hinv hK he := ⟨allIssued_event hinv he, fun _ _ => keepsRecorded_event hinv hK he⟩

/-- When `cancel` returns, the task is cancelled or its supervision row carries the
request; and from then on no row that carries one loses it. -/
theorem acknowledged_cancel_kept {cfg : Config} {acts acts' : List (Act cfg)} {w w' w'' : System}
    {n : Nat} {o : Oracle} {t : TaskId} {r : TaskRecord} {h : Hist}
    (hw : (backend cfg).run System.init acts = some w)
    (hstep : (backend cfg).step w (.call (.request n) o) = some w')
    (hret : w'.threads (.request n) = some ⟨.ret (.cancelled t r), h⟩)
    (hw'' : (backend cfg).run w' acts' = some w'')
    (hK : Machine.keeps (cancelFindsTask cfg) System.init
      (acts ++ .call (.request n) o :: acts') = true) :
    Acknowledged t w'.shared ∧ ∀ t' row, flagged t' w'.shared.ledger = true →
      w''.shared.ledger.supervisions.find? t' = some row → row.cancelRequested = true := by
  have hsound := sound_cancelFindsTask cfg
  rw [Machine.keeps_append hw, Bool.and_eq_true] at hK
  obtain ⟨hK₁, hK₂⟩ := hK
  simp only [Machine.keeps, hstep, Bool.and_eq_true] at hK₂
  have hok := hsound.run (fun _ _ _ h => h) (ok_init allIssued_init) hK₁ hw
  have hok' := (hsound.step (fun _ _ _ h => h) hok hK₂.1 hstep).1
  refine ⟨hok.returned (fun _ _ _ h => h) hK₂.1 hstep hret, ?_⟩
  have hkeep : KeepsRecorded w'.shared w''.shared := by
    refine hsound.run_rel (fun _ _ _ h => h) (fun _ _ h => h) keepsRecorded_trans ?_ hok' hK₂.2 hw''
    intro s s' heff
    cases heff with
    | thread p h => exact h
    | event e hinv hKe he => exact keepsRecorded_event hinv hKe he
  intro t' row hflag hrow
  rcases hkeep t' (.inl hflag) with hkept | ⟨-, hretired⟩
  · simpa [flagged, hrow] using hkept
  · simp [retired, hrow] at hretired

/-- The task whose cancel a thread has acknowledged. -/
def cancelledTask (p : Pid) (o : Option System) : Option TaskId :=
  o.bind fun w =>
    match w.threads p with
    | some ⟨.ret (.cancelled t _), _⟩ => some t
    | _ => none

theorem of_cancelledTask {p : Pid} {o : Option System} {t : TaskId}
    (h : cancelledTask p o = some t) :
    ∃ w r h, o = some w ∧ w.threads p = some ⟨.ret (.cancelled t r), h⟩ := by
  obtain ⟨w, hw, h⟩ := Option.bind_eq_some_iff.mp h
  split at h
  next t' r h₀ hth =>
    obtain rfl := Option.some.inj h
    exact ⟨w, r, h₀, hw, hth⟩
  next => simp at h

/-- A cancel of task 1, up to its last call. -/
def cancelling (n : Nat) : List (Act demo) :=
  [.start (.request 0) (.cancel 1 none)] ++ calls (.request 0) n fine

/-- A task that is executing is cancelled, and its loop goes on to finalize it. -/
theorem acknowledged_cancel_kept_executing :
    ∃ w w' w'' r h, (backend demo).run System.init (executing ++ cancelling 3) = some w ∧
      (backend demo).step w (.call (.request 0) fine) = some w' ∧
      w'.threads (.request 0) = some ⟨.ret (.cancelled 1 r), h⟩ ∧
      (backend demo).run w' (.start (.loop 1) .iterate :: calls (.loop 1) 13 passed) = some w'' ∧
      Machine.keeps (cancelFindsTask demo) System.init (executing ++ cancelling 3 ++
        .call (.request 0) fine :: .start (.loop 1) .iterate :: calls (.loop 1) 13 passed) = true ∧
      Acknowledged 1 w'.shared ∧ ∀ t' row, flagged t' w'.shared.ledger = true →
        w''.shared.ledger.supervisions.find? t' = some row → row.cancelRequested = true := by
  have h : taskState 1 ((backend demo).run System.init (executing ++ cancelling 3)) =
      some .running := by decide +kernel
  have h' : cancelledTask (.request 0) ((backend demo).run System.init
      (executing ++ cancelling 3 ++ [.call (.request 0) fine])) = some 1 := by decide +kernel
  have h'' : taskState 1 ((backend demo).run System.init (executing ++ cancelling 3 ++
      [.call (.request 0) fine] ++ .start (.loop 1) .iterate :: calls (.loop 1) 13 passed)) =
      some .running := by decide +kernel
  have hK : Machine.keeps (cancelFindsTask demo) System.init (executing ++ cancelling 3 ++
      .call (.request 0) fine :: .start (.loop 1) .iterate :: calls (.loop 1) 13 passed) = true := by
    decide +kernel
  obtain ⟨w, -, hw, -⟩ := of_taskState h
  obtain ⟨w', r, h₀, hw', hret⟩ := of_cancelledTask h'
  obtain ⟨w'', -, hw'', -⟩ := of_taskState h''
  have hstep := step_of_append hw hw'
  have hrest := run_of_append hw' hw''
  exact ⟨w, w', w'', r, h₀, hw, hstep, hret, hrest, hK,
    acknowledged_cancel_kept hw hstep hret hrest hK⟩

/-- A cancel between the end of provisioning and the first execution is
acknowledged and recorded nowhere. -/
theorem acknowledged_cancel_lost :
    ¬ ∀ (acts : List (Act demo)) (w w' : System) (n : Nat) (o : Oracle) (t : TaskId)
      (r : TaskRecord) (h : Hist), (backend demo).run System.init acts = some w →
      (backend demo).step w (.call (.request n) o) = some w' →
      w'.threads (.request n) = some ⟨.ret (.cancelled t r), h⟩ → Acknowledged t w'.shared := by
  intro hclaim
  have h : taskState 1 ((backend demo).run System.init (provisioned ++ cancelling 2)) =
      some .running := by decide +kernel
  have h' : cancelledTask (.request 0) ((backend demo).run System.init
      (provisioned ++ cancelling 2 ++ [.call (.request 0) fine])) = some 1 := by decide +kernel
  have hst : taskState 1 ((backend demo).run System.init
      (provisioned ++ cancelling 2 ++ [.call (.request 0) fine])) = some .running := by
    decide +kernel
  have hfl : ((backend demo).run System.init (provisioned ++ cancelling 2 ++
      [.call (.request 0) fine])).map (fun w => flagged 1 w.shared.ledger) = some false := by
    decide +kernel
  obtain ⟨w, -, hw, -⟩ := of_taskState h
  obtain ⟨w', r, h₀, hw', hret⟩ := of_cancelledTask h'
  rcases hclaim _ w w' 0 fine 1 r h₀ hw (step_of_append hw hw') hret with ⟨q, hq, hcanc⟩ | hflag
  · rw [hw'] at hst
    simp [taskState, hq, hcanc] at hst
  · rw [hw'] at hfl
    simp [hflag] at hfl

end GgAgent.Safety
