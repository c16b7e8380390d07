import GgAgent.Safety.Cancel
import GgAgent.Safety.Rounds

/-!
Start requests after a recorded cancel.

The loop looks at the cancel flag in one place, for an execution that is running.
The branches that start an execution or deliver a message do not. A run sends no
new prompt for a cancelled task when these branches are entered only with a row
that is not flagged, or for a key that was sent before, and no cancel falls between
the entry and the request.
-/

namespace GgAgent.Safety

open GgAgent.Lib GgAgent.Backend
open GgAgent.Lib.Co (Makes Safe Keeps)

/-! ### What a loop has read -/

/-- Whether the cancel flag was set in one of a thread's reads of the supervision row. -/
def flagRead (t : TaskId) : Entry Call.Out Shared → Option Bool
  | ⟨.db (.getSupervision t'), .ok row?, _⟩ =>
    if t' = t then some (row?.any SupervisionRecord.cancelRequested) else none
  | _ => none

/-- The thread has read the supervision row, and its last read did not show the
flag. -/
def readUnflagged (t : TaskId) (h : Hist) : Bool := (h.findSome? (flagRead t)).any fun b => !b

/-- The message that a look at the receipts has chosen for delivery. -/
def chosen (t : TaskId) : Entry Call.Out Shared → Option MessageId
  | ⟨.db (.listAcceptedTaskMessages t'), .ok (r :: _), _⟩ => if t' = t then some r.id else none
  | ⟨.db (.getTaskMessageReceipt t' _), .ok (some r), _⟩ => if t' = t then some r.id else none
  | _ => none

/-- The message that the loop is about to deliver when it reads the task and then
the supervision row. -/
def delivering (t : TaskId) : Hist → Option MessageId
  | _ :: e :: _ => chosen t e
  | _ => none

/-- The row is there and not flagged. -/
def unflagged (t : TaskId) (l : Ledger) : Bool :=
  (l.supervisions.find? t).any fun r => !r.cancelRequested

/-- A flagged row that the loop reads leads to no new start: the key on it, as long
as no execution is acknowledged, has been sent, and so has that of the message the
loop is about to deliver. Between the last read of a row that was not flagged and
the request that follows from it, no cancel is recorded and the row is not
retired. -/
def startsUnflagged (cfg : Config) : Cond cfg where
  call p h c s _ :=
    match p, c with
    | .loop t, .db (.getSupervision t') => decide (t' ≠ t) || !flagged t s.ledger ||
        (s.ledger.supervisions.find? t).all fun r =>
          (match r.executionId with
            | .key k => s.starts.contains k
            | .sandbox _ => true) &&
          (delivering t h).all fun m => s.starts.contains (.message t m)
    | .loop t, .ext (.startExecution request _) => s.starts.contains request.startKey ||
        !readUnflagged t h || unflagged t s.ledger
    | _, _ => true
  event := cancelsSurvive

/-! ### The guarantee -/

/-- A recorded cancel stays, and what is sent for its task was sent before. -/
structure NoNewPrompt (s s' : Shared) : Prop where
  kept : KeepsRecorded s s'
  starts : ∀ k, k ∈ s.starts → k ∈ s'.starts
  old : ∀ k, k ∈ s'.starts → Recorded k.taskId s → k ∈ s.starts

theorem NoNewPrompt.refl (s : Shared) : NoNewPrompt s s :=
  ⟨fun _ h => h, fun _ h => h, fun _ h _ => h⟩

theorem NoNewPrompt.trans (a b c : Shared) (hab : NoNewPrompt a b) (hbc : NoNewPrompt b c) :
    NoNewPrompt a c where
  kept := keepsRecorded_trans a b c hab.kept hbc.kept
  starts k hk := hbc.starts k (hab.starts k hk)
  old k hk hrec := hab.old k (hbc.old k hk (hab.kept _ hrec)) hrec

/-- The call sends no start request. -/
def NoSend (c : Call) : Prop := NoReset c ∧ ∀ request token, c ≠ .ext (.startExecution request token)

theorem starts_answer {p : Pid} {o : Oracle} {c : Call} {s s' : Shared} {a : c.Out}
    (hc : ∀ request token, c ≠ .ext (.startExecution request token))
    (h : s.answer p o c = some (a, s')) : s'.starts = s.starts := by
  obtain hsame | ⟨request, token, hsend, -⟩ := (answer_traces h).1
  · exact hsame
  · exact absurd hsend (hc request token)

theorem noNewPrompt_answer {p : Pid} {o : Oracle} {c : Call} {s s' : Shared} {a : c.Out}
    (hinv : AllIssued s) (hc : NoSend c) (h : s.answer p o c = some (a, s')) : NoNewPrompt s s' := by
  have hs := starts_answer hc.2 h
  exact ⟨keepsRecorded_answer hinv hc.1 h, fun k hk => hs ▸ hk, fun k hk _ => hs ▸ hk⟩

/-- A row that is there and not flagged is no recorded cancel. -/
theorem not_recorded_of_unflagged {t : TaskId} {s : Shared} (h : unflagged t s.ledger = true) :
    ¬ Recorded t s := by
  unfold unflagged at h
  cases hrow : s.ledger.supervisions.find? t with
  | none => simp [hrow] at h
  | some row =>
      rw [hrow] at h
      rintro (hflag | ⟨-, hret⟩)
      · simp only [flagged, hrow, Option.any_some] at hflag h
        rw [hflag] at h
        simp at h
      · simp [retired, hrow] at hret

/-! ### Programs -/

abbrev promptContract (cfg : Config) (p : Pid) :=
  Machine.contract (startsUnflagged cfg) AllIssued (fun _ => NoNewPrompt) (fun _ => NoNewPrompt) p

/-- The key may be sent: it was sent before, or the loop has last read a row that
was not flagged. -/
def Cleared (t : TaskId) (k : StartKey) (w : Shared × Hist) : Prop :=
  k ∈ w.1.starts ∨ readUnflagged t w.2 = true

/-- A call that sends nothing and does not read the supervision row. -/
def NoSendNoRead (t : TaskId) (c : Call) : Prop := NoSend c ∧ c ≠ .db (.getSupervision t)

section Programs

variable {cfg : Config} {p : Pid} {t : TaskId} {k : StartKey} {α : Type} {r : Routine α}

theorem noSend_of_inert {c : Call} (hc : c.inert = true) : NoSend c := by
  refine ⟨noReset_of_inert hc, ?_⟩
  rintro request token rfl
  simp [Call.inert, ExtCall.inert] at hc

theorem keeps_of_noSend (hr : Makes NoSend r) :
    Keeps (promptContract cfg p) (fun _ => True) r := by
  refine keeps_of_makes hr (fun _ _ _ _ _ => trivial) fun c s o a s' h hc _ hinv hK ha => ?_
  exact ⟨allIssued_answer hinv ha, noNewPrompt_answer hinv hc ha, trivial⟩

theorem flagRead_eq_none {e : Entry Call.Out Shared} (he : e.call ≠ .db (.getSupervision t)) :
    flagRead t e = none := by
  unfold flagRead
  split
  · split
    next ht =>
      subst ht
      exact absurd rfl he
    next => rfl
  · rfl

theorem readUnflagged_cons {e : Entry Call.Out Shared} {h : Hist}
    (he : e.call ≠ .db (.getSupervision t)) :
    readUnflagged t (e :: h) = readUnflagged t h := by
  simp [readUnflagged, flagRead_eq_none he]

theorem keeps_cleared (hr : Makes (NoSendNoRead t) r) :
    Keeps (promptContract cfg p) (Cleared t k) r := by
  refine keeps_of_makes hr ?_ fun c s o a s' h hc hA hinv hK ha => ?_
  · rintro s s' h (hmem | hread) hrely
    · exact .inl (hrely.starts k hmem)
    · exact .inr hread
  · refine ⟨allIssued_answer hinv ha, noNewPrompt_answer hinv hc.1 ha, ?_⟩
    rcases hA with hmem | hread
    · exact .inl ((noNewPrompt_answer hinv hc.1 ha).starts k hmem)
    · exact .inr (by rw [readUnflagged_cons hc.2]; exact hread)

theorem noSendNoRead_of_inert {c : Call} (hc : c.inert = true) : NoSendNoRead t c := by
  refine ⟨noSend_of_inert hc, ?_⟩
  rintro rfl
  simp [Call.inert, LedgerCall.inert] at hc

theorem keeps_cleared_inert (hr : Inert r) : Keeps (promptContract cfg p) (Cleared t k) r :=
  keeps_cleared (hr.mono fun _ hc => noSendNoRead_of_inert hc)

/-- A request for a key that may be sent. -/
theorem safe_send {request : StartTaskExecutionRequest} {token : Option String}
    (hk : request.startKey = k) (ht : k.taskId = t) {w : Shared × Hist} (hw : Cleared t k w) :
    Safe (promptContract cfg (.loop t)) (ext (.startExecution request token)) (fun _ _ => True)
      (fun _ _ => True) w := by
  obtain ⟨s, h⟩ := w
  subst hk
  refine safe_call fun s₁ o r s₂ hinv hrely hK ha => ?_
  refine ⟨allIssued_answer hinv ha, ?_, trivial⟩
  obtain ⟨-, rfl⟩ := Prod.mk.inj (Option.some.inj ha)
  refine ⟨fun _ h => h, fun k hk => List.mem_cons_of_mem _ hk, fun k hk hrec => ?_⟩
  rcases List.mem_cons.mp hk with rfl | hold
  · rcases hw with hmem | hread
    · exact hrely.starts _ hmem
    · simp only [startsUnflagged, Bool.or_eq_true, List.contains_eq_mem, decide_eq_true_eq,
        Bool.not_eq_true'] at hK
      rcases hK with (hmem | hnot) | hrow
      · exact hmem
      · have hread' : readUnflagged t h = true := hread
        rw [hread'] at hnot
        simp at hnot
      · subst ht
        exact absurd hrec (not_recorded_of_unflagged hrow)
  · exact hold

theorem noSend_of_recordCall {c : Call} (hc : Manager.recordCall t c = true) : NoSend c := by
  refine ⟨noReset_of_loopCall (t := t) (by simp [Manager.loopCall, Manager.driveCall, Manager.lockCall, hc]), ?_⟩
  rintro request token rfl
  simp [Manager.recordCall, Call.inert, ExtCall.inert] at hc

theorem noSend_of_saveCall {c : Call} (hc : Manager.saveCall t c = true) : NoSend c := by
  refine ⟨noReset_of_loopCall (t := t) (by simp [Manager.loopCall, Manager.startCall,
    Manager.followupCall, hc]), ?_⟩
  rintro request token rfl
  simp [Manager.saveCall] at hc

theorem noSend_of_driveCall {c : Call} (hc : Manager.driveCall t c = true) : NoSend c := by
  refine ⟨noReset_of_loopCall (Manager.loopCall_of_driveCall t hc), ?_⟩
  rintro request token rfl
  simp [Manager.driveCall, Manager.recordCall, Manager.failCall, Manager.cleanupCall, Call.inert,
    ExtCall.inert] at hc

theorem keeps_prompt_record (hr : Makes (fun c => Manager.recordCall t c = true) r) :
    Keeps (promptContract cfg p) (fun _ => True) r :=
  keeps_of_noSend (hr.mono fun _ hc => noSend_of_recordCall hc)

theorem keeps_prompt_drive (hr : Makes (fun c => Manager.driveCall t c = true) r) :
    Keeps (promptContract cfg p) (fun _ => True) r :=
  keeps_of_noSend (hr.mono fun _ hc => noSend_of_driveCall hc)

theorem keeps_prompt_inert (hr : Inert r) : Keeps (promptContract cfg p) (fun _ => True) r :=
  keeps_of_noSend (hr.mono fun _ hc => noSend_of_inert hc)

theorem noSendNoRead_db {c : LedgerCall} (hc : Manager.recordCall t (.db c) = true)
    (hne : c ≠ .getSupervision t) : NoSendNoRead t (.db c) :=
  ⟨noSend_of_recordCall hc, fun h => hne (Call.db.inj h)⟩

theorem keeps_prompt_save {receipt : MessageReceipt}
    (hr : receipt.status = .failed ∨ receipt.status = .delivered) :
    Keeps (promptContract cfg p) (fun _ => True) (db (.saveTaskMessageReceipt t receipt)) :=
  keeps_of_noSend (makes_db (noSend_of_saveCall (t := t) (by simp [Manager.saveCall, hr])))

/-- A message is sent after it has been cleared. -/
theorem safe_deliverFollowup {task : TaskRecord} {receipt : MessageReceipt}
    {row : SupervisionRecord} {token : Option String} {w : Shared × Hist}
    (hw : Cleared t (.message t receipt.id) w) :
    Safe (promptContract cfg (.loop t)) (Manager.deliverFollowup t task receipt row token)
      (fun _ _ => True) (fun _ _ => True) w := by
  have hin : ∀ {α : Type} {r : Routine α} {f : α → Routine Unit}, Inert r →
      (∀ a w, Cleared t (.message t receipt.id) w →
        Safe (promptContract cfg (.loop t)) (f a) (fun _ _ => True) (fun _ _ => True) w) →
      ∀ w, Cleared t (.message t receipt.id) w →
        Safe (promptContract cfg (.loop t)) (r >>= f) (fun _ _ => True) (fun _ _ => True) w :=
    fun hr hf w hw => Safe.bind (Safe.mono (keeps_cleared_inert hr w hw) hf fun _ _ _ => trivial)
  refine hin (makes_now rfl) (fun moment w hw => ?_) w hw
  refine hin (Manager.inert_authorizeExecution task _) (fun _ w hw => ?_) w hw
  refine Safe.bind (Safe.mono (safe_send rfl rfl hw) (fun reply w _ => ?_) fun _ _ _ => trivial)
  refine Keeps.bind (keeps_prompt_inert (makes_ofReply reply)) (fun record => ?_) w trivial
  refine Keeps.bind (keeps_prompt_inert (makes_now rfl)) fun moment => ?_
  refine Keeps.bind (keeps_prompt_save (.inr rfl)) fun _ => ?_
  refine keeps_prompt_record (t := t) ?_
  refine Makes.bind (makes_db (by simp [Manager.recordCall])) fun _ => ?_
  exact Makes.bind (makes_db (by simp [Manager.recordCall])) fun _ => trivial

/-- The last call of the thread has chosen the message `m`. -/
def Chose (t : TaskId) (m : MessageId) (w : Shared × Hist) : Prop :=
  ∃ e h, w.2 = e :: h ∧ chosen t e = some m

/-- The read of a row that is not flagged, or of none, clears every key. -/
theorem cleared_of_read {s : Shared} {h : Hist} {row? : Option SupervisionRecord}
    (hrow : row?.any SupervisionRecord.cancelRequested = false) :
    Cleared t k (s, ⟨.db (.getSupervision t), .ok row?, s⟩ :: h) :=
  .inr (by simp [readUnflagged, flagRead, hrow])

/-- What the condition says of a read of a flagged row. -/
theorem sent_of_read {s : Shared} {h : Hist} {a : Except Exn (Option SupervisionRecord)}
    {row : SupervisionRecord}
    (hK : (startsUnflagged cfg).call (.loop t) h (.db (.getSupervision t)) s a = true)
    (hrow : s.ledger.supervisions.find? t = some row) (hflag : row.cancelRequested = true) :
    (∀ k, row.executionId = .key k → k ∈ s.starts) ∧
      ∀ m, delivering t h = some m → .message t m ∈ s.starts := by
  have hfl : flagged t s.ledger = true := flagged_iff.mpr ⟨row, hrow, hflag⟩
  simp only [startsUnflagged, hfl, hrow, ne_eq, not_true_eq_false, decide_false, Bool.not_true,
    Bool.or_false, Bool.false_or, Option.all_some, Bool.and_eq_true] at hK
  refine ⟨fun k hk => ?_, fun m hm => ?_⟩
  · simpa [hk] using hK.1
  · simpa [hm] using hK.2

theorem keeps_bindFollowup {row : SupervisionRecord} {k' : StartKey} :
    Keeps (promptContract cfg p) (Cleared t k) (Manager.bindFollowup t row k') := by
  unfold Manager.bindFollowup
  split
  · exact keeps_cleared (makes_db (noSendNoRead_db (by simp [Manager.recordCall]) (by simp)))
  · exact Keeps.pure _

theorem safe_startFollowup {receipt : MessageReceipt} {w : Shared × Hist}
    (hw : Chose t receipt.id w) :
    Safe (promptContract cfg (.loop t)) (Manager.startFollowup cfg t receipt) (fun _ _ => True)
      (fun _ _ => True) w := by
  obtain ⟨s, h₀⟩ := w
  obtain ⟨e, h, hh, he⟩ := hw
  obtain rfl : h₀ = e :: h := hh
  refine Safe.bind (safe_db fun s₁ hinv _ _ => ⟨hinv, .refl _, ?_⟩)
  have hreply : reply (.get t none) s₁ = .ok (s₁.ledger.get t none) := rfl
  rw [hreply]
  refine Safe.bind (safe_db fun s₂ hinv _ hK => ⟨hinv, .refl _, ?_⟩)
  have hreply₂ : reply (.getSupervision t) s₂ = .ok (s₂.ledger.supervisions.find? t) := rfl
  rw [hreply₂]
  dsimp only
  split
  next task row _ hrow =>
    have hclear : Cleared t (.message t receipt.id) (after (.getSupervision t) s₂,
        ⟨.db (.getSupervision t), .ok (some row), s₂⟩ ::
          ⟨.db (.get t none), .ok (s₁.ledger.get t none), s₁⟩ :: e :: h) := by
      cases hflag : row.cancelRequested with
      | false => exact cleared_of_read (by simpa using hflag)
      | true => exact .inl ((sent_of_read hK hrow hflag).2 receipt.id he)
    rw [hrow]
    refine Safe.bind (Safe.attempt (Safe.mono (keeps_cleared_inert
      (Manager.inert_freshGithubToken cfg task) _ hclear) (fun token w hw => ?_) fun e w _ => ?_))
    · exact Safe.bind (Safe.mono (keeps_bindFollowup w hw) (fun row w hw => safe_deliverFollowup hw)
        fun _ _ _ => trivial)
    · split
      · refine Keeps.bind (keeps_prompt_inert (makes_now rfl)) (fun moment => ?_) w trivial
        refine Keeps.bind (keeps_prompt_save (.inl rfl)) fun _ => ?_
        exact keeps_prompt_record (t := t) (makes_db (by simp [Manager.recordCall]))
      · trivial
      · trivial
  next => trivial

theorem safe_startExecutionCall {task : TaskRecord} {start : StartTaskExecutionRequest}
    (hk : start.startKey = .task t) {w : Shared × Hist} (hw : Cleared t (.task t) w) :
    Safe (promptContract cfg (.loop t)) (Manager.startExecutionCall cfg task start)
      (fun _ _ => True) (fun _ _ => True) w := by
  refine Safe.bind (Safe.mono (keeps_cleared_inert (Manager.inert_freshGithubToken cfg task) w hw)
    (fun token w hw => ?_) fun _ _ _ => trivial)
  refine Safe.bind (Safe.mono (safe_send hk rfl hw) (fun reply w _ => ?_) fun _ _ _ => trivial)
  exact keeps_prompt_inert (makes_ofReply reply) w trivial

/-- The first execution is started after its key has been cleared. -/
theorem safe_startExecution {task : TaskRecord} {w : Shared × Hist} (hw : Cleared t (.task t) w) :
    Safe (promptContract cfg (.loop t)) (Manager.startExecution cfg t task) (fun _ _ => True)
      (fun _ _ => True) w := by
  have hkeep : ∀ {α β : Type} {r : Routine α} {f : α → Routine β}, Makes (NoSendNoRead t) r →
      (∀ a w, Cleared t (.task t) w →
        Safe (promptContract cfg (.loop t)) (f a) (fun _ _ => True) (fun _ _ => True) w) →
      ∀ w, Cleared t (.task t) w →
        Safe (promptContract cfg (.loop t)) (r >>= f) (fun _ _ => True) (fun _ _ => True) w :=
    fun hr hf w hw => Safe.bind (Safe.mono (keeps_cleared hr w hw) hf fun _ _ _ => trivial)
  have hin : ∀ {α : Type} {r : Routine α}, Inert r → Makes (NoSendNoRead t) r :=
    fun hr => hr.mono fun _ hc => noSendNoRead_of_inert hc
  refine hkeep ?_ (fun deadline w hw => ?_) w hw
  · refine Makes.bind (makes_db (noSendNoRead_db (by simp [Manager.recordCall]) (by simp)))
      fun r? => ?_
    split
    · trivial
    · exact Makes.bind (hin (makes_now rfl)) fun _ => trivial
  refine hkeep (hin (makes_now rfl)) (fun moment w hw => ?_) w hw
  dsimp only
  split
  · exact Keeps.bind (keeps_prompt_drive ((Manager.makes_failExecutionStart t _).mono
      fun _ hc => Manager.driveCall_of_failCall t hc)) (fun _ => Keeps.pure _) w trivial
  · refine hkeep (makes_db (noSendNoRead_db (by simp [Manager.recordCall]) (by simp)))
      (fun _ w hw => ?_) w hw
    refine hkeep (hin (Manager.inert_authorizeExecution task _)) (fun _ w hw => ?_) w hw
    refine Safe.bind (Safe.mono (Safe.attempt_either (safe_startExecutionCall rfl hw)) (fun reply w _ => ?_)
      fun _ _ h => h)
    split
    · exact keeps_prompt_drive ((Manager.makes_startRaised t _).mono fun _ hc =>
        Manager.driveCall_of_raisedCall t hc) w trivial
    · exact keeps_prompt_record (Manager.makes_startAccepted t task _) w trivial

theorem noSend_lock {l : Lock} {c : Call} (hc : c = .acquire l ∨ c = .release l) : NoSend c := by
  rcases hc with rfl | rfl <;> exact ⟨by simp [NoReset], by simp⟩

/-- What the loop sends has been cleared by its last read of the supervision row. -/
theorem delivers_prompts : Delivers (promptContract cfg (.loop t)) cfg t (fun _ => True)
    (Cleared t (.task t)) (fun receipt w => Chose t receipt.id w) where
  work := keeps_prompt_drive
  lock hr := keeps_of_noSend (makes_withLock (noSend_lock (.inl rfl)) (noSend_lock (.inr rfl))
    (hr.mono fun _ hc => noSend_of_driveCall hc))
  exit := keeps_of_noSend ⟨⟨by simp [NoReset], by simp⟩, fun _ => trivial⟩
  supervision := by
    rintro ⟨s, h⟩ _
    refine safe_db fun s₁ hinv _ hK => ⟨hinv, .refl _, ?_⟩
    have hreply : reply (.getSupervision t) s₁ = .ok (s₁.ledger.supervisions.find? t) := rfl
    rw [hreply]
    refine ⟨trivial, fun hkey => ?_⟩
    cases hrow : s₁.ledger.supervisions.find? t with
    | none => exact cleared_of_read rfl
    | some row =>
        cases hflag : row.cancelRequested with
        | false => exact cleared_of_read (by simpa using hflag)
        | true => exact .inl ((sent_of_read hK hrow hflag).1 _ (hkey row hrow))
  start _ _ hw := safe_startExecution hw
  resume := by
    rintro m ⟨s, h⟩ _
    refine safe_db fun s₁ hinv _ _ => ⟨hinv, .refl _, trivial, fun receipt hreceipt => ?_⟩
    refine ⟨_, _, rfl, ?_⟩
    rw [hreceipt]
    simp [chosen]
  pick := by
    rintro ⟨s, h⟩ _
    refine safe_db fun s₁ hinv _ _ => ⟨hinv, .refl _, trivial, fun receipt hreceipt => ?_⟩
    obtain ⟨rest, hrest⟩ := List.head?_eq_some_iff.mp hreceipt
    refine ⟨_, _, rfl, ?_⟩
    rw [hrest]
    simp [chosen]
  followup _ _ hw := safe_startFollowup hw

end Programs

/-! ### Runs -/

theorem noNewPrompt_event {e : Happening} {s s' : Shared} (hinv : AllIssued s)
    (hK : cancelsSurvive e s = true) (h : e.apply s = some s') : NoNewPrompt s s' := by
  have hs := (event_traces h).1
  exact ⟨keepsRecorded_event hinv hK h, fun k hk => hs ▸ hk, fun k hk _ => hs ▸ hk⟩

theorem noSend_of_schedulerCall {c : Call} (hc : Scheduler.schedulerCall c = true) : NoSend c := by
  refine ⟨noReset_of_schedulerCall hc, ?_⟩
  rintro request token rfl
  simp [Scheduler.schedulerCall, Scheduler.recoveryCall, Scheduler.admissionCall,
    Scheduler.createCall, Scheduler.upkeepCall, Scheduler.tendCall, Call.inert, ExtCall.inert] at hc

theorem sound_startsUnflagged (cfg : Config) :
    Machine.Sound (startsUnflagged cfg) AllIssued (fun _ => NoNewPrompt) (fun _ => NoNewPrompt)
      (fun _ _ _ => True) where
  rely_trans _ := NoNewPrompt.trans
  guar_rely _ _ _ _ _ h := h
  job p j s prog s' hinv hj := by
    obtain ⟨hstarted, ph, rfl⟩ := start_cases hj
    refine ⟨⟨hinv.ledger, hinv.published, hinv.confirmed⟩,
      ⟨fun _ h => h, fun _ h => h, fun _ h _ => h⟩, ?_⟩
    cases hstarted with
    | boot =>
        exact safe_ending (keeps_of_noSend (Scheduler.makes_lifespan.mono fun _ hc =>
          noSend_of_schedulerCall hc) _ trivial)
    | cycle =>
        exact safe_ending (keeps_of_noSend ((Scheduler.makes_dispatchOnce cfg).mono fun _ hc =>
          noSend_of_schedulerCall hc) _ trivial)
    | shutdown =>
        exact safe_ending (keeps_of_noSend (Scheduler.makes_stop.mono fun _ hc =>
          noSend_of_schedulerCall (Scheduler.schedulerCall_of_recoveryCall hc)) _ trivial)
    | iterate t => exact safe_ending (delivers_prompts.activation _ trivial)
    | message n t m content =>
        refine safe_ending (keeps_of_noSend ((Manager.makes_sendMessage cfg t m content).mono
          fun c hc => ⟨noReset_of_messageCall hc, ?_⟩) _ trivial)
        rintro request token rfl
        simp [Manager.messageCall, Call.inert, ExtCall.inert] at hc
    | cancel n t owner =>
        refine safe_ending (keeps_of_noSend ((Service.makes_cancel t owner).mono
          fun c hc => ⟨?_, ?_⟩) _ trivial)
        · rintro t' e k v g rfl
          cases e <;> cases k <;> cases v <;> cases g <;> simp [Service.cancelCall] at hc
        · rintro request token rfl
          simp [Service.cancelCall] at hc
    | route n q =>
        refine safe_ending (keeps_of_noSend ((Routes.makes_handle cfg q).mono
          fun c hc => ⟨noReset_of_routeCall hc, ?_⟩) _ trivial)
        rintro request token rfl
        cases q <;> simp [Routes.routeCall, Service.submitCall, Manager.messageCall,
          Service.cancelCall, Call.inert, ExtCall.inert] at hc
  event e s s' hinv hK he := ⟨allIssued_event hinv he, fun _ _ => noNewPrompt_event hinv hK he⟩

/-- Once a cancel of `t` is recorded, every start request for `t` has a key that was
sent before. -/
theorem no_new_prompt_after_cancel {cfg : Config} {acts acts' : List (Act cfg)} {w w' : System}
    (hw : (backend cfg).run System.init acts = some w)
    (hw' : (backend cfg).run w acts' = some w')
    (hK : Machine.keeps (startsUnflagged cfg) System.init (acts ++ acts') = true) {t : TaskId}
    (hflag : flagged t w.shared.ledger = true) {k : StartKey} (hk : k ∈ w'.shared.starts)
    (ht : k.taskId = t) : k ∈ w.shared.starts := by
  rw [Machine.keeps_append hw, Bool.and_eq_true] at hK
  have hsound := sound_startsUnflagged cfg
  have hok := hsound.run (fun _ => .refl) (ok_init allIssued_init) hK.1 hw
  have hkeep : NoNewPrompt w.shared w'.shared := by
    refine hsound.run_rel (fun _ => .refl) .refl NoNewPrompt.trans ?_ hok hK.2 hw'
    intro s s' heff
    cases heff with
    | thread p h => exact h
    | event e hinv hKe he => exact noNewPrompt_event hinv hKe he
  subst ht
  exact hkeep.old k hk (.inl hflag)

/-- The cancel flag of `t` at the end of a run. -/
def cancelFlag (t : TaskId) (o : Option System) : Option Bool :=
  o.map fun w => flagged t w.shared.ledger

/-- The keys sent up to the end of a run. -/
def sentKeys (o : Option System) : Option (List StartKey) := o.map fun w => w.shared.starts

/-- An execution is cancelled, and the loop asks the sandbox to stop it. -/
theorem no_new_prompt_after_cancel_executing :
    ∃ w w', (backend demo).run System.init (executing ++ cancelling 4) = some w ∧
      (backend demo).run w (.start (.loop 1) .iterate :: calls (.loop 1) 13 fine) = some w' ∧
      Machine.keeps (startsUnflagged demo) System.init (executing ++ cancelling 4 ++
        .start (.loop 1) .iterate :: calls (.loop 1) 13 fine) = true ∧
      flagged 1 w.shared.ledger = true ∧ StartKey.task 1 ∈ w'.shared.starts ∧
      StartKey.task 1 ∈ w.shared.starts := by
  have h : cancelFlag 1 ((backend demo).run System.init (executing ++ cancelling 4)) =
      some true := by decide +kernel
  have h' : sentKeys ((backend demo).run System.init (executing ++ cancelling 4 ++
      .start (.loop 1) .iterate :: calls (.loop 1) 13 fine)) = some [.task 1] := by decide +kernel
  have hK : Machine.keeps (startsUnflagged demo) System.init (executing ++ cancelling 4 ++
      .start (.loop 1) .iterate :: calls (.loop 1) 13 fine) = true := by decide +kernel
  obtain ⟨w, hw, hflag⟩ := Option.map_eq_some_iff.mp h
  obtain ⟨w', hw', hsent⟩ := Option.map_eq_some_iff.mp h'
  have hrest := run_of_append hw hw'
  have hmem : StartKey.task 1 ∈ w'.shared.starts := by simp [hsent]
  exact ⟨w, w', hw, hrest, hK, hflag, hmem,
    no_new_prompt_after_cancel hw hrest hK hflag hmem rfl⟩

/-- The sandbox does not know the execution. -/
def forgotten : Oracle :=
  { fine with ext := fun c =>
      match c with
      | .getExecution _ _ => .error (.httpStatus 404 none "not found")
      | c => working c }

/-- Message 7 is accepted for task 1, and then the task is cancelled. -/
def messagedAndCancelled : List (Act demo) :=
  executing ++ [.start (.request 1) (.message 1 7 "more")] ++ calls (.request 1) 9 fine ++
    snapshot ++ calls (.request 1) 3 fine ++ cancelling 4

/-- The loop resumes a cancelled task whose execution is gone with the message that
was pending. -/
theorem new_prompt_after_cancel :
    ¬ ∀ (acts acts' : List (Act demo)) (w w' : System) (t : TaskId) (k : StartKey),
      (backend demo).run System.init acts = some w → (backend demo).run w acts' = some w' →
      flagged t w.shared.ledger = true → k ∈ w'.shared.starts → k.taskId = t →
      k ∈ w.shared.starts := by
  intro hclaim
  have h : cancelFlag 1 ((backend demo).run System.init messagedAndCancelled) = some true := by
    decide +kernel
  have h₀ : sentKeys ((backend demo).run System.init messagedAndCancelled) = some [.task 1] := by
    decide +kernel
  have h' : sentKeys ((backend demo).run System.init (messagedAndCancelled ++
      (.start (.loop 1) .iterate :: calls (.loop 1) 16 forgotten ++ snapshot ++
        calls (.loop 1) 2 forgotten))) = some [.message 1 7, .task 1] := by decide +kernel
  obtain ⟨w, hw, hflag⟩ := Option.map_eq_some_iff.mp h
  obtain ⟨w', hw', hsent⟩ := Option.map_eq_some_iff.mp h'
  have hmem : StartKey.message 1 7 ∈ w'.shared.starts := by simp [hsent]
  have hold := hclaim _ _ w w' 1 (.message 1 7) hw (run_of_append hw hw') hflag hmem rfl
  rw [hw] at h₀
  rw [show w.shared.starts = [.task 1] from Option.some.inj h₀] at hold
  simp at hold

end GgAgent.Safety
