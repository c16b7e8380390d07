import GgAgent.Safety.Basic

/-!
A task that has ended stays ended.

`update_reservation` compares the stored state before it writes one, but
`finish_task` does not, and its callers check in an earlier transaction or not at
all. A run keeps ended tasks ended when no such write meets an ended task.
-/

namespace GgAgent.Safety

open GgAgent.Lib GgAgent.Backend
open GgAgent.Lib.Co (Makes Safe Keeps attempt)

/-! ### Ended tasks -/

/-- The row of `t` is there and terminal. -/
def endedRow (t : TaskId) (l : Ledger) : Bool := (l.tasks.find? t).any fun r => r.state.terminal

/-- The task was submitted, and it is terminal or its row has been purged. -/
def Ended (t : TaskId) (s : Shared) : Prop :=
  t ∈ s.taskIds ∧ ∀ r, s.ledger.tasks.find? t = some r → r.state.terminal = true

/-- Ended tasks stay ended. -/
def KeepsEnded (s s' : Shared) : Prop := ∀ t, Ended t s → Ended t s'

theorem stateWhenLost_terminal (r : TaskRecord) : (Ledger.stateWhenLost r).terminal = true := by
  unfold Ledger.stateWhenLost
  split
  · rfl
  · split <;> rfl

/-- A ledger call keeps an ended task ended, unless it is an unguarded write. -/
theorem ended_after {c : LedgerCall} {s : Shared} {t : TaskId} (h : Ended t s)
    (hc : ∀ st o d, c = .finishTask t st o d → st.terminal = true ∨ endedRow t s.ledger = false) :
    Ended t (after c s) := by
  refine ⟨h.1, fun r' hr' => ?_⟩
  cases hr : s.ledger.tasks.find? t with
  | none =>
      have hnone : (after c s).ledger.tasks.find? t = none := exec_task_none s.clock c hr
      rw [hnone] at hr'
      simp at hr'
  | some r =>
      obtain rfl : r.id = t := Table.key_of_find? hr
      have hterm := h.2 r hr
      obtain ⟨-, -, -, hnone⟩ | ⟨r₂, hr₂, hstep⟩ := exec_task s.clock c hr
      · have hnone' : (after c s).ledger.tasks.find? r.id = none := hnone
        rw [hnone'] at hr'
        simp at hr'
      · obtain rfl : r₂ = r' := Option.some.inj (hr₂.symm.trans hr')
        cases hstep with
        | same | release | baseSha | touch | retire => exact hterm
        | settle | cancel => rfl
        | lost => exact stateWhenLost_terminal r
        | adopt _ _ _ _ hopen => rw [hterm] at hopen; simp at hopen
        | reserve _ hq => rw [hq] at hterm; simp [TaskState.terminal] at hterm
        | wake hq => rw [hq] at hterm; simp [TaskState.terminal] at hterm
        | sleep hq => rw [hq] at hterm; simp [TaskState.terminal] at hterm
        | workspaceExpired hq => rw [hq] at hterm; simp [TaskState.terminal] at hterm
        | finish st o d =>
            rcases hc st o d rfl with hst | hrow
            · exact hst
            · simp [endedRow, hr, hterm] at hrow

/-! ### The condition -/

/-- The state of `t` in one of a thread's reads of it. -/
def taskRead (t : TaskId) : Entry Call.Out Shared → Option TaskState
  | ⟨.db (.get t' _), .ok (some r), _⟩ => if t' = t then some r.state else none
  | _ => none

/-- The state of `t` when the thread last read it. -/
def lastRead (t : TaskId) (h : Hist) : Option TaskState := h.findSome? (taskRead t)

/-- A `finish_task` with a state that is not terminal does not meet an ended task.
The one exception is a write of `IDLE` by a loop whose own last read had already
shown it ended: whether the loop makes such a write is for the code to say. A
snapshot that is restored has the tasks ended that have ended. -/
def guardedFinish (cfg : Config) : Cond cfg where
  call p h c s _ :=
    match c with
    | .db (.finishTask t st _ _) => st.terminal || !endedRow t s.ledger ||
        (decide (p = .loop t) && decide (st = .idle) && (lastRead t h).any TaskState.terminal)
    | _ => true
  event e s :=
    match e with
    | .restore => s.confirmed.all fun l => l.tasks.rows.all fun r =>
        !(s.ledger.tasks.find? r.id).all (fun r' => r'.state.terminal) || r.state.terminal
    | _ => true

/-! ### Events -/

section Events

variable {s s' : Shared} {t : TaskId}

theorem keepsEnded_event (cfg : Config) {e : Happening} (hinv : AllIssued s)
    (hK : (guardedFinish cfg).event e s = true) (h : e.apply s = some s') : KeepsEnded s s' := by
  cases e with
  | submit id r =>
      have hid : id ∉ s.taskIds := fresh_of_submit h
      obtain rfl := apply_submit h
      rintro t ⟨hmem, hterm⟩
      refine ⟨List.mem_cons_of_mem _ hmem, fun q hq => hterm q ?_⟩
      obtain hsame | ⟨rfl, -⟩ := submitted_task r hinv.ledger hid t
      · exact hsame.symm.trans hq
      · exact absurd hmem hid
  | recordBaseSha t sha =>
      obtain rfl := Option.some.inj h
      intro t' ht'
      exact ended_after (c := .recordBaseSha t (some sha)) ht' (by rintro _ _ _ ⟨⟩)
  | confirm =>
      simp only [Happening.apply] at h
      split at h
      · obtain rfl := Option.some.inj h
        exact fun _ ht => ht
      · simp at h
  | requestStop =>
      simp only [Happening.apply] at h
      split at h
      · obtain rfl := Option.some.inj h
        exact fun _ ht => ht
      · simp at h
  | restore =>
      simp only [Happening.apply] at h
      split at h
      · obtain ⟨l, hl, rfl⟩ := Option.map_eq_some_iff.mp h
        rintro t ⟨hmem, hterm⟩
        refine ⟨hmem, fun q hq => ?_⟩
        obtain rfl : q.id = t := Table.key_of_find? hq
        simp only [guardedFinish, hl, Option.all_some, List.all_eq_true] at hK
        have hq' := hK q (Table.mem_of_find? hq)
        have hall : (s.ledger.tasks.find? q.id).all (fun r => r.state.terminal) = true := by
          cases hf : s.ledger.tasks.find? q.id with
          | none => rfl
          | some r => exact hterm r hf
        simpa [hall] using hq'
      · simp at h
  | tick | sandboxEnds | publish | crash =>
      obtain rfl := Option.some.inj h
      exact fun _ ht => ht

end Events

/-! ### Calls -/

section Calls

variable {cfg : Config} {p : Pid} {o : Oracle} {c : Call} {s s' : Shared} {h : Hist} {a : c.Out}

theorem KeepsEnded.of_sameStore (hs : SameStore s s') : KeepsEnded s s' := by
  intro t ht
  unfold Ended
  rw [hs.taskIds, hs.ledger]
  exact ht

/-- A call keeps ended tasks ended, unless it is a loop's write of `IDLE`. -/
theorem keepsEnded_answer (hinv : AllIssued s) (hK : (guardedFinish cfg).call p h c s a = true)
    (hc : ∀ t o d, p = .loop t → c = .db (.finishTask t .idle o d) →
      (lastRead t h).any TaskState.terminal = false)
    (ha : s.answer p o c = some (a, s')) : KeepsEnded s s' := by
  obtain ⟨d, rfl, rfl⟩ | ⟨id, q, rfl, he⟩ | ⟨-, hsame⟩ := answer_cases ha
  · intro t ht
    refine ended_after ht fun st o d hd => ?_
    subst hd
    simp only [guardedFinish, Bool.or_eq_true, Bool.and_eq_true, decide_eq_true_eq,
      Bool.not_eq_true'] at hK
    rcases hK with (hst | hrow) | ⟨⟨hp, hst⟩, hread⟩
    · exact .inl hst
    · exact .inr hrow
    · subst hst
      rw [hc t o d hp rfl] at hread
      simp at hread
  · exact keepsEnded_event cfg hinv rfl he
  · exact .of_sameStore hsame

end Calls

/-! ### Programs -/

/-- The contract of a thread: ended tasks stay ended. -/
abbrev endedContract (cfg : Config) (p : Pid) :=
  Machine.contract (guardedFinish cfg) AllIssued (fun _ => KeepsEnded) (fun _ => KeepsEnded) p

/-- A call that is not a write of `IDLE` by `finish_task`. -/
def NoIdle (c : Call) : Prop := ∀ t o d, c ≠ .db (.finishTask t .idle o d)

theorem noIdle_of_inert {c : Call} (hc : c.inert = true) : NoIdle c := by
  rintro t o d rfl
  simp [Call.inert, LedgerCall.inert] at hc

/-- The loop's last read of `t` did not show it ended. -/
def ReadOpen (t : TaskId) (w : Shared × Hist) : Prop :=
  (lastRead t w.2).any TaskState.terminal = false

theorem lastRead_cons {t : TaskId} {e : Entry Call.Out Shared} {h : Hist}
    (he : taskRead t e = none) : lastRead t (e :: h) = lastRead t h := by
  simp [lastRead, he]

theorem taskRead_of_inert {t : TaskId} {e : Entry Call.Out Shared} (he : e.call.inert = true) :
    taskRead t e = none := by
  unfold taskRead
  split
  · simp [Call.inert, LedgerCall.inert] at he
  · rfl

section Programs

variable {cfg : Config} {p : Pid} {t : TaskId} {α : Type} {r : Routine α}

theorem keeps_of_noIdle (hr : Makes NoIdle r) : Keeps (endedContract cfg p) (fun _ => True) r := by
  refine keeps_of_makes hr (fun _ _ _ _ _ => trivial) fun c s o a s' h hc _ hinv hK ha => ?_
  refine ⟨allIssued_answer hinv ha, keepsEnded_answer hinv hK ?_ ha, trivial⟩
  intro t o d _ hcall
  exact absurd hcall (hc t o d)

/-- The scheduler and the requests are not loops, so the condition covers all
their writes. -/
theorem keeps_of_not_loop (hp : ∀ t, p ≠ .loop t) :
    Keeps (endedContract cfg p) (fun _ => True) r := by
  refine keeps_of_makes (Co.makes_true r) (fun _ _ _ _ _ => trivial)
    fun c s o a s' h _ _ hinv hK ha => ?_
  refine ⟨allIssued_answer hinv ha, keepsEnded_answer hinv hK ?_ ha, trivial⟩
  intro t o d hloop _
  exact absurd hloop (hp t)

/-- A call that neither writes `IDLE` nor reads the task. -/
def NoRead (t : TaskId) (c : Call) : Prop := NoIdle c ∧ ∀ a s, taskRead t ⟨c, a, s⟩ = none

theorem noRead_of_inert {c : Call} (hc : c.inert = true) : NoRead t c :=
  ⟨noIdle_of_inert hc, fun _ _ => taskRead_of_inert hc⟩

theorem keeps_readOpen (hr : Makes (NoRead t) r) :
    Keeps (endedContract cfg (.loop t)) (ReadOpen t) r := by
  refine keeps_of_makes hr (fun _ _ _ hA _ => hA) fun c s o a s' h hc hA hinv hK ha => ?_
  refine ⟨allIssued_answer hinv ha, keepsEnded_answer hinv hK ?_ ha, ?_⟩
  · intro t o d _ hcall
    exact absurd hcall (hc.1 t o d)
  · unfold ReadOpen
    rw [lastRead_cons (hc.2 a s)]
    exact hA

theorem keeps_readOpen_inert (hr : Inert r) :
    Keeps (endedContract cfg (.loop t)) (ReadOpen t) r :=
  keeps_readOpen (hr.mono fun _ hc => noRead_of_inert hc)

/-- After a read that did not show the task ended, the loop may write `IDLE`. -/
theorem keeps_finishIdle (o d : Option String) :
    Keeps (endedContract cfg (.loop t)) (ReadOpen t) (db (.finishTask t .idle o d)) := by
  refine keeps_call (fun _ _ _ hA _ => hA) (fun s o' a s' h hA hinv hK ha => ?_)
    fun a => ?_
  · refine ⟨allIssued_answer hinv ha, keepsEnded_answer hinv hK ?_ ha, ?_⟩
    · rintro t' o'' d' hloop -
      cases hloop
      exact hA
    · unfold ReadOpen
      rw [lastRead_cons rfl]
      exact hA
  · cases a with
    | ok a => exact Keeps.pure a
    | error e => exact Keeps.throw e

/-- A read of the task, with what it leaves in the history. -/
theorem safe_get {t' : TaskId} {owner : Option OwnerId}
    {post : Option TaskRecord → Shared × Hist → Prop} {exn : Exn → Shared × Hist → Prop}
    {w : Shared × Hist}
    (H : ∀ s task?, post task? (s, ⟨.db (.get t' owner), .ok task?, s⟩ :: w.2)) :
    Safe (endedContract cfg p) (db (.get t' owner)) post exn w :=
  safe_db fun s₁ hinv _ _ => ⟨hinv, fun _ h => h, H s₁ _⟩

theorem noIdle_of_startCall {c : Call} (hc : Manager.startCall t c = true) : NoIdle c := by
  rintro t' o d rfl
  simp [Manager.startCall, Manager.followupCall, Manager.recordCall, Manager.saveCall, Manager.sendCall,
    Manager.failCall, Manager.cleanupCall, Call.inert, LedgerCall.inert] at hc

theorem keeps_start (hr : Makes (fun c => Manager.startCall t c = true) r) :
    Keeps (endedContract cfg p) (fun _ => True) r :=
  keeps_of_noIdle (hr.mono fun _ hc => noIdle_of_startCall hc)

theorem keeps_inert (hr : Inert r) : Keeps (endedContract cfg p) (fun _ => True) r :=
  keeps_of_noIdle (hr.mono fun _ hc => noIdle_of_inert hc)

theorem keeps_db {c : LedgerCall} (hc : NoIdle (.db c)) :
    Keeps (endedContract cfg p) (fun _ => True) (db c) := keeps_of_noIdle (makes_db hc)

theorem keeps_attemptCleanup :
    Keeps (endedContract cfg p) (fun _ => True) (Manager.attemptCleanup t) :=
  keeps_start ((Manager.makes_attemptCleanup t).mono fun _ hc =>
    Manager.startCall_of_failCall t (Manager.failCall_of_cleanupCall t hc))

/-- Locks keep ended tasks ended. -/
theorem keeps_locked {l : Lock} (hr : Keeps (endedContract cfg p) (fun _ => True) r) :
    Keeps (endedContract cfg p) (fun _ => True) (withLock l r) := by
  refine keeps_withLock (fun _ _ _ _ _ => trivial) (fun c s o a s' h hc _ hinv hK ha => ?_) hr
  refine ⟨allIssued_answer hinv ha, keepsEnded_answer hinv hK ?_ ha, trivial⟩
  rintro t o d - rfl
  simp at hc

/-- The rollback of `_sleep_workspace` has just read the state it replaces. -/
theorem keeps_sleepFailed (e : Exn) :
    Keeps (endedContract cfg (.loop t)) (fun _ => True) (Manager.sleepFailed t e) := by
  intro w _
  refine Safe.bind (safe_get fun s task? => ?_)
  split
  · trivial
  next task =>
    split
    next hsleep =>
      have hopen : ReadOpen t (s, ⟨.db (.get t none), .ok (some task), s⟩ :: w.2) := by
        simp [ReadOpen, lastRead, taskRead, hsleep, TaskState.terminal]
      refine Safe.bind (Safe.mono (keeps_finishIdle none none _ hopen) ?_ ?_)
      · exact fun _ _ _ => trivial
      · exact fun _ _ _ => trivial
    next => trivial

theorem keeps_sleepWorkspace :
    Keeps (endedContract cfg (.loop t)) (fun _ => True) (Manager.sleepWorkspace t) := by
  refine keeps_locked (Keeps.bind (keeps_db (by rintro _ _ _ ⟨⟩)) fun marked => ?_)
  split
  · exact Keeps.bind (Keeps.tryCatch (keeps_inert (Manager.inert_putToSleep t))
      keeps_sleepFailed) fun _ => keeps_db (by rintro _ _ _ ⟨⟩)
  · exact Keeps.pure _

/-- `_finalize_locked` has read the task before it settles the run. -/
theorem keeps_settleRun (row : SupervisionRecord) (manifest : Option TaskResultManifest)
    {w : Shared × Hist} (hw : ReadOpen t w) :
    Safe (endedContract cfg (.loop t)) (Manager.settleRun t row manifest) (fun _ _ => True)
      (fun _ _ => True) w := by
  refine Safe.bind (Safe.mono (keeps_readOpen_inert (makes_db rfl) w hw) (fun _ w hw => ?_)
    fun _ _ _ => trivial)
  dsimp only
  split
  · refine Keeps.bind (keeps_db ?_) (fun _ => keeps_db ?_) w trivial
    all_goals rintro _ _ _ ⟨⟩
  · refine Safe.bind (Safe.mono (keeps_finishIdle _ _ w hw) (fun _ w _ => ?_)
      fun _ _ _ => trivial)
    exact keeps_db (by rintro _ _ _ ⟨⟩) w trivial

theorem keeps_finalizeConnected (row : SupervisionRecord) {w : Shared × Hist}
    (hw : ReadOpen t w) :
    Safe (endedContract cfg (.loop t)) (Manager.finalizeConnected cfg t row) (fun _ _ => True)
      (fun _ _ => True) w := by
  have hin : ∀ {α : Type} {r : Routine α} {f : α → Routine Unit}, Inert r →
      (∀ a w, ReadOpen t w → Safe (endedContract cfg (.loop t)) (f a) (fun _ _ => True)
        (fun _ _ => True) w) → ∀ w, ReadOpen t w →
      Safe (endedContract cfg (.loop t)) (r >>= f) (fun _ _ => True) (fun _ _ => True) w :=
    fun hr hf w hw => Safe.bind (Safe.mono (keeps_readOpen_inert hr w hw) hf fun _ _ _ => trivial)
  refine hin (Manager.inert_refreshSupervision t row) (fun row w hw => ?_) w hw
  have hgap : Inert (do
      let _ ← db (.updateSupervision t none none none none (some true))) :=
    Makes.bind (makes_db rfl) fun _ => Co.makes_pure _ _
  refine hin (Manager.inert_syncConversation cfg t row hgap) (fun _ w hw => ?_) w hw
  refine hin (makes_ext rfl) (fun reply w hw => ?_) w hw
  exact hin (makes_ofReply reply) (fun manifest w hw => keeps_settleRun row manifest hw) w hw

theorem keeps_finalizeLocked :
    Keeps (endedContract cfg (.loop t)) (fun _ => True) (Manager.finalizeLocked cfg t) := by
  have hlost : Keeps (endedContract cfg (.loop t)) (fun _ => True) (do
      let _ ← db (.updateSupervision t none none none none (some true))
      let _ ← db (.finishTask t .failed (some "sandbox lost before finalization completed") none)
      db (.updateReservation t .terminationPending (some "sandbox lost; cleanup pending") none)) := by
    refine Keeps.bind (keeps_db ?_) fun _ => Keeps.bind (keeps_db ?_) fun _ => keeps_db ?_
    all_goals rintro _ _ _ ⟨⟩
  intro w _
  refine Safe.bind (safe_get fun s task? => ?_)
  cases task? with
  | none =>
      refine Keeps.bind (keeps_db (by rintro _ _ _ ⟨⟩)) (fun row? => ?_) _ trivial
      exact Keeps.pure _
  | some task =>
      cases hterm : task.state.terminal with
      | true =>
          refine Keeps.bind (keeps_db (by rintro _ _ _ ⟨⟩)) (fun row? => ?_) _ trivial
          cases row? with
          | none => exact Keeps.pure _
          | some row =>
              simp only [hterm, if_true]
              exact keeps_attemptCleanup
      | false =>
          have hopen : ReadOpen t (s, ⟨.db (.get t none), .ok (some task), s⟩ :: w.2) := by
            simp [ReadOpen, lastRead, taskRead, hterm]
          refine Safe.bind (Safe.mono (keeps_readOpen (makes_db ⟨?_, ?_⟩) _ hopen)
            (fun row? w hw => ?_) fun _ _ _ => trivial)
          · rintro t' o d ⟨⟩
          · exact fun _ _ => rfl
          · cases row? with
            | none => trivial
            | some row =>
                simp only [hterm, Bool.false_eq_true, if_false]
                refine Safe.bind (Safe.attempt (Safe.mono
                  (keeps_readOpen_inert (Lifecycle.inert_connect t) w hw) (fun _ w hw => ?_)
                  fun e w _ => ?_))
                · exact keeps_finalizeConnected row hw
                · dsimp only
                  split
                  · exact hlost w trivial
                  · trivial

theorem keeps_cancelExecution (row : SupervisionRecord) :
    Keeps (endedContract cfg p) (fun _ => True) (Manager.cancelExecution t row) := by
  refine Keeps.bind (keeps_inert Lifecycle.inert_ensureDurable) fun _ => ?_
  refine Keeps.bind (keeps_inert (Manager.inert_cancelConversation t row)) fun _ => ?_
  refine Keeps.bind (keeps_inert (makes_ext rfl)) fun reply => ?_
  refine Keeps.bind (keeps_inert (makes_ofReply reply)) fun record => ?_
  split
  · exact keeps_db (by rintro _ _ _ ⟨⟩)
  · exact Keeps.pure _

theorem keeps_driveFinished (task : TaskRecord) (execution : Nat) :
    Keeps (endedContract cfg (.loop t)) (fun _ => True)
      (Manager.driveFinished cfg t task execution) := by
  refine Keeps.bind (keeps_inert (makes_db rfl)) fun archive => ?_
  split
  · refine Keeps.bind (keeps_inert (makes_db rfl)) fun pending => ?_
    split
    · exact keeps_start ((Manager.makes_startFollowup cfg t _).mono fun _ hc =>
        Manager.startCall_of_followupCall t hc)
    · split
      · refine Keeps.bind (keeps_inert (makes_now rfl)) fun moment => ?_
        split
        · exact keeps_sleepWorkspace
        · exact Keeps.pure _
      · exact Keeps.pure _
  · exact keeps_db (by rintro _ _ _ ⟨⟩)

theorem keeps_driveExecution (task : TaskRecord) (row : SupervisionRecord) :
    Keeps (endedContract cfg (.loop t)) (fun _ => True)
      (Manager.driveExecution cfg t task row) := by
  refine Keeps.bind (keeps_inert (Manager.inert_syncConversation cfg t row trivial)) fun _ => ?_
  refine Keeps.bind (keeps_inert (makes_ext rfl)) fun reply => ?_
  refine Keeps.bind (keeps_inert (makes_ofReply reply)) fun execution => ?_
  refine Keeps.bind ?_ fun execution => ?_
  · unfold Manager.honourCancel
    split
    · refine Keeps.bind (keeps_cancelExecution row) fun _ => ?_
      exact Keeps.bind (keeps_inert (makes_ext rfl)) fun reply =>
        keeps_inert (makes_ofReply reply)
    · exact Keeps.pure _
  · split
    · exact keeps_driveFinished task _
    · exact Keeps.pure _

theorem keeps_driveRunning :
    Keeps (endedContract cfg (.loop t)) (fun _ => True) (Manager.driveRunning cfg t) := by
  refine Keeps.bind (keeps_db (by rintro _ _ _ ⟨⟩)) fun task? => ?_
  split
  · exact Keeps.pure _
  next task =>
    refine Keeps.bind ?_ fun _ => ?_
    · unfold Manager.adoptQueued
      split
      · exact keeps_db (by rintro _ _ _ ⟨⟩)
      · exact Keeps.pure _
    · refine Keeps.bind (keeps_inert (Lifecycle.inert_connect t)).attempt fun r => ?_
      split
      · split
        · exact keeps_db (by rintro _ _ _ ⟨⟩)
        · exact Keeps.throw _
      · refine Keeps.bind (keeps_start (Manager.makes_ensureExecutionStarted cfg t)) fun row? => ?_
        split
        · exact Keeps.pure _
        · exact keeps_driveExecution task _

theorem keeps_activation :
    Keeps (endedContract cfg (.loop t)) (fun _ => True) (App.activation cfg t) := by
  have hround : Keeps (endedContract cfg (.loop t)) (fun _ => True) (Manager.round cfg t) := by
    refine Keeps.bind (keeps_db (by rintro _ _ _ ⟨⟩)) fun r? => ?_
    split
    · exact Keeps.pure _
    · split
      · exact Keeps.bind keeps_attemptCleanup fun _ => Keeps.pure _
      · exact Keeps.pure _
      · exact Keeps.bind (keeps_locked keeps_finalizeLocked) fun _ => Keeps.pure _
      · exact Keeps.pure _
      · exact Keeps.bind keeps_driveRunning fun _ => Keeps.pure _
  refine Keeps.bind (Keeps.attempt (Keeps.tryCatch hround fun e => ?_)) fun r => ?_
  · exact Keeps.bind (keeps_db (by rintro _ _ _ ⟨⟩)) fun _ => Keeps.pure _
  · split
    · exact Keeps.pure _
    · refine Keeps.bind (keeps_of_noIdle ⟨?_, fun _ => trivial⟩) fun _ => Keeps.pure _
      rintro t' o d ⟨⟩

end Programs

/-! ### Runs -/

theorem keepsEnded_trans (a b c : Shared) (hab : KeepsEnded a b) (hbc : KeepsEnded b c) :
    KeepsEnded a c := fun t ht => hbc t (hab t ht)

theorem sound_guardedFinish (cfg : Config) :
    Machine.Sound (guardedFinish cfg) AllIssued (fun _ => KeepsEnded) (fun _ => KeepsEnded)
      (fun _ _ _ => True) where
  rely_trans _ := keepsEnded_trans
  guar_rely _ _ _ _ _ h := h
  job p j s prog s' hinv hj := by
    obtain ⟨hstarted, ph, rfl⟩ := start_cases hj
    refine ⟨⟨hinv.ledger, hinv.published, hinv.confirmed⟩, fun _ ht => ht, ?_⟩
    cases hstarted with
    | iterate t => exact safe_ending (keeps_activation _ trivial)
    | boot | cycle | shutdown | message | cancel | route =>
        exact safe_ending (keeps_of_not_loop (by simp) _ trivial)
  event e s s' hinv hK he :=
    ⟨allIssued_event hinv he, fun _ _ => keepsEnded_event cfg hinv hK he⟩

/-- In a run whose writes are guarded, a task that is terminal in one state is
terminal in every later one, for as long as it has a row. -/
theorem terminal_absorbing {cfg : Config} {acts acts' : List (Act cfg)} {w w' : System}
    (hw : (backend cfg).run System.init acts = some w)
    (hw' : (backend cfg).run w acts' = some w')
    (hK : Machine.keeps (guardedFinish cfg) System.init (acts ++ acts') = true)
    {t : TaskId} {r : TaskRecord} (hr : w.shared.ledger.tasks.find? t = some r)
    (hterm : r.state.terminal = true) {r' : TaskRecord}
    (hr' : w'.shared.ledger.tasks.find? t = some r') : r'.state.terminal = true := by
  rw [Machine.keeps_append hw, Bool.and_eq_true] at hK
  have hsound := sound_guardedFinish cfg
  have hok := hsound.run (fun _ _ _ h => h) (ok_init allIssued_init) hK.1 hw
  have hkeep : KeepsEnded w.shared w'.shared := by
    refine hsound.run_rel (fun _ _ _ h => h) (fun _ _ h => h) keepsEnded_trans ?_ hok hK.2 hw'
    intro s s' heff
    cases heff with
    | thread p h => exact h
    | event e hinv hKe he => exact keepsEnded_event cfg hinv hKe he
  have hended : Ended t w.shared := by
    refine ⟨hok.1.ledger t r hr, fun q hq => ?_⟩
    obtain rfl := Option.some.inj (hr.symm.trans hq)
    exact hterm
  exact (hkeep t hended).2 r' hr'

/-- The loop goes on to release the sandbox of the failed task. -/
def cleaned : List (Act demo) :=
  [.event (.sandboxEnds 1)] ++ calls (.loop 1) 2 gone ++ snapshot ++ calls (.loop 1) 7 gone

theorem terminal_absorbing_cleaned :
    ∃ w w' r r', (backend demo).run System.init failing = some w ∧
      (backend demo).run w cleaned = some w' ∧
      Machine.keeps (guardedFinish demo) System.init (failing ++ cleaned) = true ∧
      w.shared.ledger.tasks.find? 1 = some r ∧ r.state = .failed ∧
      w'.shared.ledger.tasks.find? 1 = some r' ∧ r'.state.terminal = true := by
  have h : taskState 1 ((backend demo).run System.init failing) = some .failed := by
    decide +kernel
  have h' : taskState 1 ((backend demo).run System.init (failing ++ cleaned)) = some .failed := by
    decide +kernel
  have hK : Machine.keeps (guardedFinish demo) System.init (failing ++ cleaned) = true := by
    decide +kernel
  obtain ⟨w, r, hw, hr, hst⟩ := of_taskState h
  obtain ⟨w', r', hw', hr', -⟩ := of_taskState h'
  have hrest := run_of_append hw hw'
  exact ⟨w, w', r, r', hw, hrest, hK, hr, hst, hr',
    terminal_absorbing hw hrest hK hr (by rw [hst]; rfl) hr'⟩

/-- The VM is gone before the loop has written its second row, and a cycle of the
scheduler takes the failed task for a workspace that can be resumed. -/
def parked : List (Act demo) :=
  [.event (.sandboxEnds 1), .start .scheduler .cycle] ++ calls .scheduler 1 gone ++ snapshot ++
    calls .scheduler 11 gone

/-- Without the condition a failed task can be put to sleep. -/
theorem terminal_overwritten :
    ¬ ∀ (acts acts' : List (Act demo)) (w w' : System) (t : TaskId) (r r' : TaskRecord),
      (backend demo).run System.init acts = some w → (backend demo).run w acts' = some w' →
      w.shared.ledger.tasks.find? t = some r → r.state.terminal = true →
      w'.shared.ledger.tasks.find? t = some r' → r'.state.terminal = true := by
  intro hclaim
  have h : taskState 1 ((backend demo).run System.init failing) = some .failed := by
    decide +kernel
  have h' : taskState 1 ((backend demo).run System.init (failing ++ parked)) = some .sleeping := by
    decide +kernel
  obtain ⟨w, r, hw, hr, hst⟩ := of_taskState h
  obtain ⟨w', r', hw', hr', hst'⟩ := of_taskState h'
  have hterm := hclaim failing parked w w' 1 r r' hw (run_of_append hw hw') hr
    (by rw [hst]; rfl) hr'
  rw [hst'] at hterm
  simp [TaskState.terminal] at hterm

end GgAgent.Safety
