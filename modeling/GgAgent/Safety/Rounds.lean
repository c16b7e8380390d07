import GgAgent.Safety.Basic

/-!
The shape of a round of the supervision loop and of a cycle of the scheduler.

What a round owes to a contract is decided in a few places: where it fails a task,
puts a workspace to sleep, cleans up or settles a run. Everything between them
follows an execution. The rules here compose a round from these places, for any
contract; a property then has to look at the places only.
-/

namespace GgAgent.Safety

open GgAgent.Lib GgAgent.Backend
open GgAgent.Lib.Co (Makes Safe Keeps)

variable {σ : Type} {E : Prog.Contract Call.Out σ} {α β : Type}

/-! ### Driving an execution -/

/-- The calls with which a loop follows an execution. -/
def followCall (t : TaskId) (c : Call) : Bool :=
  Manager.followupCall t c ||
    match c with
    | .db (.updateReservation t' .running _ (some .running))
    | .db (.updateReservation t' .finalizing _ (some .finalizing)) => t' = t
    | _ => false

/-- What following an execution rests on: an assertion that its calls keep, and how a
workspace goes to sleep. `X` is left by an exception. -/
structure Follows (E : Prog.Contract Call.Out σ) (t : TaskId) (A X : σ → Prop) : Prop where
  escape : ∀ w, A w → X w
  follow : ∀ {α : Type} {r : Routine α}, Makes (fun c => followCall t c = true) r → Keeps E A r
  sleep : ∀ w, A w → Safe E (Manager.sleepWorkspace t) (fun _ _ => True) (fun _ => X) w

/-- What driving an execution rests on: how a start fails, and what following it does. -/
structure Drives (E : Prog.Contract Call.Out σ) (t : TaskId) (A X : σ → Prop) : Prop
    extends Follows E t A X where
  fail : ∀ detail w, A w →
    Safe E (Manager.failExecutionStart t detail) (fun _ _ => True) (fun _ => X) w

namespace Follows

variable {cfg : Config} {t : TaskId} {A X : σ → Prop}

theorem followCall_of_followupCall {c : Call} (hc : Manager.followupCall t c = true) :
    followCall t c = true := by
  simp [followCall, hc]

theorem followCall_of_recordCall {c : Call} (hc : Manager.recordCall t c = true) :
    followCall t c = true :=
  followCall_of_followupCall (Manager.followupCall_of_recordCall t hc)

theorem followCall_of_inert {c : Call} (hc : c.inert = true) : followCall t c = true :=
  followCall_of_recordCall (Manager.recordCall_of_inert t hc)

/-- A step that follows the execution, and the rest of the program. -/
theorem step (h : Follows E t A X) {r : Routine α} {f : α → Routine β} {post : β → σ → Prop} {w : σ}
    (hr : Makes (fun c => followCall t c = true) r) (hw : A w)
    (hf : ∀ a w, A w → Safe E (f a) post (fun _ => X) w) :
    Safe E (r >>= f) post (fun _ => X) w :=
  Safe.seq (Safe.mono (h.follow hr w hw) (fun _ _ hw => hw) fun _ w hw => h.escape w hw) hf

theorem step_inert (h : Follows E t A X) {r : Routine α} {f : α → Routine β}
    {post : β → σ → Prop} {w : σ} (hr : Inert r) (hw : A w)
    (hf : ∀ a w, A w → Safe E (f a) post (fun _ => X) w) :
    Safe E (r >>= f) post (fun _ => X) w :=
  h.step (hr.mono fun _ => followCall_of_inert) hw hf

theorem step_record (h : Follows E t A X) {r : Routine α} {f : α → Routine β}
    {post : β → σ → Prop} {w : σ} (hr : Makes (fun c => Manager.recordCall t c = true) r) (hw : A w)
    (hf : ∀ a w, A w → Safe E (f a) post (fun _ => X) w) :
    Safe E (r >>= f) post (fun _ => X) w :=
  h.step (hr.mono fun _ => followCall_of_recordCall) hw hf

/-- The last step of a program that follows the execution. -/
theorem last (h : Follows E t A X) {r : Routine α} {w : σ}
    (hr : Makes (fun c => followCall t c = true) r) (hw : A w) :
    Safe E r (fun _ => A) (fun _ => X) w :=
  Safe.mono (h.follow hr w hw) (fun _ _ hw => hw) fun _ w hw => h.escape w hw

theorem driveFinished (h : Follows E t A X) (task : TaskRecord) (n : Nat) {w : σ} (hw : A w) :
    Safe E (Manager.driveFinished cfg t task n) (fun _ _ => True) (fun _ => X) w := by
  refine h.step_inert (makes_db rfl) hw fun archive w hw => ?_
  split
  · refine h.step_inert (makes_db rfl) hw fun pending w hw => ?_
    split
    · exact Safe.mono (h.last ((Manager.makes_startFollowup cfg t _).mono fun _ =>
        followCall_of_followupCall) hw) (fun _ _ _ => trivial) fun _ _ hx => hx
    · split
      · refine h.step_inert (makes_now rfl) hw fun moment w hw => ?_
        split
        · exact h.sleep w hw
        · trivial
      · trivial
  · exact Safe.mono (h.last (makes_db (by simp [followCall])) hw) (fun _ _ _ => trivial)
      fun _ _ hx => hx

theorem driveExecution (h : Follows E t A X) (task : TaskRecord) (row : SupervisionRecord) {w : σ}
    (hw : A w) :
    Safe E (Manager.driveExecution cfg t task row) (fun _ _ => True) (fun _ => X) w := by
  refine h.step_inert (Manager.inert_syncConversation cfg t row trivial) hw fun _ w hw => ?_
  refine h.step_inert (makes_ext rfl) hw fun reply w hw => ?_
  refine h.step_inert (makes_ofReply reply) hw fun execution w hw => ?_
  refine h.step ?_ hw fun execution w hw => ?_
  · unfold Manager.honourCancel
    split
    · refine Makes.bind (Makes.bind (Makes.mono Lifecycle.inert_ensureDurable fun _ =>
        followCall_of_inert) fun _ => ?_) fun _ => Makes.bind (makes_ext rfl) fun reply =>
          makes_ofReply reply
      refine Makes.bind ((Manager.inert_cancelConversation t row).mono fun _ =>
        followCall_of_inert) fun _ => ?_
      refine Makes.bind (makes_ext rfl) fun reply => Makes.bind (makes_ofReply reply) fun record => ?_
      split
      · exact makes_db (by simp [followCall])
      · trivial
    · trivial
  · split
    · exact h.driveFinished task _ hw
    · trivial

end Follows

namespace Drives

variable {cfg : Config} {t : TaskId} {A X : σ → Prop}

open Follows

/-- A start that fails the task leaves nothing to follow. -/
theorem startRaised (h : Drives E t A X) (e : Exn) {w : σ} (hw : A w) :
    Safe E (Manager.startRaised t e) (fun row? w => row? = none ∨ A w) (fun _ => X) w := by
  have hfail : ∀ detail w, A w → Safe E (do
      Manager.failExecutionStart t detail
      pure none : Routine (Option SupervisionRecord)) (fun row? w => row? = none ∨ A w)
        (fun _ => X) w :=
    fun detail w hw => Safe.seq (h.fail detail w hw) fun _ _ _ => .inl rfl
  unfold Manager.startRaised
  split
  · exact hfail _ w hw
  · split
    · exact h.escape w hw
    · split
      · exact hfail _ w hw
      · exact h.step_record (makes_db (by simp [Manager.recordCall])) hw fun _ _ _ => .inl rfl

theorem startExecution (h : Drives E t A X) (task : TaskRecord) {w : σ} (hw : A w) :
    Safe E (Manager.startExecution cfg t task) (fun row? w => row? = none ∨ A w) (fun _ => X)
      w := by
  refine h.step_record (Manager.makes_startDeadline t task) hw fun deadline w hw => ?_
  refine h.step_inert (makes_now rfl) hw fun moment w hw => ?_
  dsimp only
  split
  · exact Safe.seq (h.fail _ w hw) fun _ _ _ => .inl rfl
  · refine h.step_record (makes_db (by simp [Manager.recordCall])) hw fun _ w hw => ?_
    refine h.step_inert (Manager.inert_authorizeExecution task _) hw fun _ w hw => ?_
    refine h.step (Makes.attempt ?_) hw fun reply w hw => ?_
    · refine Makes.bind ((Manager.inert_freshGithubToken cfg task).mono fun _ =>
        followCall_of_inert) fun token => Makes.bind (makes_ext ?_) fun reply => makes_ofReply reply
      exact followCall_of_followupCall (by simp [Manager.followupCall, Manager.sendCall,
        StartKey.taskId])
    · split
      · exact h.startRaised _ hw
      · exact Safe.mono (h.last ((Manager.makes_startAccepted t task _).mono fun _ =>
          followCall_of_recordCall) hw) (fun _ _ hw => .inr hw) fun _ _ hx => hx

theorem currentSupervision (h : Drives E t A X) (task : TaskRecord) {w : σ} (hw : A w) :
    Safe E (Manager.currentSupervision cfg t task) (fun row? w => row? = none ∨ A w) (fun _ => X)
      w := by
  have hfollow : ∀ receipt w, A w → Safe E (Manager.followupSupervision cfg t receipt)
      (fun row? w => row? = none ∨ A w) (fun _ => X) w := by
    intro receipt w hw
    refine h.step ((Manager.makes_startFollowup cfg t receipt).mono fun _ =>
      followCall_of_followupCall) hw fun _ w hw => ?_
    exact Safe.mono (h.last (makes_db (by simp [followCall, Manager.followupCall,
      Manager.recordCall])) hw) (fun _ _ hw => .inr hw) fun _ _ hx => hx
  refine h.step_record (makes_db (by simp [Manager.recordCall])) hw fun row? w hw => ?_
  split
  · exact h.startExecution task hw
  · split
    · exact h.startExecution task hw
    · split
      · split
        · exact .inr hw
        · refine h.step_inert (makes_db rfl) hw fun receipt? w hw => ?_
          split
          · exact .inr hw
          · exact hfollow _ w hw
      · refine h.step_inert (makes_ext rfl) hw fun reply w hw => ?_
        split
        · exact .inr hw
        · refine h.step_inert (makes_db rfl) hw fun pending w hw => ?_
          split
          · exact .inl rfl
          · exact hfollow _ w hw
        · exact h.escape w hw

theorem ensureExecutionStarted (h : Drives E t A X) {w : σ} (hw : A w) :
    Safe E (Manager.ensureExecutionStarted cfg t) (fun row? w => row? = none ∨ A w) (fun _ => X)
      w := by
  refine h.step_record (makes_db (by simp [Manager.recordCall])) hw fun task? w hw => ?_
  split
  · exact .inl rfl
  · refine Safe.seq (h.currentSupervision _ hw) fun row? w hw => ?_
    split
    · exact .inl rfl
    next row =>
      have hA : A w := hw.resolve_left (by simp)
      exact h.step_inert (Manager.inert_refreshSupervision t row) hA fun _ _ hw => .inr hw

theorem driveRunning (h : Drives E t A X) {w : σ} (hw : A w) :
    Safe E (Manager.driveRunning cfg t) (fun _ _ => True) (fun _ => X) w := by
  refine h.step_record (makes_db (by simp [Manager.recordCall])) hw fun task? w hw => ?_
  split
  · trivial
  next task =>
    refine h.step ?_ hw fun _ w hw => ?_
    · unfold Manager.adoptQueued
      split
      · exact makes_db (by simp [followCall])
      · trivial
    · refine h.step_inert (Lifecycle.inert_connect t).attempt hw fun r w hw => ?_
      split
      · split
        · exact Safe.mono (h.last (makes_db (by simp [followCall, Manager.followupCall,
            Manager.recordCall])) hw) (fun _ _ _ => trivial) fun _ _ hx => hx
        · exact h.escape w hw
      · refine Safe.seq (h.ensureExecutionStarted hw) fun row? w hw => ?_
        split
        · trivial
        · exact h.driveExecution task _ (hw.resolve_left (by simp))

end Drives

/-! ### Finalization -/

/-- What finalization rests on. It goes on with `T` from a task that has ended, and
with `N` from any other. -/
structure Finalizes (E : Prog.Contract Call.Out σ) (t : TaskId) (A T N X : σ → Prop) : Prop where
  find : ∀ w, A w → Safe E (db (.get t none))
    (fun task? w => if task?.any fun r => r.state.terminal then T w else N w) (fun _ => X) w
  ended : ∀ w, T w → Safe E (db (.getSupervision t)) (fun _ => T) (fun _ => X) w
  record : ∀ {α : Type} {r : Routine α}, Makes (fun c => Manager.recordCall t c = true) r → ∀ w,
    N w → Safe E r (fun _ => N) (fun _ => X) w
  escape : ∀ w, N w → X w
  cleanup : ∀ w, T w → Safe E (Manager.attemptCleanup t) (fun _ _ => True) (fun _ => X) w
  lose : ∀ detail condition w, N w → Safe E (do
    let _ ← db (.finishTask t .failed detail none)
    db (.updateReservation t .terminationPending condition none)) (fun _ _ => True) (fun _ => X) w
  settle : ∀ row manifest w, N w →
    Safe E (Manager.settleRun t row manifest) (fun _ _ => True) (fun _ => X) w

namespace Finalizes

variable {cfg : Config} {t : TaskId} {A T N X : σ → Prop}

theorem inert (h : Finalizes E t A T N X) {r : Routine α} (hr : Inert r) {w : σ} (hw : N w) :
    Safe E r (fun _ => N) (fun _ => X) w :=
  h.record (hr.mono fun _ => Manager.recordCall_of_inert t) w hw

theorem finalizeConnected (h : Finalizes E t A T N X) (row : SupervisionRecord) {w : σ}
    (hw : N w) :
    Safe E (Manager.finalizeConnected cfg t row) (fun _ _ => True) (fun _ => X) w := by
  refine Safe.seq (h.inert (Manager.inert_refreshSupervision t row) hw) fun row w hw => ?_
  refine Safe.seq (h.inert (Manager.inert_syncConversation cfg t row (Manager.inert_tailGap t)) hw)
    fun _ w hw => ?_
  refine Safe.seq (h.inert (makes_ext rfl) hw) fun reply w hw => ?_
  refine Safe.seq (h.inert (makes_ofReply reply) hw) fun manifest w hw => ?_
  exact h.settle row manifest w hw

theorem finalizeLocked (h : Finalizes E t A T N X) {w : σ} (hw : A w) :
    Safe E (Manager.finalizeLocked cfg t) (fun _ _ => True) (fun _ => X) w := by
  refine Safe.seq (h.find w hw) fun task? w hw => ?_
  cases hterm : task?.any fun r => r.state.terminal with
  | true =>
      rw [hterm, if_pos rfl] at hw
      refine Safe.seq (h.ended w hw) fun row? w hw => ?_
      split
      next task row =>
        have htask : task.state.terminal = true := hterm
        rw [if_pos htask]
        exact h.cleanup w hw
      next => trivial
  | false =>
      rw [hterm, if_neg (by simp)] at hw
      refine Safe.seq (h.record (makes_db (by simp [Manager.recordCall])) w hw) fun row? w hw => ?_
      split
      next task row =>
        have htask : task.state.terminal = false := hterm
        rw [if_neg (by simp [htask])]
        refine Safe.seq (h.inert (Lifecycle.inert_connect t).attempt hw) fun r w hw => ?_
        split
        · split
          · refine Safe.seq (h.inert (makes_db rfl) hw) fun _ w hw => ?_
            exact h.lose _ _ w hw
          · exact h.escape w hw
        · exact h.finalizeConnected row hw
      next => trivial

end Finalizes

/-! ### A round of the loop -/

section Round

variable {cfg : Config} {t : TaskId} {I B F A X : σ → Prop}

/-- `async with`: the lock is taken and given back around the body. -/
theorem safe_withLock {l : Lock} {r : Routine α}
    (hacquire : ∀ w, A w → Safe E (ExceptT.mk (Prog.call (Call.acquire l) fun r => .ret (.ok r)) :
      Routine Unit) (fun _ => A) (fun _ => X) w)
    (hr : ∀ w, A w → Safe E r (fun _ => B) (fun _ => X) w)
    (hdone : ∀ w, B w → Safe E (ExceptT.mk (Prog.call (Call.release l) fun r => .ret (.ok r)) :
      Routine Unit) (fun _ => B) (fun _ => X) w)
    (hraised : ∀ w, X w → Safe E (ExceptT.mk (Prog.call (Call.release l) fun r => .ret (.ok r)) :
      Routine Unit) (fun _ => X) (fun _ => X) w) {w : σ} (hw : A w) :
    Safe E (withLock l r) (fun _ => B) (fun _ => X) w := by
  refine Safe.seq (hacquire w hw) fun _ w hw => ?_
  refine Safe.bind (Safe.attempt (Safe.mono (hr w hw) (fun a w hw => ?_) fun e w hw => ?_))
  · exact Safe.seq (hdone w hw) fun _ _ hw => hw
  · exact Safe.seq (hraised w hw) fun _ _ hw => hw

/-- A round goes on from the phase that it reads. -/
theorem safe_round
    (hget : ∀ w, I w → Safe E (db (.getReservation t)) (fun q? w => ∀ q, q? = some q →
      (q.phase = .terminationPending → B w) ∧ (q.phase = .finalizing → F w) ∧
        (q.phase = .running → A w)) (fun _ => X) w)
    (hcleanup : ∀ w, B w → Safe E (Manager.attemptCleanup t) (fun _ _ => True) (fun _ => X) w)
    (hfinal : ∀ w, F w → Safe E (Manager.finalize cfg t) (fun _ _ => True) (fun _ => X) w)
    (hdrive : ∀ w, A w → Safe E (Manager.driveRunning cfg t) (fun _ _ => True) (fun _ => X) w)
    {w : σ} (hw : I w) : Safe E (Manager.round cfg t) (fun _ _ => True) (fun _ => X) w := by
  refine Safe.seq (hget w hw) fun q? w hw => ?_
  split
  · trivial
  next q =>
    obtain ⟨hB, hF, hA⟩ := hw q rfl
    split
    next hphase => exact Safe.seq (hcleanup w (hB hphase)) fun _ _ _ => trivial
    next => trivial
    next hphase => exact Safe.seq (hfinal w (hF hphase)) fun _ _ _ => trivial
    next => trivial
    next hphase => exact Safe.seq (hdrive w (hA hphase)) fun _ _ _ => trivial

/-- An exception of the round is noted in the reservation, and the loop is over. -/
theorem safe_activation
    (hround : ∀ w, I w → Safe E (Manager.round cfg t) (fun _ _ => True) (fun _ => X) w)
    (hnote : ∀ detail w, X w → Safe E (db (.updateReservation t .running detail none))
      (fun _ _ => True) (fun _ _ => True) w)
    (hexit : Keeps E (fun _ => True) (exitLoop t)) {w : σ} (hw : I w) :
    Safe E (App.activation cfg t) (fun _ _ => True) (fun _ _ => True) w := by
  refine Safe.bind (Safe.attempt_either (Safe.mono (Safe.tryCatch (Safe.mono (hround w hw)
    (fun _ _ _ => trivial) fun e w hw => ?_)) (fun _ _ h => h) fun _ _ h => h) |>.mono
    (fun r w _ => ?_) fun _ _ h => h)
  · exact Safe.seq (hnote _ w hw) fun _ _ _ => trivial
  · split
    · trivial
    · exact Safe.seq (hexit w trivial) fun _ _ _ => trivial

end Round

/-! ### Delivering messages -/

/-- What a loop rests on that delivers messages. `B` holds between its steps, `S` where
it starts the first execution, and `Q` of a message that it has picked. -/
structure Delivers (E : Prog.Contract Call.Out σ) (cfg : Config) (t : TaskId) (B S : σ → Prop)
    (Q : MessageReceipt → σ → Prop) : Prop where
  work : ∀ {α : Type} {r : Routine α}, Makes (fun c => Manager.driveCall t c = true) r → Keeps E B r
  lock : ∀ {α : Type} {l : Lock} {r : Routine α}, Makes (fun c => Manager.driveCall t c = true) r →
    Keeps E B (withLock l r)
  exit : Keeps E B (exitLoop t)
  supervision : ∀ w, B w → Safe E (db (.getSupervision t))
    (fun row? w => B w ∧ ((∀ row, row? = some row → row.executionId = .key (.task t)) → S w))
    (fun _ => B) w
  start : ∀ task w, S w →
    Safe E (Manager.startExecution cfg t task) (fun _ => B) (fun _ => B) w
  resume : ∀ m w, B w → Safe E (db (.getTaskMessageReceipt t m))
    (fun r? w => B w ∧ ∀ r, r? = some r → Q r w) (fun _ => B) w
  pick : ∀ w, B w → Safe E (db (.listAcceptedTaskMessages t))
    (fun rs w => B w ∧ ∀ r, rs.head? = some r → Q r w) (fun _ => B) w
  followup : ∀ r w, Q r w →
    Safe E (Manager.startFollowup cfg t r) (fun _ => B) (fun _ => B) w

namespace Delivers

variable {cfg : Config} {t : TaskId} {B S : σ → Prop} {Q : MessageReceipt → σ → Prop}

theorem inert (h : Delivers E cfg t B S Q) {r : Routine α} (hr : Inert r) : Keeps E B r :=
  h.work (Manager.inert_drive t hr)

theorem record (h : Delivers E cfg t B S Q) {c : LedgerCall}
    (hc : Manager.recordCall t (.db c) = true) : Keeps E B (db c) :=
  h.work (makes_db (Manager.driveCall_of_recordCall t hc))

theorem followupSupervision (h : Delivers E cfg t B S Q) {receipt : MessageReceipt} {w : σ}
    (hw : Q receipt w) :
    Safe E (Manager.followupSupervision cfg t receipt) (fun _ => B) (fun _ => B) w :=
  Safe.seq (h.followup receipt w hw) fun _ w hw => h.record (by simp [Manager.recordCall]) w hw

theorem currentSupervision (h : Delivers E cfg t B S Q) (task : TaskRecord) :
    Keeps E B (Manager.currentSupervision cfg t task) := by
  intro w hw
  refine Safe.seq (h.supervision w hw) fun row? w hw => ?_
  obtain ⟨hB, hS⟩ := hw
  split
  · exact h.start task w (hS (by simp))
  next row =>
    split
    next hkey =>
      refine h.start task w (hS fun row' hrow => ?_)
      obtain rfl := Option.some.inj hrow
      exact hkey
    · split
      · split
        · exact hB
        · refine Safe.seq (h.resume _ w hB) fun receipt? w hw => ?_
          split
          · exact hw.1
          next receipt => exact h.followupSupervision (hw.2 receipt rfl)
      · refine Safe.seq (h.inert (makes_ext rfl) w hB) fun reply w hw => ?_
        split
        · exact hw
        · refine Safe.seq (h.pick w hw) fun pending w hw => ?_
          split
          · exact hw.1
          next receipt rest => exact h.followupSupervision (hw.2 receipt rfl)
        · exact hw

theorem ensureExecutionStarted (h : Delivers E cfg t B S Q) :
    Keeps E B (Manager.ensureExecutionStarted cfg t) := by
  refine Keeps.bind (h.record (by simp [Manager.recordCall])) fun task? => ?_
  split
  · exact Keeps.pure _
  · refine Keeps.bind (h.currentSupervision _) fun row? => ?_
    split
    · exact Keeps.pure _
    next row =>
      exact Keeps.bind (h.inert (Manager.inert_refreshSupervision t row)) fun _ => Keeps.pure _

theorem sleepWorkspace (h : Delivers E cfg t B S Q) : Keeps E B (Manager.sleepWorkspace t) := by
  refine h.lock (Makes.bind (makes_db (by simp [Manager.driveCall])) fun marked => ?_)
  split
  · refine Makes.bind (Makes.tryCatch (Manager.inert_drive t (Manager.inert_putToSleep t))
      fun e => ?_) fun _ => makes_db (by simp [Manager.driveCall, Manager.failCall,
        Manager.cleanupCall])
    refine Makes.bind (makes_db (by simp [Manager.driveCall, Manager.recordCall])) fun task? => ?_
    split
    · trivial
    · split
      · exact Makes.bind (makes_db (by simp [Manager.driveCall])) fun _ => trivial
      · trivial
  · trivial

theorem driveFinished (h : Delivers E cfg t B S Q) (task : TaskRecord) (n : Nat) :
    Keeps E B (Manager.driveFinished cfg t task n) := by
  refine Keeps.bind (h.inert (makes_db rfl)) fun archive => ?_
  split
  · intro w hw
    refine Safe.seq (h.pick w hw) fun pending w hw => ?_
    split
    next receipt rest => exact h.followup receipt w (hw.2 receipt rfl)
    · split
      · refine Keeps.bind (h.inert (makes_now rfl)) (fun moment => ?_) w hw.1
        split
        · exact h.sleepWorkspace
        · exact Keeps.pure _
      · exact hw.1
  · exact h.work (makes_db (by simp [Manager.driveCall]))

theorem driveExecution (h : Delivers E cfg t B S Q) (task : TaskRecord) (row : SupervisionRecord) :
    Keeps E B (Manager.driveExecution cfg t task row) := by
  refine Keeps.bind (h.inert (Manager.inert_syncConversation cfg t row trivial)) fun _ => ?_
  refine Keeps.bind (h.inert (makes_ext rfl)) fun reply => ?_
  refine Keeps.bind (h.inert (makes_ofReply reply)) fun execution => ?_
  refine Keeps.bind ?_ fun execution => ?_
  · unfold Manager.honourCancel
    split
    · refine Keeps.bind (h.work (Manager.makes_cancelExecution t row)) fun _ => ?_
      exact Keeps.bind (h.inert (makes_ext rfl)) fun reply => h.inert (makes_ofReply reply)
    · exact Keeps.pure _
  · split
    · exact h.driveFinished task _
    · exact Keeps.pure _

theorem driveRunning (h : Delivers E cfg t B S Q) : Keeps E B (Manager.driveRunning cfg t) := by
  refine Keeps.bind (h.record (by simp [Manager.recordCall])) fun task? => ?_
  split
  · exact Keeps.pure _
  next task =>
    refine Keeps.bind ?_ fun _ => ?_
    · unfold Manager.adoptQueued
      split
      · exact h.work (makes_db (by simp [Manager.driveCall]))
      · exact Keeps.pure _
    · refine Keeps.bind (h.inert (Lifecycle.inert_connect t)).attempt fun r => ?_
      split
      · split
        · exact h.record (by simp [Manager.recordCall])
        · exact Keeps.throw _
      · refine Keeps.bind h.ensureExecutionStarted fun row? => ?_
        split
        · exact Keeps.pure _
        · exact h.driveExecution task _

theorem activation (h : Delivers E cfg t B S Q) : Keeps E B (App.activation cfg t) := by
  have hround : Keeps E B (Manager.round cfg t) := by
    refine Keeps.bind (h.record (by simp [Manager.recordCall])) fun q? => ?_
    split
    · exact Keeps.pure _
    · split
      · exact Keeps.bind (h.work (Manager.makes_drive_attemptCleanup t)) fun _ => Keeps.pure _
      · exact Keeps.pure _
      · exact Keeps.bind (h.lock (Manager.makes_finalizeLocked cfg t)) fun _ => Keeps.pure _
      · exact Keeps.pure _
      · exact Keeps.bind h.driveRunning fun _ => Keeps.pure _
  refine Keeps.bind (Keeps.attempt (Keeps.tryCatch hround fun e => ?_)) fun r => ?_
  · exact Keeps.bind (h.record (by simp [Manager.recordCall])) fun _ => Keeps.pure _
  · split
    · exact Keeps.pure _
    · exact Keeps.bind h.exit fun _ => Keeps.pure _

end Delivers

/-! ### A cycle of the scheduler -/

/-- The rounds of a loop over reservations of different tasks. `R` is what is known
of a reservation that was listed. -/
theorem safe_forM_reservations {A : σ → Prop} {R : ReservationRecord → σ → Prop}
    {f : ReservationRecord → Routine Unit}
    (hf : ∀ (q : ReservationRecord) (rs : List ReservationRecord) w, A w → R q w → (∀ q' ∈ rs, q.taskId ≠ q'.taskId ∧ R q' w) →
      Safe E (f q) (fun _ w => A w ∧ ∀ q' ∈ rs, R q' w) (fun _ => A) w) :
    ∀ {rs : List ReservationRecord} {w : σ}, rs.Pairwise (fun q q' => q.taskId ≠ q'.taskId) →
      A w → (∀ q ∈ rs, R q w) → Safe E (rs.forM f) (fun _ => A) (fun _ => A) w
  | [], _, _, hA, _ => hA
  | q :: rs, w, hd, hA, hR => by
      obtain ⟨hne, hd⟩ := List.pairwise_cons.mp hd
      refine Safe.seq (hf q rs w hA (hR q (by simp)) fun q' hq' => ⟨hne q' hq', hR q' (by simp [hq'])⟩)
        fun _ w hw => ?_
      exact safe_forM_reservations hf hd hw.1 hw.2

/-- Maintenance takes the lock of each workspace that it expires. -/
theorem keeps_maintenance {cfg : Config} {A : σ → Prop}
    (htend : ∀ {α : Type} {r : Routine α}, Makes (fun c => Scheduler.tendCall c = true) r →
      Keeps E A r)
    (hlock : ∀ {α : Type} {l : Lock} {r : Routine α}, Makes (fun c => Scheduler.tendCall c = true) r →
      Keeps E A (withLock l r)) : Keeps E A (Scheduler.maintenance cfg) := by
  refine Keeps.bind (htend (makes_ext rfl)) fun due => ?_
  split
  · refine Keeps.bind (htend (makes_now rfl)) fun moment => Keeps.bind ?_ fun _ => ?_
    · refine keeps_loop (htend (makes_ext rfl)) fun afterSeq => ?_
      refine Keeps.bind (htend (makes_db rfl)) fun tasks => ?_
      split
      · exact Keeps.pure _
      · refine Keeps.bind (Keeps.forM fun task _ => ?_) fun _ => Keeps.pure _
        exact hlock (Scheduler.makes_expireSleeping task.id)
    · exact htend (Scheduler.makes_runRetentionPass cfg)
  · exact Keeps.pure _

/-- What admission rests on. `P` is what makes a task one to provision. -/
structure Admits (E : Prog.Contract Call.Out σ) (cfg : Config) (A : σ → Prop)
    (P : TaskId → σ → Prop) : Prop where
  upkeep : ∀ {α : Type} {r : Routine α}, Makes (fun c => Scheduler.tendCall c = true) r →
    Keeps E A r
  maintain : Keeps E A (Scheduler.maintenance cfg)
  list : ∀ w, A w → Safe E (db .listReservations)
    (fun rs w => A w ∧ ∀ q ∈ rs, q.phase = .starting → P q.taskId w) (fun _ => A) w
  reserve : ∀ n w, A w → Safe E (db (.reserveNext n))
    (fun r? w => A w ∧ ∀ r, r? = some r → P r.id w) (fun _ => A) w
  stop : ∀ (ts : List TaskId) w, A w → (∀ t ∈ ts, P t w) →
    Safe E stopIsSet (fun _ w => A w ∧ ∀ t ∈ ts, P t w) (fun _ => A) w
  provision : ∀ t (ts : List TaskId) w, A w → P t w → (∀ u ∈ ts, P u w) →
    Safe E (Scheduler.provision cfg t) (fun _ w => A w ∧ ∀ u ∈ ts, P u w) (fun _ => A) w

namespace Admits

variable {cfg : Config} {A : σ → Prop} {P : TaskId → σ → Prop}

/-- The tasks of the reservations that are to be provisioned. -/
def pending (rs : List ReservationRecord) : List TaskId :=
  (rs.filter fun q => q.phase = .starting).map ReservationRecord.taskId

theorem provisionStarting (h : Admits E cfg A P) :
    ∀ {rs : List ReservationRecord} {w : σ}, A w → (∀ t ∈ pending rs, P t w) →
      Safe E (Scheduler.provisionStarting cfg rs) (fun _ => A) (fun _ => A) w
  | [], _, hA, _ => hA
  | q :: rs, w, hA, hP => by
      unfold Scheduler.provisionStarting
      split
      next hphase =>
        refine h.provisionStarting hA fun t ht => hP t ?_
        rw [pending, List.filter_cons_of_neg (by simpa using hphase)]
        exact ht
      next hphase =>
        have hpend : pending (q :: rs) = q.taskId :: pending rs := by
          have hq : q.phase = .starting := by simpa using hphase
          simp [pending, hq]
        rw [hpend] at hP
        refine Safe.seq (h.provision q.taskId (pending rs) w hA (hP _ (by simp)) fun u hu =>
          hP u (by simp [hu])) fun _ w hw => ?_
        refine Safe.seq (h.stop (pending rs) w hw.1 hw.2) fun stop w hw => ?_
        split
        · exact hw.1
        · exact h.provisionStarting hw.1 hw.2

theorem fillSlots (h : Admits E cfg A P) : Keeps E A (Scheduler.fillSlots cfg) := by
  refine keeps_loop (h.upkeep (makes_ext rfl)) fun _ => ?_
  refine Keeps.bind (h.upkeep (makes_stopIsSet rfl)) fun stop => ?_
  split
  · exact Keeps.pure _
  · intro w hw
    refine Safe.seq (h.reserve cfg.capacity w hw) fun task? w hw => ?_
    split
    · exact hw.1
    next task =>
      refine Safe.seq (h.provision task.id [] w hw.1 (hw.2 task rfl) (by simp)) fun _ w hw => ?_
      exact hw.1

theorem admission (h : Admits E cfg A P) : Keeps E A (Scheduler.admission cfg) := by
  refine Keeps.bind (h.upkeep Scheduler.makes_syncReservedTasks) fun _ w hw => ?_
  refine Safe.seq (h.list w hw) fun rs w hw => ?_
  have hP : ∀ t ∈ pending rs, P t w := by
    intro t ht
    simp only [pending, List.mem_map, List.mem_filter, decide_eq_true_eq] at ht
    obtain ⟨q, ⟨hq, hphase⟩, rfl⟩ := ht
    exact hw.2 q hq hphase
  refine Safe.seq (h.provisionStarting hw.1 hP) fun stopped w hw => ?_
  split
  · exact hw
  · refine Keeps.bind (h.upkeep (makes_db rfl)) (fun rs => ?_) w hw
    split
    · exact Keeps.pure _
    · refine Keeps.bind (h.upkeep (makes_db rfl)) fun n => ?_
      split
      · exact Keeps.pure _
      · refine Keeps.bind (h.upkeep (makes_ext rfl)) fun pressure => ?_
        split
        · exact Keeps.pure _
        · exact h.fillSlots

theorem dispatchOnce (h : Admits E cfg A P) (hrec : Keeps E A Scheduler.reconcile) :
    Keeps E A (Scheduler.dispatchOnce cfg) := by
  refine Keeps.bind (h.upkeep (Makes.mono Lifecycle.inert_ensureDurable fun _ hc => by
    simp [Scheduler.tendCall, hc])) fun _ => ?_
  refine Keeps.bind hrec fun _ => ?_
  refine Keeps.bind h.maintain fun _ => ?_
  split
  · exact Keeps.pure _
  · refine Keeps.bind (h.upkeep (makes_stopIsSet rfl)) fun stop => ?_
    split
    · exact Keeps.pure _
    · exact h.admission

theorem lifespan (h : Admits E cfg A P) (hrec : Keeps E A Scheduler.reconcile)
    (hup : Keeps E A recovered) : Keeps E A App.lifespan := by
  refine Keeps.bind (h.upkeep (Makes.mono Lifecycle.inert_ensureDurable fun _ hc => by
    simp [Scheduler.tendCall, hc])) fun _ => ?_
  refine Keeps.bind hrec fun _ => ?_
  exact Keeps.bind (h.upkeep Scheduler.makes_syncReservedTasks) fun _ => hup

end Admits

end GgAgent.Safety
