import GgAgent.Sandbox.Ownership

/-!
Every pipeline, and recovery, keep the contracts of the store.

A pipeline is followed through its statements with the row it owns: as long as nothing has
escaped its handlers, its execution is open and all its calls met the condition `settling`;
an exception says which of the two it is, by the class it has. Recovery is followed
through its list of executions, of which none is over yet.
-/

namespace GgAgent.Sandbox

open GgAgent.Lib
open GgAgent.Lib.Co (attempt Safe)
open GgAgent.Backend (Time TaskExecutionPhase AgentOutcome CheckOutcome)

/-! ### The row of a pipeline -/

/-- Two records of one execution. -/
structure Twin (a b : TaskExecutionRecord) : Prop where
  executionId : b.executionId = a.executionId
  startKey : b.startKey = a.startKey
  identity : Store.identity b = Store.identity a

theorem Twin.trans_symm {a b c : TaskExecutionRecord} (hb : Twin a b) (hc : Twin a c) :
    Twin b c where
  executionId := hc.executionId.trans hb.executionId.symm
  startKey := hc.startKey.trans hb.startKey.symm
  identity := hc.identity.trans hb.identity.symm

theorem Twin.updated {a b : TaskExecutionRecord} (h : Twin a b) (now : Time)
    (phase : TaskExecutionPhase) (path detail : Option String) :
    Twin a (updated now b phase path detail) :=
  ⟨h.executionId, h.startKey, h.identity⟩

/-- The state after a save. -/
def State.putRow (record : TaskExecutionRecord) (s : State) : State :=
  { s with store := { s.store with executions := s.store.executions.put record } }

/-- A save of a twin of the stored record succeeds. -/
theorem saveExecution_twin {s : State} {r record : TaskExecutionRecord} {id : String}
    (hr : s.store.executions.find? id = some r) (ht : Twin r record) :
    s.saveExecution record = (.ok (), s.putRow record) := by
  have hid : record.executionId = id := ht.executionId.trans (Table.key_of_find? hr)
  have hsame : (r.startKey, Store.identity r) = (record.startKey, Store.identity record) := by
    rw [ht.startKey, ht.identity]
  simp only [State.saveExecution, Store.saveExecution, hid, hr, hsame, ne_eq, not_true_eq_false,
    if_false]
  rfl

theorem find?_putRow (record : TaskExecutionRecord) (s : State) (j : String) :
    (s.putRow record).store.executions.find? j =
      if j = record.executionId then some record else s.store.executions.find? j :=
  Table.find?_put s.store.executions record j

theorem find?_putRow_self (record : TaskExecutionRecord) {id : String}
    (hid : record.executionId = id) (s : State) :
    (s.putRow record).store.executions.find? id = some record := by
  rw [find?_putRow, if_pos hid.symm]

theorem kept_putRow {record : TaskExecutionRecord} {s : State} {j : String}
    (hj : j ≠ record.executionId) : Kept j s (s.putRow record) where
  row := by rw [find?_putRow, if_neg hj]
  manifest := rfl
  handed _ _ := Iff.rfl

theorem inv_putRow {cfg : Settings} {record : TaskExecutionRecord} {s : State} (hinv : Inv cfg s)
    (hid : ¬ Marked record.executionId)
    (hdetail : record.phase.over = false → record.outcomeDetail = none) :
    Inv cfg (s.putRow record) := by
  refine ⟨?_, ?_, hinv.handed, ?_, hinv.failed⟩
  · intro j r hr
    rw [find?_putRow] at hr
    split at hr
    next hj =>
      rw [hj]
      exact hid
    next => exact hinv.unmarked j r hr
  · intro j r hr
    rw [find?_putRow] at hr
    split at hr
    next =>
      obtain rfl := Option.some.inj hr
      exact hdetail
    next => exact hinv.pending j r hr
  · intro x hx
    rw [find?_putRow]
    split
    · simp
    · exact hinv.known x hx

/-- The contract of a party. -/
abbrev contractOf (cfg : Settings) (p : Pid) :=
  Machine.contract (M := supervisor cfg) {} (Inv cfg) rely guar p (advancing cfg)

/-- The rule for a call, from an assertion that the others leave alone. -/
theorem safe_step {cfg : Settings} {p : Pid} {w : State × History} {c : Call} {A : State → Prop}
    (hA : ∀ s s', A s → rely p s s' → A s') {Q : Call.Out c → State × History → Prop}
    {exn : Exn → State × History → Prop} (hw : A w.1)
    (hQ : ∀ o s s' a, Inv cfg s → A s → rely p w.1 s →
      State.answer cfg p o c s = some (a, s') →
      Inv cfg s' ∧ guar p s s' ∧ advancingCall c s a = true ∧ Q a (s', ⟨c, a, s⟩ :: w.2)) :
    Safe (contractOf cfg p) (ask c) Q exn w := by
  rintro ⟨s, h⟩ hinv ⟨hrely, hh⟩ a ⟨s', h'⟩ ⟨-, ⟨o, ha⟩, hh'⟩
  obtain rfl : h = w.2 := hh
  obtain rfl : h' = ⟨c, a, s⟩ :: w.2 := hh'
  obtain ⟨hinv', hguar, hD, hpost⟩ := hQ o s s' a hinv (hA _ _ hw hrely) hrely ha
  exact ⟨hinv', ⟨hguar, hD⟩, hpost⟩

section Pipelines

variable (cfg : Settings) (record : TaskExecutionRecord)

/-- The execution is open in this phase, and its pipeline has handed in nothing. -/
structure Open (phase : TaskExecutionPhase) (s : State) : Prop where
  ready : s.ready = true
  pending : phase.over = false
  row : ∃ r, s.store.executions.find? record.executionId = some r ∧ Twin record r ∧
    r.phase = phase ∧ r.outcomeDetail = none
  unhanded : ∀ x ∈ s.handed, x.executionId ≠ record.executionId

def Clean (h : History) : Bool := (settling cfg).along (.pipeline record.executionId) h

/-- The pipeline goes on; `talks` says that its conversation is there. -/
structure Going (phase : TaskExecutionPhase) (talks : Bool) (w : State × History) : Prop where
  isOpen : Open record phase w.1
  clean : Clean cfg record w.2 = true
  talk : talks = true → w.1.talk.conversation.isSome = true

/-- An exception is on its way: the handlers list it exactly if all is clean. -/
structure Fell (phase : TaskExecutionPhase) (e : Exn) (w : State × History) : Prop where
  isOpen : Open record phase w.1
  clean : Clean cfg record w.2 = e.listed.isSome

/-- The contract of the pipeline of `record`. -/
abbrev E := contractOf cfg (.pipeline record.executionId)

variable {cfg record} {phase : TaskExecutionPhase} {talks : Bool} {w : State × History}

theorem Open.wait {s s' : State} (h : Open record phase s)
    (hr : rely (.pipeline record.executionId) s s') : Open record phase s' := by
  obtain ⟨hready, hkept, -⟩ := hr h.ready
  refine ⟨hready, h.pending, ?_, ?_⟩
  · rw [hkept.row]
    exact h.row
  · intro x hx hid
    exact h.unhanded x ((hkept.handed x hid).mp hx) hid

theorem Open.of_quiet {s s' : State} (h : Open record phase s) (hq : Quiet s s') :
    Open record phase s' := by
  refine ⟨hq.ready.trans h.ready, h.pending, ?_, ?_⟩
  · rw [hq.store]
    exact h.row
  · rw [hq.handed]
    exact h.unhanded

theorem guar_of_quiet {id : String} {s s' : State} (hready : s.ready = true) (hq : Quiet s s') :
    guar (.pipeline id) s s' :=
  ⟨⟨hready, hq.ready.trans hready⟩, fun j _ => hq.kept j, fun _ => hq.kept id, hq.talk⟩

theorem advancing_of_quiet {c : Call} (hc : c.writes = false) (s : State) (a : Call.Out c) :
    advancingCall c s a = true := by
  cases c <;> first | rfl | cases hc

/-- The rule for a call that writes nothing. -/
theorem safe_call {c : Call} (hc : c.writes = false) {Q : Call.Out c → State × History → Prop}
    {exn : Exn → State × History → Prop} (hw : Open record phase w.1)
    (hQ : ∀ o s s' a, w.1.talk.Lasts s.talk →
      State.answer cfg (.pipeline record.executionId) o c s = some (a, s') →
      Open record phase s' → Q a (s', ⟨c, a, s⟩ :: w.2)) :
    Safe (E cfg record) (ask c) Q exn w := by
  apply safe_step (fun _ _ h hr => Open.wait h hr) hw
  intro o s s' a hinv hopen hrely ha
  have hq : Quiet s s' := quiet_answer hc ha
  refine ⟨hinv.of_quiet hq, guar_of_quiet hopen.ready hq, advancing_of_quiet hc s a, ?_⟩
  exact hQ o s s' a (hrely hw.ready).2.2 ha (hopen.of_quiet hq)

theorem clean_cons {c : Call} {a : Call.Out c} {s : State} {h : History}
    (hclean : Clean cfg record h = true) :
    Clean cfg record (⟨c, a, s⟩ :: h) = settlingCall cfg c s a := by
  show (settlingCall cfg c s a && Clean cfg record h) = _
  rw [hclean, Bool.and_true]

/-- A call that the condition says nothing about. -/
theorem safe_ask {c : Call} (hc : c.writes = false) (hK : ∀ s a, settlingCall cfg c s a = true)
    {exn : Exn → State × History → Prop} (hw : Going cfg record phase talks w) :
    Safe (E cfg record) (ask c) (fun _ => Going cfg record phase talks) exn w := by
  apply safe_call hc hw.isOpen
  intro o s s' a htalk ha hopen
  refine ⟨hopen, ?_, ?_⟩
  · rw [clean_cons hw.clean]
    exact hK s a
  · intro ht
    exact (quiet_answer hc ha).talk (htalk (hw.talk ht))

/-- A call whose reply may be an exception, and on which the condition asks that the
handlers list it. -/
theorem safe_reply {c : Call} {α : Type} (f : Call.Out c → Except Exn α)
    (hc : c.writes = false)
    (hK : ∀ o s s' a, (talks = true → s.talk.conversation.isSome = true) →
      State.answer cfg (.pipeline record.executionId) o c s = some (a, s') →
      settlingCall cfg c s a = handled (f a))
    (hw : Going cfg record phase talks w) :
    Safe (E cfg record) (ask c >>= fun a => ofReply (f a))
      (fun _ => Going cfg record phase talks) (Fell cfg record phase) w := by
  refine Safe.seq (Q := fun a w => Open record phase w.1 ∧
    Clean cfg record w.2 = handled (f a) ∧
    (talks = true → w.1.talk.conversation.isSome = true)) ?_ ?_
  · apply safe_call hc hw.isOpen
    intro o s s' a htalk ha hopen
    refine ⟨hopen, ?_, ?_⟩
    · rw [clean_cons hw.clean]
      exact hK o s s' a (fun ht => htalk (hw.talk ht)) ha
    · intro ht
      exact (quiet_answer hc ha).talk (htalk (hw.talk ht))
  · rintro a w ⟨hopen, hclean, htalk⟩
    cases hf : f a with
    | ok x =>
        rw [hf] at hclean
        exact ⟨hopen, hclean, htalk⟩
    | error e =>
        rw [hf] at hclean
        exact ⟨hopen, hclean⟩

/-! ### The agent -/

theorem safe_git {g : GitCall} (hw : Going cfg record phase talks w) :
    Safe (E cfg record) (git g) (fun _ => Going cfg record phase talks)
      (Fell cfg record phase) w :=
  safe_reply (c := .git g) (fun a => a) rfl (fun _ _ _ _ _ _ => rfl) hw

/-- An operation on the conversation that is there. -/
theorem withConversation_fst {α : Type} {k : Talk} (hk : k.conversation.isSome = true)
    (id : String) (f : Conversation → Except Exn α × Conversation) :
    ∃ c, k.hydrated = some c ∧ (k.withConversation id f).1 = (f c).1 := by
  obtain ⟨c, hc⟩ := Option.isSome_iff_exists.mp hk
  by_cases hl : c.live = true
  · refine ⟨c, ?_, ?_⟩
    · simp [Talk.hydrated, hc, hl]
    · simp [Talk.withConversation, Talk.get, hc, hl]
  · refine ⟨c.opened, ?_, ?_⟩
    · simp [Talk.hydrated, hc, hl]
    · simp [Talk.withConversation, Talk.get, hc, hl]

theorem reply_of_onTalk {α : Type} {f : Talk → Except Exn α × Talk} {s s' : State}
    {a : Except Exn α} (h : s.onTalk f = some (a, s')) : a = (f s.talk).1 :=
  (Prod.mk.inj (Option.some.inj h)).1.symm

theorem safe_setGithubToken {id : String} {token : Option String}
    (hw : Going cfg record phase true w) :
    Safe (E cfg record) (setGithubToken id token) (fun _ => Going cfg record phase true)
      (fun e w => Fell cfg record phase e w ∧ e = .conversationAlreadyRunning) w := by
  refine Safe.seq (Q := fun a w => Open record phase w.1 ∧ Clean cfg record w.2 = succeeded a ∧
    w.1.talk.conversation.isSome = true ∧
    (∀ e, a = .error e → e = .conversationAlreadyRunning)) ?_ ?_
  · apply safe_call rfl hw.isOpen
    intro o s s' a htalk ha hopen
    have hsome : s.talk.conversation.isSome = true := htalk (hw.talk rfl)
    obtain ⟨c, hc, hf⟩ := withConversation_fst hsome id fun c =>
      if c.status = .running then (.error .conversationAlreadyRunning, c) else (.ok (), c)
    have hreply := (reply_of_onTalk (f := Talk.setGithubToken id) ha).trans hf
    have hlasts := (quiet_answer (c := .setGithubToken id token) rfl ha).talk hsome
    have hclean := clean_cons (c := .setGithubToken id token) (a := a) (s := s) hw.clean
    refine ⟨hopen, hclean.trans ?_, hlasts, ?_⟩
    · show (s.talk.hydrated.all fun c => c.status ≠ .running) = succeeded (α := Unit) a
      rw [hreply, hc]
      by_cases hrun : c.status = .running <;> simp [hrun, succeeded]
    · intro e he
      have herr := hreply.symm.trans he
      by_cases hrun : c.status = .running
      · rw [if_pos hrun] at herr
        exact (Except.error.inj herr).symm
      · rw [if_neg hrun] at herr
        cases herr
  · rintro a w ⟨hopen, hclean, htalk, herr⟩
    cases a with
    | ok x => exact ⟨hopen, hclean, fun _ => htalk⟩
    | error e =>
        obtain rfl := herr e rfl
        exact ⟨⟨hopen, hclean⟩, rfl⟩

/-- What `send_message` does to a conversation. -/
def sentMessage (c : Conversation) : Except Exn Unit × Conversation :=
  match c.transition .sendMessage with
  | .error e => (.error e, c)
  | .ok c' => (.ok (), c')

theorem safe_sendMessage {id prompt : String} (hw : Going cfg record phase true w) :
    Safe (E cfg record) (sendMessage id prompt) (fun _ => Going cfg record phase true)
      (Fell cfg record phase) w := by
  apply safe_reply (c := .sendMessage id prompt) (fun a => a) rfl _ hw
  intro o s s' a htalk ha
  obtain ⟨c, hc, hf⟩ := withConversation_fst (htalk rfl) id sentMessage
  have hreply := (reply_of_onTalk (f := Talk.sendMessage id) ha).trans hf
  show (s.talk.hydrated.all fun c => c.status ≠ .running && c.status ≠ .cancelled) =
    handled (α := Unit) a
  rw [hreply, hc]
  simp only [Option.all_some, sentMessage, Conversation.transition]
  cases hst : c.status <;> simp [allowedTransition, handled, Exn.listed]

theorem safe_beginRun {id : String} (hw : Going cfg record phase true w) :
    Safe (E cfg record) (beginRun id) (fun _ => Going cfg record phase true)
      (Fell cfg record phase) w := by
  apply safe_reply (c := .beginRun id) (fun a => a) rfl _ hw
  intro o s s' a htalk ha
  have hreply := reply_of_onTalk (f := Talk.beginRun id) ha
  obtain ⟨c, hc⟩ := Option.isSome_iff_exists.mp (htalk rfl)
  have hruns : ∃ c' k, s.talk.get id = (.ok c', k) ∧ k.runs = s.talk.runs := by
    by_cases hl : c.live = true
    · exact ⟨c, s.talk, by simp [Talk.get, hc, hl], rfl⟩
    · exact ⟨c.opened, s.talk.put c.opened, by simp [Talk.get, hc, hl], rfl⟩
  obtain ⟨c', k, hget, hk⟩ := hruns
  show (!s.talk.busy) = handled (α := Nat) a
  rw [hreply]
  simp only [Talk.beginRun, hget, Talk.busy, hk]
  cases s.talk.runs.getLast?.any fun r => r.task = .pending <;> simp [handled, Exn.listed]

theorem safe_loadMeta {id : String} {exn : Exn → State × History → Prop}
    (hw : Going cfg record phase true w) :
    Safe (E cfg record) (loadMeta id) (fun _ => Going cfg record phase true) exn w := by
  refine Safe.seq (Q := fun a w => Going cfg record phase true w ∧ succeeded a = true) ?_ ?_
  · apply safe_call rfl hw.isOpen
    intro o s s' a htalk ha hopen
    have hsome : s.talk.conversation.isSome = true := htalk (hw.talk rfl)
    refine ⟨⟨hopen, ?_, fun _ => (quiet_answer (c := .loadMeta id) rfl ha).talk hsome⟩, ?_⟩
    · exact clean_cons hw.clean
    · obtain ⟨c, hc⟩ := Option.isSome_iff_exists.mp hsome
      simp only [State.answer, hc] at ha
      obtain ⟨rfl, -⟩ := Prod.mk.inj (Option.some.inj ha)
      rfl
  · rintro a w ⟨hgoing, ha⟩
    cases a with
    | ok x => exact hgoing
    | error e => cases ha

theorem safe_cancelAgent {id : String} (hw : Going cfg record phase true w) :
    Safe (E cfg record) (cancelAgent id) (fun _ => Going cfg record phase true)
      (Fell cfg record phase) w := by
  apply safe_reply (c := .cancel id) (fun a => a) rfl _ hw
  intro o s s' a htalk ha
  obtain ⟨c, hc, hf⟩ := withConversation_fst (htalk rfl) id fun c =>
    if c.status = .cancelled ∨ c.cancelling then (.ok (), c)
    else if c.status ≠ .running then
      (.error (.invalidConversationState c.status.value "cancel"), c)
    else (o.backendCancel, { c with accepting := false, cancelling := true })
  have hreply := (reply_of_onTalk (f := Talk.cancel o.backendCancel id) ha).trans hf
  show (s.talk.hydrated.all fun c => c.status = .cancelled || c.cancelling ||
    (c.status = .running && handled (α := Unit) a)) = handled (α := Unit) a
  rw [hreply, hc]
  simp only [Option.all_some]
  by_cases hcan : c.status = .cancelled
  · simp [hcan, handled]
  · by_cases hflag : c.cancelling = true
    · simp [hflag, handled]
    · by_cases hrun : c.status = .running
      · simp [hrun, hflag]
      · simp [hcan, hflag, hrun, handled, Exn.listed]

/-- `get_record`: the conversation is there, or it is not known. -/
theorem safe_getRecord (id : String) (hw : Going cfg record phase false w) :
    Safe (E cfg record) (getRecord id) (fun _ => Going cfg record phase true)
      (fun e w => e = .conversationNotFound id ∧ Going cfg record phase false w) w := by
  refine Safe.seq (Q := fun a w => Going cfg record phase (succeeded a) w ∧
    (∀ e, a = .error e → e = .conversationNotFound id)) ?_ ?_
  · apply safe_call rfl hw.isOpen
    intro o s s' a htalk ha hopen
    have hclean : Clean cfg record (⟨.getRecord id, a, s⟩ :: w.2) = true := clean_cons hw.clean
    have hreply := reply_of_onTalk (f := Talk.getRecord id) ha
    have hlasts := (quiet_answer (c := .getRecord id) rfl ha).talk
    cases hconv : s.talk.conversation with
    | none =>
        have hnone : a = .error (.conversationNotFound id) := by
          refine hreply.trans ?_
          simp [Talk.getRecord, Talk.withConversation, Talk.get, hconv]
        subst hnone
        refine ⟨⟨hopen, hclean, fun h => Bool.noConfusion h⟩, ?_⟩
        intro e he
        exact (Except.error.inj he).symm
    | some c =>
        have hsome : s.talk.conversation.isSome = true := by rw [hconv]; rfl
        obtain ⟨c', -, hf⟩ := withConversation_fst hsome id fun c =>
          ((.ok c.status : Except Exn ConversationStatus), c)
        have hok : a = .ok c'.status := hreply.trans hf
        subst hok
        refine ⟨⟨hopen, hclean, fun _ => hlasts hsome⟩, ?_⟩
        intro e he
        cases he
  · rintro a w ⟨hgoing, herr⟩
    cases a with
    | ok x => exact hgoing
    | error e =>
        obtain rfl := herr e rfl
        exact ⟨rfl, hgoing⟩

theorem safe_openConversation {id dir model : String} {token : Option String}
    (hw : Going cfg record phase false w) :
    Safe (E cfg record) (openConversation id dir model token)
      (fun _ => Going cfg record phase true) (Fell cfg record phase) w := by
  refine Safe.seq (Q := fun x w => match x with
    | .ok _ => Going cfg record phase true w
    | .error e => (e = .conversationNotFound id ∧ Going cfg record phase false w) ∨
        (e = .conversationAlreadyRunning ∧ Fell cfg record phase e w)) ?_ ?_
  · apply Safe.attempt
    apply Safe.bind
    refine Safe.mono (safe_getRecord id hw) (fun _ w hw => ?_) fun _ _ h => .inl h
    exact Safe.mono (safe_setGithubToken hw) (fun _ _ h => h) fun _ _ h => .inr h.symm
  · intro x w hx
    cases x with
    | ok u => exact hx
    | error e =>
        rcases hx with ⟨rfl, hw⟩ | ⟨rfl, hfell⟩
        · apply safe_call rfl hw.isOpen
          intro o s s' a htalk ha hopen
          obtain ⟨-, rfl⟩ := Prod.mk.inj (Option.some.inj ha)
          exact ⟨hopen, clean_cons hw.clean, fun _ => rfl⟩
        · exact hfell

/-- `_run_agent` ends with an outcome, or with an exception of the class it says. -/
theorem safe_runAgent {request : StartTaskExecutionRequest} {dir id : String}
    {token : Option String} (hw : Going cfg record phase false w) :
    Safe (E cfg record) (runAgent request dir id token)
      (fun _ => Going cfg record phase true) (Fell cfg record phase) w := by
  refine Safe.seq (safe_openConversation hw) fun _ w hw => ?_
  refine Safe.seq (safe_sendMessage hw) fun _ w hw => ?_
  refine Safe.seq (Q := fun x w => match x with
    | .ok _ => Going cfg record phase true w
    | .error e => Fell cfg record phase e w ∧ w.1.talk.conversation.isSome = true) ?_ ?_
  · apply Safe.attempt
    -- The conversation stays whatever the run does.
    have hrun : Safe (E cfg record) (runConversation id) (fun _ => Going cfg record phase true)
        (Fell cfg record phase) w := by
      refine Safe.seq (safe_beginRun hw) fun i w hw => ?_
      have hawait : Safe (E cfg record) (awaitRun i) (fun _ => Going cfg record phase true)
          (Fell cfg record phase) w :=
        safe_reply (c := .awaitRun i) (fun a => a) rfl (fun _ _ _ _ _ _ => rfl) hw
      exact Safe.seq hawait fun _ w hw => safe_loadMeta hw
    have hkeep := Safe.frame (E := E cfg record)
      (A := fun w => w.1.ready = true ∧ w.1.talk.conversation.isSome = true)
      (fun a b ha hab => ⟨(hab.1 ha.1).1, (hab.1 ha.1).2.2 ha.2⟩)
      (fun a b ha hab => ⟨hab.1.1.2, hab.1.2.2.2 ha.2⟩) hrun ⟨hw.isOpen.ready, hw.talk rfl⟩
    exact Safe.mono hkeep (fun _ _ h => h.1) fun _ _ h => ⟨h.1, h.2.2⟩
  · intro x w hx
    match x, hx with
    | .ok status, hx => exact hx
    | .error (.timeout _), hx =>
        have hgoing : Going cfg record phase true w := ⟨hx.1.isOpen, hx.1.clean, fun _ => hx.2⟩
        have hcancel : Safe (E cfg record) (cancelConversation id)
            (fun _ => Going cfg record phase true) (Fell cfg record phase) w := by
          refine Safe.seq (safe_cancelAgent hgoing) fun _ w hw => ?_
          have hawait : Safe (E cfg record) awaitLatest (fun _ => Going cfg record phase true)
              (Fell cfg record phase) w :=
            safe_reply (c := .awaitLatest) (fun a => a) rfl (fun _ _ _ _ _ _ => rfl) hw
          exact Safe.seq hawait fun _ w hw => safe_loadMeta hw
        exact Safe.seq hcancel fun _ w hw => hw
    | .error (.gitPrep _), hx | .error (.agent _ _), hx | .error (.runtimeError _), hx
    | .error (.valueError _), hx | .error (.conversationNotFound _), hx
    | .error .conversationAlreadyRunning, hx | .error (.invalidConversationState _ _), hx
    | .error (.agentControl _), hx | .error (.startKeyConflict _), hx | .error (.keyError _), hx
    | .error .integrityError, hx | .error .cancelled, hx | .error (.other _ _), hx => exact hx.1

/-! ### The writes -/

theorem Open.not_over {s : State} (h : Open record phase s) : ¬ Over record.executionId s := by
  rintro ⟨r, hr, hover⟩
  obtain ⟨r', hr', -, hphase, -⟩ := h.row
  rw [hr] at hr'
  obtain rfl := Option.some.inj hr'
  rw [hphase, h.pending] at hover
  cases hover

/-- The row of the pipeline is written; everything else stays. -/
theorem guar_putRow {r : TaskExecutionRecord} {s : State} (hid : r.executionId = record.executionId)
    (hready : s.ready = true) (hover : ¬ Over record.executionId s) :
    guar (.pipeline record.executionId) s (s.putRow r) := by
  refine ⟨⟨hready, hready⟩, ?_, fun h => absurd h hover, fun h => h⟩
  intro j hj
  apply kept_putRow
  rw [hid]
  exact hj

theorem follows_of_row {s : State} {r record' : TaskExecutionRecord} {next : TaskExecutionPhase}
    {path detail : Option String} {a : Except Exn Unit}
    (hr : s.store.executions.find? record'.executionId = some r)
    (hf : follows r.phase next = true) :
    advancingCall (.updatePhase record' next path detail) s a = true := by
  simp only [advancingCall, hr, Option.all_some]
  exact hf

/-- An update that does not end the execution. -/
theorem safe_updatePhase {record' : TaskExecutionRecord} {next : TaskExecutionPhase}
    {exn : Exn → State × History → Prop} (ht : Twin record record')
    (hdetail : record'.outcomeDetail = none) (hf : follows phase next = true)
    (hnext : next.over = false) (hw : Going cfg record phase talks w) :
    Safe (E cfg record) (updatePhase record' next) (fun _ => Going cfg record next talks) exn w := by
  refine Safe.seq (Q := fun a w => succeeded a = true ∧ Going cfg record next talks w) ?_ ?_
  · apply safe_step (fun _ _ h hr => Open.wait h hr) hw.isOpen
    intro o s s' a hinv hopen hrely ha
    obtain ⟨r, hr, htwin, hphase, -⟩ := hopen.row
    have hnew : Twin r (updated o.now record' next none none) :=
      htwin.trans_symm (ht.updated o.now next none none)
    obtain ⟨rfl, rfl⟩ := Prod.mk.inj ((saveExecution_twin hr hnew).symm.trans (Option.some.inj ha))
    have hmarked : ¬ Marked record'.executionId := by
      rw [ht.executionId]
      exact hinv.unmarked _ r hr
    refine ⟨inv_putRow hinv hmarked fun _ => ?_, guar_putRow ht.executionId hopen.ready
      hopen.not_over, ?_, rfl, ⟨hopen.ready, hnext, ?_, hopen.unhanded⟩, ?_, ?_⟩
    · exact hdetail
    · apply follows_of_row (r := r)
      · rw [ht.executionId]
        exact hr
      · rw [hphase]
        exact hf
    · exact ⟨_, find?_putRow_self (updated o.now record' next none none) ht.executionId s,
        ht.updated o.now next none none, rfl, hdetail⟩
    · exact clean_cons hw.clean
    · exact fun htalk => (hrely hw.isOpen.ready).2.2 (hw.talk htalk)
  · rintro a w ⟨ha, hgoing⟩
    cases a with
    | ok x => exact hgoing
    | error e => cases ha

/-- The save that binds the conversation writes the phase that the local record has. -/
theorem safe_saveExecution {record' : TaskExecutionRecord} {exn : Exn → State × History → Prop}
    (ht : Twin record record') (hphase : record'.phase = .accepted)
    (hdetail : record'.outcomeDetail = none) (hw : Going cfg record .runningAgent talks w) :
    Safe (E cfg record) (saveExecution record') (fun _ => Going cfg record .accepted talks) exn w := by
  refine Safe.seq (Q := fun a w => succeeded a = true ∧ Going cfg record .accepted talks w) ?_ ?_
  · apply safe_step (fun _ _ h hr => Open.wait h hr) hw.isOpen
    intro o s s' a hinv hopen hrely ha
    obtain ⟨r, hr, htwin, hrunning, -⟩ := hopen.row
    have hnew : Twin r record' := htwin.trans_symm ht
    obtain ⟨rfl, rfl⟩ := Prod.mk.inj ((saveExecution_twin hr hnew).symm.trans (Option.some.inj ha))
    have hmarked : ¬ Marked record'.executionId := by
      rw [ht.executionId]
      exact hinv.unmarked _ r hr
    refine ⟨inv_putRow hinv hmarked fun _ => hdetail, guar_putRow ht.executionId hopen.ready
      hopen.not_over, ?_, rfl, ⟨hopen.ready, rfl, ?_, hopen.unhanded⟩, clean_cons hw.clean, ?_⟩
    · simp [advancingCall, ht.executionId, hr, hrunning, hphase, succeeded]
    · exact ⟨record', find?_putRow_self record' ht.executionId s, ht, hphase, hdetail⟩
    · exact fun htalk => (hrely hw.isOpen.ready).2.2 (hw.talk htalk)
  · rintro a w ⟨ha, hgoing⟩
    cases a with
    | ok x => exact hgoing
    | error e => cases ha

variable (record) in
/-- The pipeline has handed in its manifest and has not yet saved the terminal phase. -/
structure Filed (phase : TaskExecutionPhase) (x : Handed) (s : State) : Prop where
  ready : s.ready = true
  pending : phase.over = false
  row : ∃ r, s.store.executions.find? record.executionId = some r ∧ Twin record r ∧
    r.phase = phase ∧ r.outcomeDetail = none
  manifest : (s.store.manifests.find? record.executionId).isSome = true
  handed : x ∈ s.handed ∧ ∀ y ∈ s.handed, y.executionId = record.executionId → y = x
  own : x.executionId = record.executionId

theorem Filed.wait {x : Handed} {s s' : State} (h : Filed record phase x s)
    (hr : rely (.pipeline record.executionId) s s') : Filed record phase x s' := by
  obtain ⟨hready, hkept, -⟩ := hr h.ready
  refine ⟨hready, h.pending, ?_, ?_, ⟨?_, ?_⟩, h.own⟩
  · rw [hkept.row]
    exact h.row
  · rw [hkept.manifest]
    exact h.manifest
  · exact (hkept.handed x h.own).mpr h.handed.1
  · intro y hy hid
    exact h.handed.2 y ((hkept.handed y hid).mp hy) hid

theorem Filed.not_over {x : Handed} {s : State} (h : Filed record phase x s) :
    ¬ Over record.executionId s := by
  rintro ⟨r, hr, hover⟩
  obtain ⟨r', hr', -, hphase, -⟩ := h.row
  rw [hr] at hr'
  obtain rfl := Option.some.inj hr'
  rw [hphase, h.pending] at hover
  cases hover

/-- `save_manifest` on the state, for the manifest of an execution that is there. -/
theorem saveManifest_cases {p : Pid} {m : TaskResultManifest} {token : Option String} {s s' : State}
    {a : Except Exn String}
    (hun : ∀ id r, s.store.executions.find? id = some r → ¬ Marked id)
    (hrow : (s.store.executions.find? m.executionId).isSome = true)
    (h : s.saveManifest cfg p m token = (a, s')) :
    (redactManifest cfg token m = none ∧ s' = s ∧
      a = .error (.valueError "validation error for TaskResultManifest")) ∨
    (∃ m', redactManifest cfg token m = some m' ∧ m'.executionId ≠ m.executionId ∧ s' = s ∧
      a = .error .integrityError) ∨
    (∃ m', redactManifest cfg token m = some m' ∧ m'.executionId = m.executionId ∧
      a = .ok (Store.manifestReference cfg m.executionId) ∧
      s' = { s with
        store := { s.store with manifests := s.store.manifests.put m' }
        handed := p.hands m token s.handed }) := by
  unfold State.saveManifest at h
  cases hred : redactManifest cfg token m with
  | none =>
      rw [hred] at h
      obtain ⟨rfl, rfl⟩ := Prod.mk.inj h
      exact .inl ⟨rfl, rfl, rfl⟩
  | some m' =>
      rw [hred] at h
      simp only [Store.saveManifest] at h
      by_cases hid : m'.executionId = m.executionId
      · have hsome : (s.store.executions.find? m'.executionId).isNone = false := by
          rw [hid, Option.isNone_eq_false_iff]
          exact hrow
        rw [hsome] at h
        simp only [Bool.false_eq_true, if_false] at h
        obtain ⟨rfl, rfl⟩ := Prod.mk.inj h
        exact .inr (.inr ⟨m', rfl, hid, by rw [hid], rfl⟩)
      · -- A changed id is marked, and no row has a marked id.
        have hmarked : Marked m'.executionId := by
          have hred' := (redacted_of_redactManifest hred).executionId
          rcases maskAll_eq_or_marked (cfg.secrets token) m.executionId with h' | h'
          · exact absurd (hred'.trans h') hid
          · rw [hred']
            exact h'
        have hnone : s.store.executions.find? m'.executionId = none := by
          cases hf : s.store.executions.find? m'.executionId with
          | none => rfl
          | some r => exact absurd hmarked (hun _ r hf)
        rw [hnone] at h
        obtain ⟨rfl, rfl⟩ := Prod.mk.inj h
        exact .inr (.inl ⟨m', rfl, hid, rfl, rfl⟩)

theorem safe_saveManifest {m : TaskResultManifest} {token : Option String}
    (hm : m.executionId = record.executionId)
    (hfailed : m.outcomeDetail.isSome = true → terminalPhase m.agentOutcome = .failed)
    (hw : Going cfg record phase talks w) :
    Safe (E cfg record) (saveManifest m token)
      (fun _ w => Filed record phase ⟨record.executionId, m, token⟩ w.1 ∧
        Clean cfg record w.2 = true)
      (fun e w => Open record phase w.1 ∧
        Clean cfg record w.2 = (e.listed.isSome && m.outcomeDetail.isNone)) w := by
  refine Safe.seq (Q := fun a w => match a with
    | .ok _ => Filed record phase ⟨record.executionId, m, token⟩ w.1 ∧ Clean cfg record w.2 = true
    | .error e => Open record phase w.1 ∧
        Clean cfg record w.2 = (e.listed.isSome && m.outcomeDetail.isNone)) ?_ ?_
  · apply safe_step (fun _ _ h hr => Open.wait h hr) hw.isOpen
    intro o s s' a hinv hopen hrely ha
    obtain ⟨r, hr, htwin, hphase, hdetail⟩ := hopen.row
    have hrow : (s.store.executions.find? m.executionId).isSome = true := by
      rw [hm, hr]
      rfl
    have hclean := clean_cons (c := .saveManifest m token) (a := a) (s := s) hw.clean
    rcases saveManifest_cases hinv.unmarked hrow (Option.some.inj ha) with
      ⟨hred, rfl, rfl⟩ | ⟨m', hred, hne, rfl, rfl⟩ | ⟨m', hred, hid, rfl, rfl⟩
    · refine ⟨hinv, guar_of_quiet hopen.ready (Quiet.refl s'), rfl, hopen, hclean.trans ?_⟩
      simp [settlingCall, hred, Exn.listed]
    · refine ⟨hinv, guar_of_quiet hopen.ready (Quiet.refl s'), rfl, hopen, hclean.trans ?_⟩
      simp [settlingCall, hred, Exn.listed, hne]
    · have hkey : m'.executionId = record.executionId := hid.trans hm
      have hput : ∀ j, (s.store.manifests.put m').find? j =
          if j = record.executionId then some m' else s.store.manifests.find? j := by
        intro j
        rw [Table.find?_put, show key m' = record.executionId from hkey]
      refine ⟨⟨hinv.unmarked, hinv.pending, ?_, ?_, ?_⟩, ⟨⟨hopen.ready, hopen.ready⟩, ?_,
        fun h => absurd h hopen.not_over, fun h => h⟩, rfl, ⟨hopen.ready, hopen.pending, hopen.row,
        ?_, ⟨List.mem_cons_self, ?_⟩, rfl⟩, hclean.trans ?_⟩
      · intro x hx
        rcases List.mem_cons.mp hx with rfl | hx
        · refine ⟨m', hred, ?_⟩
          show (s.store.manifests.put m').find? record.executionId = some m'
          rw [hput, if_pos rfl]
        · obtain ⟨mx, hmx, hfind⟩ := hinv.handed x hx
          refine ⟨mx, hmx, ?_⟩
          show (s.store.manifests.put m').find? x.executionId = some mx
          rw [hput, if_neg (hopen.unhanded x hx), hfind]
      · intro x hx
        rcases List.mem_cons.mp hx with rfl | hx
        · show s.store.executions.find? record.executionId ≠ none
          rw [hr]
          simp
        · exact hinv.known x hx
      · intro x hx
        rcases List.mem_cons.mp hx with rfl | hx
        · exact hfailed
        · exact hinv.failed x hx
      · intro j hj
        refine ⟨rfl, ?_, ?_⟩
        · show (s.store.manifests.put m').find? j = s.store.manifests.find? j
          rw [hput, if_neg hj]
        · intro x hx
          have hne : x ≠ ⟨record.executionId, m, token⟩ := by
            rintro rfl
            exact hj hx.symm
          exact ⟨fun h => (List.mem_cons.mp h).resolve_left hne, List.mem_cons_of_mem _⟩
      · show ((s.store.manifests.put m').find? record.executionId).isSome = true
        rw [hput, if_pos rfl]
        rfl
      · intro y hy hown
        rcases List.mem_cons.mp hy with rfl | hy
        · rfl
        · exact absurd hown (hopen.unhanded y hy)
      · simp [settlingCall, hred, hid]
  · intro a w hw
    cases a with
    | ok x => exact hw
    | error e => exact hw

theorem follows_terminal {a b : TaskExecutionPhase} (ha : a.over = false) (hb : b.over = true) :
    follows a b = true := by
  revert ha hb
  cases a <;> cases b <;> decide

/-- The terminal phase belongs to the manifest that was handed in. -/
theorem safe_updatePhase_terminal {record' : TaskExecutionRecord} {next : TaskExecutionPhase}
    {path detail : Option String} {x : Handed} {exn : Exn → State × History → Prop}
    (ht : Twin record record') (hdetail : record'.outcomeDetail = none)
    (hconc : (next, orElse detail none) = conclusion x.manifest) (hnext : next.over = true)
    (hw : Filed record phase x w.1) (hclean : Clean cfg record w.2 = true) :
    Safe (E cfg record) (updatePhase record' next path detail)
      (fun _ => ended cfg (.pipeline record.executionId) (.ok ())) exn w := by
  refine Safe.seq (Q := fun a w => succeeded a = true ∧
    ended cfg (.pipeline record.executionId) (.ok ()) w) ?_ ?_
  · apply safe_step (fun _ _ h hr => Filed.wait h hr) hw
    intro o s s' a hinv hfiled hrely ha
    obtain ⟨r, hr, htwin, hphase, -⟩ := hfiled.row
    have hnew : Twin r (updated o.now record' next path detail) :=
      htwin.trans_symm (ht.updated o.now next path detail)
    obtain ⟨rfl, rfl⟩ := Prod.mk.inj ((saveExecution_twin hr hnew).symm.trans (Option.some.inj ha))
    have hmarked : ¬ Marked record'.executionId := by
      rw [ht.executionId]
      exact hinv.unmarked _ r hr
    have hfind : (s.putRow (updated o.now record' next path detail)).store.executions.find?
        record.executionId = some (updated o.now record' next path detail) :=
      find?_putRow_self (updated o.now record' next path detail) ht.executionId s
    have hstored : ((updated o.now record' next path detail).phase,
        (updated o.now record' next path detail).outcomeDetail) = conclusion x.manifest := by
      rw [← hconc]
      simp only [updated, hdetail]
    refine ⟨inv_putRow hinv hmarked fun h => ?_, guar_putRow ht.executionId hfiled.ready
      hfiled.not_over, ?_, rfl, ⟨fun _ => ?_, fun _ => ⟨⟨_, hfind, hnext⟩, hfiled.manifest⟩⟩, ?_⟩
    · rw [show (updated o.now record' next path detail).phase = next from rfl, hnext] at h
      cases h
    · apply follows_of_row (r := r)
      · rw [ht.executionId]
        exact hr
      · rw [hphase]
        exact follows_terminal hfiled.pending hnext
    · exact clean_cons hclean
    · intro y hy hown
      obtain rfl := hfiled.handed.2 y hy hown
      refine ⟨_, ?_, hstored⟩
      rw [hown]
      exact hfind
  · rintro a w ⟨ha, hpost⟩
    cases a with
    | ok x => exact hpost
    | error e => cases ha

/-! ### The statements of a pipeline -/

omit cfg record in
theorem safe_within {C : Prog.Contract Call.Out (State × History)} {α : Type} {l : Locals}
    {p : Routine α} {post : α → State × History → Prop} {exn : Raised → State × History → Prop}
    (h : Safe C p post (fun e => exn ⟨e, l⟩) w) : Safe C (within l p) post exn w := by
  refine Prog.Safe.bind (Prog.Safe.mono h fun r w hr => ?_)
  cases r with
  | ok a => exact hr
  | error e => exact hr

variable (record) in
/-- A local record is the admitted one, but for the conversation. -/
structure Local (l : Locals) : Prop where
  twin : Twin record l.record
  phase : l.record.phase = .accepted
  detail : l.record.outcomeDetail = none

variable (cfg record) in
/-- The body has raised. -/
def Broke (r : Raised) (w : State × History) : Prop :=
  Local record r.locals ∧ ∃ phase, Fell cfg record phase r.exn w

theorem safe_git_within {g : GitCall} {l : Locals} (hl : Local record l)
    (hw : Going cfg record phase talks w) :
    Safe (E cfg record) (within l (git g)) (fun _ => Going cfg record phase talks)
      (Broke cfg record) w :=
  safe_within (Safe.mono (safe_git hw) (fun _ _ h => h) fun _ _ h => ⟨hl, phase, h⟩)

theorem safe_prepareRepository {dir repository baseRef taskBranch token : String}
    {requested : Option String} {l : Locals} (hl : Local record l)
    (hw : Going cfg record phase talks w) :
    Safe (E cfg record) (prepareRepository dir repository baseRef taskBranch token requested l)
      (fun l' w => l'.record = l.record ∧ Going cfg record phase talks w) (Broke cfg record) w := by
  refine Safe.seq (Q := fun _ w => Going cfg record phase talks w) ?_ fun _ w hw => ?_
  · refine Safe.seq (safe_git_within hl hw) fun cloned w hw => ?_
    cases cloned with
    | true => exact hw
    | false => exact safe_git_within hl hw
  refine Safe.seq (Q := fun _ w => Going cfg record phase talks w) ?_ fun baseSha w hw => ?_
  · unfold chooseBaseSha
    split
    · exact hw
    · exact safe_git_within hl hw
  have hl' : Local record { l with baseSha := some baseSha } := ⟨hl.twin, hl.phase, hl.detail⟩
  refine Safe.seq (Q := fun _ w => Going cfg record phase talks w) ?_ fun _ w hw => ?_
  · refine Safe.seq (safe_git_within hl' hw) fun complete w hw => ?_
    cases complete with
    | true => exact hw
    | false => exact ⟨hl', phase, hw.isOpen, hw.clean⟩
  refine Safe.seq (Q := fun _ w => Going cfg record phase talks w) ?_ fun _ w hw => ⟨rfl, hw⟩
  refine Safe.seq (safe_git_within hl' hw) fun branch w hw => ?_
  split
  · exact safe_git_within hl' hw
  · exact hw

theorem isSome_of_truthy {s : Option String} (h : truthy s = true) : ∃ x, s = some x := by
  cases s with
  | none => cases h
  | some x => exact ⟨x, rfl⟩

theorem safe_prepare {request : StartTaskExecutionRequest} {githubToken : Option String}
    (hacc : acceptable cfg request githubToken = true) {l : Locals} (hl : Local record l)
    (hw : Going cfg record phase talks w) :
    Safe (E cfg record) (prepare cfg request (orElse githubToken cfg.githubToken) l)
      (fun l' w => l'.record = l.record ∧ Going cfg record phase talks w) (Broke cfg record) w := by
  unfold prepare
  by_cases hrepo : truthy request.repository = true
  · simp only [acceptable, hrepo, Bool.not_true, Bool.false_or, Bool.and_eq_true] at hacc
    obtain ⟨⟨href, hbranch⟩, htoken⟩ := hacc
    obtain ⟨repository, hr⟩ := isSome_of_truthy hrepo
    obtain ⟨baseRef, hb⟩ := isSome_of_truthy href
    obtain ⟨taskBranch, ht⟩ := isSome_of_truthy hbranch
    obtain ⟨token, htok⟩ := Option.isSome_iff_exists.mp htoken
    simp only [hrepo, if_true]
    simp only [hr, hb, ht, htok]
    exact safe_prepareRepository hl hw
  · simp only [hrepo, Bool.false_eq_true, if_false]
    exact Safe.seq (safe_git_within hl hw) fun _ w hw => ⟨rfl, hw⟩

theorem orElse_resultDetail (a : AgentOutcome) (c : CheckOutcome) :
    orElse (resultDetail a c) none = resultDetail a c := by
  cases a <;> cases c <;> decide

theorem over_terminalPhase (o : AgentOutcome) : (terminalPhase o).over = true := by
  cases o <;> rfl

theorem safe_conclude {request : StartTaskExecutionRequest} {token : Option String}
    {outcome : AgentOutcome} {l : Locals} (hl : Local record l)
    (hw : Going cfg record phase talks w) :
    Safe (E cfg record) (conclude cfg request token outcome l)
      (fun _ => ended cfg (.pipeline record.executionId) (.ok ())) (Broke cfg record) w := by
  refine Safe.seq (Q := fun _ w => Going cfg record phase talks w) ?_ fun evidence w hw => ?_
  · unfold gatherEvidence
    split
    · exact safe_git_within hl hw
    · exact hw
  refine Safe.seq (safe_within (safe_ask (c := .now) rfl (fun _ _ => rfl) hw)) fun t w hw => ?_
  refine Safe.seq (safe_within (Safe.mono (safe_saveManifest hl.twin.executionId
    (fun h => Bool.noConfusion h) hw) (fun _ _ h => h) ?_)) fun reference w hw => ?_
  · -- A result has no detail yet, so that its validation error is handled like any other.
    rintro e w ⟨hopen, hclean⟩
    exact ⟨hl, phase, hopen, hclean.trans (Bool.and_true _)⟩
  · apply safe_within
    refine safe_updatePhase_terminal hl.twin hl.detail ?_ (over_terminalPhase _) hw.1 hw.2
    rw [orElse_resultDetail]
    rfl

theorem safe_pipelineBody {request : StartTaskExecutionRequest} {githubToken : Option String}
    (hacc : acceptable cfg request githubToken = true) (hphase : record.phase = .accepted)
    (hdetail : record.outcomeDetail = none) (hw : Going cfg record .accepted false w) :
    Safe (E cfg record)
      (pipelineBody cfg request record (orElse githubToken cfg.githubToken))
      (fun _ => ended cfg (.pipeline record.executionId) (.ok ())) (Broke cfg record) w := by
  have hself : Twin record record := ⟨rfl, rfl, rfl⟩
  have hl : Local record ⟨record, none, none⟩ := ⟨hself, hphase, hdetail⟩
  refine Safe.seq (safe_within (safe_updatePhase hself hdetail rfl rfl hw)) fun _ w hw => ?_
  refine Safe.seq (safe_prepare hacc hl hw) fun l w hw => ?_
  obtain ⟨hrec, hw⟩ := hw
  refine Safe.seq (safe_within (safe_updatePhase hself hdetail rfl rfl hw)) fun _ w hw => ?_
  refine Safe.seq (safe_within (safe_ask (c := .conversationId) rfl (fun _ _ => rfl) hw))
    fun id w hw => ?_
  have hl' : Local record { l with
      conversationId := some id, record := { record with conversationId := some id } } :=
    ⟨⟨rfl, rfl, rfl⟩, hphase, hdetail⟩
  refine Safe.seq (safe_within (safe_saveExecution hl'.twin hl'.phase hl'.detail hw))
    fun _ w hw => ?_
  refine Safe.seq (safe_within (Safe.mono (safe_runAgent hw) (fun _ _ h => h) ?_))
    fun outcome w hw => safe_conclude hl' hw
  exact fun e w h => ⟨hl', _, h⟩

/-- An open execution is not settled, and nothing was handed in for it. -/
theorem ended_of_open {s : State} {h : History} (hopen : Open record phase s)
    (hclean : Clean cfg record h = false) :
    ended cfg (.pipeline record.executionId) (.ok ()) (s, h) := by
  refine ⟨⟨fun hs => absurd hs.1 hopen.not_over, fun hh => ?_⟩, ?_⟩
  · rw [show (settling cfg).along (.pipeline record.executionId) h = false from hclean] at hh
    cases hh
  · intro x hx hid
    exact absurd hid (hopen.unhanded x hx)

theorem terminalPhase_listed {e : Exn} {o : AgentOutcome} (h : e.listed = some o) :
    terminalPhase o = .failed := by
  unfold Exn.listed at h
  split at h
  · obtain rfl := Option.some.inj h
    rfl
  all_goals
    first
      | (obtain rfl := Option.some.inj h; rfl)
      | cases h

theorem safe_handle {request : StartTaskExecutionRequest} {token : Option String} {r : Raised}
    (hr : Broke cfg record r w) :
    Safe (E cfg record) (handle cfg request token r)
      (fun _ => ended cfg (.pipeline record.executionId) (.ok ()))
      (fun _ => ended cfg (.pipeline record.executionId) (.ok ())) w := by
  obtain ⟨hl, phase, hfell⟩ := hr
  unfold handle
  cases hlisted : r.exn.listed with
  | none =>
      have hclean : Clean cfg record w.2 = false := by
        rw [hfell.clean, hlisted]
        rfl
      exact ended_of_open hfell.isOpen hclean
  | some outcome =>
      have hw : Going cfg record phase false w := by
        refine ⟨hfell.isOpen, ?_, fun h => Bool.noConfusion h⟩
        rw [hfell.clean, hlisted]
        rfl
      refine Safe.seq (safe_ask (c := .now) rfl (fun _ _ => rfl) hw) fun t w hw => ?_
      refine Safe.seq (Safe.mono (safe_saveManifest hl.twin.executionId
        (fun _ => terminalPhase_listed hlisted) hw) (fun _ _ h => h) ?_) fun reference w hw => ?_
      · rintro e w ⟨hopen, hclean⟩
        exact ended_of_open hopen (hclean.trans (Bool.and_false _))
      · exact safe_updatePhase_terminal hl.twin hl.detail rfl rfl hw.1 hw.2

theorem safe_runPipeline {request : StartTaskExecutionRequest} {githubToken : Option String}
    (hacc : acceptable cfg request githubToken = true) (hphase : record.phase = .accepted)
    (hdetail : record.outcomeDetail = none) (hw : Going cfg record .accepted false w) :
    Prog.Safe (E cfg record) (runPipeline cfg request record githubToken).run
      (ended cfg (.pipeline record.executionId)) w := by
  refine Prog.Safe.bind (Prog.Safe.mono (safe_pipelineBody hacc hphase hdetail hw) ?_)
  intro r w hr
  cases r with
  | ok u => exact hr
  | error e =>
      refine Prog.Safe.mono (safe_handle hr) ?_
      intro x w hx
      cases x with
      | ok u => exact hx
      | error e => exact hx

end Pipelines

/-! ### Recovery -/

section Recovery

variable {cfg : Settings} {w : State × History} {rs : List TaskExecutionRecord}
  {r : TaskExecutionRecord}

/-- The executions that recovery still has before it. -/
structure Orphaned (rs : List TaskExecutionRecord) (s : State) : Prop where
  ready : s.ready = false
  rows : ∀ r ∈ rs, s.store.executions.find? r.executionId = some r ∧ r.phase.over = false
  nodup : (rs.map TaskExecutionRecord.executionId).Nodup

theorem Orphaned.wait {s s' : State} (h : Orphaned rs s) (hr : rely .startup s s') :
    Orphaned rs s' := by
  obtain ⟨hready, hkept⟩ := hr h.ready
  refine ⟨hready, ?_, h.nodup⟩
  intro r hmem
  rw [(hkept r.executionId).row]
  exact h.rows r hmem

theorem Orphaned.of_quiet {s s' : State} (h : Orphaned rs s) (hq : Quiet s s') :
    Orphaned rs s' := by
  refine ⟨hq.ready.trans h.ready, ?_, h.nodup⟩
  rw [hq.store]
  exact h.rows

theorem Orphaned.not_over {s : State} (h : Orphaned (r :: rs) s) : ¬ Over r.executionId s := by
  rintro ⟨r', hr', hover⟩
  obtain ⟨hr, hphase⟩ := h.rows r List.mem_cons_self
  rw [hr] at hr'
  obtain rfl := Option.some.inj hr'
  rw [hphase] at hover
  cases hover

/-- A call of recovery that writes nothing. -/
theorem safe_call_startup {c : Call} (hc : c.writes = false)
    {Q : Call.Out c → State × History → Prop} {exn : Exn → State × History → Prop}
    (hw : Orphaned rs w.1)
    (hQ : ∀ o s s' a, Orphaned rs s → rely .startup w.1 s →
      State.answer cfg .startup o c s = some (a, s') → Q a (s', ⟨c, a, s⟩ :: w.2)) :
    Safe (contractOf cfg .startup) (ask c) Q exn w := by
  apply safe_step (fun _ _ h hr => Orphaned.wait h hr) hw
  intro o s s' a hinv horphan hrely ha
  have hq : Quiet s s' := quiet_answer hc ha
  exact ⟨hinv.of_quiet hq, ⟨horphan.ready, fun id _ => hq.kept id⟩, advancing_of_quiet hc s a,
    hQ o s s' a horphan hrely ha⟩

/-- The update that ends the first of the executions. -/
theorem safe_updatePhase_startup {next : TaskExecutionPhase} {path detail : Option String}
    {exn : Exn → State × History → Prop} (hnext : next.over = true)
    (hw : Orphaned (r :: rs) w.1) :
    Safe (contractOf cfg .startup) (updatePhase r next path detail) (fun _ w => Orphaned rs w.1)
      exn w := by
  refine Safe.seq (Q := fun a w => succeeded a = true ∧ Orphaned rs w.1) ?_ ?_
  · apply safe_step (fun _ _ h hr => Orphaned.wait h hr) hw
    intro o s s' a hinv horphan hrely ha
    obtain ⟨hr, hphase⟩ := horphan.rows r List.mem_cons_self
    have hself : Twin r r := ⟨rfl, rfl, rfl⟩
    obtain ⟨rfl, rfl⟩ := Prod.mk.inj ((saveExecution_twin hr
      (hself.updated o.now next path detail)).symm.trans (Option.some.inj ha))
    refine ⟨inv_putRow hinv (hinv.unmarked _ r hr) fun h => ?_, ⟨horphan.ready, ?_⟩, ?_, rfl,
      ⟨horphan.ready, ?_, (List.nodup_cons.mp horphan.nodup).2⟩⟩
    · rw [show (updated o.now r next path detail).phase = next from rfl, hnext] at h
      cases h
    · intro j hover
      apply kept_putRow
      rintro rfl
      exact horphan.not_over hover
    · exact follows_of_row hr (follows_terminal hphase hnext)
    · intro r' hr'
      have hne : r'.executionId ≠ r.executionId := by
        intro heq
        exact (List.nodup_cons.mp horphan.nodup).1 (heq ▸ List.mem_map_of_mem hr')
      have hfind : (s.putRow (updated o.now r next path detail)).store.executions.find?
          r'.executionId = s.store.executions.find? r'.executionId := by
        rw [find?_putRow]
        exact if_neg hne
      rw [hfind]
      exact horphan.rows r' (List.mem_cons_of_mem _ hr')
  · rintro a w ⟨ha, hpost⟩
    cases a with
    | ok x => exact hpost
    | error e => cases ha

/-- The manifest of an execution that has none yet. -/
theorem safe_saveManifest_startup {m : TaskResultManifest} {token : Option String}
    (hm : m.executionId = r.executionId)
    (hw : Orphaned (r :: rs) w.1 ∧ w.1.store.manifests.find? r.executionId = none) :
    Safe (contractOf cfg .startup) (saveManifest m token) (fun _ w => Orphaned (r :: rs) w.1)
      (fun _ _ => True) w := by
  refine Safe.seq (Q := fun a w => succeeded a = true → Orphaned (r :: rs) w.1) ?_ ?_
  · apply safe_step (A := fun s => Orphaned (r :: rs) s ∧
      s.store.manifests.find? r.executionId = none) _ hw
    · intro o s s' a hinv horphan hrely ha
      obtain ⟨horphan, hnone⟩ := horphan
      obtain ⟨hr, hphase⟩ := horphan.rows r List.mem_cons_self
      have hrow : (s.store.executions.find? m.executionId).isSome = true := by
        rw [hm, hr]
        rfl
      rcases saveManifest_cases hinv.unmarked hrow (Option.some.inj ha) with
        ⟨-, rfl, rfl⟩ | ⟨m', -, -, rfl, rfl⟩ | ⟨m', hred, hid, rfl, rfl⟩
      · exact ⟨hinv, ⟨horphan.ready, fun id _ => Kept.refl id s'⟩, rfl, fun _ => horphan⟩
      · exact ⟨hinv, ⟨horphan.ready, fun id _ => Kept.refl id s'⟩, rfl, fun _ => horphan⟩
      · have hput : ∀ j, j ≠ r.executionId →
            (s.store.manifests.put m').find? j = s.store.manifests.find? j := by
          intro j hj
          rw [Table.find?_put, if_neg]
          rw [show key m' = r.executionId from hid.trans hm]
          exact hj
        refine ⟨⟨hinv.unmarked, hinv.pending, ?_, hinv.known, hinv.failed⟩, ⟨horphan.ready, ?_⟩, rfl,
          fun _ => ⟨horphan.ready, horphan.rows, horphan.nodup⟩⟩
        · intro x hx
          obtain ⟨mx, hmx, hfind⟩ := hinv.handed x hx
          refine ⟨mx, hmx, ?_⟩
          have hne : x.executionId ≠ r.executionId := by
            intro heq
            rw [heq, hnone] at hfind
            cases hfind
          exact (hput x.executionId hne).trans hfind
        · intro j hover
          have hne : j ≠ r.executionId := by
            rintro rfl
            exact horphan.not_over hover
          exact ⟨rfl, hput j hne, fun _ _ => Iff.rfl⟩
    · intro s s' hs hrely
      refine ⟨hs.1.wait hrely, ?_⟩
      rw [((hrely hs.1.ready).2 r.executionId).manifest]
      exact hs.2
  · intro a w hw
    cases a with
    | ok x => exact hw rfl
    | error e => trivial

theorem safe_recover (hw : Orphaned (r :: rs) w.1) :
    Safe (contractOf cfg .startup) (recover cfg r) (fun _ w => Orphaned rs w.1)
      (fun _ _ => True) w := by
  refine Safe.seq (Q := fun a w => Orphaned (r :: rs) w.1 ∧
    (succeeded a = false → w.1.store.manifests.find? r.executionId = none)) ?_ ?_
  · apply safe_call_startup rfl hw
    intro o s s' a horphan hrely ha
    obtain ⟨hreply, rfl⟩ := Prod.mk.inj (Option.some.inj ha)
    refine ⟨horphan, ?_⟩
    intro hfail
    cases hfind : s.store.manifests.find? r.executionId with
    | none => rfl
    | some m =>
        rw [← hreply, Store.loadManifest, hfind] at hfail
        cases hfail
  · rintro a w ⟨horphan, hnone⟩
    have hstop : ∀ w : State × History, Orphaned rs w.1 →
        Safe (contractOf cfg .startup) (ask (.stopOrphanProcesses r.executionId))
          (fun _ w => Orphaned rs w.1) (fun _ _ => True) w := by
      intro w hw
      apply safe_call_startup rfl hw
      intro o s s' a horphan hrely ha
      obtain ⟨-, rfl⟩ := Prod.mk.inj (Option.some.inj ha)
      exact horphan
    cases a with
    | error e =>
        refine Safe.seq (Q := fun _ w => Orphaned rs w.1) ?_ fun _ w hw => hstop w hw
        refine Safe.seq (Q := fun _ w => Orphaned (r :: rs) w.1 ∧
          w.1.store.manifests.find? r.executionId = none) ?_ fun t w hw => ?_
        · apply safe_call_startup rfl horphan
          intro o s s' a horphan' hrely ha
          obtain ⟨-, rfl⟩ := Prod.mk.inj (Option.some.inj ha)
          refine ⟨horphan', ?_⟩
          show s.store.manifests.find? r.executionId = none
          rw [((hrely horphan.ready).2 r.executionId).manifest]
          exact hnone rfl
        · refine Safe.seq (safe_saveManifest_startup rfl hw) fun reference w hw => ?_
          exact safe_updatePhase_startup rfl hw
    | ok m =>
        refine Safe.seq (safe_updatePhase_startup (over_terminalPhase _) horphan) fun _ w hw => ?_
        exact hstop w hw

theorem safe_recoverAll : ∀ {rs : List TaskExecutionRecord} {w : State × History},
    Orphaned rs w.1 →
    Safe (contractOf cfg .startup) (rs.forM (recover cfg)) (fun _ w => Orphaned [] w.1)
      (fun _ _ => True) w
  | [], _, hw => hw
  | _ :: _, _, hw => Safe.seq (safe_recover hw) fun _ _ hw => safe_recoverAll hw

theorem mem_listNonTerminal {s : Store} {r : TaskExecutionRecord} (h : r ∈ s.listNonTerminal) :
    s.executions.find? r.executionId = some r ∧ r.phase.over = false := by
  rw [Store.listNonTerminal, List.mem_insertionSort, List.mem_filter] at h
  refine ⟨Table.find?_of_mem h.1, ?_⟩
  simpa using h.2

theorem nodup_listNonTerminal (s : Store) :
    (s.listNonTerminal.map TaskExecutionRecord.executionId).Nodup := by
  have hperm := (List.perm_insertionSort (fun a b : TaskExecutionRecord =>
    a.executionId ≤ b.executionId) (s.executions.rows.filter fun r => !r.phase.over)).map
    TaskExecutionRecord.executionId
  rw [Store.listNonTerminal, hperm.nodup_iff]
  exact s.executions.nodup.sublist (List.filter_sublist.map _)

theorem safe_startup (hw : w.1.ready = false) :
    Prog.Safe (contractOf cfg .startup) (startup cfg).run (ended cfg .startup) w := by
  have hsafe : Safe (contractOf cfg .startup) (startup cfg) (fun _ _ => True)
      (fun _ _ => True) w := by
    refine Safe.seq (Q := fun records w => Orphaned records w.1) ?_ fun records w hw => ?_
    · have hnil : Orphaned [] w.1 := ⟨hw, by simp, List.nodup_nil⟩
      apply safe_call_startup rfl hnil
      intro o s s' a horphan hrely ha
      obtain ⟨rfl, rfl⟩ := Prod.mk.inj (Option.some.inj ha)
      exact ⟨horphan.ready, fun r hr => mem_listNonTerminal hr, nodup_listNonTerminal s.store⟩
    · refine Safe.seq (safe_recoverAll hw) fun _ w hw => ?_
      apply safe_step (fun _ _ h hr => Orphaned.wait h hr) hw
      intro o s s' a hinv horphan hrely ha
      obtain ⟨-, rfl⟩ := Prod.mk.inj (Option.some.inj ha)
      refine ⟨⟨hinv.unmarked, hinv.pending, hinv.handed, hinv.known, hinv.failed⟩, ⟨horphan.ready, ?_⟩, rfl,
        trivial⟩
      exact fun id _ => ⟨rfl, rfl, fun _ _ => Iff.rfl⟩
  refine Prog.Safe.mono hsafe fun r _ _ => ?_
  cases r <;> trivial

end Recovery

/-! ### The machine -/

section Machine

variable {cfg : Settings}

/-- An admission that creates: a new row, under an id that was free. -/
theorem admitOrGet_created {now : Time} {q : StartTaskExecutionRequest} {s store : Store}
    {r : TaskExecutionRecord} (h : s.admitOrGet cfg now q = (.ok (r, true), store)) :
    r = Store.newRecord cfg now q ∧ s.executions.find? r.executionId = none ∧
      store = { s with executions := s.executions.insert r } := by
  unfold Store.admitOrGet at h
  split at h
  · split at h
    · cases (Prod.mk.inj h).1
    · cases (Prod.mk.inj h).1
  · dsimp only at h
    split at h
    next => cases (Prod.mk.inj h).1
    next hnone =>
      obtain ⟨hr, rfl⟩ := Prod.mk.inj h
      obtain ⟨rfl, -⟩ := Prod.mk.inj (Except.ok.inj hr)
      refine ⟨rfl, ?_, rfl⟩
      simpa using hnone

theorem job_pipeline {id : String} {j : Job} {s s' : State} {prog} (hinv : Inv cfg s)
    (h : Job.program cfg (.pipeline id) j s = some (prog, s')) :
    Inv cfg s' ∧ guar (.pipeline id) s s' ∧
      Prog.Safe (contractOf cfg (.pipeline id)) prog (ended cfg (.pipeline id)) (s', []) := by
  cases j with
  | startup => cases h
  | start request githubToken now =>
      simp only [Job.program] at h
      split at h
      next hready =>
        split at h
        next record store hadmit =>
          split at h
          next hid =>
            subst hid
            obtain ⟨rfl, rfl⟩ := Prod.mk.inj (Option.some.inj h)
            obtain ⟨hnew, hfree, rfl⟩ := admitOrGet_created hadmit
            have hfind : ∀ k, (s.store.executions.insert record).find? k =
                if record.executionId = k then some record else s.store.executions.find? k :=
              fun k => Table.find?_insert hfree k
            have hunhanded : ∀ x ∈ s.handed, x.executionId ≠ record.executionId := by
              intro x hx heq
              exact hinv.known x hx (heq ▸ hfree)
            refine ⟨⟨?_, ?_, hinv.handed, ?_, hinv.failed⟩, ⟨⟨hready.1, hready.1⟩, ?_, ?_, fun h => h⟩, ?_⟩
            · intro k r hr
              rw [hfind] at hr
              split at hr
              next heq =>
                rw [← heq, hnew]
                exact newExecutionId_unmarked cfg _ _
              next => exact hinv.unmarked k r hr
            · intro k r hr hover
              rw [hfind] at hr
              split at hr
              next =>
                obtain rfl := Option.some.inj hr
                rw [hnew]
                rfl
              next => exact hinv.pending k r hr hover
            · intro x hx
              rw [hfind]
              split
              · simp
              · exact hinv.known x hx
            · intro k hk
              refine ⟨?_, rfl, fun _ _ => Iff.rfl⟩
              rw [hfind, if_neg (Ne.symm hk)]
            · rintro ⟨r, hr, -⟩
              rw [hfree] at hr
              cases hr
            · apply safe_runPipeline hready.2 (by rw [hnew]; rfl) (by rw [hnew]; rfl)
              refine ⟨⟨hready.1, rfl, ⟨record, ?_, ⟨rfl, rfl, rfl⟩, by rw [hnew]; rfl,
                by rw [hnew]; rfl⟩, hunhanded⟩, rfl, fun h => Bool.noConfusion h⟩
              rw [hfind, if_pos rfl]
          next => cases h
        next => cases h
      next => cases h

theorem job_startup {j : Job} {s s' : State} {prog} (hinv : Inv cfg s)
    (h : Job.program cfg .startup j s = some (prog, s')) :
    Inv cfg s' ∧ guar .startup s s' ∧
      Prog.Safe (contractOf cfg .startup) prog (ended cfg .startup) (s', []) := by
  cases j with
  | start _ _ _ => cases h
  | startup =>
      simp only [Job.program] at h
      split at h
      next hdown =>
        obtain ⟨rfl, rfl⟩ := Prod.mk.inj (Option.some.inj h)
        refine ⟨⟨hinv.unmarked, hinv.pending, hinv.handed, hinv.known, hinv.failed⟩, ⟨hdown.2, ?_⟩, ?_⟩
        · exact fun id _ => ⟨rfl, rfl, fun _ _ => Iff.rfl⟩
        · exact safe_startup hdown.2
      next => cases h

theorem quiet_talkEvent {e : TalkEvent} {s s' : State}
    (h : Happening.apply (.talk e) s = some s') : Quiet s s' := by
  simp only [Happening.apply] at h
  split at h
  next =>
    obtain ⟨k, hk, rfl⟩ := Option.map_eq_some_iff.mp h
    exact ⟨rfl, rfl, rfl, TalkEvent.lasts hk⟩
  next => cases h

theorem rely_of_quiet {s s' : State} (hq : Quiet s s') (p : Pid) : rely p s s' := by
  cases p with
  | startup => exact fun h => ⟨hq.ready.trans h, hq.kept⟩
  | pipeline id => exact fun h => ⟨hq.ready.trans h, hq.kept id, hq.talk⟩

theorem sound_supervisor (cfg : Settings) :
    Machine.Sound (M := supervisor cfg) {} (Inv cfg) rely guar (ended cfg) (advancing cfg) where
  rely_trans := rely_trans
  guar_rely p q s s' hne h := guar_rely p q s s' hne h
  job := by
    intro p j s prog s' hinv h
    cases p with
    | startup => exact job_startup hinv h
    | pipeline id => exact job_pipeline hinv h
  event := by
    intro e s s' hinv _ h
    cases e with
    | talk e =>
        have hq := quiet_talkEvent h
        exact ⟨hinv.of_quiet hq, fun _ p => rely_of_quiet hq p⟩
    | crash =>
        obtain rfl := Option.some.inj h
        exact ⟨⟨hinv.unmarked, hinv.pending, hinv.handed, hinv.known, hinv.failed⟩, fun hk => Bool.noConfusion hk⟩

theorem ok_init (cfg : Settings) :
    Machine.Ok (M := supervisor cfg) {} (Inv cfg) rely guar (ended cfg) System.init
      (advancing cfg) := by
  refine ⟨⟨?_, ?_, ?_, ?_, ?_⟩, ?_⟩
  · intro id r h
    cases h
  · intro id r h
    cases h
  · intro x hx
    cases hx
  · intro x hx
    cases hx
  · intro x hx
    cases hx
  · intro p c k h hth
    cases hth

/-- What is known of every state of a run. -/
theorem ok_run {as : List (Act cfg)} {w : System}
    (hr : (supervisor cfg).run System.init as = some w) :
    Machine.Ok (M := supervisor cfg) {} (Inv cfg) rely guar (ended cfg) w (advancing cfg) :=
  (sound_supervisor cfg).run rely_refl (ok_init cfg) (Machine.keeps_trivial _ as) hr

end Machine

end GgAgent.Sandbox
