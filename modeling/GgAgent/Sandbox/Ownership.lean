import GgAgent.Sandbox.Supervisor

/-!
Who may write which rows of the sandbox's store.

While the process serves, the rows of an execution belong to its pipeline; before that,
all rows belong to recovery. Each party leaves the rows of the others alone, and nobody
touches an execution that is over. From these contracts every pipeline is followed once,
with three things recorded on the way: each `_update_phase` finds a phase that it may
follow, while the save that binds the conversation finds `running_agent` and writes
`accepted`; a pipeline that has handed in a manifest ends with the phase and the detail
that belong to it; and it ends settled exactly if all its calls met a condition.
-/

namespace GgAgent.Sandbox

open GgAgent.Lib
open GgAgent.Lib.Co (attempt)
open GgAgent.Backend (Time TaskExecutionPhase AgentOutcome CheckOutcome)

/-! ### Redacted manifests -/

theorem unmarked_field {k : String} (h : decide (Marked k) = false := by decide) : ¬ Marked k :=
  of_decide_eq_false h

theorem nodup_dump (m : TaskResultManifest) : (m.dump.map Prod.fst).Nodup := by
  simp only [TaskResultManifest.dump, List.map_cons, List.map_nil]
  decide

/-- A field of the dump of a manifest, in what redaction leaves of it. -/
theorem field_redactAll (secrets : List String) (m : TaskResultManifest) {k : String} {v : Value}
    (hk : ¬ Marked k) (hv : Value.item? m.dump k = some v) :
    Value.item? (redactAll secrets m.dump) k =
      if Untouched secrets k then some (redactValue secrets v) else none := by
  rw [item?_redactAll hk secrets (nodup_dump m), hv]
  rfl

/-- A manifest that validation has read off a dictionary. -/
structure Validated (d : List (String × Value)) (m : TaskResultManifest) : Prop where
  taskId : Field.requiredStr (Value.item? d "task_id") = some m.taskId
  executionId : Field.requiredStr (Value.item? d "execution_id") = some m.executionId
  repository : Field.optionalStr (Value.item? d "repository") = some m.repository
  taskBranch : Field.optionalStr (Value.item? d "task_branch") = some m.taskBranch
  baseRef : Field.optionalStr (Value.item? d "base_ref") = some m.baseRef
  baseSha : Field.optionalStr (Value.item? d "base_sha") = some m.baseSha
  headSha : Field.optionalStr (Value.item? d "head_sha") = some m.headSha
  changedFiles : Field.texts (Value.item? d "changed_files") = some m.changedFiles
  patch : Field.optionalStr (Value.item? d "patch") = some m.patch
  bootstrap : Field.capture (Value.item? d "bootstrap") = some m.bootstrap
  check : Field.capture (Value.item? d "check") = some m.check
  agentOutcome : Field.word AgentOutcome.ofValue? .notRun (Value.item? d "agent_outcome") =
    some m.agentOutcome
  conversationId : Field.optionalStr (Value.item? d "conversation_id") = some m.conversationId
  outcomeDetail : Field.optionalStr (Value.item? d "outcome_detail") = some m.outcomeDetail

theorem validated {d : List (String × Value)} {m : TaskResultManifest}
    (h : TaskResultManifest.validate d = some m) : Validated d m := by
  unfold TaskResultManifest.validate at h
  obtain ⟨_, htask, h⟩ := Option.bind_eq_some_iff.mp h
  obtain ⟨_, hid, h⟩ := Option.bind_eq_some_iff.mp h
  obtain ⟨_, hrepository, h⟩ := Option.bind_eq_some_iff.mp h
  obtain ⟨_, hbranch, h⟩ := Option.bind_eq_some_iff.mp h
  obtain ⟨_, hbaseRef, h⟩ := Option.bind_eq_some_iff.mp h
  obtain ⟨_, hbaseSha, h⟩ := Option.bind_eq_some_iff.mp h
  obtain ⟨_, hhead, h⟩ := Option.bind_eq_some_iff.mp h
  obtain ⟨_, hfiles, h⟩ := Option.bind_eq_some_iff.mp h
  obtain ⟨_, hpatch, h⟩ := Option.bind_eq_some_iff.mp h
  obtain ⟨_, -, h⟩ := Option.bind_eq_some_iff.mp h
  obtain ⟨_, hbootstrap, h⟩ := Option.bind_eq_some_iff.mp h
  obtain ⟨_, hcheck, h⟩ := Option.bind_eq_some_iff.mp h
  obtain ⟨_, -, h⟩ := Option.bind_eq_some_iff.mp h
  obtain ⟨_, hagent, h⟩ := Option.bind_eq_some_iff.mp h
  obtain ⟨_, hconversation, h⟩ := Option.bind_eq_some_iff.mp h
  obtain ⟨_, hdetail, h⟩ := Option.bind_eq_some_iff.mp h
  obtain ⟨_, -, hm⟩ := Option.bind_eq_some_iff.mp h
  obtain rfl := Option.some.inj hm
  exact ⟨htask, hid, hrepository, hbranch, hbaseRef, hbaseSha, hhead, hfiles, hpatch, hbootstrap,
    hcheck, hagent, hconversation, hdetail⟩

/-- Redaction of a manifest: the id is masked; the outcome survives or falls back to its
default; the detail is masked or dropped with its field. -/
structure Redacted (secrets : List String) (m m' : TaskResultManifest) : Prop where
  executionId : m'.executionId = maskAll secrets m.executionId
  agentOutcome : m'.agentOutcome =
    if Untouched secrets "agent_outcome" then m.agentOutcome else .notRun
  outcomeDetail : m'.outcomeDetail =
    if Untouched secrets "outcome_detail" then m.outcomeDetail.map (maskAll secrets) else none

theorem unmarked_outcome (o : AgentOutcome) : ¬ Marked o.value := by
  cases o <;> exact unmarked_field

theorem ofValue?_value (o : AgentOutcome) : AgentOutcome.ofValue? o.value = some o := by
  cases o <;> decide

theorem value_of_ofValue? {s : String} {o : AgentOutcome} (h : AgentOutcome.ofValue? s = some o) :
    o.value = s := by
  simpa using List.find?_some h

theorem redacted_of_validate {secrets : List String} {m m' : TaskResultManifest}
    (h : TaskResultManifest.validate (redactAll secrets m.dump) = some m') :
    Redacted secrets m m' := by
  obtain ⟨-, hid, -, -, -, -, -, -, -, -, -, hagent, -, hdetail⟩ := validated h
  rw [field_redactAll secrets m (v := .str m.executionId) unmarked_field rfl] at hid
  rw [field_redactAll secrets m (v := .str m.agentOutcome.value) unmarked_field rfl] at hagent
  rw [field_redactAll secrets m (v := .ofStr? m.outcomeDetail) unmarked_field rfl] at hdetail
  refine ⟨?_, ?_, ?_⟩
  · by_cases hun : Untouched secrets "execution_id"
    · rw [if_pos hun, redactValue_str] at hid
      exact (Option.some.inj hid).symm
    · rw [if_neg hun] at hid
      cases hid
  · by_cases hun : Untouched secrets "agent_outcome"
    · rw [if_pos hun, redactValue_str] at hagent
      rw [if_pos hun]
      -- A word that redaction has changed is none of the enumeration.
      have hword := value_of_ofValue? hagent
      have hsame := eq_of_maskAll_eq (unmarked_outcome m'.agentOutcome) hword.symm
      have hagain := ofValue?_value m.agentOutcome
      rw [hsame, ofValue?_value] at hagain
      exact Option.some.inj hagain
    · rw [if_neg hun] at hagent ⊢
      exact (Option.some.inj hagent).symm
  · by_cases hun : Untouched secrets "outcome_detail"
    · rw [if_pos hun] at hdetail ⊢
      cases hm : m.outcomeDetail with
      | none =>
          rw [hm, Value.ofStr?, redactValue_null] at hdetail
          exact (Option.some.inj hdetail).symm
      | some d =>
          rw [hm, Value.ofStr?, redactValue_str] at hdetail
          exact (Option.some.inj hdetail).symm
    · rw [if_neg hun] at hdetail ⊢
      exact (Option.some.inj hdetail).symm

theorem redacted_of_redactManifest {cfg : Settings} {token : Option String}
    {m m' : TaskResultManifest} (h : redactManifest cfg token m = some m') :
    Redacted (cfg.secrets token) m m' := by
  unfold redactManifest at h
  simp only at h
  split at h
  next hnil =>
    obtain rfl := Option.some.inj h
    rw [hnil]
    have hid : maskAll [] = id := rfl
    refine ⟨rfl, ?_, ?_⟩ <;> simp [Untouched, hid]
  next => exact redacted_of_validate h

/-! ### The conversation stays -/

namespace Talk

/-- Once there is a conversation, there is one. -/
def Lasts (k k' : Talk) : Prop := k.conversation.isSome = true → k'.conversation.isSome = true

theorem lasts_put (c : Conversation) (k : Talk) : k.Lasts (k.put c) := fun _ => rfl

theorem lasts_get (id : String) (k : Talk) : k.Lasts (k.get id).2 := by
  intro h
  unfold get
  split
  · exact h
  · split
    · exact h
    · rfl

theorem lasts_withConversation {α : Type} (id : String)
    (f : Conversation → Except Exn α × Conversation) (k : Talk) :
    k.Lasts (k.withConversation id f).2 := by
  intro h
  have hget := lasts_get id k h
  unfold withConversation
  split
  next heq =>
    rw [heq] at hget
    exact hget
  next => rfl

theorem lasts_beginRun (id : String) (k : Talk) : k.Lasts (k.beginRun id).2 := by
  intro h
  have hget := lasts_get id k h
  unfold beginRun
  split
  next heq =>
    rw [heq] at hget
    exact hget
  next heq =>
    rw [heq] at hget
    split <;> exact hget

theorem lasts_enter {i : Nat} {k k' : Talk} (h : k.enter i = some k') : k.Lasts k' := by
  intro hk
  unfold enter at h
  split at h
  next hc =>
    split at h
    · cases h
    · split at h
      · obtain rfl := Option.some.inj h
        exact hk
      · split at h
        · obtain rfl := Option.some.inj h
          exact hk
        · obtain rfl := Option.some.inj h
          rfl
  next => cases h

theorem lasts_leave {i : Nat} {how : AgentEnd} {k k' : Talk} (h : k.leave i how = some k') :
    k.Lasts k' := by
  intro hk
  unfold leave at h
  split at h
  next =>
    split at h
    · cases h
    · dsimp only at h
      split at h
      · obtain rfl := Option.some.inj h
        rfl
      · split at h <;>
        · obtain rfl := Option.some.inj h
          rfl
  next => cases h

end Talk

theorem TalkEvent.lasts {id : String} {e : TalkEvent} {k k' : Talk}
    (h : e.apply id k = some k') : k.Lasts k' := by
  cases e with
  | start =>
      obtain rfl := Option.some.inj h
      split
      · exact Talk.lasts_withConversation id _ k
      · exact Talk.lasts_put _ k
  | sendMessage =>
      obtain rfl := Option.some.inj h
      exact Talk.lasts_withConversation id _ k
  | run =>
      obtain rfl := Option.some.inj h
      exact Talk.lasts_beginRun id k
  | cancel backend =>
      obtain rfl := Option.some.inj h
      exact Talk.lasts_withConversation id _ k
  | enter i => exact Talk.lasts_enter h
  | leave i how => exact Talk.lasts_leave h

/-! ### What a call can write -/

/-- The calls that write rows or open the routes. -/
def Call.writes : Call → Bool
  | .updatePhase _ _ _ _ | .saveExecution _ | .saveManifest _ _ | .markReady => true
  | _ => false

/-- Nothing but the conversation may have changed. -/
structure Quiet (s s' : State) : Prop where
  store : s'.store = s.store
  handed : s'.handed = s.handed
  ready : s'.ready = s.ready
  talk : s.talk.Lasts s'.talk

theorem Quiet.refl (s : State) : Quiet s s := ⟨rfl, rfl, rfl, fun h => h⟩

theorem quiet_onTalk {α : Type} {f : Talk → Except Exn α × Talk} {s s' : State} {a : Except Exn α}
    (hf : s.talk.Lasts (f s.talk).2) (h : s.onTalk f = some (a, s')) : Quiet s s' := by
  obtain ⟨-, rfl⟩ := Prod.mk.inj (Option.some.inj h)
  exact ⟨rfl, rfl, rfl, hf⟩

theorem quiet_answer {cfg : Settings} {p : Pid} {o : Oracle} {c : Call} {s s' : State}
    {a : Call.Out c} (hc : c.writes = false) (h : State.answer cfg p o c s = some (a, s')) :
    Quiet s s' := by
  cases c with
  | updatePhase _ _ _ _ => cases hc
  | saveExecution _ => cases hc
  | saveManifest _ _ => cases hc
  | markReady => cases hc
  | git _ | now | listNonTerminal | loadManifest _ | stopOrphanProcesses _ =>
      obtain ⟨-, rfl⟩ := Prod.mk.inj (Option.some.inj h)
      exact Quiet.refl s
  | conversationId =>
      simp only [State.answer] at h
      split at h <;>
      · obtain ⟨-, rfl⟩ := Prod.mk.inj (Option.some.inj h)
        exact ⟨rfl, rfl, rfl, fun h => h⟩
  | getRecord id => exact quiet_onTalk (Talk.lasts_withConversation id _ _) h
  | setGithubToken id _ => exact quiet_onTalk (Talk.lasts_withConversation id _ _) h
  | createConversation _ _ _ _ =>
      obtain ⟨-, rfl⟩ := Prod.mk.inj (Option.some.inj h)
      exact ⟨rfl, rfl, rfl, Talk.lasts_put _ _⟩
  | sendMessage id _ => exact quiet_onTalk (Talk.lasts_withConversation id _ _) h
  | beginRun id => exact quiet_onTalk (Talk.lasts_beginRun id _) h
  | awaitRun i =>
      simp only [State.answer] at h
      split at h
      · obtain ⟨-, rfl⟩ := Prod.mk.inj (Option.some.inj h)
        exact ⟨rfl, rfl, rfl, fun h => h⟩
      · obtain ⟨x, -, hx⟩ := Option.map_eq_some_iff.mp h
        obtain ⟨-, rfl⟩ := Prod.mk.inj hx
        exact Quiet.refl s
  | loadMeta _ =>
      simp only [State.answer] at h
      split at h <;>
      · obtain ⟨-, rfl⟩ := Prod.mk.inj (Option.some.inj h)
        exact Quiet.refl s
  | cancel id => exact quiet_onTalk (Talk.lasts_withConversation id _ _) h
  | awaitLatest =>
      simp only [State.answer] at h
      split at h
      · obtain ⟨-, rfl⟩ := Prod.mk.inj (Option.some.inj h)
        exact Quiet.refl s
      · obtain ⟨x, -, hx⟩ := Option.map_eq_some_iff.mp h
        obtain ⟨-, rfl⟩ := Prod.mk.inj hx
        exact Quiet.refl s

/-! ### Conditions on calls -/

/-- How far an execution has come. -/
def TaskExecutionPhase.rank : TaskExecutionPhase → Nat
  | .accepted => 0
  | .preparing => 1
  | .runningAgent => 2
  | .runningChecks => 3
  | .completed | .failed => 4

/-- The second phase may come after the first. -/
def follows (a b : TaskExecutionPhase) : Bool :=
  !a.over && decide (TaskExecutionPhase.rank a ≤ TaskExecutionPhase.rank b)

def succeeded {α : Type} : Except Exn α → Bool
  | .ok _ => true
  | .error _ => false

/-- What every save owes: an update of the phase goes forward, and the save that binds the
conversation takes `running_agent` back to `accepted`. -/
def advancingCall : (c : Call) → State → Call.Out c → Bool
  | .updatePhase record phase _ _, s, _ =>
    (s.store.executions.find? record.executionId).all fun r => follows r.phase phase
  | .saveExecution record, s, a =>
    ((s.store.executions.find? record.executionId).any fun r => r.phase = .runningAgent) &&
      (decide (record.phase = .accepted) && succeeded a)
  | _, _, _ => true

def advancing (cfg : Settings) : (supervisor cfg).Cond where
  call := fun _ _ c s a => advancingCall c s a

/-- The reply is no exception, or one that the `except` clauses list. -/
def handled {α : Type} : Except Exn α → Bool
  | .ok _ => true
  | .error e => e.listed.isSome

/-- The conversation as an operation on it will find it. -/
def Talk.hydrated (k : Talk) : Option Conversation :=
  k.conversation.map fun c => if c.live then c else c.opened

/-- The last run has not ended. -/
def Talk.busy (k : Talk) : Bool := k.runs.getLast?.any fun r => r.task = .pending

/-- What keeps a pipeline on its way to a settled execution. -/
def settlingCall (cfg : Settings) : (c : Call) → State → Call.Out c → Bool
  | .git _, _, a => handled a
  | .setGithubToken _ _, s, _ => s.talk.hydrated.all fun c => c.status ≠ .running
  | .sendMessage _ _, s, _ =>
    s.talk.hydrated.all fun c => c.status ≠ .running && c.status ≠ .cancelled
  | .beginRun _, s, _ => !s.talk.busy
  | .awaitRun _, _, a => handled a
  | .cancel _, s, a => s.talk.hydrated.all fun c =>
      c.status = .cancelled || c.cancelling || (c.status = .running && handled a)
  | .awaitLatest, _, a => handled a
  | .saveManifest m token, _, _ =>
    match redactManifest cfg token m with
    | some m' => decide (m'.executionId = m.executionId)
    | none => m.outcomeDetail.isNone
  | _, _, _ => true

def settling (cfg : Settings) : (supervisor cfg).Cond where
  call := fun _ _ c s a => settlingCall cfg c s a

/-! ### Contracts -/

structure Kept (id : String) (s s' : State) : Prop where
  row : s'.store.executions.find? id = s.store.executions.find? id
  manifest : s'.store.manifests.find? id = s.store.manifests.find? id
  handed : ∀ x : Handed, x.executionId = id → (x ∈ s'.handed ↔ x ∈ s.handed)

theorem Kept.refl (id : String) (s : State) : Kept id s s := ⟨rfl, rfl, fun _ _ => Iff.rfl⟩

theorem Kept.trans {id : String} {a b c : State} (hab : Kept id a b) (hbc : Kept id b c) :
    Kept id a c where
  row := hbc.row.trans hab.row
  manifest := hbc.manifest.trans hab.manifest
  handed x hx := (hbc.handed x hx).trans (hab.handed x hx)

theorem Quiet.kept {s s' : State} (h : Quiet s s') (id : String) : Kept id s s' where
  row := by rw [h.store]
  manifest := by rw [h.store]
  handed x _ := by rw [h.handed]

/-- The execution has a terminal phase. -/
def Over (id : String) (s : State) : Prop :=
  ∃ r, s.store.executions.find? id = some r ∧ r.phase.over = true

structure Inv (cfg : Settings) (s : State) : Prop where
  unmarked : ∀ id r, s.store.executions.find? id = some r → ¬ Marked id
  pending : ∀ id r, s.store.executions.find? id = some r → r.phase.over = false →
    r.outcomeDetail = none
  handed : ∀ x ∈ s.handed, ∃ m', redactManifest cfg x.githubToken x.manifest = some m' ∧
    s.store.manifests.find? x.executionId = some m'
  known : ∀ x ∈ s.handed, s.store.executions.find? x.executionId ≠ none
  failed : ∀ x ∈ s.handed, x.manifest.outcomeDetail.isSome = true →
    terminalPhase x.manifest.agentOutcome = .failed

theorem Inv.of_quiet {cfg : Settings} {s s' : State} (h : Inv cfg s) (hq : Quiet s s') :
    Inv cfg s' := by
  refine ⟨?_, ?_, ?_, ?_, ?_⟩
  · rw [hq.store]
    exact h.unmarked
  · rw [hq.store]
    exact h.pending
  · rw [hq.store, hq.handed]
    exact h.handed
  · rw [hq.store, hq.handed]
    exact h.known
  · rw [hq.handed]
    exact h.failed

def rely : Pid → State → State → Prop
  | .startup, s, s' => s.ready = false → s'.ready = false ∧ ∀ id, Kept id s s'
  | .pipeline id, s, s' => s.ready = true →
      s'.ready = true ∧ Kept id s s' ∧ s.talk.Lasts s'.talk

def guar : Pid → State → State → Prop
  | .startup, s, s' => s.ready = false ∧ ∀ id, Over id s → Kept id s s'
  | .pipeline id, s, s' => (s.ready = true ∧ s'.ready = true) ∧
      (∀ j, j ≠ id → Kept j s s') ∧ (Over id s → Kept id s s') ∧ s.talk.Lasts s'.talk

theorem rely_refl (p : Pid) (s : State) : rely p s s := by
  cases p with
  | startup => exact fun h => ⟨h, fun id => Kept.refl id s⟩
  | pipeline id => exact fun h => ⟨h, Kept.refl id s, fun h => h⟩

theorem rely_trans (p : Pid) (a b c : State) (hab : rely p a b) (hbc : rely p b c) :
    rely p a c := by
  cases p with
  | startup =>
      intro ha
      obtain ⟨hb, kab⟩ := hab ha
      obtain ⟨hc, kbc⟩ := hbc hb
      exact ⟨hc, fun id => (kab id).trans (kbc id)⟩
  | pipeline id =>
      intro ha
      obtain ⟨hb, kab, lab⟩ := hab ha
      obtain ⟨hc, kbc, lbc⟩ := hbc hb
      exact ⟨hc, kab.trans kbc, fun h => lbc (lab h)⟩

theorem guar_rely (p q : Pid) (s s' : State) (hne : q ≠ p) (h : guar p s s') : rely q s s' := by
  cases p with
  | startup =>
      cases q with
      | startup => exact absurd rfl hne
      | pipeline id =>
          intro hr
          rw [h.1] at hr
          cases hr
  | pipeline j =>
      cases q with
      | startup =>
          intro hr
          rw [h.1.1] at hr
          cases hr
      | pipeline id =>
          intro _
          have hid : id ≠ j := fun e => hne (by rw [e])
          exact ⟨h.1.2, h.2.1 id hid, h.2.2.2⟩

/-- The execution is over and a manifest for it is stored. -/
def Settled (id : String) (s : State) : Prop :=
  Over id s ∧ (s.store.manifests.find? id).isSome = true

/-- The phase and the detail with which a pipeline ends that has handed in `m`. -/
def conclusion (m : TaskResultManifest) : TaskExecutionPhase × Option String :=
  match m.outcomeDetail with
  | some detail => (.failed, orElse (some detail) none)
  | none => (terminalPhase m.agentOutcome, resultDetail m.agentOutcome m.checkOutcome)

/-- The stored phase and detail are those that belong to the manifest. -/
def Concluded (x : Handed) (s : State) : Prop :=
  ∃ r, s.store.executions.find? x.executionId = some r ∧
    (r.phase, r.outcomeDetail) = conclusion x.manifest

abbrev History := List (Entry Call.Out State)

/-- What a pipeline has established when it ends. -/
def ended (cfg : Settings) : Pid → Except Exn Unit → State × History → Prop
  | .startup, _, _ => True
  | .pipeline id, _, w =>
    (Settled id w.1 ↔ (settling cfg).along (.pipeline id) w.2 = true) ∧
      ∀ x ∈ w.1.handed, x.executionId = id → Concluded x w.1

end GgAgent.Sandbox
