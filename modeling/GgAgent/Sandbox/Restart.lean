import GgAgent.Sandbox.Phases

/-!
A crash after the manifest is stored, and the recovery that follows.

Recovery runs with nothing beside it. It leaves finished executions and stored manifests
alone and gives an open execution with a manifest the phase and the detail it reads from
there. The pipeline takes both from its own variables: the two agree unless the detail is
one that the manifest does not have, or redaction has changed what recovery reads.
-/

namespace GgAgent.Sandbox

open GgAgent.Lib
open GgAgent.Lib.Co (Safe)
open GgAgent.Backend (TaskExecutionPhase AgentOutcome)

/-! ### Recovery alone -/

/-- How recovery is answered, by an outside that may depend on the state. -/
def answered (cfg : Settings) (outside : State → Oracle) (c : Call) (s : State) :
    Option (Call.Out c × State) :=
  State.answer cfg .startup (outside s) c s

/-- A crash and the `startup()` of the next process. -/
def restart (cfg : Settings) (outside : State → Oracle) (s : State) :
    Option (Except Exn Unit × State) :=
  Prog.alone (answered cfg outside) (startup cfg).run s.crashed

/-- What recovery makes of a record and the manifest that is stored for it. -/
def Recovered (r : TaskExecutionRecord) (m : TaskResultManifest) (r' : TaskExecutionRecord) :
    Prop :=
  r'.phase = terminalPhase m.agentOutcome ∧ r'.outcomeDetail = orElse m.outcomeDetail r.outcomeDetail

/-- Between two rounds of recovery, with `rs` still to come. -/
structure Recovering (s₀ : State) (rs : List TaskExecutionRecord) (s : State) : Prop where
  unmarked : ∀ id r, s.store.executions.find? id = some r → ¬ Marked id
  rows : ∀ r ∈ rs, s.store.executions.find? r.executionId = some r ∧ r.phase.over = false
  nodup : (rs.map TaskExecutionRecord.executionId).Nodup
  manifests : ∀ id m, s₀.store.manifests.find? id = some m →
    s.store.manifests.find? id = some m
  finished : ∀ id r, s₀.store.executions.find? id = some r → r.phase.over = true →
    s.store.executions.find? id = some r
  done : ∀ id r m, s₀.store.executions.find? id = some r → r.phase.over = false →
    s₀.store.manifests.find? id = some m →
    r ∈ rs ∨ ∃ r', s.store.executions.find? id = some r' ∧ Recovered r m r'

/-- The manifests of these executions are as they were. -/
def Fresh (s₀ : State) (rs : List TaskExecutionRecord) (s : State) : Prop :=
  ∀ r ∈ rs, s.store.manifests.find? r.executionId = s₀.store.manifests.find? r.executionId

/-- The stored manifests of the start are still there. -/
def KeepsManifests (s₀ s : State) : Prop :=
  ∀ id m, s₀.store.manifests.find? id = some m → s.store.manifests.find? id = some m

section Alone

variable {cfg : Settings} {outside : State → Oracle} {s₀ s : State}
  {rs : List TaskExecutionRecord} {r : TaskExecutionRecord}

theorem safe_answered {c : Call} {Q : Call.Out c → State → Prop} {exn : Exn → State → Prop}
    (h : ∀ a s', State.answer cfg .startup (outside s) c s = some (a, s') → Q a s') :
    Safe (.solo (answered cfg outside)) (ask c) Q exn s := by
  intro s₁ _ hs a s' ha
  obtain rfl : s = s₁ := hs
  exact ⟨trivial, trivial, h a s' ha⟩

/-- The update that ends a round. -/
theorem safe_recoverRow {next : TaskExecutionPhase} {path detail : Option String}
    {exn : Exn → State → Prop} (hs : Recovering s₀ (r :: rs) s) (hfresh : Fresh s₀ rs s)
    (hdone : ∀ m, s₀.store.manifests.find? r.executionId = some m →
      next = terminalPhase m.agentOutcome ∧ detail = m.outcomeDetail) :
    Safe (.solo (answered cfg outside)) (updatePhase r next path detail)
      (fun _ s => Recovering s₀ rs s ∧ Fresh s₀ rs s) exn s := by
  obtain ⟨hr, hopen⟩ := hs.rows r List.mem_cons_self
  have hnodup := List.nodup_cons.mp hs.nodup
  have hother : ∀ r' ∈ rs, r'.executionId ≠ r.executionId := by
    intro r' hr' heq
    exact hnodup.1 (heq ▸ List.mem_map_of_mem hr')
  refine Safe.seq (Q := fun a s => succeeded a = true ∧ Recovering s₀ rs s ∧ Fresh s₀ rs s) ?_ ?_
  · apply safe_answered
    intro a s' ha
    have hself : Twin r r := ⟨rfl, rfl, rfl⟩
    obtain ⟨rfl, rfl⟩ := Prod.mk.inj ((saveExecution_twin hr
      (hself.updated (outside s).now next path detail)).symm.trans (Option.some.inj ha))
    generalize hnew : updated (outside s).now r next path detail = new
    have hid : new.executionId = r.executionId := by rw [← hnew]; rfl
    refine ⟨rfl, ⟨?_, ?_, hnodup.2, hs.manifests, ?_, ?_⟩, hfresh⟩
    · intro id r' hr'
      rw [find?_putRow] at hr'
      split at hr'
      next heq =>
        rw [heq, hid]
        exact hs.unmarked _ r hr
      next => exact hs.unmarked id r' hr'
    · intro r' hr'
      rw [find?_putRow, if_neg (by rw [hid]; exact hother r' hr')]
      exact hs.rows r' (List.mem_cons_of_mem _ hr')
    · intro id r' hr' hover
      have hkept := hs.finished id r' hr' hover
      rw [find?_putRow]
      split
      next heq =>
        rw [heq, hid, hr] at hkept
        obtain rfl := Option.some.inj hkept
        rw [hopen] at hover
        cases hover
      next => exact hkept
    · intro id r' m hr' hopen' hm
      rcases hs.done id r' m hr' hopen' hm with hmem | ⟨r'', hr'', hrec⟩
      · rcases List.mem_cons.mp hmem with rfl | hmem
        · -- This round was about it.
          right
          have hkey : id = r'.executionId := (Table.key_of_find? hr').symm
          obtain ⟨hphase, hdetail⟩ := hdone m (hkey ▸ hm)
          refine ⟨new, ?_, ?_⟩
          · rw [hkey]
            exact find?_putRow_self new hid s
          · rw [← hnew]
            exact ⟨hphase, by rw [hdetail]; rfl⟩
        · exact .inl hmem
      · -- It was recovered in an earlier round.
        right
        refine ⟨r'', ?_, hrec⟩
        rw [find?_putRow, if_neg]
        · exact hr''
        · rw [hid]
          rintro rfl
          rw [hr] at hr''
          obtain rfl := Option.some.inj hr''
          have hover := over_terminalPhase m.agentOutcome
          rw [← hrec.1, hopen] at hover
          cases hover
  · rintro a s ⟨ha, hs⟩
    cases a with
    | ok x => exact hs
    | error e => cases ha

/-- The manifest of an execution that was lost. -/
theorem safe_saveLost {m : TaskResultManifest} {token : Option String}
    (hm : m.executionId = r.executionId) (hs : Recovering s₀ (r :: rs) s) (hfresh : Fresh s₀ rs s)
    (hnone : s₀.store.manifests.find? r.executionId = none) :
    Safe (.solo (answered cfg outside)) (saveManifest m token)
      (fun _ s => Recovering s₀ (r :: rs) s ∧ Fresh s₀ rs s) (fun _ => KeepsManifests s₀) s := by
  obtain ⟨hr, hopen⟩ := hs.rows r List.mem_cons_self
  refine Safe.seq (Q := fun _ s => Recovering s₀ (r :: rs) s ∧ Fresh s₀ rs s) ?_ ?_
  · apply safe_answered
    intro a s' ha
    have hrow : (s.store.executions.find? m.executionId).isSome = true := by
      rw [hm, hr]
      rfl
    rcases saveManifest_cases hs.unmarked hrow (Option.some.inj ha) with
      ⟨-, rfl, -⟩ | ⟨m', -, -, rfl, -⟩ | ⟨m', -, hid, -, rfl⟩
    · exact ⟨hs, hfresh⟩
    · exact ⟨hs, hfresh⟩
    · have hput : ∀ j, j ≠ r.executionId →
          (s.store.manifests.put m').find? j = s.store.manifests.find? j := by
        intro j hj
        rw [Table.find?_put, if_neg]
        rw [show key m' = r.executionId from hid.trans hm]
        exact hj
      refine ⟨⟨hs.unmarked, hs.rows, hs.nodup, ?_, hs.finished, hs.done⟩, ?_⟩
      · intro id m₀ hm₀
        have hne : id ≠ r.executionId := by
          rintro rfl
          rw [hnone] at hm₀
          cases hm₀
        exact (hput id hne).trans (hs.manifests id m₀ hm₀)
      · intro r' hr'
        have hne : r'.executionId ≠ r.executionId := by
          intro heq
          exact (List.nodup_cons.mp hs.nodup).1 (heq ▸ List.mem_map_of_mem hr')
        exact (hput r'.executionId hne).trans (hfresh r' hr')
  · intro a s hs
    cases a with
    | ok x => exact hs
    | error e => exact hs.1.manifests

theorem safe_recoverAlone (hs : Recovering s₀ (r :: rs) s) (hfresh : Fresh s₀ (r :: rs) s) :
    Safe (.solo (answered cfg outside)) (recover cfg r)
      (fun _ s => Recovering s₀ rs s ∧ Fresh s₀ rs s) (fun _ => KeepsManifests s₀) s := by
  have hrest : Fresh s₀ rs s := fun r' hr' => hfresh r' (List.mem_cons_of_mem _ hr')
  have hsame := hfresh r List.mem_cons_self
  have hstop : ∀ s, Recovering s₀ rs s ∧ Fresh s₀ rs s →
      Safe (.solo (answered cfg outside)) (ask (.stopOrphanProcesses r.executionId))
        (fun _ s => Recovering s₀ rs s ∧ Fresh s₀ rs s) (fun _ => KeepsManifests s₀) s := by
    intro s hs
    apply safe_answered
    intro a s' ha
    obtain ⟨-, rfl⟩ := Prod.mk.inj (Option.some.inj ha)
    exact hs
  refine Safe.seq (Q := fun a s' => s' = s ∧ a = s.store.loadManifest r.executionId) ?_ ?_
  · apply safe_answered
    intro a s' ha
    obtain ⟨rfl, rfl⟩ := Prod.mk.inj (Option.some.inj ha)
    exact ⟨rfl, rfl⟩
  · rintro a s' ⟨rfl, ha⟩
    cases hfind : s'.store.manifests.find? r.executionId with
    | some m =>
        have hok : a = .ok m := by
          rw [ha, Store.loadManifest, hfind]
        subst hok
        refine Safe.seq (safe_recoverRow hs hrest ?_) fun _ s hs => hstop s hs
        intro m₀ hm₀
        rw [hfind, hm₀] at hsame
        obtain rfl := Option.some.inj hsame
        exact ⟨rfl, rfl⟩
    | none =>
        have herr : a = .error (.keyError ("no manifest for execution " ++ r.executionId)) := by
          rw [ha, Store.loadManifest, hfind]
        subst herr
        have hnone : s₀.store.manifests.find? r.executionId = none := hsame.symm.trans hfind
        refine Safe.seq (Q := fun _ s => Recovering s₀ rs s ∧ Fresh s₀ rs s) ?_
          fun _ s hs => hstop s hs
        refine Safe.seq (Q := fun _ s => s = s') ?_ fun t s ht => ?_
        · apply safe_answered
          intro a s ha
          obtain ⟨-, rfl⟩ := Prod.mk.inj (Option.some.inj ha)
          rfl
        · subst ht
          refine Safe.seq (safe_saveLost rfl hs hrest hnone) fun _ s hs => ?_
          apply safe_recoverRow hs.1 hs.2
          intro m₀ hm₀
          rw [hnone] at hm₀
          cases hm₀

theorem safe_recoverAllAlone : ∀ {rs : List TaskExecutionRecord} {s : State},
    Recovering s₀ rs s ∧ Fresh s₀ rs s →
    Safe (.solo (answered cfg outside)) (rs.forM (recover cfg)) (fun _ => Recovering s₀ [])
      (fun _ => KeepsManifests s₀) s
  | [], _, hs => hs.1
  | _ :: _, _, hs => Safe.seq (safe_recoverAlone hs.1 hs.2) fun _ _ hs => safe_recoverAllAlone hs

theorem mem_listNonTerminal_iff {s : Store} {r : TaskExecutionRecord} :
    r ∈ s.listNonTerminal ↔ r ∈ s.executions.rows ∧ r.phase.over = false := by
  rw [Store.listNonTerminal, List.mem_insertionSort, List.mem_filter]
  simp

/-- What `startup()` does when it returns, and what it keeps in any case. -/
theorem restart_spec {x : Except Exn Unit} {s' : State}
    (hun : ∀ id r, s.store.executions.find? id = some r → ¬ Marked id)
    (h : restart cfg outside s = some (x, s')) :
    KeepsManifests s s' ∧ (x = .ok () → Recovering s [] s') := by
  have hsafe : Safe (.solo (answered cfg outside)) (startup cfg) (fun _ => Recovering s [])
      (fun _ => KeepsManifests s) s.crashed := by
    refine Safe.seq (Q := fun records s₁ => s₁.store = s.store ∧
      records = s.store.listNonTerminal) ?_ fun records s₁ hs₁ => ?_
    · apply safe_answered
      intro a s₁ ha
      obtain ⟨rfl, rfl⟩ := Prod.mk.inj (Option.some.inj ha)
      exact ⟨rfl, rfl⟩
    · obtain ⟨hstore, rfl⟩ := hs₁
      have hstart : Recovering s s.store.listNonTerminal s₁ ∧
          Fresh s s.store.listNonTerminal s₁ := by
        refine ⟨⟨?_, ?_, nodup_listNonTerminal s.store, ?_, ?_, ?_⟩, ?_⟩
        · rw [hstore]
          exact hun
        · intro r hr
          rw [hstore]
          exact mem_listNonTerminal hr
        · intro id m hm
          rw [hstore]
          exact hm
        · intro id r hr _
          rw [hstore]
          exact hr
        · intro id r m hr hopen _
          exact .inl (mem_listNonTerminal_iff.mpr ⟨Table.mem_of_find? hr, hopen⟩)
        · intro r _
          rw [hstore]
      refine Safe.seq (safe_recoverAllAlone hstart) fun _ s₂ hs₂ => ?_
      apply safe_answered
      intro a s₃ ha
      obtain ⟨-, rfl⟩ := Prod.mk.inj (Option.some.inj ha)
      exact ⟨hs₂.unmarked, hs₂.rows, hs₂.nodup, hs₂.manifests, hs₂.finished, hs₂.done⟩
  have hpost := Prog.Safe.alone hsafe h
  cases x with
  | ok u => exact ⟨hpost.manifests, fun _ => hpost⟩
  | error e => exact ⟨hpost, fun hx => by cases hx⟩

end Alone

/-! ### What both ways store -/

/-- The two stores have the same phase, detail and manifest for the execution. -/
def SameOutcome (id : String) (s s' : State) : Prop :=
  ∃ r r', s.store.executions.find? id = some r ∧ s'.store.executions.find? id = some r' ∧
    (r.phase, r.outcomeDetail) = (r'.phase, r'.outcomeDetail) ∧
    s'.store.manifests.find? id = s.store.manifests.find? id

/-- Recovery can tell the end of the pipeline from the manifest: a result without a detail
whose success redaction does not hide, or a failure whose text redaction leaves alone. -/
def Reproducible (cfg : Settings) (x : Handed) : Prop :=
  match x.manifest.outcomeDetail with
  | none => resultDetail x.manifest.agentOutcome x.manifest.checkOutcome = none ∧
      (x.manifest.agentOutcome = .succeeded →
        Untouched (cfg.secrets x.githubToken) "agent_outcome")
  | some detail => detail = "" ∨ (Untouched (cfg.secrets x.githubToken) "outcome_detail" ∧
      maskAll (cfg.secrets x.githubToken) detail = detail)

theorem maskAll_empty (secrets : List String) : maskAll secrets "" = "" := by
  induction secrets with
  | nil => rfl
  | cons secret secrets ih =>
      rw [maskAll, List.foldl_cons]
      exact ih

theorem succeeded_of_completed {a : AgentOutcome} {c : GgAgent.Backend.CheckOutcome}
    (hd : resultDetail a c = none) (hp : terminalPhase a = .completed) : a = .succeeded := by
  revert hd hp
  cases a <;> cases c <;> decide

/-- A result: what recovery reads is what the pipeline stores. -/
theorem recovered_result_iff {secrets : List String} {m m' : TaskResultManifest}
    (hred : Redacted secrets m m') (hnone : m.outcomeDetail = none) :
    (terminalPhase m.agentOutcome, resultDetail m.agentOutcome m.checkOutcome) =
        (terminalPhase m'.agentOutcome, orElse m'.outcomeDetail none) ↔
      resultDetail m.agentOutcome m.checkOutcome = none ∧
        (m.agentOutcome = .succeeded → Untouched secrets "agent_outcome") := by
  have hdetail : m'.outcomeDetail = none := by
    rw [hred.outcomeDetail, hnone]
    split <;> rfl
  rw [hdetail, show orElse none none = none from rfl, Prod.mk.injEq, and_comm]
  refine and_congr_right fun hd => ?_
  rw [hred.agentOutcome]
  by_cases hun : Untouched secrets "agent_outcome"
  · rw [if_pos hun]
    exact ⟨fun _ _ => hun, fun _ => rfl⟩
  · rw [if_neg hun]
    constructor
    · intro hphase hsucc
      rw [hsucc] at hphase
      exact absurd hphase (by decide)
    · intro hsucc
      -- Not succeeded and without a detail, so it is a failure like the default.
      have hne : terminalPhase m.agentOutcome ≠ .completed :=
        fun hp => hun (hsucc (succeeded_of_completed hd hp))
      revert hne
      cases m.agentOutcome <;> decide

/-- A failure: only the detail can differ. -/
theorem recovered_failure_iff {secrets : List String} {m m' : TaskResultManifest}
    {detail : String} (hred : Redacted secrets m m') (hsome : m.outcomeDetail = some detail)
    (hfailed : terminalPhase m.agentOutcome = .failed) :
    (TaskExecutionPhase.failed, orElse (some detail) none) =
        (terminalPhase m'.agentOutcome, orElse m'.outcomeDetail none) ↔
      detail = "" ∨ (Untouched secrets "outcome_detail" ∧ maskAll secrets detail = detail) := by
  have hphase : terminalPhase m'.agentOutcome = .failed := by
    rw [hred.agentOutcome]
    split
    · exact hfailed
    · rfl
  rw [hphase, Prod.mk.injEq, hred.outcomeDetail, hsome]
  simp only [true_and, Option.map_some]
  by_cases hempty : detail = ""
  · subst hempty
    rw [maskAll_empty]
    split <;> simp [orElse]
  · by_cases hun : Untouched secrets "outcome_detail"
    · simp only [hun, if_true, orElse, hempty, if_false, true_and, false_or]
      by_cases hm : maskAll secrets detail = ""
      · simp only [hm, if_true]
        constructor
        · intro h
          cases h
        · intro h
          exact absurd h.symm hempty
      · simp only [hm, if_false, Option.some.injEq]
        exact eq_comm
    · simp [hun, orElse, hempty]

theorem recovered_iff {cfg : Settings} {x : Handed} {m' : TaskResultManifest}
    (hred : redactManifest cfg x.githubToken x.manifest = some m')
    (hfailed : x.manifest.outcomeDetail.isSome = true →
      terminalPhase x.manifest.agentOutcome = .failed) :
    conclusion x.manifest = (terminalPhase m'.agentOutcome, orElse m'.outcomeDetail none) ↔
      Reproducible cfg x := by
  have hr := redacted_of_redactManifest hred
  unfold conclusion Reproducible
  cases hd : x.manifest.outcomeDetail with
  | none => exact recovered_result_iff hr hd
  | some detail => exact recovered_failure_iff hr hd (hfailed (by rw [hd]; rfl))

/-! ### Crashes -/

section Crashes

variable {cfg : Settings}

/-- What was handed in is not taken back. -/
theorem handed_answer {p : Pid} {o : Oracle} {c : Call} {s s' : State} {a : Call.Out c}
    (h : State.answer cfg p o c s = some (a, s')) {x : Handed} (hx : x ∈ s.handed) :
    x ∈ s'.handed := by
  by_cases hw : c.writes = false
  · rw [(quiet_answer hw h).handed]
    exact hx
  · cases c with
    | saveManifest m token =>
        obtain ⟨-, rfl⟩ := Prod.mk.inj (Option.some.inj h)
        show x ∈ (s.saveManifest cfg p m token).2.handed
        unfold State.saveManifest
        split
        · exact hx
        · split
          · exact hx
          · cases p with
            | startup => exact hx
            | pipeline id => exact List.mem_cons_of_mem _ hx
    | updatePhase _ _ _ _ | saveExecution _ | markReady =>
        obtain ⟨-, rfl⟩ := Prod.mk.inj (Option.some.inj h)
        exact hx
    | _ => exact absurd rfl hw

theorem handed_job {p : Pid} {j : Job} {s s' : State} {prog}
    (h : Job.program cfg p j s = some (prog, s')) : s'.handed = s.handed := by
  unfold Job.program at h
  split at h
  · split at h
    · obtain ⟨-, rfl⟩ := Prod.mk.inj (Option.some.inj h)
      rfl
    · cases h
  · split at h
    · split at h
      · split at h
        · obtain ⟨-, rfl⟩ := Prod.mk.inj (Option.some.inj h)
          rfl
        · cases h
      · cases h
    · cases h
  · cases h

theorem handed_step {w w' : System} {a : Act cfg} (hs : (supervisor cfg).step w a = some w')
    {x : Handed} (hx : x ∈ w.shared.handed) : x ∈ w'.shared.handed := by
  cases a with
  | call p o =>
      simp only [Machine.step] at hs
      split at hs
      next c k h hth =>
        obtain ⟨⟨r, s'⟩, ha, rfl⟩ := Option.map_eq_some_iff.mp hs
        have hanswer : State.answer cfg p o c w.shared = some (r, s') := ha
        exact handed_answer hanswer hx
      next => cases hs
  | start p j =>
      simp only [Machine.step] at hs
      split at hs
      next =>
        obtain ⟨⟨prog, s'⟩, hj, rfl⟩ := Option.map_eq_some_iff.mp hs
        have hjob : Job.program cfg p j w.shared = some (prog, s') := hj
        rw [show s'.handed = w.shared.handed from handed_job hjob]
        exact hx
      next => cases hs
  | event e =>
      obtain ⟨s', he, rfl⟩ := Option.map_eq_some_iff.mp hs
      cases e with
      | talk e =>
          show x ∈ s'.handed
          rw [(quiet_talkEvent he).handed]
          exact hx
      | crash =>
          obtain rfl := Option.some.inj he
          exact hx

theorem handed_run {w w' : System} {as : List (Act cfg)}
    (hr : (supervisor cfg).run w as = some w') {x : Handed} (hx : x ∈ w.shared.handed) :
    x ∈ w'.shared.handed := by
  induction as generalizing w with
  | nil =>
      obtain rfl := Option.some.inj hr
      exact hx
  | cons a as ih =>
      obtain ⟨w₁, hs, hrest⟩ := Option.bind_eq_some_iff.mp hr
      exact ih hrest (handed_step hs hx)

/-- What is over stays as it is. -/
theorem kept_of_over {s s' : State}
    (he : Machine.Effect (M := supervisor cfg) {} (Inv cfg) guar s s') {id : String}
    (hover : Over id s) : Kept id s s' := by
  cases he with
  | thread p h =>
      cases p with
      | startup => exact h.2 id hover
      | pipeline j =>
          by_cases hid : id = j
          · subst hid
            exact h.2.2.1 hover
          · exact h.2.1 id hid
  | event e _ _ h =>
      cases e with
      | talk e => exact (quiet_talkEvent h).kept id
      | crash =>
          obtain rfl := Option.some.inj h
          exact ⟨rfl, rfl, fun _ _ => Iff.rfl⟩

theorem Kept.over {id : String} {s s' : State} (h : Kept id s s') (hover : Over id s) :
    Over id s' := by
  obtain ⟨r, hr, hphase⟩ := hover
  exact ⟨r, h.row.trans hr, hphase⟩

theorem kept_run {w w' : System} {as : List (Act cfg)} (hw : Known cfg w)
    (hr : (supervisor cfg).run w as = some w') {id : String} (hover : Over id w.shared) :
    Kept id w.shared w'.shared := by
  refine (sound_supervisor cfg).run_rel rely_refl (G := fun s s' => Over id s → Kept id s s')
    (fun s _ => Kept.refl id s) ?_ (fun s s' he hs => kept_of_over he hs) hw
    (Machine.keeps_trivial _ _) hr hover
  intro a b c hab hbc ha
  exact (hab ha).trans (hbc ((hab ha).over ha))

theorem Kept.symm {id : String} {s s' : State} (h : Kept id s s') : Kept id s' s :=
  ⟨h.row.symm, h.manifest.symm, fun x hx => (h.handed x hx).symm⟩

/-- Recovery leaves an execution alone that is over. -/
theorem sameOutcome_of_over {w : System} {id : String} {outside : State → Oracle} {s s' : State}
    {m : TaskResultManifest} (hw : Known cfg w)
    (hs : restart cfg outside w.shared = some (.ok (), s)) (hover : Over id w.shared)
    (hm : w.shared.store.manifests.find? id = some m) (hkept : Kept id s' w.shared) :
    SameOutcome id s' s := by
  have hrec := (restart_spec hw.1.unmarked hs).2 rfl
  obtain ⟨r, hrow, hphase⟩ := hover
  refine ⟨r, r, hkept.row.symm.trans hrow, hrec.finished id r hrow hphase, rfl, ?_⟩
  calc s.store.manifests.find? id = some m := hrec.manifests id m hm
    _ = w.shared.store.manifests.find? id := hm.symm
    _ = s'.store.manifests.find? id := hkept.manifest

/-- A crash after a pipeline has committed its manifest. Before its terminal phase is saved,
recovery stores what the uninterrupted pipeline stores exactly if that can be told from the
manifest; afterwards it always does. No recovery overwrites a manifest. -/
theorem crash_recovery_iff {as bs : List (Act cfg)} {w w₁ w₂ : System} {x : Handed} {o : Oracle}
    {e : Except Exn Unit} {h : History}
    (hr : (supervisor cfg).run System.init as = some w) (hx : x ∈ w.shared.handed)
    (hrun : (supervisor cfg).run w bs = some w₁)
    (hstep : (supervisor cfg).step w₁ (.call (.pipeline x.executionId) o) = some w₂)
    (hend : w₂.threads (.pipeline x.executionId) = some ⟨.ret e, h⟩) :
    (¬ Over x.executionId w.shared → ∀ outside s,
      restart cfg outside w.shared = some (.ok (), s) →
      (SameOutcome x.executionId w₂.shared s ↔ Reproducible cfg x)) ∧
    (Over x.executionId w.shared → ∀ outside s,
      restart cfg outside w.shared = some (.ok (), s) → SameOutcome x.executionId w₂.shared s) ∧
    (∀ cs w₃ outside s, (supervisor cfg).run w₂ cs = some w₃ →
      restart cfg outside w₃.shared = some (.ok (), s) → SameOutcome x.executionId w₂.shared s) ∧
    (∀ outside y s, restart cfg outside w.shared = some (y, s) → KeepsManifests w.shared s) := by
  have hw := ok_run hr
  have hr₁ : (supervisor cfg).run System.init (as ++ bs) = some w₁ := by
    rw [Machine.run_append, hr]
    exact hrun
  have hw₁ := ok_run hr₁
  have hw₂ : Known cfg w₂ := known_step hw₁ hstep
  have hx₂ : x ∈ w₂.shared.handed := handed_step hstep (handed_run hrun hx)
  obtain ⟨r₂, hrow₂, hconc⟩ :=
    (hw₁.returned rely_refl (Machine.meets_trivial _ _) hstep hend).2 x hx₂ rfl
  obtain ⟨m', hred, hm'⟩ := hw.1.handed x hx
  have hm₂ : w₂.shared.store.manifests.find? x.executionId = some m' := by
    obtain ⟨m₂, hred₂, hm₂⟩ := hw₂.1.handed x hx₂
    rw [hred] at hred₂
    obtain rfl := Option.some.inj hred₂
    exact hm₂
  refine ⟨?_, ?_, ?_, fun outside y s hs => (restart_spec hw.1.unmarked hs).1⟩
  · intro hopen outside s hs
    have hrec := (restart_spec hw.1.unmarked hs).2 rfl
    obtain ⟨r, hrow⟩ := Option.ne_none_iff_exists'.mp (hw.1.known x hx)
    have hphase : r.phase.over = false := by
      cases hover : r.phase.over with
      | true => exact absurd ⟨r, hrow, hover⟩ hopen
      | false => rfl
    have hdetail := hw.1.pending _ r hrow hphase
    obtain ⟨r', hrow', hrecovered⟩ :=
      (hrec.done _ r m' hrow hphase hm').resolve_left List.not_mem_nil
    have hpair : (r'.phase, r'.outcomeDetail) =
        (terminalPhase m'.agentOutcome, orElse m'.outcomeDetail none) := by
      rw [hrecovered.1, hrecovered.2, hdetail]
    rw [← recovered_iff hred (hw.1.failed x hx), ← hconc, ← hpair]
    constructor
    · rintro ⟨a, b, ha, hb, hsame, -⟩
      rw [hrow₂] at ha
      rw [hrow'] at hb
      obtain rfl := Option.some.inj ha
      obtain rfl := Option.some.inj hb
      exact hsame
    · intro hsame
      exact ⟨r₂, r', hrow₂, hrow', hsame, (hrec.manifests _ m' hm').trans hm₂.symm⟩
  · intro hover outside s hs
    -- Nothing is left to do for this execution, neither for the pipeline nor for recovery.
    have hkept : Kept x.executionId w.shared w₂.shared := by
      have hall : (supervisor cfg).run w (bs ++ [.call (.pipeline x.executionId) o]) = some w₂ := by
        rw [Machine.run_append, hrun]
        exact (Machine.run_singleton _ _ _).trans hstep
      exact kept_run hw hall hover
    exact sameOutcome_of_over hw hs hover hm' hkept.symm
  · intro cs w₃ outside s hcs hs
    have hover₂ : Over x.executionId w₂.shared := by
      refine ⟨r₂, hrow₂, ?_⟩
      have hphase : r₂.phase = (conclusion x.manifest).1 := by rw [← hconc]
      rw [hphase]
      unfold conclusion
      split
      · rfl
      · exact over_terminalPhase _
    have hkept := kept_run hw₂ hcs hover₂
    have hw₃ := (sound_supervisor cfg).run rely_refl hw₂ (Machine.keeps_trivial _ _) hcs
    exact sameOutcome_of_over hw₃ hs (hkept.over hover₂) (hkept.manifest.trans hm₂) hkept

end Crashes

/-! ### Two crashes -/

instance (cfg : Settings) (x : Handed) : Decidable (Reproducible cfg x) :=
  match hd : x.manifest.outcomeDetail with
  | none => decidable_of_iff
      (resultDetail x.manifest.agentOutcome x.manifest.checkOutcome = none ∧
        (x.manifest.agentOutcome = .succeeded →
          Untouched (cfg.secrets x.githubToken) "agent_outcome")) (by rw [Reproducible, hd])
  | some detail => decidable_of_iff
      (detail = "" ∨ (Untouched (cfg.secrets x.githubToken) "outcome_detail" ∧
        maskAll (cfg.secrets x.githubToken) detail = detail)) (by rw [Reproducible, hd])

/-- The agent leaves the repository as it was; all but the last call. -/
def unchanged : List (Act tokened) :=
  started change ++ calls only 13 usual ++
    [.event (.talk (.enter 0)), .event (.talk (.leave 0 .settled))] ++ calls only 5 usual

/-- What the sandbox has of the only execution, after a crash here. -/
def afterCrash (cfg : Settings) (w : System) : Option (TaskExecutionPhase × Option String) :=
  match restart cfg (fun _ => usual) w.shared with
  | some (.ok (), s) =>
      (s.store.executions.find? "73").map fun r => (r.phase, r.outcomeDetail)
  | _ => none

theorem of_afterCrash {cfg : Settings} {w : System} {x : TaskExecutionPhase × Option String}
    (h : afterCrash cfg w = some x) : ∃ s r, restart cfg (fun _ => usual) w.shared =
      some (.ok (), s) ∧ s.store.executions.find? "73" = some r ∧
      (r.phase, r.outcomeDetail) = x := by
  unfold afterCrash at h
  split at h
  next s hs =>
    obtain ⟨r, hr, hx⟩ := Option.map_eq_some_iff.mp h
    exact ⟨s, r, hs, hr, hx⟩
  next => cases h

/-- A pipeline that has handed in a manifest and ends with the next call. -/
theorem last_handed {cfg : Settings} {as : List (Act cfg)} {good : Handed → Bool}
    (hend : ((supervisor cfg).run System.init (as ++ [.call only usual])).map (endedIn only) =
      some true)
    (hhanded : ((supervisor cfg).run System.init as).map
      (fun w => w.shared.handed.any fun x => x.executionId = "73" && good x) = some true) :
    ∃ w w' x e h, (supervisor cfg).run System.init as = some w ∧ x ∈ w.shared.handed ∧
      x.executionId = "73" ∧ good x = true ∧
      (supervisor cfg).step w (.call only usual) = some w' ∧
      w'.threads only = some ⟨.ret e, h⟩ ∧
      (supervisor cfg).run System.init (as ++ [.call only usual]) = some w' := by
  obtain ⟨w, w', e, h, hw, hs, hth, hw'⟩ := last_act hend
  rw [hw] at hhanded
  obtain ⟨x, hx, hgood⟩ := List.any_eq_true.mp (Option.some.inj hhanded)
  rw [Bool.and_eq_true] at hgood
  exact ⟨w, w', x, e, h, hw, hx, of_decide_eq_true hgood.1, hgood.2, hs, hth, hw'⟩

/-- The agent succeeds, and the process is killed before the phase is saved. -/
theorem crash_recovery_iff_finished :
    ∃ w w' s x, (supervisor plain).run System.init finished = some w ∧ x ∈ w.shared.handed ∧
      ¬ Over "73" w.shared ∧ (supervisor plain).step w (.call only usual) = some w' ∧
      endedIn only w' = true ∧ restart plain (fun _ => usual) w.shared = some (.ok (), s) ∧
      Reproducible plain x ∧ SameOutcome "73" w'.shared s := by
  have hend : ((supervisor plain).run System.init (finished ++ [.call only usual])).map
      (endedIn only) = some true := by decide +kernel
  have hhanded : ((supervisor plain).run System.init finished).map
      (fun w => w.shared.handed.any fun x => x.executionId = "73" && Reproducible plain x) =
      some true := by decide +kernel
  have hopen : ((supervisor plain).run System.init finished).map
      (fun w => decide (Over "73" w.shared)) = some false := by decide +kernel
  have hcrash : ((supervisor plain).run System.init finished).map (afterCrash plain) =
      some (some (.completed, none)) := by decide +kernel
  obtain ⟨w, w', ⟨id, m, token⟩, e, h, hw, hx, rfl, hgood, hs, hth, -⟩ := last_handed hend hhanded
  rw [hw] at hcrash hopen
  obtain ⟨s, -, hrestart, -, -⟩ := of_afterCrash (Option.some.inj hcrash)
  have hopen' : ¬ Over "73" w.shared := of_decide_eq_false (Option.some.inj hopen)
  refine ⟨w, w', s, _, hw, hx, hopen', hs, by rw [endedIn, hth], hrestart,
    of_decide_eq_true hgood, ?_⟩
  have hnone : (supervisor plain).run w [] = some w := rfl
  exact ((crash_recovery_iff hw hx hnone hs hth).1 hopen' _ s hrestart).mpr
    (of_decide_eq_true hgood)

/-- The agent changes nothing: recovery loses the detail that says so. -/
theorem crash_loses_detail :
    ¬ ∀ (as bs : List (Act tokened)) (w w₁ w₂ : System) (x : Handed) (o : Oracle)
      (e : Except Exn Unit) (h : History) (outside : State → Oracle) (s : State),
      (supervisor tokened).run System.init as = some w → x ∈ w.shared.handed →
      (supervisor tokened).run w bs = some w₁ →
      (supervisor tokened).step w₁ (.call (.pipeline x.executionId) o) = some w₂ →
      w₂.threads (.pipeline x.executionId) = some ⟨.ret e, h⟩ →
      restart tokened outside w.shared = some (.ok (), s) →
      SameOutcome x.executionId w₂.shared s := by
  intro hclaim
  have hend : ((supervisor tokened).run System.init (unchanged ++ [.call only usual])).map
      (endedIn only) = some true := by decide +kernel
  have hhanded : ((supervisor tokened).run System.init unchanged).map
      (fun w => w.shared.handed.any fun x => x.executionId = "73" && true) = some true := by
    decide +kernel
  have hcrash : ((supervisor tokened).run System.init unchanged).map (afterCrash tokened) =
      some (some (.completed, none)) := by decide +kernel
  have hrow : ((supervisor tokened).run System.init (unchanged ++ [.call only usual])).map
      (fun w => (w.shared.store.executions.find? "73").map fun r => (r.phase, r.outcomeDetail)) =
      some (some (.completed, some "no_changes")) := by decide +kernel
  obtain ⟨w, w', ⟨id, m, token⟩, e, h, hw, hx, rfl, -, hs, hth, hw'⟩ := last_handed hend hhanded
  rw [hw] at hcrash
  rw [hw'] at hrow
  obtain ⟨s, r', hrestart, hr', hlost⟩ := of_afterCrash (Option.some.inj hcrash)
  obtain ⟨r, hr, hkept⟩ := Option.map_eq_some_iff.mp (Option.some.inj hrow)
  obtain ⟨a, b, ha, hb, hsame, -⟩ :=
    hclaim unchanged [] w w w' _ usual e h (fun _ => usual) s hw hx rfl hs hth hrestart
  obtain rfl := Option.some.inj (ha.symm.trans hr)
  obtain rfl := Option.some.inj (hb.symm.trans hr')
  rw [hkept, hlost] at hsame
  cases hsame

end GgAgent.Sandbox
