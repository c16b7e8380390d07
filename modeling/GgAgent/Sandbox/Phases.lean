import GgAgent.Sandbox.Settling

/-!
Whether the stored phase of an execution ever moves backwards.

Every `_update_phase`, of a pipeline or of recovery, goes forward, and nobody writes to an
execution that is over. The one save that does not go through `_update_phase` stores the
record as it was admitted, with the conversation added: it takes `running_agent` back to
`accepted`, in every pipeline that gets there.
-/

namespace GgAgent.Sandbox

open GgAgent.Lib
open GgAgent.Backend (TaskExecutionPhase)

/-- The second phase is not behind the first, and it is the first if that is terminal. -/
def Ahead (a b : TaskExecutionPhase) : Prop :=
  TaskExecutionPhase.rank a ≤ TaskExecutionPhase.rank b ∧ (a.over = true → b = a)

theorem ahead_refl (a : TaskExecutionPhase) : Ahead a a := ⟨Nat.le_refl _, fun _ => rfl⟩

theorem Ahead.trans {a b c : TaskExecutionPhase} (hab : Ahead a b) (hbc : Ahead b c) :
    Ahead a c := by
  refine ⟨Nat.le_trans hab.1 hbc.1, ?_⟩
  intro ha
  obtain rfl := hab.2 ha
  exact hbc.2 ha

theorem ahead_of_follows {a b : TaskExecutionPhase} (h : follows a b = true) : Ahead a b := by
  simp only [follows, Bool.and_eq_true, Bool.not_eq_true', decide_eq_true_eq] at h
  refine ⟨h.2, ?_⟩
  intro ha
  rw [h.1] at ha
  cases ha

/-- No execution of the first store is behind its phase there in the second. -/
def Forward (s s' : State) : Prop :=
  ∀ id r, s.store.executions.find? id = some r →
    ∃ r', s'.store.executions.find? id = some r' ∧ Ahead r.phase r'.phase

theorem forward_of_same {s s' : State}
    (h : s'.store.executions = s.store.executions) : Forward s s' := by
  intro id r hr
  rw [← h] at hr
  exact ⟨r, hr, ahead_refl _⟩

theorem Forward.trans {a b c : State} (hab : Forward a b) (hbc : Forward b c) : Forward a c := by
  intro id r hr
  obtain ⟨r₁, hr₁, h₁⟩ := hab id r hr
  obtain ⟨r₂, hr₂, h₂⟩ := hbc id r₁ hr₁
  exact ⟨r₂, hr₂, h₁.trans h₂⟩

/-- The save that binds the conversation is not made. -/
def unboundCall : Call → Bool
  | .saveExecution _ => false
  | _ => true

def unbound (cfg : Settings) : (supervisor cfg).Cond where
  call := fun _ _ c _ _ => unboundCall c

/-! ### One act -/

/-- A save that succeeds has written the record. -/
theorem executions_saveExecution {s : Store} {r : TaskExecutionRecord}
    (h : succeeded (s.saveExecution r).1 = true) :
    (s.saveExecution r).2.executions = s.executions.put r := by
  unfold Store.saveExecution at h ⊢
  split at h
  · cases h
  next existing hex =>
    split at h
    · cases h
    next hsame =>
      rw [if_neg hsame]

theorem executions_saveManifest (cfg : Settings) (p : Pid) (m : TaskResultManifest)
    (token : Option String) (s : State) :
    (s.saveManifest cfg p m token).2.store.executions = s.store.executions := by
  unfold State.saveManifest
  split
  · rfl
  next m' _ =>
    by_cases hnone : (s.store.executions.find? m'.executionId).isNone = true
    · simp only [Store.saveManifest, hnone, if_true]
    · simp only [Store.saveManifest, hnone, Bool.false_eq_true, if_false]

theorem forward_updatePhase {cfg : Settings} {p : Pid} {o : Oracle} {record : TaskExecutionRecord}
    {next : TaskExecutionPhase} {path detail : Option String} {s s' : State}
    {a : Call.Out (.updatePhase record next path detail)}
    (hD : advancingCall (.updatePhase record next path detail) s a = true)
    (h : State.answer cfg p o (.updatePhase record next path detail) s = some (a, s')) :
    Forward s s' := by
  obtain ⟨-, rfl⟩ := Prod.mk.inj (Option.some.inj h)
  simp only [Store.saveExecution]
  split
  next => exact forward_of_same rfl
  next existing hex =>
    split
    · exact forward_of_same rfl
    · intro id r hr
      show ∃ r', (s.store.executions.put _).find? id = some r' ∧ _
      rw [Table.find?_put]
      split
      next hid =>
        have hfound : s.store.executions.find? record.executionId = some r := by
          rw [← show id = record.executionId from hid]
          exact hr
        simp only [advancingCall, hfound, Option.all_some] at hD
        exact ⟨_, rfl, ahead_of_follows hD⟩
      next => exact ⟨r, hr, ahead_refl _⟩

/-- The binding save moves the phase back. -/
theorem not_forward_saveExecution {cfg : Settings} {p : Pid} {o : Oracle}
    {record : TaskExecutionRecord} {s s' : State} {a : Call.Out (.saveExecution record)}
    (hD : advancingCall (.saveExecution record) s a = true)
    (h : State.answer cfg p o (.saveExecution record) s = some (a, s')) : ¬ Forward s s' := by
  intro hforward
  simp only [advancingCall, Bool.and_eq_true, Option.any_eq_true, decide_eq_true_eq] at hD
  obtain ⟨⟨r, hr, hrunning⟩, haccepted, hok⟩ := hD
  obtain ⟨r', hr', hahead⟩ := hforward record.executionId r hr
  obtain ⟨ha, rfl⟩ := Prod.mk.inj (Option.some.inj h)
  have hput : r' = record := by
    have hwritten : (s.store.saveExecution record).2.executions = s.store.executions.put record := by
      apply executions_saveExecution
      rw [ha]
      exact hok
    have hfind : (s.store.saveExecution record).2.executions.find? record.executionId =
        some r' := hr'
    rw [hwritten, Table.find?_put, if_pos (show record.executionId = key record from rfl)] at hfind
    exact (Option.some.inj hfind).symm
  have hrank := hahead.1
  rw [hput, hrunning, haccepted] at hrank
  exact absurd hrank (by decide)

theorem forward_answer {cfg : Settings} {p : Pid} {o : Oracle} {c : Call} {s s' : State}
    {a : Call.Out c} (hc : unboundCall c = true) (hD : advancingCall c s a = true)
    (h : State.answer cfg p o c s = some (a, s')) : Forward s s' := by
  by_cases hw : c.writes = false
  · exact forward_of_same (by rw [(quiet_answer hw h).store])
  · cases c with
    | updatePhase record next path detail => exact forward_updatePhase hD h
    | saveExecution record => cases hc
    | saveManifest m token =>
        obtain ⟨-, rfl⟩ := Prod.mk.inj (Option.some.inj h)
        exact forward_of_same (executions_saveManifest cfg p m token s)
    | markReady =>
        obtain ⟨-, rfl⟩ := Prod.mk.inj (Option.some.inj h)
        exact forward_of_same rfl
    | _ => exact absurd rfl hw

/-- A job that starts leaves the rows that are there. -/
theorem job_keeps_rows {cfg : Settings} {p : Pid} {j : Job} {s s' : State} {prog}
    (h : Job.program cfg p j s = some (prog, s')) {id : String} {r : TaskExecutionRecord}
    (hr : s.store.executions.find? id = some r) : s'.store.executions.find? id = some r := by
  unfold Job.program at h
  split at h
  · split at h
    · obtain ⟨-, rfl⟩ := Prod.mk.inj (Option.some.inj h)
      exact hr
    · cases h
  · split at h
    · split at h
      next record store hadmit =>
        split at h
        · obtain ⟨-, rfl⟩ := Prod.mk.inj (Option.some.inj h)
          obtain ⟨-, hfree, rfl⟩ := admitOrGet_created hadmit
          show (s.store.executions.insert record).find? id = some r
          rw [Table.find?_insert hfree, if_neg]
          · exact hr
          · rintro rfl
            rw [show s.store.executions.find? (key record) = none from hfree] at hr
            cases hr
        · cases h
      · cases h
    · cases h
  · cases h

/-- One act: it goes forward if it is not the binding save. -/
theorem forward_step {cfg : Settings} {w w' : System} {a : Act cfg}
    (hok : Machine.Ok (M := supervisor cfg) {} (Inv cfg) rely guar (ended cfg) w (advancing cfg))
    (hK : Machine.meets (unbound cfg) w a = true)
    (hs : (supervisor cfg).step w a = some w') : Forward w.shared w'.shared := by
  cases a with
  | call p o =>
      simp only [Machine.step] at hs
      split at hs
      next c k h hth =>
        obtain ⟨⟨r, s'⟩, ha, rfl⟩ := Option.map_eq_some_iff.mp hs
        simp only [Machine.meets, hth, ha] at hK
        exact forward_answer hK (hok.call rely_refl hth ha rfl).2.1.2 ha
      next => cases hs
  | start p j =>
      simp only [Machine.step] at hs
      split at hs
      next =>
        obtain ⟨⟨prog, s'⟩, hj, rfl⟩ := Option.map_eq_some_iff.mp hs
        exact fun id r hr => ⟨r, job_keeps_rows hj hr, ahead_refl _⟩
      next => cases hs
  | event e =>
      obtain ⟨s', he, rfl⟩ := Option.map_eq_some_iff.mp hs
      cases e with
      | talk e => exact forward_of_same (by rw [(quiet_talkEvent he).store])
      | crash =>
          obtain rfl := Option.some.inj he
          exact forward_of_same rfl

/-! ### Whole runs -/

section Runs

variable {cfg : Settings}

/-- What is known of the states of a run, as the machine goes on from one of them. -/
abbrev Known (cfg : Settings) (w : System) : Prop :=
  Machine.Ok (M := supervisor cfg) {} (Inv cfg) rely guar (ended cfg) w (advancing cfg)

theorem known_step {w w' : System} {a : Act cfg} (hw : Known cfg w)
    (hs : (supervisor cfg).step w a = some w') : Known cfg w' :=
  ((sound_supervisor cfg).step rely_refl hw (Machine.meets_trivial w a) hs).1

theorem forward_run {w w' : System} {as : List (Act cfg)} (hw : Known cfg w)
    (hK : Machine.keeps (unbound cfg) w as = true)
    (hr : (supervisor cfg).run w as = some w') : Forward w.shared w'.shared := by
  induction as generalizing w with
  | nil =>
      obtain rfl := Option.some.inj hr
      exact forward_of_same rfl
  | cons a as ih =>
      obtain ⟨w₁, hs, hrest⟩ := Option.bind_eq_some_iff.mp hr
      simp only [Machine.keeps, hs, Bool.and_eq_true] at hK
      exact (forward_step hw hK.1 hs).trans (ih (known_step hw hs) hK.2 hrest)

/-- An act that goes forward is not the binding save. -/
theorem unbound_of_forward {w w' : System} {a : Act cfg} (hw : Known cfg w)
    (hs : (supervisor cfg).step w a = some w') (hf : Forward w.shared w'.shared) :
    Machine.meets (unbound cfg) w a = true := by
  cases a with
  | call p o =>
      simp only [Machine.step] at hs
      split at hs
      next c k h hth =>
        obtain ⟨⟨r, s'⟩, ha, rfl⟩ := Option.map_eq_some_iff.mp hs
        simp only [Machine.meets, hth, ha]
        have hD := (hw.call rely_refl hth ha rfl).2.1.2
        cases c with
        | saveExecution record =>
            have hsave : State.answer cfg p o (.saveExecution record) w.shared = some (r, s') := ha
            exact absurd hf (not_forward_saveExecution hD hsave)
        | _ => rfl
      next => cases hs
  | start p j => rfl
  | event e => rfl

theorem unbound_of_forward_run {w w' : System} {as : List (Act cfg)} (hw : Known cfg w)
    (hr : (supervisor cfg).run w as = some w')
    (hf : ∀ bs cs ds u v, as = bs ++ cs ++ ds → (supervisor cfg).run w bs = some u →
      (supervisor cfg).run u cs = some v → Forward u.shared v.shared) :
    Machine.keeps (unbound cfg) w as = true := by
  induction as generalizing w with
  | nil => rfl
  | cons a as ih =>
      obtain ⟨w₁, hs, hrest⟩ := Option.bind_eq_some_iff.mp hr
      simp only [Machine.keeps, hs, Bool.and_eq_true]
      refine ⟨unbound_of_forward hw hs ?_, ih (known_step hw hs) hrest ?_⟩
      · apply hf [] [a] as w w₁ rfl rfl
        rw [Machine.run_singleton]
        exact hs
      · intro bs cs ds u v has hu hv
        apply hf (a :: bs) cs ds u v _ _ hv
        · rw [has, List.cons_append, List.cons_append]
        · show ((supervisor cfg).step w a).bind _ = some u
          rw [hs]
          exact hu

/-- The phases of a run never move backwards, and terminal ones never change, exactly if
no pipeline in it binds its conversation. -/
theorem phases_forward_iff {as : List (Act cfg)} {w : System}
    (hr : (supervisor cfg).run System.init as = some w) :
    (∀ bs cs ds u v, as = bs ++ cs ++ ds → (supervisor cfg).run System.init bs = some u →
      (supervisor cfg).run u cs = some v → Forward u.shared v.shared) ↔
    Machine.keeps (unbound cfg) System.init as = true := by
  constructor
  · exact unbound_of_forward_run (ok_init cfg) hr
  · rintro hK bs cs ds u v rfl hu hv
    rw [List.append_assoc, Machine.keeps_append hu, Bool.and_eq_true,
      Machine.keeps_append hv, Bool.and_eq_true] at hK
    exact forward_run (ok_run hu) hK.2.1 hv

end Runs

/-! ### Two runs -/

/-- A sandbox with a token for cloning. -/
def tokened : Settings := { plain with githubToken := some "ghs_x" }

/-- A task with a repository. -/
def change : StartTaskExecutionRequest :=
  { errand with repository := some "o/r", baseRef := some "main", taskBranch := some "b" }

/-- The repository cannot be cloned. -/
def unclonable : Oracle :=
  { usual with git := fun c =>
      match c with
      | .isGitDir _ => .ok false
      | .cloneRepository _ _ _ => .error (.gitPrep "clone failed for o/r")
      | c => quietGit c }

/-- A pipeline that fails in its preparation and is finalized. -/
def unprepared : List (Act tokened) := started change ++ calls only 6 unclonable

/-- The phase of the only execution. -/
def phaseIn (w : System) : Option TaskExecutionPhase :=
  (w.shared.store.executions.find? "73").map TaskExecutionRecord.phase

/-- The preparation fails: the phases go forward, to `failed`. -/
theorem phases_forward_iff_unprepared :
    ∃ w, (supervisor tokened).run System.init unprepared = some w ∧ phaseIn w = some .failed ∧
      Machine.keeps (unbound tokened) System.init unprepared = true ∧
      ∀ bs cs ds u v, unprepared = bs ++ cs ++ ds →
        (supervisor tokened).run System.init bs = some u →
        (supervisor tokened).run u cs = some v → Forward u.shared v.shared := by
  have h : ((supervisor tokened).run System.init unprepared).map phaseIn =
      some (some .failed) := by decide +kernel
  have hK : Machine.keeps (unbound tokened) System.init unprepared = true := by decide +kernel
  obtain ⟨w, hw, hphase⟩ := Option.map_eq_some_iff.mp h
  exact ⟨w, hw, hphase, hK, (phases_forward_iff hw).mpr hK⟩

/-- The preparation succeeds: the execution goes back to `accepted`. -/
theorem phase_moves_back :
    ¬ ∀ (as bs : List (Act plain)) (u v : System),
      (supervisor plain).run System.init as = some u → (supervisor plain).run u bs = some v →
      Forward u.shared v.shared := by
  intro hclaim
  have h : ((supervisor plain).run System.init (started errand ++ calls only 4 usual)).map
      phaseIn = some (some .runningAgent) := by decide +kernel
  have h' : ((supervisor plain).run System.init (started errand ++ calls only 4 usual ++
      calls only 1 usual)).map phaseIn = some (some .accepted) := by decide +kernel
  obtain ⟨u, hu, hrunning⟩ := Option.map_eq_some_iff.mp h
  obtain ⟨v, hv, haccepted⟩ := Option.map_eq_some_iff.mp h'
  obtain ⟨r, hr, hphase⟩ := Option.map_eq_some_iff.mp hrunning
  obtain ⟨r', hr', hahead⟩ := hclaim _ _ u v hu (Machine.run_rest _ hu hv) "73" r hr
  obtain ⟨r'', hr'', hphase'⟩ := Option.map_eq_some_iff.mp haccepted
  rw [hr''] at hr'
  obtain rfl := Option.some.inj hr'
  have hrank := hahead.1
  rw [hphase, hphase'] at hrank
  exact absurd hrank (by decide)

end GgAgent.Sandbox
