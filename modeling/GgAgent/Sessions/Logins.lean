import GgAgent.Sessions.Durability

/-!
A login flow is used once, under every schedule and every crash.

The rows of a flow go through its states in one direction. What the tables keep is that a flow
that is no longer pending stays so, that a completed one keeps its revision, and that nobody
changes the secret it is bound to (`Advances`). A flow is claimed before its code is sent to
the identity provider, and the claim is confirmed by then, so that no crash brings the pending
flow back. From the claim on, the coroutine holds the lock of `callback`, and nobody else
touches the flow (`Keep`).
-/

namespace GgAgent.Sessions

open GgAgent.Lib GgAgent.Lib.Co
open GgAgent.Checkpoint (Database Statement Pid execute Recorded)

variable {ω : Type}

/-! ### The rows of a flow -/

/-- The rows with this state: one at most, since it is the primary key. -/
def flowsOf (st : String) (rows : List (Row ω)) : List GoogleFlow :=
  (flows rows).filter fun f => f.state = st

/-- The flow was claimed. -/
def Spent (st : String) (rows : List (Row ω)) : Prop :=
  flowsOf st rows ≠ [] ∧ ∀ f ∈ flowsOf st rows, f.status ≠ .pending

/-- The flow was completed by the commit of this revision. -/
def Completed (st : String) (r : Nat) (rows : List (Row ω)) : Prop :=
  flowsOf st rows ≠ [] ∧
    ∀ f ∈ flowsOf st rows, f.status = .completed ∧ f.completionRevision = some r

/-- The flow is bound to the browser's secret with this hash. -/
def BoundTo (st hash : String) (rows : List (Row ω)) : Prop :=
  flowsOf st rows ≠ [] ∧ ∀ f ∈ flowsOf st rows, f.browserHash = hash

/-- A row of the flow is bound to it. -/
def BoundIn (st hash : String) (rows : List (Row ω)) : Prop :=
  ∃ f ∈ flowsOf st rows, f.browserHash = hash

structure Advances (rows rows' : List (Row ω)) : Prop where
  spent : ∀ st, Spent st rows → Spent st rows'
  completed : ∀ st r, Completed st r rows → Completed st r rows'
  boundTo : ∀ st hash, BoundTo st hash rows → BoundTo st hash rows'
  boundIn : ∀ st hash, BoundIn st hash rows → BoundIn st hash rows'

section Rows

variable {rows rows' : List (Row ω)} {st : String}

theorem mem_flowsOf {f : GoogleFlow} : f ∈ flowsOf st rows ↔ f ∈ flows rows ∧ f.state = st := by
  simp [flowsOf]

theorem flowsOf_of_eq (h : flows rows' = flows rows) (st : String) :
    flowsOf st rows' = flowsOf st rows := by
  rw [flowsOf, h, flowsOf]

theorem Advances.of_eq (h : flows rows' = flows rows) : Advances rows rows' := by
  have hof := flowsOf_of_eq h
  constructor
  · intro st hspent
    rwa [Spent, hof]
  · intro st r hcompleted
    rwa [Completed, hof]
  · intro st hash hbound
    rwa [BoundTo, hof]
  · intro st hash hbound
    rwa [BoundIn, hof]

/-- The rows of a flow after a change that leaves its state alone. -/
theorem flowsOf_map {g : GoogleFlow → GoogleFlow} (hg : ∀ f, (g f).state = f.state)
    (h : flows rows' = (flows rows).map g) (st : String) :
    flowsOf st rows' = (flowsOf st rows).map g := by
  rw [flowsOf, h, flowsOf, List.filter_map]
  congr 1
  apply List.filter_congr
  intro f _
  simp [hg]

/-- A change of the rows of flows. -/
theorem Advances.of_map {g : GoogleFlow → GoogleFlow} (hstate : ∀ f, (g f).state = f.state)
    (hbrowser : ∀ f, (g f).browserHash = f.browserHash)
    (hspent : ∀ f, f.status ≠ .pending → (g f).status ≠ .pending)
    (hcompleted : ∀ st r, Completed st r rows → ∀ f ∈ flowsOf st rows, g f = f)
    (h : flows rows' = (flows rows).map g) : Advances rows rows' := by
  have hof := flowsOf_map hstate h
  constructor
  · rintro st ⟨hne, hall⟩
    rw [Spent, hof]
    refine ⟨by simpa using hne, ?_⟩
    intro f' hf'
    obtain ⟨f, hf, rfl⟩ := List.mem_map.mp hf'
    exact hspent f (hall f hf)
  · intro st r hc
    have hsame : (flowsOf st rows).map g = flowsOf st rows := by
      have hmap := List.map_congr_left (hcompleted st r hc)
      rwa [List.map_id'] at hmap
    rwa [Completed, hof, hsame]
  · rintro st hash ⟨hne, hall⟩
    rw [BoundTo, hof]
    refine ⟨by simpa using hne, ?_⟩
    intro f' hf'
    obtain ⟨f, hf, rfl⟩ := List.mem_map.mp hf'
    exact (hbrowser f).trans (hall f hf)
  · rintro st hash ⟨f, hf, hhash⟩
    rw [BoundIn, hof]
    exact ⟨g f, List.mem_map_of_mem hf, (hbrowser f).trans hhash⟩

/-- A new flow. -/
theorem flowsOf_append {f : GoogleFlow} (h : flows rows' = flows rows ++ [f]) (st : String) :
    flowsOf st rows' = flowsOf st rows ++ (if f.state = st then [f] else []) := by
  rw [flowsOf, h, List.filter_append, flowsOf]
  congr 1
  by_cases hst : f.state = st <;> simp [hst]

theorem flowsOf_new {f : GoogleFlow} (h : flows rows' = flows rows ++ [f])
    (hnew : flowsOf f.state rows = []) (hst : flowsOf st rows ≠ []) :
    flowsOf st rows' = flowsOf st rows := by
  rw [flowsOf_append h, if_neg, List.append_nil]
  rintro rfl
  exact hst hnew

theorem Advances.of_new {f : GoogleFlow} (h : flows rows' = flows rows ++ [f])
    (hnew : flowsOf f.state rows = []) : Advances rows rows' := by
  constructor
  · intro st hspent
    rw [Spent, flowsOf_new h hnew hspent.1]
    exact hspent
  · intro st r hcompleted
    rw [Completed, flowsOf_new h hnew hcompleted.1]
    exact hcompleted
  · intro st hash hbound
    rw [BoundTo, flowsOf_new h hnew hbound.1]
    exact hbound
  · rintro st hash ⟨f', hf', hhash⟩
    refine ⟨f', ?_, hhash⟩
    rw [flowsOf_append h]
    exact List.mem_append_left _ hf'

end Rows

/-! ### What the statements do to the flows -/

/-- A statement that leaves the flows alone. -/
def Still (q : Statement (Row ω)) : Prop := ∀ rows, flows (q.exec rows).1 = flows rows

theorem flows_append (a b : List (Row ω)) : flows (a ++ b) = flows a ++ flows b :=
  List.filterMap_append

theorem flows_cons (r : Row ω) (rows : List (Row ω)) : flows (r :: rows) = flows [r] ++ flows rows :=
  flows_append [r] rows

theorem still_update {p : Row ω → Bool} {f : Row ω → Row ω}
    (hf : ∀ r, flows [if p r then f r else r] = flows [r]) : Still (Statement.update p f) := by
  intro rows
  simp only [Statement.exec]
  induction rows with
  | nil => rfl
  | cons r rows ih => rw [List.map_cons, flows_cons, flows_cons r, ih, hf]

theorem still_setEmail (sub email : String) : Still (setEmail sub email : Statement (Row ω)) := by
  apply still_update
  intro r
  cases r <;> simp only [] <;> split <;> rfl

theorem still_setRevoked (hash : String) : Still (setRevoked hash : Statement (Row ω)) := by
  apply still_update
  intro r
  cases r <;> simp only [] <;> split <;> rfl

theorem still_insertUser (u : LocalUser) : Still (.insert (.user u) : Statement (Row ω)) := by
  intro rows
  simp only [Statement.exec, flows_append]
  exact List.append_nil _

theorem still_insertSession (x : LocalSession) :
    Still (.insert (.session x) : Statement (Row ω)) := by
  intro rows
  simp only [Statement.exec, flows_append]
  exact List.append_nil _

theorem still_foreign (q : Statement ω) : Still (foreign q) := by
  cases q with
  | insert o =>
      intro rows
      simp only [foreign, Statement.exec, flows_append]
      exact List.append_nil _
  | update p f =>
      apply still_update
      intro r
      cases r <;> simp only [] <;> split <;> rfl
  | delete p =>
      intro rows
      simp only [foreign, Statement.exec]
      induction rows with
      | nil => rfl
      | cons r rows ih =>
          cases r <;> simp_all [flows, List.filter_cons]
          split <;> simp_all

theorem flows_execute {body : List (Statement (Row ω))} (hbody : ∀ q ∈ body, Still q)
    (rows : List (Row ω)) : flows (execute body rows).1 = flows rows := by
  induction body generalizing rows with
  | nil => rfl
  | cons q body ih =>
      simp only [execute]
      rw [ih (fun q' hq' => hbody q' (List.mem_cons_of_mem _ hq')), hbody q List.mem_cons_self rows]

/-- The statements of `insert` are about users and sessions. -/
theorem still_insertStatements {cfg : Settings} {o : Oracle} {user : GoogleUser}
    {token owner : String} {rows : List (Row ω)} {body : List (Statement (Row ω))}
    (h : insertStatements cfg o user token rows = .ok (owner, body)) : ∀ q ∈ body, Still q := by
  have hbody : ∀ (q : Statement (Row ω)) x, Still q → ∀ q' ∈ [q, .insert (.session x)], Still q' := by
    intro q x hq q' hq'
    simp only [List.mem_cons, List.not_mem_nil, or_false] at hq'
    rcases hq' with rfl | rfl
    · exact hq
    · exact still_insertSession x
  unfold insertStatements at h
  simp only at h
  split at h
  next => cases h
  next =>
    split at h
    next => cases h
    next =>
      split at h
      next =>
        obtain ⟨-, rfl⟩ := Prod.mk.inj (Except.ok.inj h)
        exact hbody _ _ (still_setEmail _ _)
      next =>
        split at h
        next => cases h
        next =>
          obtain ⟨-, rfl⟩ := Prod.mk.inj (Except.ok.inj h)
          exact hbody _ _ (still_insertUser _)

/-- The flows after an update of one of them. -/
theorem flows_setFlow (st : String) (p : GoogleFlow → Bool) (change : GoogleFlow → GoogleFlow)
    (rows : List (Row ω)) :
    flows (execute [setFlow st p change] rows).1 =
      (flows rows).map fun f => if f.state = st ∧ p f = true then change f else f := by
  simp only [execute, setFlow, Statement.exec]
  induction rows with
  | nil => rfl
  | cons r rows ih =>
      cases r with
      | flow f =>
          simp only [flows, List.map_cons, List.filterMap_cons] at ih ⊢
          by_cases hf : f.state = st ∧ p f = true
          · simp only [hf, decide_true, Bool.and_self, if_true, and_self, ih]
          · have hb : (decide (f.state = st) && p f) = false := by
              rw [Bool.eq_false_iff]
              simpa using hf
            simp only [hb, hf, if_false, Bool.false_eq_true, ih]
      | user u => exact ih
      | session x => exact ih
      | other o => exact ih

/-- The flow with this state is claimed, if it is pending. -/
def claim (st : String) (f : GoogleFlow) : GoogleFlow :=
  if f.state = st ∧ decide (f.status = .pending) = true then { f with status := .claimed } else f

/-- The flow with this state is finished. -/
def finish (cfg : Settings) (st token : String) (user : Option GoogleUser) (revision : Nat)
    (f : GoogleFlow) : GoogleFlow :=
  if f.state = st ∧ true = true then
    { f with
      status := if user.isSome then .completed else .failed
      sessionHash := if user.isSome then some (cfg.tokenHash token) else none
      completionRevision := some revision
      verifier := "" }
  else f

/-- A row of the flow is claimed. -/
def Claimed (st : String) (rows : List (Row ω)) : Prop :=
  ∃ f ∈ flowsOf st rows, f.status = .claimed

section Changes

variable {rows rows' : List (Row ω)} {st : String} {f : GoogleFlow}

theorem claim_state (st : String) (f : GoogleFlow) : (claim st f).state = f.state := by
  unfold claim
  split <;> rfl

theorem claim_of_not_pending (h : f.status ≠ .pending) : claim st f = f := by
  rw [claim, if_neg]
  simp [h]

theorem advances_claim (h : flows rows' = (flows rows).map (claim st)) : Advances rows rows' := by
  refine Advances.of_map (claim_state st) (fun f => ?_) (fun f hf => ?_) (fun st' r hc f hf => ?_) h
  · unfold claim
    split <;> rfl
  · rw [claim_of_not_pending hf]
    exact hf
  · apply claim_of_not_pending
    rw [(hc.2 f hf).1]
    decide

/-- The claim of a pending flow. -/
theorem claimed_claim (h : flows rows' = (flows rows).map (claim st)) (hf : f ∈ flowsOf st rows)
    (hpending : f.status = .pending) : Claimed st rows' := by
  have hstate := (mem_flowsOf.mp hf).2
  refine ⟨claim st f, ?_, ?_⟩
  · rw [flowsOf_map (claim_state st) h]
    exact List.mem_map_of_mem hf
  · rw [claim, if_pos ⟨hstate, by simpa using hpending⟩]

theorem spent_claim (h : flows rows' = (flows rows).map (claim st)) (hne : flowsOf st rows ≠ []) :
    Spent st rows' := by
  rw [Spent, flowsOf_map (claim_state st) h]
  refine ⟨by simpa using hne, ?_⟩
  intro f' hf'
  obtain ⟨f, hf, rfl⟩ := List.mem_map.mp hf'
  by_cases hpending : f.status = .pending
  · rw [claim, if_pos ⟨(mem_flowsOf.mp hf).2, by simpa using hpending⟩]
    exact fun h => by cases h
  · rw [claim_of_not_pending hpending]
    exact hpending

variable {cfg : Settings} {token : String} {user : Option GoogleUser} {revision : Nat}

theorem finish_state (f : GoogleFlow) : (finish cfg st token user revision f).state = f.state := by
  unfold finish
  split <;> rfl

theorem finish_of_ne (h : f.state ≠ st) : finish cfg st token user revision f = f := by
  rw [finish, if_neg]
  exact fun hc => h hc.1

theorem finish_status (h : f.state = st) :
    (finish cfg st token user revision f).status ≠ .pending := by
  rw [finish, if_pos ⟨h, rfl⟩]
  show (if user.isSome then FlowStatus.completed else .failed) ≠ .pending
  split <;> exact fun h => by cases h

theorem advances_finish (h : flows rows' = (flows rows).map (finish cfg st token user revision))
    (hclaimed : Claimed st rows) : Advances rows rows' := by
  refine Advances.of_map finish_state (fun f => ?_) (fun f hf => ?_) (fun st' r hc f hf => ?_) h
  · unfold finish
    split <;> rfl
  · by_cases hstate : f.state = st
    · exact finish_status hstate
    · rw [finish_of_ne hstate]
      exact hf
  · apply finish_of_ne
    have hstate := (mem_flowsOf.mp hf).2
    rw [hstate]
    rintro rfl
    -- The claimed row is not completed.
    obtain ⟨g, hg, hstatus⟩ := hclaimed
    have hcompleted := (hc.2 g hg).1
    rw [hstatus] at hcompleted
    cases hcompleted

theorem completed_finish (h : flows rows' = (flows rows).map (finish cfg st token user revision))
    {st' : String} {r : Nat} (hc : Completed st' r rows') : Completed st' r rows ∨ r = revision := by
  rw [Completed, flowsOf_map finish_state h] at hc
  by_cases hst : st' = st
  · right
    obtain ⟨hne, hall⟩ := hc
    obtain ⟨f, hf⟩ := List.exists_mem_of_ne_nil _ (show flowsOf st' rows ≠ [] by simpa using hne)
    have hrev := (hall _ (List.mem_map_of_mem hf)).2
    have hstate : f.state = st := (mem_flowsOf.mp hf).2.trans hst
    rw [finish, if_pos ⟨hstate, rfl⟩] at hrev
    exact (Option.some.inj hrev).symm
  · left
    have hsame : (flowsOf st' rows).map (finish cfg st token user revision) = flowsOf st' rows := by
      have hall : ∀ f ∈ flowsOf st' rows, finish cfg st token user revision f = id f := by
        intro f hf
        exact finish_of_ne fun heq => hst ((mem_flowsOf.mp hf).2.symm.trans heq)
      rw [List.map_congr_left hall, List.map_id]
    rwa [hsame] at hc

theorem completed_claim (h : flows rows' = (flows rows).map (claim st)) {st' : String} {r : Nat}
    (hc : Completed st' r rows') : Completed st' r rows := by
  rw [Completed, flowsOf_map (claim_state st) h] at hc
  have hsame : (flowsOf st' rows).map (claim st) = flowsOf st' rows := by
    have hall : ∀ f ∈ flowsOf st' rows, claim st f = id f := by
      intro f hf
      apply claim_of_not_pending
      intro hpending
      have hdone := (hc.2 _ (List.mem_map_of_mem hf)).1
      unfold claim at hdone
      split at hdone
      · cases hdone
      · rw [hpending] at hdone
        cases hdone
    rw [List.map_congr_left hall, List.map_id]
  rwa [hsame] at hc

theorem completed_new (h : flows rows' = flows rows ++ [f]) (hpending : f.status = .pending)
    {st' : String} {r : Nat} (hc : Completed st' r rows') : Completed st' r rows := by
  by_cases hst : f.state = st'
  · have hf : f ∈ flowsOf st' rows' := by
      rw [flowsOf_append h, if_pos hst]
      exact List.mem_append_right _ (List.mem_singleton_self f)
    have hdone := (hc.2 f hf).1
    rw [hpending] at hdone
    cases hdone
  · have hsame : flowsOf st' rows' = flowsOf st' rows := by
      rw [flowsOf_append h, if_neg hst, List.append_nil]
    rwa [Completed, hsame] at hc

end Changes

/-! ### What is kept -/

/-- Every property that the flows keep as they advance holds from the same revision on. -/
def Onward (s s' : State ω) : Prop :=
  ∀ P : List (Row ω) → Prop, (∀ rows rows', Advances rows rows' → P rows → P rows') →
    ∀ r, Since r P s.coord → Since r P s'.coord

/-- Every snapshot is at least as new as the one that the process started from. -/
structure Founded (s : Checkpoint.State (Row ω)) : Prop where
  db : s.start.revision ≤ s.db.revision
  published : ∀ d, s.published = some d → s.start.revision ≤ d.revision
  persisted : ∀ d ∈ s.persisted, s.start.revision ≤ d.revision

structure Once (s : State ω) : Prop where
  base : Inv s
  founded : Founded s.coord
  startup : s.startupRevision = s.coord.start.revision
  asked : s.asked.Nodup
  opened : s.opened.Nodup
  /-- A flow whose code was sent stays claimed, through every crash. -/
  spent : ∀ st ∈ s.asked, Lasting (Spent st) s
  sent : ∀ st ∈ s.opened, st ∈ s.asked
  completed : ∀ st r, Completed st r s.coord.db.rows →
    Since 0 (Completed st r) s.coord ∨
      (s.startupRevision < r ∧ Since r (Completed st r) s.coord)

/-- What the holder of the callback lock finds as it left it. -/
structure Keep (p : Pid) (s s' : State ω) : Prop where
  lock : s'.callbackLock = some p
  asked : s'.asked = s.asked
  opened : s'.opened = s.opened
  flows : ∀ st, flowsOf st s.coord.db.rows ≠ [] →
    flowsOf st s'.coord.db.rows = flowsOf st s.coord.db.rows

structure Calm (p : Pid) (s s' : State ω) : Prop where
  base : Rely p s s'
  onward : Onward s s'
  held : s.callbackLock = some p → Keep p s s'

structure Mild (p : Pid) (s s' : State ω) : Prop where
  base : Guar p s s'
  startup : s'.startupRevision = s.startupRevision
  onward : Onward s s'
  held : ∀ q, q ≠ p → s.callbackLock = some q → Keep q s s'

section Steps

variable {cfg : Settings} {p : Pid} {s s' : State ω}

theorem Onward.refl (s : State ω) : Onward s s := fun _ _ _ h => h

theorem Onward.trans {a b c : State ω} (hab : Onward a b) (hbc : Onward b c) : Onward a c :=
  fun P hP r h => hbc P hP r (hab P hP r h)

theorem Onward.of_log (hlog : s'.coord.log = s.coord.log) (hstart : s'.coord.start = s.coord.start) :
    Onward s s' := fun _ _ _ h => h.of_log hlog hstart

theorem Onward.lasting (h : Onward s s') (hc : s.coord.confirmedRevision ≤ s'.coord.confirmedRevision)
    {P : List (Row ω) → Prop} (hP : ∀ rows rows', Advances rows rows' → P rows → P rows')
    (hl : Lasting P s) : Lasting P s' := by
  obtain ⟨r, hr, hcases⟩ := hl
  refine ⟨r, h P hP r hr, ?_⟩
  rcases hcases with hle | hzero
  · exact .inl (Int.le_trans hle hc)
  · exact .inr hzero

theorem Keep.refl (h : s.callbackLock = some p) : Keep p s s := ⟨h, rfl, rfl, fun _ _ => rfl⟩

theorem Keep.trans {a b c : State ω} (hab : Keep p a b) (hbc : Keep p b c) : Keep p a c := by
  refine ⟨hbc.lock, hbc.asked.trans hab.asked, hbc.opened.trans hab.opened, fun st hst => ?_⟩
  have hfirst := hab.flows st hst
  rw [← hfirst] at hst
  exact (hbc.flows st hst).trans hfirst

theorem Calm.refl (p : Pid) (s : State ω) : Calm p s s := ⟨.refl p s, .refl s, Keep.refl⟩

theorem Calm.trans {a b c : State ω} (hab : Calm p a b) (hbc : Calm p b c) : Calm p a c where
  base := ⟨hab.base.coord.trans hbc.base.coord, hab.base.follows.trans hbc.base.follows⟩
  onward := hab.onward.trans hbc.onward
  held h := (hab.held h).trans (hbc.held (hab.held h).lock)

/-- What a step does to the flows, and to the snapshots that they are in. -/
structure Moved (s s' : State ω) : Prop where
  onward : Onward s s'
  confirmed : s.coord.confirmedRevision ≤ s'.coord.confirmedRevision
  start : s'.coord.start = s.coord.start
  founded : Founded s'.coord
  completed : ∀ st r, Completed st r s'.coord.db.rows → Completed st r s.coord.db.rows ∨
    (s.coord.start.revision < r ∧ Since r (Completed st r) s'.coord)

theorem Moved.of_eq (hs : Once s) (h : s'.coord = s.coord) : Moved s s' := by
  refine ⟨.of_log (by rw [h]) (by rw [h]), ?_, by rw [h], ?_, fun st r hc => .inl ?_⟩
  · exact Int.le_of_eq (by rw [h])
  · rw [h]
    exact hs.founded
  · rwa [h] at hc

/-- A write that completes a flow at most with its own revision. -/
theorem Moved.of_write (skip : Bool) (body : List (Statement (Row ω))) (hs : Once s)
    (ha : (Checkpoint.Happening.write skip body).apply s.coord = some s'.coord)
    (hadvances : Advances s.coord.db.rows s'.coord.db.rows)
    (hcompleted : ∀ st r, Completed st r s'.coord.db.rows → Completed st r s.coord.db.rows ∨
      (s.coord.db.revision < r ∧ r = s'.coord.db.revision)) : Moved s s' := by
  have hlater := Checkpoint.later_write skip body ha
  have hinv := Checkpoint.inv_write skip body hs.base.coord ha
  have hsame : s'.coord.published = s.coord.published ∧ s'.coord.persisted = s.coord.persisted := by
    rw [← Option.some.inj ha]
    exact ⟨rfl, rfl⟩
  refine ⟨fun P hP r hr => hr.write hs.base.coord ha (hP _ _ hadvances), hlater.confirmed,
    hlater.start, ⟨?_, ?_, ?_⟩, fun st r hc => ?_⟩
  · rw [hlater.start]
    exact Nat.le_trans hs.founded.db hlater.revision
  · rw [hlater.start, hsame.1]
    exact hs.founded.published
  · rw [hlater.start, hsame.2]
    exact hs.founded.persisted
  · rcases hcompleted st r hc with hold | ⟨hlt, rfl⟩
    · exact .inl hold
    · exact .inr ⟨Nat.lt_of_le_of_lt hs.founded.db hlt, since_now hinv hc⟩

theorem Once.moved (hs : Once s) (hm : Moved s s') (hbase : Inv s')
    (hstartup : s'.startupRevision = s.startupRevision) (hasked : s'.asked.Nodup)
    (hopened : s'.opened.Nodup) (hspent : ∀ st ∈ s'.asked, st ∈ s.asked ∨ Lasting (Spent st) s)
    (hsent : ∀ st ∈ s'.opened, st ∈ s'.asked) : Once s' where
  base := hbase
  founded := hm.founded
  startup := by rw [hstartup, hs.startup, hm.start]
  asked := hasked
  opened := hopened
  spent st hst := by
    apply hm.onward.lasting hm.confirmed fun _ _ ha => ha.spent st
    rcases hspent st hst with hold | hnew
    · exact hs.spent st hold
    · exact hnew
  sent := hsent
  completed st r hc := by
    rcases hm.completed st r hc with hold | ⟨hlt, hnew⟩
    · rcases hs.completed st r hold with hzero | ⟨hlt, hr⟩
      · exact .inl (hm.onward _ (fun _ _ ha => ha.completed st r) 0 hzero)
      · refine .inr ⟨?_, hm.onward _ (fun _ _ ha => ha.completed st r) r hr⟩
        rw [hstartup]
        exact hlt
    · refine .inr ⟨?_, hnew⟩
      rw [hstartup, hs.startup]
      exact hlt

/-- A step that sends no code and opens no session. -/
theorem Once.quiet (hs : Once s) (hm : Moved s s') (hbase : Inv s')
    (hstartup : s'.startupRevision = s.startupRevision) (hasked : s'.asked = s.asked)
    (hopened : s'.opened = s.opened) : Once s' := by
  refine hs.moved hm hbase hstartup ?_ ?_ (fun st hst => .inl ?_) fun st hst => ?_
  · rw [hasked]
    exact hs.asked
  · rw [hopened]
    exact hs.opened
  · rwa [hasked] at hst
  · rw [hasked]
    rw [hopened] at hst
    exact hs.sent st hst

/-! ### The calls -/

theorem commit_rows (body : List (Statement (Row ω))) (s : State ω) :
    (s.commit body).coord.db = ⟨s.coord.db.revision + 1, (execute body s.coord.db.rows).1⟩ := by
  show s.coord.db.write false body = _
  simp [Database.write]

/-- A commit that leaves the flows alone. -/
theorem moved_commit {body : List (Statement (Row ω))} (hs : Once s) (hcoord : s'.coord = s.coord)
    (hbody : ∀ q ∈ body, Still q) : Moved s (s'.commit body) := by
  have hflows : flows (s'.commit body).coord.db.rows = flows s.coord.db.rows := by
    rw [commit_rows, hcoord]
    exact flows_execute hbody _
  have ha : (Checkpoint.Happening.write false body).apply s.coord = some (s'.commit body).coord := by
    rw [← hcoord]
    rfl
  refine Moved.of_write false body hs ha (.of_eq hflows) fun st r hc => .inl ?_
  rwa [Completed, flowsOf_of_eq hflows] at hc

theorem transact_cases {o : Oracle} {body : List (Statement (Row ω))} {r : Except Exn Nat}
    (h : transact o body s = (r, s')) :
    (s' = s ∧ ∀ n, r ≠ .ok n) ∨ (s' = s.commit body ∧ r = .ok (s.coord.db.revision + 1)) := by
  unfold transact at h
  split at h <;> obtain ⟨rfl, rfl⟩ := Prod.mk.inj h
  · exact .inr ⟨rfl, rfl⟩
  · exact .inl ⟨rfl, fun n h => by cases h⟩

theorem insert_cases {o : Oracle} {user : GoogleUser} {token : String}
    {rest : List (Statement (Row ω))} {r : Except Exn Nat}
    (h : insert cfg o user token rest s = (r, s')) :
    ∃ s₁ : State ω, s₁.coord = s.coord ∧ s₁.startupRevision = s.startupRevision ∧
      s₁.callbackLock = s.callbackLock ∧ s₁.asked = s.asked ∧ s₁.opened = s.opened ∧
      ((s' = s₁ ∧ ∀ n, r ≠ .ok n) ∨ ∃ body : List (Statement (Row ω)), (∀ q ∈ body, Still q) ∧
        s' = s₁.commit (body ++ rest) ∧ r = .ok (s.coord.db.revision + 1)) := by
  unfold insert at h
  split at h
  next =>
    obtain ⟨rfl, rfl⟩ := Prod.mk.inj h
    exact ⟨s, rfl, rfl, rfl, rfl, rfl, .inl ⟨rfl, fun n h => by cases h⟩⟩
  next owner body hbody =>
    refine ⟨s.record owner (cfg.tokenHash token), rfl, rfl, rfl, rfl, rfl, ?_⟩
    simp only at h
    split at h <;> obtain ⟨rfl, rfl⟩ := Prod.mk.inj h
    · exact .inl ⟨rfl, fun n h => by cases h⟩
    · exact .inr ⟨body, still_insertStatements hbody, rfl, rfl⟩

/-- A call that leaves the login flows and the callback lock to others. -/
def Plain : Call → Prop
  | .createSession _ => True
  | .lookup _ => True
  | .revoke _ => True
  | .startFlow _ => True
  | .readFlow _ _ => True
  | _ => False

/-- What a plain call leaves as it was. -/
structure Untouched (s s' : State ω) : Prop where
  startup : s'.startupRevision = s.startupRevision
  lock : s'.callbackLock = s.callbackLock
  asked : s'.asked = s.asked
  opened : s'.opened = s.opened
  flows : ∀ st, flowsOf st s.coord.db.rows ≠ [] →
    flowsOf st s'.coord.db.rows = flowsOf st s.coord.db.rows

theorem Untouched.keep (h : Untouched s s') (hlock : s.callbackLock = some p) : Keep p s s' :=
  ⟨h.lock.trans hlock, h.asked, h.opened, h.flows⟩

theorem Once.untouched (hs : Once s) (hm : Moved s s') (hbase : Inv s') (h : Untouched s s') :
    Once s' :=
  hs.quiet hm hbase h.startup h.asked h.opened

theorem Mild.untouched (hbase : Guar p s s') (hm : Moved s s') (h : Untouched s s') : Mild p s s' :=
  ⟨hbase, h.startup, hm.onward, fun _ _ hlock => h.keep hlock⟩

theorem untouched_of_eq {s₁ : State ω} (hcoord : s₁.coord = s.coord)
    (hstartup : s₁.startupRevision = s.startupRevision) (hlock : s₁.callbackLock = s.callbackLock)
    (hasked : s₁.asked = s.asked) (hopened : s₁.opened = s.opened) : Untouched s s₁ :=
  ⟨hstartup, hlock, hasked, hopened, fun st _ => by rw [hcoord]⟩

/-- A commit that leaves the flows alone, after a candidate was recorded. -/
theorem untouched_commit {s₁ : State ω} {body : List (Statement (Row ω))} (h : Untouched s s₁)
    (hcoord : s₁.coord = s.coord) (hbody : ∀ q ∈ body, Still q) : Untouched s (s₁.commit body) := by
  refine ⟨h.startup, h.lock, h.asked, h.opened, fun st _ => flowsOf_of_eq ?_ st⟩
  rw [commit_rows, hcoord]
  exact flows_execute hbody _

theorem moved_transact {o : Oracle} {body : List (Statement (Row ω))} {r : Except Exn Nat}
    (hs : Once s) (h : transact o body s = (r, s')) (hbody : ∀ q ∈ body, Still q) :
    Moved s s' ∧ Untouched s s' := by
  have hself : Untouched s s := untouched_of_eq rfl rfl rfl rfl rfl
  rcases transact_cases h with ⟨rfl, -⟩ | ⟨rfl, -⟩
  · exact ⟨.of_eq hs rfl, hself⟩
  · exact ⟨moved_commit hs rfl hbody, untouched_commit hself rfl hbody⟩

theorem moved_insert {o : Oracle} {user : GoogleUser} {token : String} {r : Except Exn Nat}
    (hs : Once s) (h : insert cfg o user token [] s = (r, s')) : Moved s s' ∧ Untouched s s' := by
  obtain ⟨s₁, hcoord, hstartup, hlock, hasked, hopened, hcases⟩ := insert_cases h
  have hrecord : Untouched s s₁ := untouched_of_eq hcoord hstartup hlock hasked hopened
  rcases hcases with ⟨rfl, -⟩ | ⟨body, hbody, rfl, -⟩
  · exact ⟨.of_eq hs hcoord, hrecord⟩
  · rw [List.append_nil]
    exact ⟨moved_commit hs hcoord hbody, untouched_commit hrecord hcoord hbody⟩

/-- A new flow, whose state is not taken. -/
theorem start_commit {f : GoogleFlow} (hs : Once s) (hnew : flowsOf f.state s.coord.db.rows = [])
    (hpending : f.status = .pending) :
    Moved s (s.commit [.insert (.flow f)]) ∧ Untouched s (s.commit [.insert (.flow f)]) ∧
      flows (s.commit [.insert (.flow f)]).coord.db.rows = flows s.coord.db.rows ++ [f] := by
  have hflows : flows (s.commit [.insert (.flow f)]).coord.db.rows = flows s.coord.db.rows ++ [f] := by
    rw [commit_rows]
    exact flows_append s.coord.db.rows [Row.flow f]
  refine ⟨?_, ⟨rfl, rfl, rfl, rfl, fun st hst => flowsOf_new hflows hnew hst⟩, hflows⟩
  exact Moved.of_write false _ hs rfl (.of_new hflows hnew) fun st r hc =>
    .inl (completed_new hflows hpending hc)

theorem flowsOf_eq_nil {rows : List (Row ω)} {st : String}
    (h : ¬ ((flows rows).any fun f => f.state = st) = true) : flowsOf st rows = [] := by
  rw [flowsOf, List.filter_eq_nil_iff]
  intro f hf heq
  exact h (List.any_eq_true.mpr ⟨f, hf, heq⟩)

/-- What a start comes to: nothing, or a new pending flow. -/
theorem startFlow_cases {o : Oracle} {returnTo : String} {r : Except Exn (Started × Nat)}
    (h : State.answer cfg p o (.startFlow returnTo) s = some (r, s')) :
    (s' = s ∧ ∀ x, r ≠ .ok x) ∨
      (flowsOf o.state s.coord.db.rows = [] ∧ s' = s.commit [.insert (.flow (o.flow cfg returnTo))] ∧
        r = .ok (⟨o.state, o.browser, o.nonce, o.verifier⟩, s.coord.db.revision + 1)) := by
  simp only [State.answer] at h
  split at h
  · obtain ⟨rfl, rfl⟩ := Prod.mk.inj (Option.some.inj h)
    exact .inl ⟨rfl, fun x h => by cases h⟩
  next hnew =>
    unfold transact at h
    split at h <;> obtain ⟨rfl, rfl⟩ := Prod.mk.inj (Option.some.inj h)
    · exact .inr ⟨flowsOf_eq_nil hnew, rfl, rfl⟩
    · exact .inl ⟨rfl, fun x h => by cases h⟩

theorem plain_spec {o : Oracle} {c : Call} {r : c.Out} (hc : Plain c) (hs : Once s)
    (h : State.answer cfg p o c s = some (r, s')) : Moved s s' ∧ Untouched s s' := by
  have hsame : Moved s s ∧ Untouched s s := ⟨.of_eq hs rfl, untouched_of_eq rfl rfl rfl rfl rfl⟩
  cases c with
  | createSession user =>
      simp only [State.answer] at h
      split at h <;> obtain ⟨-, rfl⟩ := Prod.mk.inj (Option.some.inj h)
      · exact hsame
      · exact moved_insert hs rfl
  | lookup token =>
      simp only [State.answer] at h
      split at h <;> obtain ⟨-, rfl⟩ := Prod.mk.inj (Option.some.inj h)
      · have hlookup : (lookup cfg o.now token s).2.coord = s.coord ∧
            Untouched s (lookup cfg o.now token s).2 := by
          unfold lookup
          split
          · exact ⟨rfl, hsame.2⟩
          · simp only
            split <;> exact ⟨rfl, untouched_of_eq rfl rfl rfl rfl rfl⟩
        exact ⟨.of_eq hs hlookup.1, hlookup.2⟩
      · exact hsame
  | revoke token =>
      refine moved_transact hs (Option.some.inj h) fun q hq => ?_
      obtain rfl := List.mem_singleton.mp hq
      exact still_setRevoked _
  | startFlow returnTo =>
      rcases startFlow_cases h with ⟨rfl, -⟩ | ⟨hnew, rfl, -⟩
      · exact hsame
      · obtain ⟨hm, hu, -⟩ := start_commit (f := o.flow cfg returnTo) hs hnew rfl
        exact ⟨hm, hu⟩
  | readFlow state browser =>
      simp only [State.answer] at h
      split at h <;> obtain ⟨-, rfl⟩ := Prod.mk.inj (Option.some.inj h) <;> exact hsame
  | checkpoint _ | acquireCallback | releaseCallback | claimFlow _ | exchange _ _ _ _
  | completeFlow _ _ _ => exact hc.elim

/-- What the coordinator's calls do to the snapshots: the database may be published. -/
theorem answer_snapshots {ρ : Type} {s s' : Checkpoint.State ρ} {o : Checkpoint.Oracle}
    {c : Checkpoint.Call} {r : c.Out} (h : Checkpoint.State.answer p o c s = some (r, s')) :
    (∀ d, s'.published = some d → s.published = some d ∨ d = s.db) ∧ s'.persisted = s.persisted := by
  cases c with
  | publish =>
      simp only [Checkpoint.State.answer] at h
      split at h <;> obtain ⟨-, rfl⟩ := Prod.mk.inj (Option.some.inj h)
      · refine ⟨fun d hd => ?_, rfl⟩
        simp only at hd
        split at hd
        · exact .inr (Option.some.inj hd).symm
        · exact .inl hd
      · exact ⟨fun d hd => .inr (Option.some.inj hd).symm, rfl⟩
  | acquire l =>
      simp only [Checkpoint.State.answer] at h
      split at h
      · obtain ⟨-, rfl⟩ := Prod.mk.inj (Option.some.inj h)
        exact ⟨fun d hd => .inl hd, rfl⟩
      · split at h
        · obtain ⟨-, rfl⟩ := Prod.mk.inj (Option.some.inj h)
          exact ⟨fun d hd => .inl hd, rfl⟩
        · cases h
  | shield i =>
      simp only [Checkpoint.State.answer] at h
      split at h
      · obtain ⟨-, rfl⟩ := Prod.mk.inj (Option.some.inj h)
        exact ⟨fun d hd => .inl hd, rfl⟩
      · split at h
        all_goals first
          | cases h
            done
          | obtain ⟨-, rfl⟩ := Prod.mk.inj (Option.some.inj h)
            exact ⟨fun d hd => .inl hd, rfl⟩
  | notified =>
      simp only [Checkpoint.State.answer] at h
      split at h
      · obtain ⟨-, rfl⟩ := Prod.mk.inj (Option.some.inj h)
        exact ⟨fun d hd => .inl hd, rfl⟩
      · split at h
        · cases h
        · obtain ⟨-, rfl⟩ := Prod.mk.inj (Option.some.inj h)
          exact ⟨fun d hd => .inl hd, rfl⟩
  | sleep =>
      simp only [Checkpoint.State.answer] at h
      split at h <;> obtain ⟨-, rfl⟩ := Prod.mk.inj (Option.some.inj h) <;>
        exact ⟨fun d hd => .inl hd, rfl⟩
  | never => cases h
  | revision | confirmedRevision | lastError | release _ | createCommit | commitDone _ | confirm _
  | raised _ | enlist | rounds =>
      obtain ⟨-, rfl⟩ := Prod.mk.inj (Option.some.inj h)
      exact ⟨fun d hd => .inl hd, rfl⟩

/-- The coordinator's calls, which publish nothing older than the start. -/
theorem checkpoint_spec {o : Oracle} {c : Checkpoint.Call} {r : c.Out} (hs : Once s)
    (h : State.answer cfg p o (.checkpoint c) s = some (r, s')) (hbase : Guar p s s') :
    Moved s s' ∧ Untouched s s' := by
  obtain ⟨⟨r', coord⟩, ha, heq⟩ := Option.map_eq_some_iff.mp h
  obtain ⟨-, rfl⟩ := Prod.mk.inj heq
  obtain ⟨hdb, hlog, hstart⟩ := answer_log ha
  have hfounded : Founded coord := by
    obtain ⟨hpublished, hpersisted⟩ := answer_snapshots ha
    refine ⟨?_, fun d hd => ?_, ?_⟩
    · rw [hstart, hdb]
      exact hs.founded.db
    · rw [hstart]
      rcases hpublished d hd with hd | rfl
      · exact hs.founded.published d hd
      · exact hs.founded.db
    · rw [hstart, hpersisted]
      exact hs.founded.persisted
  refine ⟨⟨.of_log hlog hstart, hbase.coord.later.confirmed, hstart, hfounded, fun st r hc => .inl ?_⟩,
    ⟨rfl, rfl, rfl, rfl, fun st _ => ?_⟩⟩
  · rwa [show coord.db = s.coord.db from hdb] at hc
  · rw [show coord.db = s.coord.db from hdb]

/-- What the holder of the lock does is no concern of another holder. -/
theorem Mild.of_holder (hlock : s.callbackLock = some p) (hbase : Guar p s s')
    (hstartup : s'.startupRevision = s.startupRevision) (honward : Onward s s') : Mild p s s' where
  base := hbase
  startup := hstartup
  onward := honward
  held _ hq h := absurd (Option.some.inj (h.symm.trans hlock)) hq

theorem acquire_spec {o : Oracle} {r : Except Exn Unit} (hs : Once s)
    (h : State.answer cfg p o .acquireCallback s = some (r, s')) :
    Once s' ∧ Mild p s s' ∧ s'.coord = s.coord ∧ (r = .ok () → s'.callbackLock = some p) := by
  obtain ⟨hbase, hguar⟩ := answer_spec (p := p) (c := .acquireCallback) trivial hs.base h
  simp only [State.answer] at h
  split at h
  · obtain ⟨rfl, rfl⟩ := Prod.mk.inj (Option.some.inj h)
    exact ⟨hs, ⟨hguar, rfl, .refl s, fun _ _ hq => Keep.refl hq⟩, rfl, fun h => by cases h⟩
  · split at h
    next hfree =>
      obtain ⟨rfl, rfl⟩ := Prod.mk.inj (Option.some.inj h)
      refine ⟨hs.quiet (.of_eq hs rfl) hbase rfl rfl rfl, ⟨hguar, rfl, .of_log rfl rfl, ?_⟩, rfl,
        fun _ => rfl⟩
      intro q _ hq
      rw [hfree] at hq
      cases hq
    next => cases h

theorem release_spec {o : Oracle} {r : Unit} (hs : Once s) (hlock : s.callbackLock = some p)
    (h : State.answer cfg p o .releaseCallback s = some (r, s')) :
    Once s' ∧ Mild p s s' ∧ s'.coord = s.coord := by
  obtain ⟨hbase, hguar⟩ := answer_spec (p := p) (c := .releaseCallback) trivial hs.base h
  obtain ⟨-, rfl⟩ := Prod.mk.inj (Option.some.inj h)
  exact ⟨hs.quiet (.of_eq hs rfl) hbase rfl rfl rfl, .of_holder hlock hguar rfl (.of_log rfl rfl), rfl⟩

/-- A claim. That it finds the flow pending shows that its code was not sent. -/
theorem claim_spec {o : Oracle} {st : String} {r : Except Exn (Bool × Nat)} (hs : Once s)
    (hlock : s.callbackLock = some p)
    (h : State.answer cfg p o (.claimFlow st) s = some (r, s')) :
    Once s' ∧ Mild p s s' ∧ s'.callbackLock = some p ∧
      ∀ n, r = .ok (true, n) →
        Since n (Spent st) s'.coord ∧ Claimed st s'.coord.db.rows ∧ st ∉ s'.asked := by
  obtain ⟨hbase, hguar⟩ := answer_spec (p := p) (c := .claimFlow st) trivial hs.base h
  simp only [State.answer] at h
  unfold transact at h
  split at h
  · obtain ⟨rfl, rfl⟩ := Prod.mk.inj (Option.some.inj h)
    have hflows : flows (s.commit [setFlow st (fun f => f.status = .pending)
        fun f => { f with status := .claimed }]).coord.db.rows =
        (flows s.coord.db.rows).map (claim st) := by
      rw [commit_rows]
      exact flows_setFlow st _ _ _
    have hm : Moved s (s.commit [setFlow st (fun f => f.status = .pending)
        fun f => { f with status := .claimed }]) :=
      Moved.of_write false _ hs rfl (advances_claim hflows) fun _ _ hc =>
        .inl (completed_claim hflows hc)
    refine ⟨hs.quiet hm hbase rfl rfl rfl, .of_holder hlock hguar rfl hm.onward, hlock, ?_⟩
    intro n hr
    obtain ⟨hany, rfl⟩ := Prod.mk.inj (Except.ok.inj hr)
    obtain ⟨f, hf, hcond⟩ := List.any_eq_true.mp hany
    simp only [Bool.and_eq_true, decide_eq_true_eq] at hcond
    have hmem : f ∈ flowsOf st s.coord.db.rows := mem_flowsOf.mpr ⟨hf, hcond.1⟩
    have hspent := since_now hbase.coord (spent_claim hflows (List.ne_nil_of_mem hmem))
    rw [commit_rows] at hspent
    refine ⟨hspent, claimed_claim hflows hmem hcond.2, fun hasked => ?_⟩
    exact ((hs.spent st hasked).now hs.base).2 f hmem hcond.2
  · obtain ⟨rfl, rfl⟩ := Prod.mk.inj (Option.some.inj h)
    exact ⟨hs, .of_holder hlock hguar rfl (.refl s), hlock, fun n hr => by cases hr⟩

theorem nodup_concat {xs : List String} {x : String} (h : xs.Nodup) (hx : x ∉ xs) :
    (xs ++ [x]).Nodup := by
  refine List.nodup_append.mpr ⟨h, by simp, ?_⟩
  rintro a ha b hb rfl
  exact hx (List.mem_singleton.mp hb ▸ ha)

theorem exchange_spec {o : Oracle} {st code verifier nonce : String}
    {r : Except Exn (Option GoogleUser)} (hs : Once s) (hlock : s.callbackLock = some p)
    (hspent : Lasting (Spent st) s) (hnew : st ∉ s.asked)
    (h : State.answer cfg p o (.exchange st code verifier nonce) s = some (r, s')) :
    Once s' ∧ Mild p s s' ∧ s' = { s with asked := s.asked ++ [st] } := by
  obtain ⟨hbase, hguar⟩ :=
    answer_spec (p := p) (c := .exchange st code verifier nonce) trivial hs.base h
  have heq : s' = { s with asked := s.asked ++ [st] } := by
    simp only [State.answer] at h
    split at h <;> exact (Prod.mk.inj (Option.some.inj h)).2.symm
  subst heq
  refine ⟨?_, .of_holder hlock hguar rfl (.of_log rfl rfl), rfl⟩
  refine hs.moved (.of_eq hs rfl) hbase rfl ?_ hs.opened (fun st' hst' => ?_) fun st' hst' => ?_
  · exact nodup_concat hs.asked hnew
  · rcases List.mem_append.mp hst' with hold | hst
    · exact .inl hold
    · obtain rfl := List.mem_singleton.mp hst
      exact .inr hspent
  · exact List.mem_append_left _ (hs.sent st' hst')

/-- The commit that finishes a claimed flow. -/
theorem moved_finish (cfg : Settings) {s₁ : State ω} {st : String} (token : String)
    (user : Option GoogleUser) {body : List (Statement (Row ω))} (hs : Once s)
    (hcoord : s₁.coord = s.coord)
    (hbody : ∀ q ∈ body, Still q) (hclaimed : Claimed st s.coord.db.rows) :
    Moved s (s₁.commit (body ++ [finishFlow cfg st token user (s.coord.db.revision + 1)])) := by
  have hdb := commit_rows (body ++ [finishFlow cfg st token user (s.coord.db.revision + 1)]) s₁
  rw [hcoord] at hdb
  have hflows : flows (s₁.commit (body ++ [finishFlow cfg st token user
      (s.coord.db.revision + 1)])).coord.db.rows =
      (flows s.coord.db.rows).map (finish cfg st token user (s.coord.db.revision + 1)) := by
    rw [hdb]
    show flows (execute (body ++ _) _).1 = _
    rw [execute_append]
    refine (flows_setFlow st _ _ _).trans ?_
    rw [flows_execute hbody]
    rfl
  have ha : (Checkpoint.Happening.write false (body ++ [finishFlow cfg st token user
      (s.coord.db.revision + 1)])).apply s.coord = some (s₁.commit (body ++ [finishFlow cfg st token
        user (s.coord.db.revision + 1)])).coord := by
    rw [← hcoord]
    rfl
  refine Moved.of_write false _ hs ha (advances_finish hflows hclaimed) fun st' r hc => ?_
  rcases completed_finish hflows hc with hold | rfl
  · exact .inl hold
  · refine .inr ⟨Nat.lt_succ_self _, ?_⟩
    rw [hdb]

theorem complete_spec {o : Oracle} {st token : String} {user : Option GoogleUser}
    {r : Except Exn Nat} (hs : Once s) (hlock : s.callbackLock = some p)
    (hclaimed : Claimed st s.coord.db.rows) (hsent : user.isSome = true → st ∈ s.asked)
    (hnew : st ∉ s.opened)
    (h : State.answer cfg p o (.completeFlow st token user) s = some (r, s')) :
    Once s' ∧ Mild p s s' ∧ s'.callbackLock = some p := by
  obtain ⟨hbase, hguar⟩ := answer_spec (p := p) (c := .completeFlow st token user) trivial hs.base h
  simp only [State.answer] at h
  split at h
  next =>
    rcases transact_cases (Option.some.inj h) with ⟨rfl, -⟩ | ⟨rfl, -⟩
    · exact ⟨hs, .of_holder hlock hguar rfl (.refl _), hlock⟩
    · have hstill : ∀ q ∈ ([] : List (Statement (Row ω))), Still q := fun _ hq => by cases hq
      have hm := moved_finish cfg token none hs (show s.coord = s.coord from rfl) hstill hclaimed
      exact ⟨hs.quiet hm hbase rfl rfl rfl, .of_holder hlock hguar rfl hm.onward, hlock⟩
  next u =>
    split at h
    · obtain ⟨-, rfl⟩ := Prod.mk.inj (Option.some.inj h)
      exact ⟨hs, .of_holder hlock hguar rfl (.refl _), hlock⟩
    · -- The session is inserted in the same transaction.
      generalize hinsert : insert cfg o u token _ s = a at h
      obtain ⟨r₁, s₂⟩ := a
      obtain ⟨s₁, hcoord, hstartup, hlock₁, hasked, hopened, hcases⟩ := insert_cases hinsert
      have hrecord : Untouched s s₁ := untouched_of_eq hcoord hstartup hlock₁ hasked hopened
      rcases hcases with ⟨rfl, herror⟩ | ⟨body, hbody, rfl, rfl⟩
      · cases r₁ with
        | ok n => exact absurd rfl (herror n)
        | error e =>
            obtain ⟨-, rfl⟩ := Prod.mk.inj (Option.some.inj h)
            have hm : Moved s s₂ := .of_eq hs hcoord
            exact ⟨hs.untouched hm hbase hrecord, .of_holder hlock hguar hstartup hm.onward,
              hlock₁.trans hlock⟩
      · obtain ⟨-, rfl⟩ := Prod.mk.inj (Option.some.inj h)
        have hm := moved_finish cfg token (some u) hs hcoord hbody hclaimed
        have hm' : Moved s { s₁.commit (body ++ [finishFlow cfg st token (some u)
            (s.coord.db.revision + 1)]) with opened := s₁.opened ++ [st] } :=
          ⟨hm.onward, hm.confirmed, hm.start, hm.founded, hm.completed⟩
        refine ⟨hs.moved hm' hbase hstartup ?_ ?_ (fun st' hst' => .inl ?_) fun st' hst' => ?_,
          .of_holder hlock hguar hstartup hm'.onward, hlock₁.trans hlock⟩
        · show s₁.asked.Nodup
          rw [hasked]
          exact hs.asked
        · show (s₁.opened ++ [st]).Nodup
          rw [hopened]
          exact nodup_concat hs.opened hnew
        · exact hasked ▸ hst'
        · show st' ∈ s₁.asked
          rw [hasked]
          rcases List.mem_append.mp (show st' ∈ s₁.opened ++ [st] from hst') with hold | hst
          · rw [hopened] at hold
            exact hs.sent st' hold
          · obtain rfl := List.mem_singleton.mp hst
            exact hsent rfl

end Steps

/-! ### The reading of a flow -/

/-- The flow was completed, and its completion is confirmed or older than the process. -/
def Closed (st : String) (s : State ω) : Prop :=
  ∃ r, Completed st r s.coord.db.rows ∧
    ((r : Int) ≤ s.coord.confirmedRevision ∨ r ≤ s.startupRevision)

/-- What the callback reads of an open flow. -/
theorem readFlow_spec {cfg : Settings} {now : Time} {st browser : String} {s : State ω}
    {d : Decision} (h : readFlow cfg now st browser s = .ok d) :
    BoundIn st (cfg.tokenHash browser) s.coord.db.rows ∧ match d with
      | .recover _ token _ =>
        ¬ Closed st s ∧ token = cfg.hmac browser ("gg-session:" ++ st)
      | .consumed _ => True
      | .fresh flow token =>
        ¬ Closed st s ∧ token = cfg.hmac browser ("gg-session:" ++ st) ∧ flow.state = st := by
  unfold readFlow at h
  split at h
  next => cases h
  next flow hfind =>
    have hstate : flow.state = st := by simpa using List.find?_some hfind
    have hmem : flow ∈ flowsOf st s.coord.db.rows :=
      mem_flowsOf.mpr ⟨List.mem_of_find?_eq_some hfind, hstate⟩
    split at h
    next => cases h
    next hguard =>
      have hbrowser : flow.browserHash = cfg.tokenHash browser := by
        by_contra hne
        exact hguard (.inr (.inl hne))
      refine ⟨⟨flow, hmem, hbrowser⟩, ?_⟩
      simp only at h
      split at h
      next hpending =>
        obtain rfl := Except.ok.inj h
        refine ⟨?_, rfl, hstate⟩
        rintro ⟨r, hc, -⟩
        have hdone := (hc.2 flow hmem).1
        rw [hpending] at hdone
        cases hdone
      next =>
        obtain rfl := Except.ok.inj h
        trivial
      next =>
        obtain rfl := Except.ok.inj h
        trivial
      next =>
        split at h
        next => cases h
        next revision hrevision =>
          split at h
          next => cases h
          next hopen =>
            obtain rfl := Except.ok.inj h
            refine ⟨?_, rfl⟩
            rintro ⟨r, hc, hle⟩
            have hr := (hc.2 flow hmem).2
            rw [hrevision] at hr
            obtain rfl := Option.some.inj hr
            exact hopen hle

/-! ### The programs -/

/-- The contract of a coroutine, with what it owes the login flows. -/
abbrev agreement (cfg : Settings) (ω : Type) (p : Pid) :
    Prog.Contract Call.Out (State ω × Hist ω) :=
  Machine.contract (M := process cfg ω) {} Once Calm Mild p

/-- The calls of a wait, and of the reading of a session. -/
def Waits : Call → Prop
  | .checkpoint _ => True
  | .lookup _ => True
  | _ => False

/-- A call that leaves the flows alone. -/
def Aloof (c : Call) : Prop := Plain c ∨ Waits c

/-- The history has one reading of a flow: of this one, in this state. -/
def Reads (st browser : String) (s₀ : State ω) (h : Hist ω) : Prop :=
  (∃ e ∈ h, e.call = .readFlow st browser ∧ e.found = s₀) ∧
    ∀ e ∈ h, ∀ st' browser', e.call = .readFlow st' browser' →
      st' = st ∧ browser' = browser ∧ e.found = s₀

/-- The history has no reading of a flow. -/
def Unread (h : Hist ω) : Prop := ∀ e ∈ h, ∀ st browser, e.call ≠ .readFlow st browser

theorem Unread.cons {e : Entry Call.Out (State ω)} {h : Hist ω} (hh : Unread h)
    (he : ∀ st browser, e.call ≠ .readFlow st browser) : Unread (e :: h) := by
  intro e' he'
  rcases List.mem_cons.mp he' with rfl | he'
  · exact he
  · exact hh e' he'

theorem Unread.reads {h : Hist ω} (hh : Unread h) {st browser : String} {s₀ : State ω}
    {r : (Call.readFlow st browser).Out} :
    Reads st browser s₀ (⟨.readFlow st browser, r, s₀⟩ :: h) := by
  refine ⟨⟨_, List.mem_cons_self, rfl, rfl⟩, fun e he st' browser' hcall => ?_⟩
  rcases List.mem_cons.mp he with rfl | he
  · obtain ⟨rfl, rfl⟩ := Call.readFlow.inj hcall
    exact ⟨rfl, rfl, rfl⟩
  · exact absurd hcall (hh e he st' browser')

theorem Reads.cons {st browser : String} {s₀ : State ω} {e : Entry Call.Out (State ω)} {h : Hist ω}
    (hh : Reads st browser s₀ h) (he : ∀ st browser, e.call ≠ .readFlow st browser) :
    Reads st browser s₀ (e :: h) := by
  obtain ⟨⟨e₀, he₀, hcall⟩, hall⟩ := hh
  refine ⟨⟨e₀, List.mem_cons_of_mem _ he₀, hcall⟩, fun e' he' st' browser' hcall' => ?_⟩
  rcases List.mem_cons.mp he' with rfl | he'
  · exact absurd hcall' (he st' browser')
  · exact hall e' he' st' browser' hcall'

/-- What the callback has read: an open flow that is bound to its browser. -/
structure Reading (cfg : Settings) (st browser : String) (w : State ω × Hist ω) : Prop where
  reads : ∃ s₀, Reads st browser s₀ w.2 ∧ ¬ Closed st s₀
  bound : ∃ n, Since n (BoundIn st (cfg.tokenHash browser)) w.1.coord

/-- The callback holds its lock, and has read. -/
structure Held (cfg : Settings) (p : Pid) (st browser : String) (w : State ω × Hist ω) : Prop where
  lock : w.1.callbackLock = some p
  reading : Reading cfg st browser w

/-- It has claimed the flow, and no session was opened for it. -/
structure Working (cfg : Settings) (p : Pid) (st browser : String) (w : State ω × Hist ω) : Prop where
  held : Held cfg p st browser w
  claimed : Claimed st w.1.coord.db.rows
  unopened : st ∉ w.1.opened

/-- The code was not sent, and from this revision on the flow is claimed. -/
structure Unsent (st : String) (n : Nat) (s : State ω) : Prop where
  unasked : st ∉ s.asked
  spent : Since n (Spent st) s.coord

section Programs

variable {cfg : Settings} {p : Pid} {α : Type} {st browser : String} {n : Nat}
  {s s' : State ω} {w : State ω × Hist ω} {k : Hist ω}

theorem Reading.next (hw : Reading cfg st browser w) (honward : Onward w.1 s')
    (hreads : ∀ s₀, Reads st browser s₀ w.2 → Reads st browser s₀ k) :
    Reading cfg st browser (s', k) := by
  obtain ⟨⟨s₀, hs₀, hopen⟩, n, hn⟩ := hw
  exact ⟨⟨s₀, hreads s₀ hs₀, hopen⟩, n, honward _ (fun _ _ ha => ha.boundIn _ _) n hn⟩

theorem Held.next (hw : Held cfg p st browser w) (hkeep : Keep p w.1 s') (honward : Onward w.1 s')
    (hreads : ∀ s₀, Reads st browser s₀ w.2 → Reads st browser s₀ k) :
    Held cfg p st browser (s', k) :=
  ⟨hkeep.lock, hw.reading.next honward hreads⟩

theorem Working.next (hw : Working cfg p st browser w) (hkeep : Keep p w.1 s')
    (honward : Onward w.1 s') (hreads : ∀ s₀, Reads st browser s₀ w.2 → Reads st browser s₀ k) :
    Working cfg p st browser (s', k) := by
  refine ⟨hw.held.next hkeep honward hreads, ?_, ?_⟩
  · obtain ⟨f, hf, hstatus⟩ := hw.claimed
    refine ⟨f, ?_, hstatus⟩
    rw [hkeep.flows st (List.ne_nil_of_mem hf)]
    exact hf
  · show st ∉ s'.opened
    rw [hkeep.opened]
    exact hw.unopened

theorem Unsent.next (hs : Unsent st n s) (hkeep : Keep p s s') (honward : Onward s s') :
    Unsent st n s' := by
  refine ⟨?_, honward _ (fun _ _ ha => ha.spent st) n hs.spent⟩
  rw [hkeep.asked]
  exact hs.unasked

/-- An assertion that others keep, and the calls of a wait. -/
structure Stays (p : Pid) (A : State ω × Hist ω → Prop) : Prop where
  calm : ∀ w w', A w → Calm p w.1 w'.1 → w'.2 = w.2 → A w'
  wait : ∀ (c : Call) (w : State ω × Hist ω) (r : c.Out) (s' : State ω), Waits c → A w →
    Moved w.1 s' → Untouched w.1 s' → A (s', ⟨c, r, w.1⟩ :: w.2)

theorem Waits.ne_readFlow {c : Call} (h : Waits c) (st browser : String) :
    c ≠ .readFlow st browser := by
  rintro rfl
  exact h

theorem Stays.working : Stays (ω := ω) p (Working cfg p st browser) where
  calm w w' hw hcalm hh := by
    have hnext := hw.next (k := w'.2) (hcalm.held hw.held.lock) hcalm.onward fun s₀ hr => hh ▸ hr
    exact hnext
  wait c w r s' hc hw hm hu :=
    hw.next (hu.keep hw.held.lock) hm.onward fun _ hr => hr.cons hc.ne_readFlow

theorem Stays.held : Stays (ω := ω) p (Held cfg p st browser) where
  calm w w' hw hcalm hh := by
    have hnext := hw.next (k := w'.2) (hcalm.held hw.lock) hcalm.onward fun s₀ hr => hh ▸ hr
    exact hnext
  wait c w r s' hc hw hm hu :=
    hw.next (hu.keep hw.lock) hm.onward fun _ hr => hr.cons hc.ne_readFlow

theorem Stays.unsent : Stays (ω := ω) p fun w => Working cfg p st browser w ∧ Unsent st n w.1 where
  calm w w' hw hcalm hh :=
    ⟨Stays.working.calm w w' hw.1 hcalm hh, hw.2.next (hcalm.held hw.1.held.lock) hcalm.onward⟩
  wait c w r s' hc hw hm hu :=
    ⟨Stays.working.wait c w r s' hc hw.1 hm hu, hw.2.next (hu.keep hw.1.held.lock) hm.onward⟩

/-- A call that leaves the flows alone, for a coroutine that is known to be safe without them. -/
theorem aloof_spec {o : Oracle} {c : Call} {r : c.Out} (hc : Aloof c) (hs : Once s)
    (h : State.answer cfg p o c s = some (r, s')) (hbase : Inv s') (hguar : Guar p s s') :
    Once s' ∧ Mild p s s' ∧ Moved s s' ∧ Untouched s s' := by
  have hstep : Moved s s' ∧ Untouched s s' := by
    rcases hc with hc | hc
    · exact plain_spec hc hs h
    · cases c with
      | checkpoint c => exact checkpoint_spec hs h hguar
      | lookup token => exact plain_spec (c := .lookup token) trivial hs h
      | createSession _ | revoke _ | startFlow _ | acquireCallback | releaseCallback | readFlow _ _
      | claimFlow _ | exchange _ _ _ _ | completeFlow _ _ _ => exact hc.elim
  exact ⟨hs.untouched hstep.1 hbase hstep.2, .untouched hguar hstep.1 hstep.2, hstep⟩

theorem once_aloof {S : Call → Prop} {prog : Prog Call.Out α} {A : State ω × Hist ω → Prop}
    {post : α → State ω × Hist ω → Prop} (hmakes : prog.Makes S) (hS : ∀ c, S c → Aloof c)
    (hcalm : ∀ w w', A w → Calm p w.1 w'.1 → w'.2 = w.2 → A w')
    (hcall : ∀ (c : Call) (w : State ω × Hist ω) (r : c.Out) (s' : State ω), S c → A w →
      Moved w.1 s' → Untouched w.1 s' → A (s', ⟨c, r, w.1⟩ :: w.2))
    (h : prog.Safe (contract cfg ω p) post w) (hA : A w) :
    prog.Safe (agreement cfg ω p) (fun a w => post a w ∧ A w) w := by
  have hinv : ∀ w, (agreement cfg ω p).inv w → (contract cfg ω p).inv w := fun _ hs => hs.base
  have hrely : ∀ w w', (agreement cfg ω p).rely w w' → (contract cfg ω p).rely w w' :=
    fun _ _ hr => ⟨hr.1.base, hr.2⟩
  refine Prog.Safe.strengthen hmakes hinv hrely (fun w w' hA hr => hcalm w w' hA hr.1 hr.2) ?_ h hA
  rintro c w r ⟨s', h'⟩ hc hA hinv ⟨hK, ⟨o, ho⟩, hh⟩
  refine ⟨⟨hK, ⟨o, ho⟩, hh⟩, fun hbase hguar => ?_⟩
  obtain ⟨honce, hmild, hm, hu⟩ := aloof_spec (hS c hc) hinv ho hbase hguar.1
  refine ⟨honce, ⟨hmild, Machine.Cond.last_trivial p _⟩, ?_⟩
  obtain rfl : h' = ⟨c, r, w.1⟩ :: w.2 := hh
  exact hcall c w r s' hc hA hm hu

/-- A routine of waits, with an assertion that it keeps. -/
theorem once_waits {r : Routine α} {A : State ω × Hist ω → Prop}
    {post : α → State ω × Hist ω → Prop} (hmakes : Makes Waits r) (hA : Stays p A)
    (h : Safe (contract cfg ω p) r post (fun _ _ => True) w) (hw : A w) :
    Safe (agreement cfg ω p) r (fun a w => post a w ∧ A w) (fun _ w => A w) w := by
  refine Prog.Safe.mono (once_aloof hmakes (fun _ => Or.inr) hA.calm hA.wait h hw) ?_
  intro x w hx
  cases x with
  | ok a => exact hx
  | error e => exact hx.2

theorem waits_durable (revision : Nat) : Makes Waits (durable revision) := by
  refine Makes.mono (makes_durable revision) ?_
  rintro c ⟨c', rfl⟩
  trivial

theorem once_durable {A : State ω × Hist ω → Prop} (hA : Stays p A) (hw : A w) (revision : Nat) :
    Safe (agreement cfg ω p) (durable revision)
      (fun _ w => (revision : Int) ≤ w.1.coord.confirmedRevision ∧ A w) (fun _ w => A w) w :=
  once_waits (waits_durable revision) hA (safe_durable revision) hw

theorem waits_user (token : String) : Makes Waits (user token) := by
  refine Makes.bind ⟨trivial, fun _ => trivial⟩ fun rounds => ?_
  generalize (() : Unit) = u
  induction rounds with
  | zero => exact ⟨trivial, fun r => by cases r⟩
  | succ rounds ih =>
      rw [Co.loopFrom]
      refine Makes.bind (Makes.bind ⟨trivial, fun r => ?_⟩ fun f => ?_) fun x => ?_
      · trivial
      · cases f with
        | absent => trivial
        | pending revision => exact Makes.bind (waits_durable revision) fun _ => trivial
        | user id email => trivial
      · cases x with
        | inl a => exact ih
        | inr b => trivial

/-- One call, in the agreement. -/
theorem once_call {c : Call} {k : c.Out → Prog Call.Out α} {post : α → State ω × Hist ω → Prop}
    {A : State ω × Hist ω → Prop} {hist : Hist ω}
    (hcalm : ∀ w w', A w → Calm p w.1 w'.1 → w'.2 = w.2 → A w') (hA : A (s, hist))
    (hk : ∀ s₁ o r s₂, Once s₁ → A (s₁, hist) → State.answer cfg p o c s₁ = some (r, s₂) →
      Once s₂ ∧ Mild p s₁ s₂ ∧
        (k r).Safe (agreement cfg ω p) post (s₂, ⟨c, r, s₁⟩ :: hist)) :
    (Prog.call c k).Safe (agreement cfg ω p) post (s, hist) := by
  rintro ⟨s₁, h₁⟩ hinv ⟨hcalm₁, hh⟩ r ⟨s₂, h₂⟩ ⟨-, ⟨o, ho⟩, hh₂⟩
  obtain rfl : h₁ = hist := hh
  obtain rfl : h₂ = ⟨c, r, s₁⟩ :: h₁ := hh₂
  obtain ⟨hinv₂, hmild, hsafe⟩ := hk s₁ o r s₂ hinv (hcalm _ _ hA hcalm₁ rfl) ho
  exact ⟨hinv₂, ⟨hmild, Machine.Cond.last_trivial p _⟩, hsafe⟩

/-- The token is the one that belongs to the flow and to the browser. -/
def LoggedIn (cfg : Settings) (token : String) (w : State ω × Hist ω) : Prop :=
  ∃ st browser, Reading cfg st browser w ∧ token = cfg.hmac browser ("gg-session:" ++ st)

/-- What the callback answers while it holds its lock. -/
def Answered (cfg : Settings) (p : Pid) (x : String × Option String) (w : State ω × Hist ω) : Prop :=
  w.1.callbackLock = some p ∧ ∀ token, x.2 = some token → LoggedIn cfg token w

/-- The exchange of the code, for a flow that is claimed for good. -/
theorem once_exchange {flow : GoogleFlow} {code error : Option String} {n : Nat}
    (hflow : flow.state = st) (hw : Working cfg p st browser w) (hn : Unsent st n w.1)
    (hconfirmed : (n : Int) ≤ w.1.coord.confirmedRevision) :
    Safe (agreement cfg ω p) (exchange flow code error)
      (fun user w => Working cfg p st browser w ∧ (user.isSome = true → st ∈ w.1.asked))
      (fun _ w => Working cfg p st browser w) w := by
  unfold exchange
  split
  · -- The claim is confirmed, and stays so until the code is sent.
    have hcalm : ∀ w w' : State ω × Hist ω, ((Working cfg p st browser w ∧ Unsent st n w.1) ∧
        (n : Int) ≤ w.1.coord.confirmedRevision) → Calm p w.1 w'.1 → w'.2 = w.2 →
        ((Working cfg p st browser w' ∧ Unsent st n w'.1) ∧
          (n : Int) ≤ w'.1.coord.confirmedRevision) := fun w w' h hc hh =>
      ⟨Stays.unsent.calm w w' h.1 hc hh, Int.le_trans h.2 hc.base.coord.later.confirmed⟩
    obtain ⟨s, hist⟩ := w
    refine once_call hcalm ⟨⟨hw, hn⟩, hconfirmed⟩ ?_
    rintro s₁ o r s₂ honce ⟨⟨hw₁, hn₁⟩, hle⟩ ha
    rw [hflow] at ha
    have hlasting : Lasting (Spent st) s₁ := ⟨n, hn₁.spent, .inl hle⟩
    obtain ⟨honce₂, hmild, rfl⟩ := exchange_spec honce hw₁.held.lock hlasting hn₁.unasked ha
    have hnext : Working cfg p st browser ({ s₁ with asked := s₁.asked ++ [st] },
        ⟨.exchange flow.state (code.getD "") flow.verifier flow.nonce, r, s₁⟩ :: hist) := by
      refine ⟨⟨hw₁.held.lock, hw₁.held.reading.next (.of_log rfl rfl) fun _ hr => ?_⟩, hw₁.claimed,
        hw₁.unopened⟩
      exact hr.cons fun _ _ h => by cases h
    refine ⟨honce₂, hmild, ?_⟩
    cases r with
    | ok user => exact ⟨hnext, fun _ => List.mem_append_right _ (List.mem_singleton_self st)⟩
    | error e => exact hnext
  · exact ⟨hw, fun h => by cases h⟩

/-- The callback after its claim. -/
theorem once_login {flow : GoogleFlow} {token : String} {code error : Option String}
    {claim : Bool × Nat} (hflow : flow.state = st)
    (htoken : token = cfg.hmac browser ("gg-session:" ++ st)) (hheld : Held cfg p st browser w)
    (hclaim : claim.1 = true → Working cfg p st browser w ∧ Unsent st claim.2 w.1) :
    Safe (agreement cfg ω p) (login flow token code error claim) (Answered cfg p)
      (fun _ w => w.1.callbackLock = some p) w := by
  unfold login
  split
  next hclaimed =>
    refine Safe.seq (Safe.mono (once_durable Stays.unsent (hclaim hclaimed) claim.2)
      (fun _ _ h => h) fun _ _ h => h.1.held.lock) ?_
    rintro _ w ⟨hconfirmed, hw, hn⟩
    refine Safe.seq (Safe.mono (once_exchange hflow hw hn hconfirmed) (fun _ _ h => h)
      fun _ _ h => h.held.lock) ?_
    rintro user w ⟨hw, hasked⟩
    refine Safe.seq (Q := fun _ w => Held cfg p st browser w) ?_ fun revision w hw => ?_
    · obtain ⟨s, hist⟩ := w
      have hcalm : ∀ w w' : State ω × Hist ω, (Working cfg p st browser w ∧
          (user.isSome = true → st ∈ w.1.asked)) → Calm p w.1 w'.1 → w'.2 = w.2 →
          (Working cfg p st browser w' ∧ (user.isSome = true → st ∈ w'.1.asked)) := by
        intro w w' h hc hh
        refine ⟨Stays.working.calm w w' h.1 hc hh, fun hsome => ?_⟩
        rw [(hc.held h.1.held.lock).asked]
        exact h.2 hsome
      refine once_call hcalm ⟨hw, hasked⟩ ?_
      rintro s₁ o r s₂ honce ⟨hw₁, hasked₁⟩ ha
      rw [hflow] at ha
      obtain ⟨honce₂, hmild, hlock⟩ :=
        complete_spec honce hw₁.held.lock hw₁.claimed hasked₁ hw₁.unopened ha
      refine ⟨honce₂, hmild, ?_⟩
      have hreading := hw₁.held.reading.next (k := ⟨.completeFlow flow.state token user, r, s₁⟩ :: hist)
        hmild.onward fun _ hr => hr.cons fun _ _ h => by cases h
      cases r with
      | ok revision => exact ⟨hlock, hreading⟩
      | error e => exact hlock
    · refine Safe.seq (Safe.mono (once_durable Stays.held hw revision) (fun _ _ h => h)
        fun _ _ h => h.lock) ?_
      rintro _ w ⟨-, hw⟩
      refine ⟨hw.lock, fun t ht => ?_⟩
      cases user with
      | none => cases ht
      | some u =>
          obtain rfl := Option.some.inj ht
          exact ⟨st, browser, hw.reading, htoken⟩
  next => exact hheld.lock

theorem Stays.lock : Stays (ω := ω) p fun w => w.1.callbackLock = some p where
  calm _ _ h hcalm _ := (hcalm.held h).lock
  wait _ _ _ _ _ h _ hu := hu.lock.trans h

/-- What a callback has once it has read its flow. -/
def Decided (cfg : Settings) (p : Pid) (st browser : String) :
    Decision → State ω × Hist ω → Prop
  | .recover _ token _, w =>
    Held cfg p st browser w ∧ token = cfg.hmac browser ("gg-session:" ++ st)
  | .consumed _, _ => True
  | .fresh flow token, w =>
    Held cfg p st browser w ∧ token = cfg.hmac browser ("gg-session:" ++ st) ∧ flow.state = st

theorem once_callbackLocked {code error : Option String} (hlock : w.1.callbackLock = some p)
    (hunread : Unread w.2) :
    Safe (agreement cfg ω p) (callbackLocked st browser code error) (Answered cfg p)
      (fun _ w => w.1.callbackLock = some p) w := by
  refine Safe.seq
    (Q := fun d w => w.1.callbackLock = some p ∧ Decided cfg p st browser d w) ?_ ?_
  · obtain ⟨s, hist⟩ := w
    have hcalm : ∀ w w' : State ω × Hist ω, (w.1.callbackLock = some p ∧ Unread w.2) →
        Calm p w.1 w'.1 → w'.2 = w.2 → (w'.1.callbackLock = some p ∧ Unread w'.2) :=
      fun w w' h hc hh => ⟨(hc.held h.1).lock, hh ▸ h.2⟩
    refine once_call hcalm ⟨hlock, hunread⟩ ?_
    rintro s₁ o r s₂ honce ⟨hlock₁, hunread₁⟩ ha
    obtain ⟨hbase, hguar⟩ := answer_spec (p := p) (c := .readFlow st browser) trivial honce.base ha
    obtain ⟨honce₂, hmild, -, hu⟩ := aloof_spec (c := .readFlow st browser) (.inl trivial) honce ha
      hbase hguar
    refine ⟨honce₂, hmild, ?_⟩
    simp only [State.answer] at ha
    split at ha <;> obtain ⟨rfl, rfl⟩ := Prod.mk.inj (Option.some.inj ha)
    · generalize hread : readFlow cfg o.now st browser s₁ = d
      cases d with
      | error e => exact hlock₁
      | ok d =>
          obtain ⟨hbound, hd⟩ := readFlow_spec hread
          have hheld : ¬ Closed st s₁ → Held cfg p st browser
              (s₁, ⟨.readFlow st browser, .ok d, s₁⟩ :: hist) := fun hopen =>
            ⟨hlock₁, ⟨s₁, hunread₁.reads, hopen⟩, s₁.coord.db.revision,
              since_now honce.base.coord hbound⟩
          refine ⟨hlock₁, ?_⟩
          cases d with
          | recover returnTo token revision => exact ⟨hheld hd.1, hd.2⟩
          | consumed revision => trivial
          | fresh flow token => exact ⟨hheld hd.1, hd.2⟩
    · exact hlock₁
  · rintro d w ⟨hlock, hd⟩
    cases d with
    | recover returnTo token revision =>
        obtain ⟨hheld, htoken⟩ := hd
        refine Safe.seq (Safe.mono (once_durable Stays.held hheld revision) (fun _ _ h => h)
          fun _ _ h => h.lock) ?_
        rintro _ w ⟨-, hheld⟩
        refine Safe.seq (Safe.mono (once_waits (waits_user token) Stays.held
          (safe_user token) hheld) (fun _ _ h => h) fun _ _ h => h.lock) ?_
        rintro _ w ⟨-, hheld⟩
        refine ⟨hheld.lock, fun t ht => ?_⟩
        obtain rfl := Option.some.inj ht
        exact ⟨st, browser, hheld.reading, htoken⟩
    | consumed revision =>
        refine Safe.seq (once_durable Stays.lock hlock revision) ?_
        rintro _ w ⟨-, hlock⟩
        exact hlock
    | fresh flow token =>
        obtain ⟨hheld, htoken, hflow⟩ := hd
        refine Safe.seq (Q := fun claim w => Held cfg p st browser w ∧ (claim.1 = true →
          Working cfg p st browser w ∧ Unsent st claim.2 w.1)) ?_ ?_
        · obtain ⟨s, hist⟩ := w
          refine once_call Stays.held.calm hheld fun s₁ o r s₂ honce hheld₁ ha => ?_
          obtain ⟨honce₂, hmild, hlock₂, hclaim⟩ := claim_spec honce hheld₁.lock ha
          refine ⟨honce₂, hmild, ?_⟩
          have hheld₂ : Held cfg p st browser (s₂, ⟨.claimFlow st, r, s₁⟩ :: hist) :=
            ⟨hlock₂, hheld₁.reading.next hmild.onward fun _ hr => hr.cons fun _ _ h => by cases h⟩
          cases r with
          | error e => exact hlock₂
          | ok claim =>
              refine ⟨hheld₂, fun hclaimed => ?_⟩
              obtain ⟨hspent, hclaimed, hunasked⟩ := hclaim claim.2 (by rw [← hclaimed])
              exact ⟨⟨hheld₂, hclaimed, fun hopened => hunasked (honce₂.sent st hopened)⟩,
                ⟨hunasked, hspent⟩⟩
        · rintro claim w ⟨hheld, hclaim⟩
          exact once_login hflow htoken hheld hclaim

theorem once_callback {code error : Option String} (hunread : Unread w.2) :
    Safe (agreement cfg ω p) (callback cfg st browser code error)
      (fun x w => ∀ token, x.2 = some token → LoggedIn cfg token w) (fun _ _ => True) w := by
  refine Safe.seq (Q := fun _ w => Unread w.2) ?_ fun _ w hunread => ?_
  · unfold configured
    split
    · exact hunread
    · trivial
  refine Safe.seq (Q := fun _ w => w.1.callbackLock = some p ∧ Unread w.2) ?_ ?_
  · obtain ⟨s, hist⟩ := w
    refine once_call (A := fun w => Unread w.2) (fun w w' h _ hh => hh ▸ h) hunread ?_
    intro s₁ o r s₂ honce hunread₁ ha
    obtain ⟨honce₂, hmild, -, hlock⟩ := acquire_spec honce ha
    refine ⟨honce₂, hmild, ?_⟩
    cases r with
    | ok u => exact ⟨hlock rfl, hunread₁.cons fun _ _ h => by cases h⟩
    | error e => trivial
  rintro _ w ⟨hlock, hunread⟩
  refine Safe.seq (Q := fun r w => w.1.callbackLock = some p ∧ ∀ x token, r = .ok x →
    x.2 = some token → LoggedIn cfg token w) (Safe.attempt ?_) ?_
  · refine Safe.mono (once_callbackLocked hlock hunread) ?_ ?_
    · rintro x w ⟨hlock, htoken⟩
      refine ⟨hlock, fun x' token hx => ?_⟩
      obtain rfl := Except.ok.inj hx
      exact htoken token
    · exact fun _ w hlock => ⟨hlock, fun _ _ hx => by cases hx⟩
  · rintro r w ⟨hlock, htoken⟩
    refine Safe.seq (Q := fun _ w => ∀ x token, r = .ok x → x.2 = some token →
      LoggedIn cfg token w) ?_ fun _ w htoken => ?_
    · obtain ⟨s, hist⟩ := w
      have hcalm : ∀ w w' : State ω × Hist ω, (w.1.callbackLock = some p ∧
          ∀ x token, r = .ok x → x.2 = some token → LoggedIn cfg token w) → Calm p w.1 w'.1 →
          w'.2 = w.2 → (w'.1.callbackLock = some p ∧
          ∀ x token, r = .ok x → x.2 = some token → LoggedIn cfg token w') := by
        rintro w w' ⟨hlock, htoken⟩ hc hh
        refine ⟨(hc.held hlock).lock, fun x token hx ht => ?_⟩
        obtain ⟨st, browser, hreading, heq⟩ := htoken x token hx ht
        exact ⟨st, browser, hreading.next (k := w'.2) hc.onward fun _ hr => hh ▸ hr, heq⟩
      refine once_call hcalm ⟨hlock, htoken⟩ ?_
      rintro s₁ o u s₂ honce ⟨hlock₁, htoken₁⟩ ha
      obtain ⟨honce₂, hmild, -⟩ := release_spec honce hlock₁ ha
      refine ⟨honce₂, hmild, fun x token hx ht => ?_⟩
      obtain ⟨st, browser, hreading, heq⟩ := htoken₁ x token hx ht
      exact ⟨st, browser, hreading.next hmild.onward (fun _ hr => hr.cons fun _ _ h => (by cases h)), heq⟩
    · cases r with
      | ok x => exact fun token ht => htoken x token rfl ht
      | error e => trivial

/-- A start that returns has bound its flow to the browser's secret for good. -/
theorem once_start (returnTo : String) :
    Safe (agreement cfg ω p) (start cfg returnTo)
      (fun x w => Lasting (BoundTo x.state (cfg.tokenHash x.browser)) w.1) (fun _ _ => True) w := by
  refine Safe.seq (Q := fun _ _ => True) ?_ fun _ w _ => ?_
  · unfold configured
    split <;> trivial
  refine Safe.seq (Q := fun x w =>
    Since x.2 (BoundTo x.1.state (cfg.tokenHash x.1.browser)) w.1.coord) ?_ ?_
  · obtain ⟨s, hist⟩ := w
    refine once_call (A := fun _ => True) (fun _ _ _ _ _ => trivial) trivial ?_
    intro s₁ o r s₂ honce _ ha
    obtain ⟨hbase, hguar⟩ := answer_spec (p := p) (c := .startFlow returnTo) trivial honce.base ha
    obtain ⟨honce₂, hmild, -, -⟩ := aloof_spec (c := .startFlow returnTo) (.inl trivial) honce ha
      hbase hguar
    refine ⟨honce₂, hmild, ?_⟩
    rcases startFlow_cases ha with ⟨-, herror⟩ | ⟨hnew, rfl, rfl⟩
    · cases r with
      | ok x => exact absurd rfl (herror x)
      | error e => trivial
    · obtain ⟨-, -, hflows⟩ := start_commit (f := o.flow cfg returnTo) honce hnew rfl
      have hbound : BoundTo o.state (cfg.tokenHash o.browser)
          (s₁.commit [.insert (.flow (o.flow cfg returnTo))]).coord.db.rows := by
        rw [BoundTo, flowsOf_append hflows, hnew, if_pos (show (o.flow cfg returnTo).state = o.state
          from rfl), List.nil_append]
        exact ⟨List.cons_ne_nil _ _, fun f hf => List.mem_singleton.mp hf ▸ rfl⟩
      have hsince := since_now hbase.coord hbound
      rw [commit_rows] at hsince
      exact hsince
  · rintro ⟨x, n⟩ w hsince
    have hstays : Stays (ω := ω) p fun w =>
        Since n (BoundTo x.state (cfg.tokenHash x.browser)) w.1.coord :=
      ⟨fun w w' h hc _ => hc.onward _ (fun _ _ ha => ha.boundTo _ _) n h,
        fun c w r s' _ h hm _ => hm.onward _ (fun _ _ ha => ha.boundTo _ _) n h⟩
    refine Safe.seq (Safe.mono (once_durable hstays hsince n) (fun _ _ h => h) fun _ _ _ => trivial) ?_
    rintro _ w ⟨hconfirmed, hsince⟩
    exact ⟨n, hsince, .inl hconfirmed⟩

end Programs

/-! ### Every run -/

/-- What a coroutine that has returned has been promised about the flows. -/
def Promised (cfg : Settings) (_ : Pid) : Ending → State ω × Hist ω → Prop
  | .started x, w => Lasting (BoundTo x.state (cfg.tokenHash x.browser)) w.1
  | .callback _ (some token), w => LoggedIn cfg token w
  | _, _ => True

section Runs

variable {cfg : Settings} {p : Pid} {st : String} {s s' : State ω}

theorem once_ending {α : Type} {r : Routine α} {f : α → Ending} {w : State ω × Hist ω}
    (h : Safe (agreement cfg ω p) r (fun a w => Promised cfg p (f a) w) (fun _ _ => True) w) :
    (r.ending f).Safe (agreement cfg ω p) (Promised cfg p) w := by
  refine Prog.Safe.bind (Prog.Safe.mono h fun a w hw => ?_)
  cases a with
  | ok a => exact hw
  | error e => trivial

theorem aloof_durable (revision : Nat) : Makes Aloof (durable revision) :=
  Makes.mono (waits_durable revision) fun _ => Or.inr

theorem aloof_create (sub email : String) : Makes Aloof (create sub email) := by
  refine Makes.bind ⟨.inl trivial, fun _ => trivial⟩ fun created => ?_
  exact Makes.bind (aloof_durable created.2) fun _ => trivial

theorem aloof_revoke (token : String) : Makes Aloof (revoke token) :=
  Makes.bind ⟨.inl trivial, fun _ => trivial⟩ fun revision => aloof_durable revision

/-- A program that leaves the flows alone. -/
theorem once_safe {α : Type} {prog : Prog Call.Out α} {post : α → State ω × Hist ω → Prop}
    {w : State ω × Hist ω} (hmakes : prog.Makes Aloof) (h : prog.Safe (contract cfg ω p) post w) :
    prog.Safe (agreement cfg ω p) (fun _ _ => True) w :=
  Prog.Safe.mono (once_aloof (A := fun _ => True) hmakes (fun _ hc => hc) (fun _ _ _ _ _ => trivial)
    (fun _ _ _ _ _ _ _ _ => trivial) h trivial) fun _ _ _ => trivial

theorem once_fine {α : Type} {r : Routine α} (hmakes : Makes Aloof r) (h : Fine cfg ω p r)
    (w : State ω × Hist ω) :
    Safe (agreement cfg ω p) r (fun _ _ => True) (fun _ _ => True) w := by
  refine Prog.Safe.mono (once_safe hmakes (h w)) fun a _ _ => ?_
  cases a <;> trivial

theorem once_job (j : Job) (hs : Once s) :
    (j.program cfg).Safe (agreement cfg ω p) (Promised cfg p) (s, []) := by
  have hunread : Unread ([] : Hist ω) := fun e he => by cases he
  cases j with
  | coordinator j =>
      have hsafe := (Checkpoint.sound.job p j s.coord _ _ hs.base.coord rfl).2.2
      have hcoordinated := @safe_coordinated ω cfg p _ s [] _ (fun _ _ => True)
        (Prog.Safe.mono hsafe fun _ _ _ => trivial)
      have hmakes : (coordinated j.program).Makes Aloof := by
        refine Prog.Makes.mono (Prog.makes_lift _) ?_
        rintro c ⟨c', rfl⟩
        exact .inr trivial
      exact Prog.Safe.bind (once_safe hmakes hcoordinated)
  | create sub email => exact once_ending (once_fine (aloof_create sub email) (Fine.create sub email) _)
  | user token =>
      have hmakes : Makes Aloof (user token) := Makes.mono (waits_user token) fun _ => Or.inr
      exact once_ending (once_fine hmakes (Fine.user token) _)
  | revoke token =>
      have hsafe : Safe (contract cfg ω p) (revoke token) _ _ (s, []) := safe_revoke token
      refine once_ending (Prog.Safe.mono (once_safe (aloof_revoke token) hsafe) fun a _ _ => ?_)
      cases a <;> trivial
  | start returnTo => exact once_ending (once_start returnTo)
  | callback state browser code error =>
      refine once_ending (Safe.mono (once_callback hunread) (fun x w htoken => ?_) fun _ _ h => h)
      obtain ⟨path, token⟩ := x
      cases token with
      | none => trivial
      | some token => exact htoken token rfl

/-- A process that has opened a snapshot with all that was asked for good. -/
theorem once_boot {d : Database (Row ω)} {asked opened : List String} (hasked : asked.Nodup)
    (hopened : opened.Nodup) (hspent : ∀ st ∈ asked, Spent st d.rows)
    (hsent : ∀ st ∈ opened, st ∈ asked) :
    Once { State.boot d with asked := asked, opened := opened } := by
  have hbase := inv_boot d
  refine ⟨⟨hbase.coord, hbase.tracked⟩, ⟨Nat.le_refl _, fun d' hd' => (by cases hd'), ?_⟩, rfl, hasked,
    hopened, fun st hst => lasting_boot (hspent st hst), hsent, fun st r hc => .inl fun _ _ => hc⟩
  intro d' hd'
  obtain rfl := List.mem_singleton.mp hd'
  exact Nat.le_refl _

theorem once_crash {d : Database (Row ω)} (hs : Once s) (hd : d ∈ s.coord.persisted)
    (hle : s.coord.confirmedRevision ≤ (d.revision : Int)) :
    Once { State.boot d with asked := s.asked, opened := s.opened } := by
  refine once_boot hs.asked hs.opened (fun st hst => ?_) hs.sent
  obtain ⟨r, hr, hcases⟩ := hs.spent st hst
  apply hr.recorded (hs.base.coord.persisted d hd)
  rcases hcases with hc | rfl
  · omega
  · exact Nat.zero_le _

/-- Events in the process do not concern the flows. -/
theorem once_event {e : Happening ω} (hs : Once s) (he : e.kills = false) (h : e.apply s = some s') :
    Moved s s' ∧ Untouched s s' := by
  cases e with
  | write skip body =>
      simp only [Happening.apply] at h
      obtain ⟨coord, ha, rfl⟩ := Option.map_eq_some_iff.mp h
      have hflows : flows coord.db.rows = flows s.coord.db.rows := by
        obtain rfl := Option.some.inj ha
        show flows (s.coord.db.write skip _).rows = _
        rw [write_rows]
        apply flows_execute
        intro q hq
        obtain ⟨q', -, rfl⟩ := List.mem_map.mp hq
        exact still_foreign q'
      refine ⟨Moved.of_write skip _ hs ha (.of_eq hflows) fun st r hc => .inl ?_,
        ⟨rfl, rfl, rfl, rfl, fun st _ => flowsOf_of_eq hflows st⟩⟩
      rwa [Completed, flowsOf_of_eq hflows] at hc
  | commitEnds i result =>
      simp only [Happening.apply] at h
      obtain ⟨coord, ha, rfl⟩ := Option.map_eq_some_iff.mp h
      obtain ⟨-, -, -, hpersisted, hcoord, -⟩ := Checkpoint.commitEnds_cases ha
      have hdb : coord.db = s.coord.db := by rw [hcoord]
      have hstart : coord.start = s.coord.start := by rw [hcoord]
      have hpublished : coord.published = s.coord.published := by rw [hcoord]
      have hfounded : Founded coord := by
        refine ⟨?_, fun d hd => ?_, fun d hd => ?_⟩
        · rw [hstart, hdb]
          exact hs.founded.db
        · rw [hstart]
          exact hs.founded.published d (hpublished ▸ hd)
        · rw [hstart]
          rw [hpersisted] at hd
          split at hd
          · rcases List.mem_append.mp hd with hd | hd
            · exact hs.founded.published d (Option.mem_toList.mp hd)
            · exact hs.founded.persisted d hd
          · exact hs.founded.persisted d hd
      have hlater := ((Checkpoint.inv_commitEnds hs.base.coord ha).2 0).later
      refine ⟨⟨.of_log ?_ hstart, hlater.confirmed, hstart, hfounded, fun st r hc => .inl ?_⟩,
        ⟨rfl, rfl, rfl, rfl, fun st _ => ?_⟩⟩
      · show coord.log = _
        rw [hcoord]
      · rwa [show coord.db = s.coord.db from hdb] at hc
      · rw [show coord.db = s.coord.db from hdb]
  | crash i => cases he

theorem sound_once : Machine.Sound (M := process cfg ω) {} Once Calm Mild (Promised cfg) where
  rely_trans _ _ _ _ h h' := h.trans h'
  guar_rely p q s s' hq h :=
    ⟨⟨h.base.coord.others q hq, h.base.follows⟩, h.onward, fun hlock => h.held q hq hlock⟩
  job p j s prog s' hs hj := by
    obtain ⟨rfl, rfl⟩ := Prod.mk.inj (Option.some.inj hj)
    exact ⟨hs, ⟨.refl p s, rfl, .refl s, fun _ _ hlock => .refl hlock⟩, once_job j hs⟩
  event e s s' hs _ he := by
    cases hkill : e.kills with
    | false =>
        obtain ⟨hbase, hrely⟩ := event_spec hs.base hkill he
        obtain ⟨hm, hu⟩ := once_event hs hkill he
        exact ⟨hs.untouched hm hbase hu, fun _ q =>
          ⟨hrely q, hm.onward, fun hlock => hu.keep hlock⟩⟩
    | true =>
        cases e with
        | crash i =>
            obtain ⟨d, hd, hle, rfl⟩ := crash_cases he
            exact ⟨once_crash hs hd hle, fun hfalse => by cases hfalse.symm.trans hkill⟩
        | write skip body => cases hkill
        | commitEnds i result => cases hkill

abbrev Kept (cfg : Settings) (w : System ω) : Prop :=
  Machine.Ok (M := process cfg ω) {} Once Calm Mild (Promised cfg) w

theorem kept_run {d : Database (Row ω)} {acts : List (process cfg ω).Act} {w : System ω}
    (hr : (process cfg ω).run (System.boot d) acts = some w) : Kept cfg w := by
  have hboot : Kept cfg (System.boot d) :=
    ⟨once_boot List.nodup_nil List.nodup_nil (fun _ h => (by cases h)) fun _ h => (by cases h),
      fun _ _ _ _ h => by cases h⟩
  exact sound_once.run Calm.refl hboot (Machine.keeps_trivial _ _) hr

/-- The completion of a closed flow is in every database that a crash can restore. -/
theorem Closed.lasting (hs : Once s) (h : Closed st s) :
    ∃ r, Lasting (Completed st r) s ∧
      ((r : Int) ≤ s.coord.confirmedRevision ∨ r ≤ s.startupRevision) := by
  obtain ⟨r, hc, hle⟩ := h
  refine ⟨r, ?_, hle⟩
  rcases hs.completed st r hc with hzero | ⟨hlt, hr⟩
  · exact ⟨0, hzero, .inr rfl⟩
  · rcases hle with hle | hle
    · exact ⟨r, hr, .inl hle⟩
    · omega

/-- No act and no crash opens a closed flow again. -/
theorem closed_effect (hs : Once s) (hs' : Once s')
    (h : Machine.Effect (M := process cfg ω) {} Once Mild s s') (hc : Closed st s) :
    Closed st s' := by
  obtain ⟨r, hlasting, hle⟩ := hc.lasting hs
  have hstep : Onward s s' → s.coord.confirmedRevision ≤ s'.coord.confirmedRevision →
      s'.startupRevision = s.startupRevision → Closed st s' := by
    intro honward hconfirmed hstartup
    have hnow := (honward.lasting hconfirmed (fun _ _ ha => ha.completed st r) hlasting).now hs'.base
    refine ⟨r, hnow, hle.imp (fun hle => Int.le_trans hle hconfirmed) fun hle => ?_⟩
    rw [hstartup]
    exact hle
  cases h with
  | thread p hmild => exact hstep hmild.onward hmild.base.coord.later.confirmed hmild.startup
  | event e hinv _ he =>
      cases hkill : e.kills with
      | false =>
          obtain ⟨hm, hu⟩ := once_event hinv hkill he
          exact hstep hm.onward hm.confirmed hu.startup
      | true =>
          cases e with
          | crash i =>
              obtain ⟨d, hd, hconfirmed, rfl⟩ := crash_cases he
              -- What is restored is no older than what was confirmed, nor than the last start.
              have hfounded := hs.founded.persisted d hd
              rw [← hs.startup] at hfounded
              obtain ⟨n, hn, hcases⟩ := hlasting
              have hold : n ≤ d.revision := by
                rcases hcases with hc | rfl
                · omega
                · exact Nat.zero_le _
              refine ⟨r, hn.recorded (hs.base.coord.persisted d hd) hold, .inr ?_⟩
              show r ≤ d.revision
              omega
          | write skip body => cases hkill
          | commitEnds i result => cases hkill

theorem closed_run {w w' : System ω} {acts : List (process cfg ω).Act} (hw : Kept cfg w)
    (hr : (process cfg ω).run w acts = some w') (hc : Closed st w.shared) : Closed st w'.shared := by
  induction acts generalizing w with
  | nil =>
      obtain rfl := Option.some.inj hr
      exact hc
  | cons a acts ih =>
      obtain ⟨w₁, hs, hr⟩ := Option.bind_eq_some_iff.mp hr
      obtain ⟨hw₁, heffect⟩ := sound_once.step Calm.refl hw (Machine.meets_trivial _ _) hs
      exact ih hw₁ hr (closed_effect hw.1 hw₁.1 heffect hc)

/-- A lasting property of the flows holds after every further run. -/
theorem onward_run {w w' : System ω} {acts : List (process cfg ω).Act} (hw : Kept cfg w)
    (hr : (process cfg ω).run w acts = some w') {P : List (Row ω) → Prop}
    (hP : ∀ rows rows', Advances rows rows' → P rows → P rows') (hl : Lasting P w.shared) :
    Lasting P w'.shared := by
  refine sound_once.run_rel Calm.refl (G := fun s s' => Lasting P s → Lasting P s') (fun _ h => h)
    (fun _ _ _ hab hbc h => hbc (hab h)) (fun s s' he hl => ?_) hw (Machine.keeps_trivial _ _) hr hl
  cases he with
  | thread p hmild => exact hmild.onward.lasting hmild.base.coord.later.confirmed hP hl
  | event e hinv _ he =>
      cases hkill : e.kills with
      | false =>
          obtain ⟨hm, -⟩ := once_event hinv hkill he
          exact hm.onward.lasting hm.confirmed hP hl
      | true =>
          cases e with
          | crash i =>
              obtain ⟨d, hd, hle, rfl⟩ := crash_cases he
              obtain ⟨r, hr, hcases⟩ := hl
              refine lasting_boot (hr.recorded (hinv.base.coord.persisted d hd) ?_)
              rcases hcases with hc | rfl
              · omega
              · exact Nat.zero_le _
          | write skip body => cases hkill
          | commitEnds i result => cases hkill

/-- A login flow is used once. Its code is sent at most once, and at most one session is
opened for it. A callback that returns a token has read an open flow, the token is the one of
this flow and of its own browser, and the browser is the one that the flow was started for.
A flow whose completion is confirmed, or older than the process, is closed for good. -/
theorem login_once {d : Database (Row ω)} {acts : List (process cfg ω).Act} {w : System ω}
    (hr : (process cfg ω).run (System.boot d) acts = some w) :
    w.shared.asked.Nodup ∧ w.shared.opened.Nodup ∧
    (∀ p o w', (process cfg ω).step w (.call p o) = some w' →
      (∀ path token h, w'.threads p = some ⟨.ret (.callback path (some token)), h⟩ →
        ∃ st browser, (∃ s₀, Reads st browser s₀ h ∧ ¬ Closed st s₀) ∧
          token = cfg.hmac browser ("gg-session:" ++ st)) ∧
      (∀ x h, w'.threads p = some ⟨.ret (.started x), h⟩ →
        ∀ later w₁ q o' w₂, (process cfg ω).run w' later = some w₁ →
          (process cfg ω).step w₁ (.call q o') = some w₂ →
          ∀ path token h browser,
            w₂.threads q = some ⟨.ret (.callback path (some token)), h⟩ →
            (∃ s₀, Reads x.state browser s₀ h) →
            cfg.tokenHash browser = cfg.tokenHash x.browser)) ∧
    (∀ st, Closed st w.shared →
      ∀ later w', (process cfg ω).run w later = some w' → Closed st w'.shared) := by
  have hw := kept_run hr
  refine ⟨hw.1.asked, hw.1.opened, fun p o w' hs => ?_, fun st hc later w' hlater =>
    closed_run hw hlater hc⟩
  have hw' : Kept cfg w' := (sound_once.step Calm.refl hw (Machine.meets_trivial _ _) hs).1
  constructor
  · intro path token h hret
    obtain ⟨st, browser, hreading, heq⟩ :=
      hw.returned Calm.refl (Machine.meets_trivial _ _) hs hret
    exact ⟨st, browser, hreading.reads, heq⟩
  · rintro x h hret later w₁ q o' w₂ hlater hq path token h' browser hret' ⟨s₀, hreads⟩
    have hbound := hw.returned Calm.refl (Machine.meets_trivial _ _) hs hret
    have hw₁ := sound_once.run Calm.refl hw' (Machine.keeps_trivial _ _) hlater
    have hw₂ := (sound_once.step Calm.refl hw₁ (Machine.meets_trivial _ _) hq).1
    obtain ⟨st, browser', hreading, -⟩ := hw₁.returned Calm.refl (Machine.meets_trivial _ _) hq hret'
    -- There is one reading, of this flow by this browser.
    obtain ⟨s₁, ⟨-, hall⟩, -⟩ := hreading.reads
    obtain ⟨⟨e, he, hcall, -⟩, -⟩ := hreads
    obtain ⟨rfl, rfl, -⟩ := hall e he _ _ hcall
    obtain ⟨n, hn⟩ := hreading.bound
    obtain ⟨f, hf, hhash⟩ := hn.db hw₂.1.base.coord
    have hrun : (process cfg ω).run w' (later ++ [.call q o']) = some w₂ := by
      rw [Machine.run_append, hlater, Option.bind_some, Machine.run_singleton]
      exact hq
    have hlasting := onward_run hw' hrun (fun _ _ ha => ha.boundTo _ _) hbound
    exact hhash.symm.trans ((hlasting.now hw₂.1.base).2 f hf)

end Runs

/-! ### One login -/

/-- A login from its start to its session; all but the last call. -/
def loggingIn : List Act :=
  [.start 0 (.start "/")] ++ calls 0 1 ++ waits 0 0 ++
    [.start 1 (.callback "s" "b" (some "code") none)] ++ calls 1 3 ++ waits 1 1 ++ calls 1 2 ++
    waits 1 2

/-- The code is sent once, and the session belongs to the flow and to the browser. -/
theorem login_once_loggingIn :
    ∃ w w', (process plain Unit).run empty loggingIn = some w ∧
      (process plain Unit).step w (.call 1 usual) = some w' ∧
      w.shared.asked = ["s"] ∧ w.shared.opened = ["s"] ∧
      endingIn 1 w' = some (.callback "/" (some browserToken)) ∧ w.shared.asked.Nodup ∧
      ∃ st browser, browserToken = plain.hmac browser ("gg-session:" ++ st) := by
  have hrun : ((process plain Unit).run empty (loggingIn ++ calls 1 1)).map (fun w =>
      (w.shared.asked, w.shared.opened, endingIn 1 w)) =
      some (["s"], ["s"], some (.callback "/" (some browserToken))) := by decide +kernel
  obtain ⟨w', hw', hend⟩ := Option.map_eq_some_iff.mp hrun
  obtain ⟨hasked', hopened', hend⟩ : w'.shared.asked = ["s"] ∧ w'.shared.opened = ["s"] ∧
      endingIn 1 w' = some (.callback "/" (some browserToken)) := by simpa using hend
  obtain ⟨w, hw, hs⟩ := Machine.run_last _ hw'
  have hbefore : ((process plain Unit).run empty loggingIn).map (fun w =>
      (w.shared.asked, w.shared.opened)) = some (["s"], ["s"]) := by decide +kernel
  rw [hw] at hbefore
  obtain ⟨hasked, hopened⟩ : w.shared.asked = ["s"] ∧ w.shared.opened = ["s"] := by
    simpa using hbefore
  obtain ⟨h, hth⟩ := of_endingIn hend
  obtain ⟨hnodup, -, hreturned, -⟩ := login_once hw
  obtain ⟨st, browser, -, heq⟩ := (hreturned 1 usual w' hs).1 _ _ h hth
  exact ⟨w, w', hw, hs, hasked, hopened, hend, hnodup, st, browser, heq⟩

end GgAgent.Sessions
