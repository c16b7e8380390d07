import GgAgent.Backend.Footprint

/-!
What the safety properties share: the contracts of the backend's threads, a rule
for each kind of call, and the runs from the initial state.
-/

namespace GgAgent.Safety

open GgAgent.Lib GgAgent.Backend
open GgAgent.Lib.Co (Makes Safe Keeps)

abbrev Hist := List (Entry Call.Out Shared)

/-- A condition on the acts of the backend. -/
abbrev Cond (cfg : Config) := (backend cfg).Cond

/-- A run from the initial state in which every act meets `K`. -/
structure Reaches (cfg : Config) (K : Cond cfg) (acts : List (Act cfg)) (w : System) : Prop where
  run : (backend cfg).run System.init acts = some w
  keeps : Machine.keeps K System.init acts = true

/-- The state after a ledger call. -/
def after (c : LedgerCall) (s : Shared) : Shared :=
  { s with
    ledger := (c.exec s.clock s.ledger).2
    refused := Shared.refusal c (c.exec s.clock s.ledger).1 ++ s.refused }

/-- The reply to a ledger call. -/
def reply (c : LedgerCall) (s : Shared) : Except Exn c.Out := (c.exec s.clock s.ledger).1

/-- Two states with the same database, snapshots and task ids. -/
structure SameStore (s s' : Shared) : Prop where
  ledger : s'.ledger = s.ledger
  published : s'.published = s.published
  confirmed : s'.confirmed = s.confirmed
  taskIds : s'.taskIds = s.taskIds

theorem SameStore.refl (s : Shared) : SameStore s s := ⟨rfl, rfl, rfl, rfl⟩

theorem sameStore_outside {s s' : Shared} {c : ExtCall} {r : c.Out}
    (h : s.outside c r = some s') : SameStore s s' := by
  unfold Shared.outside Shared.launch at h
  split at h
  · split at h
    · simp at h
    · obtain rfl := Option.some.inj h
      exact ⟨rfl, rfl, rfl, rfl⟩
  · split at h
    · simp at h
    · obtain rfl := Option.some.inj h
      exact ⟨rfl, rfl, rfl, rfl⟩
  · obtain rfl := Option.some.inj h
    exact ⟨rfl, rfl, rfl, rfl⟩
  · split at h <;> obtain rfl := Option.some.inj h <;> exact ⟨rfl, rfl, rfl, rfl⟩
  · obtain rfl := Option.some.inj h
    exact ⟨rfl, rfl, rfl, rfl⟩
  · obtain rfl := Option.some.inj h
    exact .refl s

/-- A call is a transaction, a submission, or it leaves the database and its
snapshots alone. -/
theorem answer_cases {p : Pid} {o : Oracle} {c : Call} {s s' : Shared} {r : c.Out}
    (h : s.answer p o c = some (r, s')) :
    (∃ d, c = .db d ∧ s' = after d s) ∨
      (∃ id q, c = .submit q ∧ Happening.apply (.submit id q) s = some s') ∨
      ((∀ d, c ≠ .db d) ∧ SameStore s s') := by
  cases c with
  | db d =>
      obtain ⟨-, rfl⟩ := Prod.mk.inj (Option.some.inj h)
      exact .inl ⟨d, rfl, rfl⟩
  | submit q =>
      have henrol : s.enrol o.uuid q = some (r, s') := h
      exact .inr (.inl ⟨o.uuid, q, rfl, by simp [Happening.apply, henrol]⟩)
  | ext c =>
      obtain ⟨s₁, hs₁, heq⟩ := Option.map_eq_some_iff.mp h
      obtain ⟨-, rfl⟩ := Prod.mk.inj heq
      exact .inr (.inr ⟨by simp, sameStore_outside hs₁⟩)
  | acquire l =>
      simp only [Shared.answer] at h
      split at h
      · obtain ⟨-, rfl⟩ := Prod.mk.inj (Option.some.inj h)
        exact .inr (.inr ⟨by simp, rfl, rfl, rfl, rfl⟩)
      · simp at h
  | awaitConfirmed n =>
      simp only [Shared.answer] at h
      split at h
      · obtain ⟨-, rfl⟩ := Prod.mk.inj (Option.some.inj h)
        exact .inr (.inr ⟨by simp, .refl s⟩)
      · split at h
        · obtain ⟨-, rfl⟩ := Prod.mk.inj (Option.some.inj h)
          exact .inr (.inr ⟨by simp, .refl s⟩)
        · simp at h
  | never => cases r
  | now | release | ensureLoop | exitLoop | recovered | stopIsSet =>
      obtain ⟨-, rfl⟩ := Prod.mk.inj (Option.some.inj h)
      exact .inr (.inr ⟨by simp, rfl, rfl, rfl, rfl⟩)

/-- A property of the database that its snapshots have as well. -/
structure Everywhere (P : Ledger → Prop) (s : Shared) : Prop where
  ledger : P s.ledger
  published : ∀ l, s.published = some l → P l
  confirmed : ∀ l, s.confirmed = some l → P l

theorem Everywhere.mono {P Q : Ledger → Prop} {s : Shared} (h : Everywhere P s)
    (hPQ : ∀ l, P l → Q l) : Everywhere Q s :=
  ⟨hPQ _ h.ledger, fun l hl => hPQ l (h.published l hl), fun l hl => hPQ l (h.confirmed l hl)⟩

/-- The state after the submission of a task with a new id. -/
def submitted (id : TaskId) (r : Submission) (s : Shared) : Shared :=
  { s with
    ledger := (s.ledger.submit s.clock id r.idempotencyKey r.repository r.prompt r.baseRef
      r.retryOf r.model r.ownerId).2
    taskIds := id :: s.taskIds }

theorem fresh_of_submit {id : TaskId} {r : Submission} {s s' : Shared}
    (h : Happening.apply (.submit id r) s = some s') : id ∉ s.taskIds := by
  intro hid
  simp [Happening.apply, Shared.enrol, hid] at h

theorem apply_submit {id : TaskId} {r : Submission} {s s' : Shared}
    (h : Happening.apply (.submit id r) s = some s') : s' = submitted id r s := by
  have hid := fresh_of_submit h
  simp only [Happening.apply, Shared.enrol, if_neg hid, Option.map_some] at h
  exact (Option.some.inj h).symm

/-- Every task of a database was submitted. -/
def Issued (ids : List TaskId) (l : Ledger) : Prop := ∀ t r, l.tasks.find? t = some r → t ∈ ids

/-- A submission leaves the rows of the other tasks alone. Its own is new. -/
theorem submitted_task {id : TaskId} (r : Submission) {s : Shared} (hinv : Issued s.taskIds s.ledger)
    (hid : id ∉ s.taskIds) (t : TaskId) :
    (submitted id r s).ledger.tasks.find? t = s.ledger.tasks.find? t ∨
      t = id ∧ s.ledger.tasks.find? t = none ∧
        ∃ row : TaskRecord, (submitted id r s).ledger.tasks.find? t = some row ∧
        row.state = .queued ∧ row.outcomeDetail = none ∧ row.sandboxCleanupStatus = none ∧
        row.payloadExpired = false := by
  have hfree : s.ledger.tasks.find? id = none := by
    cases h : s.ledger.tasks.find? id with
    | none => rfl
    | some q => exact absurd (hinv id q h) hid
  obtain ⟨-, -, -, -, heq | ⟨row, hrow, hstate, ho, hc, hp, heq⟩⟩ := submit_cases s.clock s.ledger id
    r.idempotencyKey r.repository r.prompt r.baseRef r.retryOf r.model r.ownerId
  · exact .inl (congrArg (fun T => Table.find? T t) heq)
  · have hkey : key row = id := hrow
    have hfind : (submitted id r s).ledger.tasks.find? t =
        if key row = t then some row else s.ledger.tasks.find? t := by
      rw [← Table.find?_insert (by rw [hkey]; exact hfree)]
      exact congrArg (fun T => Table.find? T t) heq
    by_cases ht : t = id
    · subst ht
      exact .inr ⟨rfl, hfree, row, by rw [hfind, if_pos hkey], hstate, ho, hc, hp⟩
    · exact .inl (by rw [hfind, hkey, if_neg (Ne.symm ht)])

theorem taskIds_event {e : Happening} {s s' : Shared} (h : e.apply s = some s') :
    ∀ t, t ∈ s.taskIds → t ∈ s'.taskIds := by
  intro t ht
  cases e with
  | submit id r =>
      obtain rfl := apply_submit h
      exact List.mem_cons_of_mem _ ht
  | confirm =>
      simp only [Happening.apply] at h
      split at h
      · obtain rfl := Option.some.inj h
        exact ht
      · simp at h
  | requestStop =>
      simp only [Happening.apply] at h
      split at h
      · obtain rfl := Option.some.inj h
        exact ht
      · simp at h
  | restore =>
      simp only [Happening.apply] at h
      split at h
      · obtain ⟨l, -, rfl⟩ := Option.map_eq_some_iff.mp h
        exact ht
      · simp at h
  | tick | recordBaseSha | sandboxEnds | publish | crash =>
      obtain rfl := Option.some.inj h
      exact ht

/-- Of all events only a submission and a resolved base revision write the
database; the others move it between its copies. -/
theorem Everywhere.event {P : Ledger → Prop} {e : Happening} {s s' : Shared}
    (hinv : Everywhere P s) (h : e.apply s = some s')
    (hsubmit : ∀ id r, e = .submit id r → id ∉ s.taskIds → P (submitted id r s).ledger)
    (hsha : ∀ t sha, e = .recordBaseSha t sha → P (after (.recordBaseSha t (some sha)) s).ledger) :
    Everywhere P s' := by
  cases e with
  | submit id r =>
      have hid := fresh_of_submit h
      obtain rfl := apply_submit h
      exact ⟨hsubmit id r rfl hid, hinv.published, hinv.confirmed⟩
  | recordBaseSha t sha =>
      obtain rfl := Option.some.inj h
      exact ⟨hsha t sha rfl, hinv.published, hinv.confirmed⟩
  | publish =>
      obtain rfl := Option.some.inj h
      exact ⟨hinv.ledger, fun l hl => Option.some.inj hl ▸ hinv.ledger, hinv.confirmed⟩
  | confirm =>
      simp only [Happening.apply] at h
      split at h
      next l hl =>
        obtain rfl := Option.some.inj h
        exact ⟨hinv.ledger, by simp, fun l' hl' => Option.some.inj hl' ▸ hinv.published l hl⟩
      next => simp at h
  | requestStop =>
      simp only [Happening.apply] at h
      split at h
      · obtain rfl := Option.some.inj h
        exact ⟨hinv.ledger, hinv.published, hinv.confirmed⟩
      · simp at h
  | restore =>
      simp only [Happening.apply] at h
      split at h
      · obtain ⟨l, hl, rfl⟩ := Option.map_eq_some_iff.mp h
        exact ⟨hinv.confirmed l hl, by simp, hinv.confirmed⟩
      · simp at h
  | crash =>
      obtain rfl := Option.some.inj h
      exact ⟨hinv.ledger, by simp, hinv.confirmed⟩
  | tick | sandboxEnds =>
      obtain rfl := Option.some.inj h
      exact ⟨hinv.ledger, hinv.published, hinv.confirmed⟩

theorem taskIds_answer {p : Pid} {o : Oracle} {c : Call} {s s' : Shared} {r : c.Out}
    (h : s.answer p o c = some (r, s')) : ∀ t, t ∈ s.taskIds → t ∈ s'.taskIds := by
  intro t ht
  obtain ⟨d, -, rfl⟩ | ⟨id, q, -, he⟩ | ⟨-, hsame⟩ := answer_cases h
  · exact ht
  · exact taskIds_event he t ht
  · rw [hsame.taskIds]
    exact ht

/-- Only transactions and submissions bear on what holds of the database everywhere. -/
theorem Everywhere.answer {P : Ledger → Prop} {p : Pid} {o : Oracle} {c : Call} {s s' : Shared}
    {r : c.Out} (hinv : Everywhere P s) (h : s.answer p o c = some (r, s'))
    (hdb : ∀ d, c = .db d → P (after d s).ledger)
    (hsubmit : ∀ id q, c = .submit q → id ∉ s.taskIds → P (submitted id q s).ledger) :
    Everywhere P s' := by
  obtain ⟨d, rfl, rfl⟩ | ⟨id, q, rfl, he⟩ | ⟨-, hsame⟩ := answer_cases h
  · exact ⟨hdb d rfl, hinv.published, hinv.confirmed⟩
  · have hid := fresh_of_submit he
    obtain rfl := apply_submit he
    exact ⟨hsubmit id q rfl hid, hinv.published, hinv.confirmed⟩
  · refine ⟨?_, ?_, ?_⟩
    · rw [hsame.ledger]; exact hinv.ledger
    · rw [hsame.published]; exact hinv.published
    · rw [hsame.confirmed]; exact hinv.confirmed

/-! ### Submitted tasks -/

/-- Only tasks that were submitted are stored, now and in every snapshot. -/
def AllIssued (s : Shared) : Prop := Everywhere (Issued s.taskIds) s

theorem issued_after {ids : List TaskId} {c : LedgerCall} {s : Shared} (h : Issued ids s.ledger) :
    Issued ids (after c s).ledger := by
  intro t r' hr'
  cases hr : s.ledger.tasks.find? t with
  | none =>
      have hnone : (after c s).ledger.tasks.find? t = none := exec_task_none s.clock c hr
      rw [hnone] at hr'
      simp at hr'
  | some r => exact h t r hr

theorem issued_submit {s : Shared} {id : TaskId} {r : Submission} (hinv : Issued s.taskIds s.ledger)
    (hid : id ∉ s.taskIds) : Issued (submitted id r s).taskIds (submitted id r s).ledger := by
  intro t q hq
  obtain hsame | ⟨rfl, -⟩ := submitted_task r hinv hid t
  · rw [hsame] at hq
    exact List.mem_cons_of_mem _ (hinv t q hq)
  · exact List.mem_cons_self

theorem allIssued_event {e : Happening} {s s' : Shared} (hinv : AllIssued s) (h : e.apply s = some s') :
    AllIssued s' := by
  have hids : ∀ t, t ∈ s.taskIds → t ∈ s'.taskIds := taskIds_event h
  refine Everywhere.event (hinv.mono fun l hl t r hr => hids t (hl t r hr)) h ?_ ?_
  · rintro id r rfl hid
    obtain rfl := apply_submit h
    exact issued_submit hinv.ledger hid
  · rintro t sha rfl
    obtain rfl := Option.some.inj h
    exact issued_after hinv.ledger

theorem allIssued_answer {p : Pid} {o : Oracle} {c : Call} {s s' : Shared} {a : c.Out}
    (hinv : AllIssued s) (ha : s.answer p o c = some (a, s')) : AllIssued s' := by
  obtain ⟨d, rfl, rfl⟩ | ⟨id, q, rfl, he⟩ | ⟨-, hsame⟩ := answer_cases ha
  · exact ⟨issued_after hinv.ledger, hinv.published, hinv.confirmed⟩
  · exact allIssued_event hinv he
  · refine ⟨?_, ?_, ?_⟩
    · rw [hsame.taskIds, hsame.ledger]
      exact hinv.ledger
    · rw [hsame.taskIds, hsame.published]
      exact hinv.published
    · rw [hsame.taskIds, hsame.confirmed]
      exact hinv.confirmed

theorem ok_init {cfg : Config} {K D : Cond cfg} {inv : Shared → Prop}
    {rely guar : Pid → Shared → Shared → Prop} {post : Pid → Ending → Shared × Hist → Prop}
    (h : inv Shared.init) : Machine.Ok K inv rely guar post System.init D :=
  ⟨h, by simp [System.init]⟩

theorem allIssued_init : AllIssued Shared.init :=
  ⟨fun _ _ h => by simp [Shared.init, Ledger.empty] at h, by simp [Shared.init],
    by simp [Shared.init]⟩

/-! ### Logs and locks -/

theorem starts_outside {s s' : Shared} {c : ExtCall} {r : c.Out}
    (h : s.outside c r = some s') : s'.refused = s.refused ∧ s'.locks = s.locks ∧
      (s'.starts = s.starts ∨ ∃ request token, c = .startExecution request token ∧
        s'.starts = request.startKey :: s.starts) := by
  unfold Shared.outside Shared.launch at h
  split at h
  · split at h
    · simp at h
    · obtain rfl := Option.some.inj h
      exact ⟨rfl, rfl, .inl rfl⟩
  · split at h
    · simp at h
    · obtain rfl := Option.some.inj h
      exact ⟨rfl, rfl, .inl rfl⟩
  · obtain rfl := Option.some.inj h
    exact ⟨rfl, rfl, .inl rfl⟩
  · split at h <;> obtain rfl := Option.some.inj h <;> exact ⟨rfl, rfl, .inl rfl⟩
  · obtain rfl := Option.some.inj h
    exact ⟨rfl, rfl, .inr ⟨_, _, rfl, rfl⟩⟩
  · obtain rfl := Option.some.inj h
    exact ⟨rfl, rfl, .inl rfl⟩

/-- What happens outside the threads starts nothing and refuses no message. -/
theorem event_traces {e : Happening} {s s' : Shared} (h : e.apply s = some s') :
    s'.starts = s.starts ∧ s'.refused = s.refused ∧ (e.kills = false → s'.locks = s.locks) := by
  cases e with
  | submit id r =>
      obtain rfl := apply_submit h
      exact ⟨rfl, rfl, fun _ => rfl⟩
  | confirm =>
      simp only [Happening.apply] at h
      split at h
      · obtain rfl := Option.some.inj h
        exact ⟨rfl, rfl, fun _ => rfl⟩
      · simp at h
  | requestStop =>
      simp only [Happening.apply] at h
      split at h
      · obtain rfl := Option.some.inj h
        exact ⟨rfl, rfl, fun _ => rfl⟩
      · simp at h
  | restore =>
      simp only [Happening.apply] at h
      split at h
      · obtain ⟨l, -, rfl⟩ := Option.map_eq_some_iff.mp h
        exact ⟨rfl, rfl, fun _ => rfl⟩
      · simp at h
  | crash =>
      obtain rfl := Option.some.inj h
      exact ⟨rfl, rfl, by simp [Happening.kills]⟩
  | tick | recordBaseSha | sandboxEnds | publish =>
      obtain rfl := Option.some.inj h
      exact ⟨rfl, rfl, fun _ => rfl⟩

/-- What happens to the database outside the threads. -/
theorem event_cases {e : Happening} {s s' : Shared} (h : e.apply s = some s') :
    (∃ id r, e = .submit id r ∧ id ∉ s.taskIds ∧ s' = submitted id r s) ∨
      (∃ t sha, e = .recordBaseSha t sha ∧ s' = after (.recordBaseSha t (some sha)) s) ∨
      (∃ l, e = .restore ∧ s.confirmed = some l ∧ s'.ledger = l ∧ s'.taskIds = s.taskIds) ∨
      (s'.ledger = s.ledger ∧ s'.taskIds = s.taskIds) := by
  cases e with
  | submit id r => exact .inl ⟨id, r, rfl, fresh_of_submit h, apply_submit h⟩
  | recordBaseSha t sha => exact .inr (.inl ⟨t, sha, rfl, (Option.some.inj h).symm⟩)
  | restore =>
      simp only [Happening.apply] at h
      split at h
      · obtain ⟨l, hl, rfl⟩ := Option.map_eq_some_iff.mp h
        exact .inr (.inr (.inl ⟨l, rfl, hl, rfl, rfl⟩))
      · simp at h
  | confirm =>
      simp only [Happening.apply] at h
      split at h
      · obtain rfl := Option.some.inj h
        exact .inr (.inr (.inr ⟨rfl, rfl⟩))
      · simp at h
  | requestStop =>
      simp only [Happening.apply] at h
      split at h
      · obtain rfl := Option.some.inj h
        exact .inr (.inr (.inr ⟨rfl, rfl⟩))
      · simp at h
  | tick | sandboxEnds | publish | crash =>
      obtain rfl := Option.some.inj h
      exact .inr (.inr (.inr ⟨rfl, rfl⟩))

/-- A call logs the start request that it sends and the message that it refuses, and
takes no lock away from another thread. -/
theorem answer_traces {p : Pid} {o : Oracle} {c : Call} {s s' : Shared} {a : c.Out}
    (h : s.answer p o c = some (a, s')) :
    (s'.starts = s.starts ∨ ∃ request token, c = .ext (.startExecution request token) ∧
      s'.starts = request.startKey :: s.starts) ∧
    (s'.refused = s.refused ∨ ∃ t q, c = .db (.saveTaskMessageReceipt t q)) ∧
    ((∀ l, c ≠ .release l) → ∀ l q, s.locks l = some q → s'.locks l = some q) := by
  cases c with
  | db d =>
      obtain ⟨-, rfl⟩ := Prod.mk.inj (Option.some.inj h)
      refine ⟨.inl rfl, ?_, fun _ _ _ h => h⟩
      by_cases hsave : ∃ t q, d = .saveTaskMessageReceipt t q
      · obtain ⟨t, q, rfl⟩ := hsave
        exact .inr ⟨t, q, rfl⟩
      · have hnil := refusal_eq_nil (c := d) (fun t q hd => hsave ⟨t, q, hd⟩)
          (d.exec s.clock s.ledger).1
        left
        show Shared.refusal d (d.exec s.clock s.ledger).1 ++ s.refused = s.refused
        rw [hnil]
        rfl
  | submit q =>
      have he : Happening.apply (.submit o.uuid q) s = some s' :=
        Option.map_eq_some_iff.mpr ⟨(a, s'), h, rfl⟩
      obtain ⟨hstarts, hrefused, hlocks⟩ := event_traces he
      exact ⟨.inl hstarts, .inl hrefused, fun _ l q hl => by rw [hlocks rfl]; exact hl⟩
  | ext c =>
      obtain ⟨s₁, hs₁, heq⟩ := Option.map_eq_some_iff.mp h
      obtain ⟨-, rfl⟩ := Prod.mk.inj heq
      obtain ⟨hrefused, hlocks, hstarts⟩ := starts_outside hs₁
      refine ⟨?_, .inl hrefused, fun _ l q hl => by rw [hlocks]; exact hl⟩
      obtain hsame | ⟨request, token, rfl, hcons⟩ := hstarts
      · exact .inl hsame
      · exact .inr ⟨request, token, rfl, hcons⟩
  | acquire l =>
      simp only [Shared.answer] at h
      split at h
      next hfree =>
        obtain ⟨-, rfl⟩ := Prod.mk.inj (Option.some.inj h)
        refine ⟨.inl rfl, .inl rfl, fun _ l' q hl => ?_⟩
        have hne : l' ≠ l := by
          rintro rfl
          rw [hfree] at hl
          simp at hl
        simpa [Function.update_of_ne hne] using hl
      next => simp at h
  | release l =>
      obtain ⟨-, rfl⟩ := Prod.mk.inj (Option.some.inj h)
      exact ⟨.inl rfl, .inl rfl, fun hc => absurd rfl (hc l)⟩
  | awaitConfirmed n =>
      simp only [Shared.answer] at h
      split at h
      · obtain ⟨-, rfl⟩ := Prod.mk.inj (Option.some.inj h)
        exact ⟨.inl rfl, .inl rfl, fun _ _ _ h => h⟩
      · split at h
        · obtain ⟨-, rfl⟩ := Prod.mk.inj (Option.some.inj h)
          exact ⟨.inl rfl, .inl rfl, fun _ _ _ h => h⟩
        · simp at h
  | never => cases a
  | now | ensureLoop | exitLoop | recovered | stopIsSet =>
      obtain ⟨-, rfl⟩ := Prod.mk.inj (Option.some.inj h)
      exact ⟨.inl rfl, .inl rfl, fun _ _ _ h => h⟩

/-! ### Retired tasks -/

/-- A payload that has expired does not come back. -/
theorem hasPayload_after {c : LedgerCall} {s : Shared} {t : TaskId}
    (h : s.ledger.hasPayload t = false) : (after c s).ledger.hasPayload t = false := by
  unfold Ledger.hasPayload at h ⊢
  cases hr : s.ledger.tasks.find? t with
  | none =>
      have hnone : (after c s).ledger.tasks.find? t = none := exec_task_none s.clock c hr
      rw [hnone]
  | some r =>
      rw [hr] at h
      obtain rfl : r.id = t := Table.key_of_find? hr
      obtain ⟨-, -, -, hnone⟩ | ⟨r', hr', hstep⟩ := exec_task s.clock c hr
      · rw [show (after c s).ledger.tasks.find? r.id = none from hnone]
      · rw [show (after c s).ledger.tasks.find? r.id = some r' from hr']
        cases hstep with
        | retire => rfl
        | _ => exact h

/-! ### Starts -/

/-- The programs that run under a name. -/
inductive Started (cfg : Config) : Pid → Prog Call.Out Ending → Prop
  | boot : Started cfg .scheduler (App.lifespan.ending fun _ => .done)
  | cycle : Started cfg .scheduler ((Scheduler.dispatchOnce cfg).ending fun _ => .done)
  | shutdown : Started cfg .scheduler (Scheduler.stop.ending fun _ => .done)
  | iterate (t : TaskId) : Started cfg (.loop t) ((App.activation cfg t).ending .next)
  | message (n : Nat) (t : TaskId) (m : MessageId) (content : String) :
      Started cfg (.request n) ((Manager.sendMessage cfg t m content).ending (.sent t))
  | cancel (n : Nat) (t : TaskId) (ownerId : Option OwnerId) :
      Started cfg (.request n) ((Service.cancel t ownerId).ending (.cancelled t))
  | route (n : Nat) (r : Route) :
      Started cfg (.request n) ((Routes.handle cfg r).ending .answered)

/-- A start is of one of these programs, and at most the phase of the process
changes. -/
theorem start_cases {cfg : Config} {p : Pid} {j : Job} {s s' : Shared}
    {prog : Prog Call.Out Ending} (h : j.start cfg p s = some (prog, s')) :
    Started cfg p prog ∧ ∃ ph, s' = { s with phase := ph } := by
  unfold Job.start at h
  split at h
  case h_8 => simp at h
  all_goals
    split at h
    · obtain ⟨rfl, rfl⟩ := Prod.mk.inj (Option.some.inj h)
      exact ⟨by constructor, _, rfl⟩
    · simp at h

section Rules

variable {cfg : Config} {K D : Cond cfg} {inv : Shared → Prop}
  {rely guar : Pid → Shared → Shared → Prop} {p : Pid} {α : Type}

/-- The obligation of one ledger call, in a thread that owes `D`. -/
theorem safe_db_owing {c : LedgerCall} {post : c.Out → Shared × Hist → Prop}
    {exn : Exn → Shared × Hist → Prop} {s : Shared} {h : Hist}
    (H : ∀ s₁, inv s₁ → rely p s s₁ → K.call p h (.db c) s₁ (reply c s₁) = true →
      inv (after c s₁) ∧ guar p s₁ (after c s₁) ∧ D.call p h (.db c) s₁ (reply c s₁) = true ∧
        match reply c s₁ with
        | .ok a => post a (after c s₁, ⟨.db c, .ok a, s₁⟩ :: h)
        | .error e => exn e (after c s₁, ⟨.db c, .error e, s₁⟩ :: h)) :
    Safe (Machine.contract K inv rely guar p D) (db c) post exn (s, h) := by
  rintro ⟨s₁, h₁⟩ hinv ⟨hrely, hh⟩ r ⟨s₂, h₂⟩ ⟨hK, ⟨o, ho⟩, hh₂⟩
  obtain rfl : h₁ = h := hh
  obtain ⟨hr, hs⟩ := Prod.mk.inj (Option.some.inj ho)
  obtain rfl : reply c s₁ = r := hr
  obtain rfl : after c s₁ = s₂ := hs
  obtain ⟨hinv₂, hguar, hduty, hpost⟩ := H s₁ hinv hrely hK
  obtain rfl : h₂ = _ := hh₂
  refine ⟨hinv₂, ⟨hguar, hduty⟩, ?_⟩
  clear hduty
  revert hpost
  generalize reply c s₁ = r
  intro hpost
  cases r with
  | ok a => exact hpost
  | error e => exact hpost

/-- The obligation of one ledger call. -/
theorem safe_db {c : LedgerCall} {post : c.Out → Shared × Hist → Prop}
    {exn : Exn → Shared × Hist → Prop} {s : Shared} {h : Hist}
    (H : ∀ s₁, inv s₁ → rely p s s₁ → K.call p h (.db c) s₁ (reply c s₁) = true →
      inv (after c s₁) ∧ guar p s₁ (after c s₁) ∧
        match reply c s₁ with
        | .ok a => post a (after c s₁, ⟨.db c, .ok a, s₁⟩ :: h)
        | .error e => exn e (after c s₁, ⟨.db c, .error e, s₁⟩ :: h)) :
    Safe (Machine.contract K inv rely guar p) (db c) post exn (s, h) := by
  refine safe_db_owing fun s₁ hinv hrely hK => ?_
  obtain ⟨hinv₂, hguar, hpost⟩ := H s₁ hinv hrely hK
  exact ⟨hinv₂, hguar, rfl, hpost⟩

/-- The obligation of any other call, in a program that goes on from the reply. -/
theorem safe_call_owing {c : Call} {k : c.Out → Prog Call.Out (Except Exn α)}
    {post : α → Shared × Hist → Prop} {exn : Exn → Shared × Hist → Prop} {s : Shared} {h : Hist}
    (H : ∀ s₁ o r s₂, inv s₁ → rely p s s₁ → K.call p h c s₁ r = true → s₁.answer p o c = some (r, s₂) →
      inv s₂ ∧ guar p s₁ s₂ ∧ D.call p h c s₁ r = true ∧
        Safe (Machine.contract K inv rely guar p D) (ExceptT.mk (k r)) post exn
          (s₂, ⟨c, r, s₁⟩ :: h)) :
    Safe (Machine.contract K inv rely guar p D) (ExceptT.mk (Prog.call c k)) post exn (s, h) := by
  rintro ⟨s₁, h₁⟩ hinv ⟨hrely, hh⟩ r ⟨s₂, h₂⟩ ⟨hK, ⟨o, ho⟩, hh₂⟩
  obtain rfl : h₁ = h := hh
  obtain rfl : h₂ = _ := hh₂
  obtain ⟨hinv₂, hguar, hduty, hk⟩ := H s₁ o r s₂ hinv hrely hK ho
  exact ⟨hinv₂, ⟨hguar, hduty⟩, hk⟩

theorem safe_call {c : Call} {k : c.Out → Prog Call.Out (Except Exn α)}
    {post : α → Shared × Hist → Prop} {exn : Exn → Shared × Hist → Prop} {s : Shared} {h : Hist}
    (H : ∀ s₁ o r s₂, inv s₁ → rely p s s₁ → K.call p h c s₁ r = true → s₁.answer p o c = some (r, s₂) →
      inv s₂ ∧ guar p s₁ s₂ ∧
        Safe (Machine.contract K inv rely guar p) (ExceptT.mk (k r)) post exn
          (s₂, ⟨c, r, s₁⟩ :: h)) :
    Safe (Machine.contract K inv rely guar p) (ExceptT.mk (Prog.call c k)) post exn (s, h) := by
  refine safe_call_owing fun s₁ o r s₂ hinv hrely hK ho => ?_
  obtain ⟨hinv₂, hguar, hk⟩ := H s₁ o r s₂ hinv hrely hK ho
  exact ⟨hinv₂, hguar, rfl, hk⟩

/-- A program whose calls all keep an assertion, and meet what is owed, keeps it. -/
theorem keeps_of_makes_owing {S : Call → Prop} {A : Shared × Hist → Prop} {r : Routine α}
    (hr : Makes S r) (hrely : ∀ s s' h, A (s, h) → rely p s s' → A (s', h))
    (hcall : ∀ c s o a s' h, S c → A (s, h) → inv s → K.call p h c s a = true →
      s.answer p o c = some (a, s') →
      inv s' ∧ guar p s s' ∧ D.call p h c s a = true ∧ A (s', ⟨c, a, s⟩ :: h)) :
    Keeps (Machine.contract K inv rely guar p D) A r := by
  refine fun w hw => Safe.of_makes hr ?_ ?_ hw
  · rintro ⟨s, h⟩ ⟨s', h'⟩ hA ⟨hr, hh⟩
    obtain rfl : h' = h := hh
    exact hrely s s' _ hA hr
  · rintro c ⟨s, h⟩ a ⟨s', h'⟩ hS hA hinv ⟨hK, ⟨o, ho⟩, hh⟩
    obtain rfl : h' = _ := hh
    obtain ⟨hinv', hguar, hduty, hA'⟩ := hcall c s o a s' h hS hA hinv hK ho
    exact ⟨hinv', ⟨hguar, hduty⟩, hA'⟩

/-- A program whose calls all keep an assertion keeps it. -/
theorem keeps_of_makes {S : Call → Prop} {A : Shared × Hist → Prop} {r : Routine α}
    (hr : Makes S r) (hrely : ∀ s s' h, A (s, h) → rely p s s' → A (s', h))
    (hcall : ∀ c s o a s' h, S c → A (s, h) → inv s → K.call p h c s a = true →
      s.answer p o c = some (a, s') → inv s' ∧ guar p s s' ∧ A (s', ⟨c, a, s⟩ :: h)) :
    Keeps (Machine.contract K inv rely guar p) A r := by
  refine keeps_of_makes_owing hr hrely fun c s o a s' h hS hA hinv hK ho => ?_
  obtain ⟨hinv', hguar, hA'⟩ := hcall c s o a s' h hS hA hinv hK ho
  exact ⟨hinv', hguar, rfl, hA'⟩

theorem keeps_call_owing {c : Call} {k : c.Out → Prog Call.Out (Except Exn α)}
    {A : Shared × Hist → Prop} (hrely : ∀ s s' h, A (s, h) → rely p s s' → A (s', h))
    (hcall : ∀ s o a s' h, A (s, h) → inv s → K.call p h c s a = true →
      s.answer p o c = some (a, s') →
      inv s' ∧ guar p s s' ∧ D.call p h c s a = true ∧ A (s', ⟨c, a, s⟩ :: h))
    (hk : ∀ a, Keeps (Machine.contract K inv rely guar p D) A (ExceptT.mk (k a))) :
    Keeps (Machine.contract K inv rely guar p D) A (ExceptT.mk (Prog.call c k)) := by
  rintro ⟨s, h⟩ hA
  refine safe_call_owing fun s₁ o r s₂ hinv hr hK ho => ?_
  obtain ⟨hinv₂, hguar, hduty, hA₂⟩ := hcall s₁ o r s₂ h (hrely s s₁ h hA hr) hinv hK ho
  exact ⟨hinv₂, hguar, hduty, hk r _ hA₂⟩

theorem keeps_call {c : Call} {k : c.Out → Prog Call.Out (Except Exn α)}
    {A : Shared × Hist → Prop} (hrely : ∀ s s' h, A (s, h) → rely p s s' → A (s', h))
    (hcall : ∀ s o a s' h, A (s, h) → inv s → K.call p h c s a = true →
      s.answer p o c = some (a, s') → inv s' ∧ guar p s s' ∧ A (s', ⟨c, a, s⟩ :: h))
    (hk : ∀ a, Keeps (Machine.contract K inv rely guar p) A (ExceptT.mk (k a))) :
    Keeps (Machine.contract K inv rely guar p) A (ExceptT.mk (Prog.call c k)) := by
  refine keeps_call_owing hrely (fun s o a s' h hA hinv hK ho => ?_) hk
  obtain ⟨hinv', hguar, hA'⟩ := hcall s o a s' h hA hinv hK ho
  exact ⟨hinv', hguar, rfl, hA'⟩

theorem keeps_withLock_owing {A : Shared × Hist → Prop} {l : Lock} {body : Routine α}
    (hrely : ∀ s s' h, A (s, h) → rely p s s' → A (s', h))
    (hcall : ∀ c s o a s' h, c = .acquire l ∨ c = .release l → A (s, h) → inv s →
      K.call p h c s a = true → s.answer p o c = some (a, s') →
      inv s' ∧ guar p s s' ∧ D.call p h c s a = true ∧ A (s', ⟨c, a, s⟩ :: h))
    (hb : Keeps (Machine.contract K inv rely guar p D) A body) :
    Keeps (Machine.contract K inv rely guar p D) A (withLock l body) := by
  refine Keeps.bind (keeps_call_owing hrely (fun s o a s' h => hcall _ s o a s' h (.inl rfl))
    fun _ => Keeps.pure _) fun _ => ?_
  refine Keeps.bind hb.attempt fun r => ?_
  refine Keeps.bind (keeps_call_owing hrely (fun s o a s' h => hcall _ s o a s' h (.inr rfl))
    fun _ => Keeps.pure _) fun _ => ?_
  cases r with
  | ok a => exact Keeps.pure a
  | error e => exact Keeps.throw e

theorem keeps_withLock {A : Shared × Hist → Prop} {l : Lock} {body : Routine α}
    (hrely : ∀ s s' h, A (s, h) → rely p s s' → A (s', h))
    (hcall : ∀ c s o a s' h, c = .acquire l ∨ c = .release l → A (s, h) → inv s →
      K.call p h c s a = true → s.answer p o c = some (a, s') →
      inv s' ∧ guar p s s' ∧ A (s', ⟨c, a, s⟩ :: h))
    (hb : Keeps (Machine.contract K inv rely guar p) A body) :
    Keeps (Machine.contract K inv rely guar p) A (withLock l body) := by
  refine keeps_withLock_owing hrely (fun c s o a s' h hl hA hinv hK ho => ?_) hb
  obtain ⟨hinv', hguar, hA'⟩ := hcall c s o a s' h hl hA hinv hK ho
  exact ⟨hinv', hguar, rfl, hA'⟩

theorem keeps_loop {σ β : Type} {E : Prog.Contract Call.Out σ} {A : σ → Prop} {a : α}
    {body : α → Routine (α ⊕ β)} (hr : Keeps E A (ext .rounds)) (hb : ∀ a, Keeps E A (body a)) :
    Keeps E A (loop a body) := by
  refine Keeps.bind hr fun n => ?_
  induction n generalizing a with
  | zero => exact fun w _ s₁ _ _ r => by cases r
  | succ n ih =>
      refine Keeps.bind (hb a) fun x => ?_
      cases x with
      | inl a => exact ih
      | inr b => exact Keeps.pure b

/-- A job's program is safe when its routine is. -/
theorem safe_ending {r : Routine α} {f : α → Ending} {post : Ending → Shared × Hist → Prop}
    {w : Shared × Hist}
    (h : Safe (Machine.contract K inv rely guar p D) r (fun a => post (f a))
      (fun e => post (.raised e)) w) :
    (r.ending f).Safe (Machine.contract K inv rely guar p D) post w := by
  refine Prog.Safe.bind (Prog.Safe.mono h fun a w hw => ?_)
  cases a with
  | ok a => exact hw
  | error e => exact hw

end Rules

/-! ### Concrete runs -/

/-- A deployment of one slot, without web accounts. -/
def demo : Config where
  deployment := "demo"
  sandboxName := fun _ => "gg-demo"
  capacity := 1
  admissionEnabled := true
  hasVault := false
  hasVerifier := false
  hasAuthorization := false
  eventPayload := fun e _ => e.kind
  terminalRetention := days 30
  tombstoneRetention := days 90

/-- The answers of an outside in which everything works. -/
def working : (c : ExtCall) → c.Out
  | .providerCreate _ _ _ => .created 1
  | .providerFromId _ => .ok ()
  | .providerFind _ => .ok []
  | .providerPoll _ => .ok none
  | .providerWaitUntilReady _ => .ok ()
  | .providerConnectToken _ => .ok true
  | .providerTerminate _ => ⟨.ok (), true⟩
  | .providerSync _ => .ok ()
  | .providerDetach _ => .ok ()
  | .providerDeleteWorkspace _ => .ok ()
  | .vaultResolve _ => .ok (some ("sk", 1))
  | .verifyKey _ => .ok ()
  | .repositoryCredential _ _ _ => .ok ("token", "sha")
  | .repositoryResolve _ _ _ => .ok "sha"
  | .tokenUrlsafe => "session"
  | .startExecution _ _ => .ok ⟨1, .accepted, none, none⟩
  | .getExecution _ _ => .ok ⟨1, .runningAgent, none, none⟩
  | .getManifest _ _ => .error (.httpStatus 404 none "not found")
  | .fetchManifest _ _ => .ok none
  | .conversationEvents _ _ _ _ => .ok .notFound
  | .cancelConversation _ _ => .ok ()
  | .admissionPressure => false
  | .storagePressure => none
  | .maintenanceDue => false
  | .rounds => 2

def fine : Oracle := { ext := working, durable := true }

/-- `n` calls of one thread, all answered by `o`. -/
def calls (p : Pid) (n : Nat) (o : Oracle) : List (Act demo) := List.replicate n (.call p o)

def snapshot : List (Act demo) := [.event .publish, .event .confirm]

def request : Submission := ⟨"key", none, "prompt", none, none, "model", none⟩

/-- The process starts on an empty database. -/
def started : List (Act demo) :=
  snapshot ++ [.start .scheduler .boot] ++ calls .scheduler 5 fine ++ snapshot ++
    calls .scheduler 3 fine

/-- Then task 1 is submitted and gets sandbox 1. -/
def provisioned : List (Act demo) :=
  started ++ [.event (.submit 1 request), .start .scheduler .cycle] ++ calls .scheduler 1 fine ++
    snapshot ++ calls .scheduler 4 fine ++ snapshot ++ calls .scheduler 12 fine ++ snapshot ++
    calls .scheduler 8 fine ++ snapshot ++ calls .scheduler 4 fine ++ snapshot ++
    calls .scheduler 6 fine

/-- Then the next cycle starts its supervision loop. -/
def supervised : List (Act demo) :=
  provisioned ++ [.start .scheduler .cycle] ++ calls .scheduler 1 fine ++ snapshot ++
    calls .scheduler 12 fine ++ snapshot ++ calls .scheduler 8 fine

/-- The state of a task at the end of a run. -/
def taskState (t : TaskId) (w : Option System) : Option TaskState :=
  w.bind fun w => (w.shared.ledger.tasks.find? t).map TaskRecord.state

theorem of_taskState {t : TaskId} {o : Option System} {st : TaskState}
    (h : taskState t o = some st) :
    ∃ w r, o = some w ∧ w.shared.ledger.tasks.find? t = some r ∧ r.state = st := by
  obtain ⟨w, hw, h⟩ := Option.bind_eq_some_iff.mp h
  obtain ⟨r, hr, hst⟩ := Option.map_eq_some_iff.mp h
  exact ⟨w, r, hw, hr, hst⟩

/-- The second half of a run that goes on from the first. -/
theorem run_of_append {cfg : Config} {w w' : System} {as bs : List (Act cfg)}
    (hw : (backend cfg).run System.init as = some w)
    (hw' : (backend cfg).run System.init (as ++ bs) = some w') :
    (backend cfg).run w bs = some w' :=
  Machine.run_rest _ hw hw'

/-- The last act of a run. -/
theorem step_of_append {cfg : Config} {w w' : System} {as : List (Act cfg)} {a : Act cfg}
    (hw : (backend cfg).run System.init as = some w)
    (hw' : (backend cfg).run System.init (as ++ [a]) = some w') :
    (backend cfg).step w a = some w' := by
  rw [← Machine.run_singleton]
  exact run_of_append hw hw'

/-- The sandbox refuses to start for want of a model key. -/
def unstarted : Oracle :=
  { fine with ext := fun c =>
      match c with
      | .startExecution _ _ =>
        .error (.httpStatus 503 (some "OPENROUTER_API_KEY is required for Pi") "503")
      | c => working c }

/-- The provider knows no sandbox. -/
def gone : Oracle :=
  { fine with ext := fun c =>
      match c with
      | .providerFromId _ => .error .providerNotFound
      | c => working c }

/-- The loop of task 1 has started an execution and follows it. -/
def executing : List (Act demo) :=
  supervised ++ [.start (.loop 1) .iterate] ++ calls (.loop 1) 13 fine ++ snapshot ++
    calls (.loop 1) 6 fine

/-- The execution has completed, and its checks have passed. -/
def passed : Oracle :=
  { fine with ext := fun c =>
      match c with
      | .getExecution _ _ => .ok ⟨1, .completed, none, none⟩
      | .fetchManifest _ _ => .ok (some ⟨none, .passed, .succeeded, none⟩)
      | c => working c }

/-- Task 1 has run to a successful end and has been idle for 45 minutes. -/
def idled : List (Act demo) :=
  supervised ++ [.start (.loop 1) .iterate] ++ calls (.loop 1) 13 passed ++ snapshot ++
    calls (.loop 1) 8 passed ++ [.start (.loop 1) .iterate] ++ calls (.loop 1) 15 passed ++
    [.event (.tick (minutes 45))]

/-- Its loop marks it as sleeping and is about to terminate the sandbox. -/
def parking : List (Act demo) :=
  [.start (.loop 1) .iterate] ++ calls (.loop 1) 18 passed ++ snapshot ++ calls (.loop 1) 12 passed

/-- The sandbox is terminated and the reservation released. -/
def parkedAway : List (Act demo) := calls (.loop 1) 1 passed ++ calls (.loop 1) 5 gone

/-- Task 1 has been put to sleep. -/
def slept : List (Act demo) := idled ++ parking ++ parkedAway

/-- Meanwhile a cycle of the scheduler has read the state `IDLE` and writes it back
before the release. -/
def raced : List (Act demo) :=
  idled ++ [.start .scheduler .cycle] ++ calls .scheduler 1 passed ++ snapshot ++
    calls .scheduler 10 passed ++ parking ++ calls .scheduler 1 passed ++ parkedAway ++
    calls .scheduler 1 passed ++ snapshot ++ calls .scheduler 7 passed

/-- The loop of task 1 fails the task, up to the write of `FAILED`. -/
def failing : List (Act demo) :=
  supervised ++ [.start (.loop 1) .iterate] ++ calls (.loop 1) 13 unstarted ++ snapshot ++
    calls (.loop 1) 3 unstarted

end GgAgent.Safety
