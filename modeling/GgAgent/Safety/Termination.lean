import GgAgent.Safety.Terminal
import GgAgent.Safety.Rounds

/-!
A reservation that waits for termination waits until it is deleted.

The phase of a reservation is written by the scheduler and by the loop of its
task. Only the loop decides that a sandbox is to be terminated; the scheduler
repeats the phase when it has read it. Every other phase is written by somebody
who has read, or written, another one before, and it is the time in between, and
the handler of the loop, that can forget a termination.
-/

namespace GgAgent.Safety

open GgAgent.Lib GgAgent.Backend
open GgAgent.Lib.Co (Makes Safe Keeps)

/-- The reservation of `t`, if there is one, waits for termination. -/
def Terminating (t : TaskId) (s : Shared) : Prop :=
  ∀ q, s.ledger.reservations.find? t = some q → q.phase = .terminationPending

/-- The reservation of `t`, if there is one, does not wait for termination. -/
def standing (t : TaskId) (l : Ledger) : Bool :=
  (l.reservations.find? t).all fun q => q.phase ≠ .terminationPending

def Standing (t : TaskId) (s : Shared) : Prop := standing t s.ledger = true

theorem standing_iff {t : TaskId} {s : Shared} :
    Standing t s ↔ ∀ q, s.ledger.reservations.find? t = some q → q.phase ≠ .terminationPending := by
  unfold Standing standing
  cases s.ledger.reservations.find? t with
  | none => simp
  | some q => simp

theorem standing_of_none {t : TaskId} {s : Shared} (h : s.ledger.reservations.find? t = none) :
    Standing t s := by
  simp [Standing, standing, h]

/-! ### The condition -/

/-- The phase of the reservation of `t` in the reply of a call. -/
def phaseSeen (t : TaskId) : Entry Call.Out Shared → Option ReservationPhase
  | ⟨.db .listReservations, .ok rs, _⟩ =>
    (rs.find? fun q => q.taskId = t).map ReservationRecord.phase
  | ⟨.db (.getReservation t'), .ok (some q), _⟩ => if t' = t then some q.phase else none
  | ⟨.db (.reserveNext _), .ok (some r), _⟩ => if r.id = t then some .starting else none
  | _ => none

/-- The phase in which a thread last saw the reservation of `t`. -/
def lastPhase (t : TaskId) (h : Hist) : Option ReservationPhase := h.findSome? (phaseSeen t)

/-- What a call records of the sandbox of `t`. -/
def observation (t : TaskId) : Entry Call.Out Shared → Option SandboxProviderState
  | ⟨.db (.updateSandboxCreation t' _ st _), .ok _, _⟩ => if t' = t then some st else none
  | _ => none

/-- What a thread has last recorded of the sandbox of `t`. -/
def lastObservation (t : TaskId) (h : Hist) : Option SandboxProviderState :=
  h.findSome? (observation t)

/-- The task whose sandbox a thread looks at. -/
def lookedUp (h : Hist) : Option TaskId :=
  h.findSome? fun e =>
    match e with
    | ⟨.db (.getSandboxCreation t), _, _⟩ => some t
    | _ => none

/-- A reservation that the scheduler has seen in another phase does not wait for
termination when it writes a phase for it; one that waits is not read when the
provider's state is unknown, and the provider does not show two sandboxes for it.
The loop's wait for a confirmed snapshot does not fail while its reservation
waits for termination. -/
def terminationRespected (cfg : Config) : Cond cfg where
  call p h c s a :=
    match p, c, a with
    | .scheduler, .db (.updateReservation t phase _ _), _ =>
      phase = .terminationPending || lastPhase t h = some .terminationPending ||
        standing t s.ledger
    | .scheduler, .db (.getReservation t), _ =>
      lastObservation t h ≠ some .unknown || standing t s.ledger
    | .scheduler, .ext (.providerFind _), .ok (_ :: _ :: _) =>
      (lookedUp h).all fun t => lastPhase t h ≠ some .terminationPending
    | .loop t, .awaitConfirmed _, .error _ => standing t s.ledger
    | _, _, _ => true
  event e s :=
    match e with
    | .restore => s.confirmed.all fun l => s.ledger.reservations.rows.all fun q =>
        q.phase ≠ .terminationPending ||
          (l.reservations.find? q.taskId).all fun q' => q'.phase = .terminationPending
    | _ => true

/-! ### One call -/

/-- A termination that waits goes on waiting until the reservation is gone. -/
def Sticks (s s' : Shared) : Prop := ∀ t, ¬ Standing t s → Terminating t s'

/-- The identity of the sandbox of `t` is stored, or nobody waits for its termination. -/
def Identified (t : TaskId) (s : Shared) : Prop :=
  (s.ledger.creations.find? t).isSome = true ∨ Standing t s

/-- What a step of `p` owes the others. -/
structure Respects (p : Pid) (s s' : Shared) : Prop where
  sticks : Sticks s s'
  /-- Only the loop of a task begins its termination. -/
  standing : ∀ t, p ≠ .loop t → Standing t s → Standing t s'
  /-- Only the scheduler makes reservations, and deletes identities. -/
  none : p ≠ .scheduler → ∀ t, s.ledger.reservations.find? t = none →
    s'.ledger.reservations.find? t = none
  creation : p ≠ .scheduler → ∀ t, (s.ledger.creations.find? t).isSome = true →
    (s'.ledger.creations.find? t).isSome = true
  identified : ∀ t, p ≠ .loop t → Identified t s → Identified t s'

/-- What `p` relies on. -/
structure Relies (p : Pid) (s s' : Shared) : Prop where
  standing : ∀ t, p = .loop t → Standing t s → Standing t s'
  identified : ∀ t, p = .loop t → Identified t s → Identified t s'
  terminating : p = .scheduler → ∀ t, Terminating t s → Terminating t s'
  creation : p = .scheduler → ∀ t, (s.ledger.creations.find? t).isSome = true →
    (s'.ledger.creations.find? t).isSome = true

theorem Relies.refl (p : Pid) (s : Shared) : Relies p s s :=
  ⟨fun _ _ h => h, fun _ _ h => h, fun _ _ h => h, fun _ _ h => h⟩

theorem Relies.trans {p : Pid} {a b c : Shared} (hab : Relies p a b) (hbc : Relies p b c) :
    Relies p a c :=
  ⟨fun t hp h => hbc.standing t hp (hab.standing t hp h),
    fun t hp h => hbc.identified t hp (hab.identified t hp h),
    fun hp t h => hbc.terminating hp t (hab.terminating hp t h),
    fun hp t h => hbc.creation hp t (hab.creation hp t h)⟩

theorem Terminating.sticks {t : TaskId} {s s' : Shared} (h : Terminating t s) (hs : Sticks s s')
    (hnone : s.ledger.reservations.find? t = none → s'.ledger.reservations.find? t = none) :
    Terminating t s' := by
  cases hq : s.ledger.reservations.find? t with
  | none =>
      intro q' hq'
      rw [hnone hq] at hq'
      simp at hq'
  | some q =>
      refine hs t fun hstand => ?_
      exact standing_iff.mp hstand q hq (h q hq)

theorem Respects.relies {p q : Pid} {s s' : Shared} (hpq : q ≠ p) (h : Respects p s s') :
    Relies q s s' where
  standing t hq := h.standing t (hq ▸ hpq.symm)
  identified t hq := h.identified t (hq ▸ hpq.symm)
  terminating hq t ht := ht.sticks h.sticks (h.none (hq ▸ hpq.symm) t)
  creation hq := h.creation (hq ▸ hpq.symm)

/-- Two states with the same reservations and sandbox identities. -/
structure SameRows (s s' : Shared) : Prop where
  reservations : s'.ledger.reservations = s.ledger.reservations
  creations : s'.ledger.creations = s.ledger.creations

/-- Only a restore writes reservations and identities from outside. -/
theorem same_event {e : Happening} {s s' : Shared} (h : e.apply s = some s')
    (hne : e ≠ .restore) : SameRows s s' := by
  cases e with
  | submit id r =>
      obtain rfl := apply_submit h
      obtain ⟨hres, hcre, -⟩ := submit_cases s.clock s.ledger id r.idempotencyKey r.repository
        r.prompt r.baseRef r.retryOf r.model r.ownerId
      exact ⟨hres, hcre⟩
  | recordBaseSha t sha =>
      obtain rfl := Option.some.inj h
      have hframe := exec_frame s.clock (.recordBaseSha t (some sha)) s.ledger
      exact ⟨hframe.reservations rfl, hframe.creations rfl⟩
  | confirm =>
      simp only [Happening.apply] at h
      split at h
      · obtain rfl := Option.some.inj h
        exact ⟨rfl, rfl⟩
      · simp at h
  | requestStop =>
      simp only [Happening.apply] at h
      split at h
      · obtain rfl := Option.some.inj h
        exact ⟨rfl, rfl⟩
      · simp at h
  | restore => exact absurd rfl hne
  | tick | sandboxEnds | publish | crash =>
      obtain rfl := Option.some.inj h
      exact ⟨rfl, rfl⟩

/-- Of all calls only transactions write reservations and identities. -/
theorem answer_rows {p : Pid} {o : Oracle} {c : Call} {s s' : Shared} {r : c.Out}
    (h : s.answer p o c = some (r, s')) :
    (∃ d, c = .db d ∧ s' = after d s) ∨ ((∀ d, c ≠ .db d) ∧ SameRows s s') := by
  obtain hdb | ⟨id, q, rfl, he⟩ | ⟨hc, hsame⟩ := answer_cases h
  · exact .inl hdb
  · exact .inr ⟨by simp, same_event he (by simp)⟩
  · exact .inr ⟨hc, by rw [hsame.ledger], by rw [hsame.ledger]⟩

theorem Respects.of_sameRows {p : Pid} {s s' : Shared} (h : SameRows s s') :
    Respects p s s' := by
  have hstand : ∀ t, Standing t s' ↔ Standing t s := fun t => by
    simp only [Standing, Safety.standing, h.reservations]
  refine ⟨fun t ht q hq => ?_, fun t _ ht => (hstand t).mpr ht, fun _ t ht => ?_, fun _ t ht => ?_,
    fun t _ ht => ?_⟩
  · by_contra hne
    rw [h.reservations] at hq
    refine ht (standing_iff.mpr fun q' hq' => ?_)
    obtain rfl := Option.some.inj (hq.symm.trans hq')
    exact hne
  · rw [h.reservations]
    exact ht
  · rw [h.creations]
    exact ht
  · rw [Identified, hstand, h.creations]
    exact ht

/-- When a call respects what waits for termination. -/
def Allowed (p : Pid) (c : LedgerCall) (s : Shared) : Prop :=
  match c with
  | .updateReservation t phase _ _ =>
    if phase = .terminationPending then p = .loop t ∨ Terminating t s else Standing t s
  | .reserveNext _ | .expireTerminalPayloads _ _ => p = .scheduler
  | _ => True

section Calls

variable {p : Pid} {c : LedgerCall} {s : Shared}

theorem sticks_after (hc : Allowed p c s) : Sticks s (after c s) := by
  intro t ht q' hq'
  have hstep := exec_reservation s.clock c s.ledger t
  rw [show (c.exec s.clock s.ledger).2.reservations.find? t = some q' from hq'] at hstep
  generalize hx : some q' = x at hstep
  cases hstep with
  | same =>
      by_contra hne
      refine ht (standing_iff.mpr fun q hq => ?_)
      obtain rfl := Option.some.inj (hx.trans hq)
      exact hne
  | claim n r hr hqueued hnone => exact absurd (standing_of_none hnone) ht
  | update phase d st q hq =>
      obtain rfl := Option.some.inj hx
      by_contra hne
      have hphase : phase ≠ .terminationPending := hne
      simp only [Allowed, hphase, if_false] at hc
      exact ht hc
  | release | lost => simp at hx

theorem standing_after (hc : Allowed p c s) {t : TaskId} (hp : p ≠ .loop t) (ht : Standing t s) :
    Standing t (after c s) := by
  refine standing_iff.mpr fun q' hq' => ?_
  have hstep := exec_reservation s.clock c s.ledger t
  rw [show (c.exec s.clock s.ledger).2.reservations.find? t = some q' from hq'] at hstep
  generalize hx : some q' = x at hstep
  cases hstep with
  | same => exact standing_iff.mp ht q' hx.symm
  | claim =>
      obtain rfl := Option.some.inj hx
      simp
  | update phase d st q hq =>
      obtain rfl := Option.some.inj hx
      intro hphase
      have hphase' : phase = .terminationPending := hphase
      simp only [Allowed, hphase', if_true] at hc
      exact standing_iff.mp ht q hq ((hc.resolve_left hp) q hq)
  | release | lost => simp at hx

theorem none_after (hc : Allowed p c s) (hp : p ≠ .scheduler) {t : TaskId}
    (ht : s.ledger.reservations.find? t = none) :
    (after c s).ledger.reservations.find? t = none := by
  have hstep := exec_reservation s.clock c s.ledger t
  rw [show (c.exec s.clock s.ledger).2.reservations.find? t =
    (after c s).ledger.reservations.find? t from rfl] at hstep
  generalize (after c s).ledger.reservations.find? t = x at hstep
  cases hstep with
  | same => exact ht
  | claim => exact absurd hc hp
  | update phase d st q hq => simp [ht] at hq
  | release | lost => rfl

/-- An identity is deleted only by retention, and only while nothing is reserved. -/
theorem creation_after {t : TaskId} (ht : (s.ledger.creations.find? t).isSome = true) :
    ((after c s).ledger.creations.find? t).isSome = true ∨
      (∃ b n, c = .expireTerminalPayloads b n) ∧ s.ledger.reservations.find? t = none := by
  have hstep := exec_creation s.clock c s.ledger t
  rw [show (c.exec s.clock s.ledger).2.creations.find? t =
    (after c s).ledger.creations.find? t from rfl] at hstep
  generalize (after c s).ledger.creations.find? t = x at hstep
  cases hstep with
  | same => exact .inl ht
  | retire b n r hr hterm hres => exact .inr ⟨⟨b, n, rfl⟩, hres⟩
  | begin | credential | observe | reset => exact .inl rfl

theorem identified_after (hc : Allowed p c s) {t : TaskId} (hp : p ≠ .loop t)
    (ht : Identified t s) : Identified t (after c s) := by
  rcases ht with ht | ht
  · obtain hsome | ⟨-, hnone⟩ := creation_after (c := c) ht
    · exact .inl hsome
    · exact .inr (standing_after hc hp (standing_of_none hnone))
  · exact .inr (standing_after hc hp ht)

theorem respects_after (hc : Allowed p c s) : Respects p s (after c s) where
  sticks := sticks_after hc
  standing _ := standing_after hc
  none hp _ := none_after hc hp
  creation hp t ht := by
    obtain hsome | ⟨⟨b, n, rfl⟩, -⟩ := creation_after (c := c) ht
    · exact hsome
    · exact absurd hc hp
  identified _ := identified_after hc

end Calls

/-! ### Programs -/

abbrev respectContract (cfg : Config) (p : Pid) :=
  Machine.contract (terminationRespected cfg) (fun _ => True) Relies Respects p

/-- A call that writes no phase, makes no reservation and deletes no identity. -/
def Neutral (c : Call) : Prop :=
  (∀ t phase d st, c ≠ .db (.updateReservation t phase d st)) ∧
    (∀ n, c ≠ .db (.reserveNext n)) ∧ ∀ b n, c ≠ .db (.expireTerminalPayloads b n)

section Programs

variable {cfg : Config} {p : Pid} {t : TaskId} {α : Type} {r : Routine α}

theorem allowed_of_neutral {c : LedgerCall} {s : Shared} (hc : Neutral (.db c)) :
    Allowed p c s := by
  unfold Allowed
  split
  · exact absurd rfl (hc.1 _ _ _ _)
  · exact absurd rfl (hc.2.1 _)
  · exact absurd rfl (hc.2.2 _ _)
  · trivial

theorem respects_answer {o : Oracle} {c : Call} {s s' : Shared} {a : c.Out} (hc : Neutral c)
    (ha : s.answer p o c = some (a, s')) : Respects p s s' := by
  obtain ⟨d, rfl, rfl⟩ | ⟨-, hsame⟩ := answer_rows ha
  · exact respects_after (allowed_of_neutral hc)
  · exact .of_sameRows hsame

theorem neutral_of_inert {c : Call} (hc : c.inert = true) : Neutral c := by
  refine ⟨?_, ?_, ?_⟩
  · rintro t phase d st rfl
    simp [Call.inert, LedgerCall.inert] at hc
  · rintro n rfl
    simp [Call.inert, LedgerCall.inert] at hc
  · rintro b n rfl
    simp [Call.inert, LedgerCall.inert] at hc

theorem not_lifecycle_of_updateReservation {phase : ReservationPhase} {d : Option String}
    {st : Option TaskState} {s : Shared} {e : Exn}
    (h : reply (.updateReservation t phase d st) s = .error e) : e.isLifecycle = false := by
  simp only [reply, LedgerCall.exec, Ledger.updateReservation] at h
  split at h
  · obtain rfl := Except.error.inj h
    rfl
  · split at h <;> simp at h

/-- The obligation of a ledger call that is allowed. -/
theorem safe_respect_db {c : LedgerCall} {post : c.Out → Shared × Hist → Prop}
    {exn : Exn → Shared × Hist → Prop} {s : Shared} {h : Hist}
    (hc : ∀ s₁, Relies p s s₁ →
      (terminationRespected cfg).call p h (.db c) s₁ (reply c s₁) = true → Allowed p c s₁)
    (H : ∀ s₁, Relies p s s₁ →
      (terminationRespected cfg).call p h (.db c) s₁ (reply c s₁) = true →
      match reply c s₁ with
      | .ok a => post a (after c s₁, ⟨.db c, .ok a, s₁⟩ :: h)
      | .error e => exn e (after c s₁, ⟨.db c, .error e, s₁⟩ :: h)) :
    Safe (respectContract cfg p) (db c) post exn (s, h) :=
  safe_db fun s₁ _ hrely hK => ⟨trivial, respects_after (hc s₁ hrely hK), H s₁ hrely hK⟩

/-- A neutral program keeps what its thread can rely on and neutral calls keep. -/
theorem keeps_of_neutral {A : Shared → Prop} (hr : Makes Neutral r)
    (hrely : ∀ s s', A s → Relies p s s' → A s')
    (hafter : ∀ c s, Neutral (.db c) → A s → A (after c s))
    (hsame : ∀ s s', SameRows s s' → A s → A s') :
    Keeps (respectContract cfg p) (fun w => A w.1) r := by
  refine keeps_of_makes hr (fun s s' _ hs hr => hrely s s' hs hr)
    fun c s o a s' h hc hs _ _ ha => ⟨trivial, respects_answer hc ha, ?_⟩
  obtain ⟨d, rfl, rfl⟩ | ⟨-, hstore⟩ := answer_rows ha
  · exact hafter d s hc hs
  · exact hsame s s' hstore hs

theorem keeps_neutral (hr : Makes Neutral r) :
    Keeps (respectContract cfg p) (fun _ => True) r :=
  keeps_of_neutral hr (fun _ _ _ _ => trivial) (fun _ _ _ _ => trivial) fun _ _ _ _ => trivial

/-! #### The supervision loop -/

/-- A call of the loop that begins no termination. -/
def Continues (t : TaskId) (c : Call) : Prop :=
  Neutral c ∨ ∃ phase d st, c = .db (.updateReservation t phase d st) ∧ phase ≠ .terminationPending

theorem standing_neutral {c : LedgerCall} {s : Shared} (hc : Neutral (.db c)) (ht : Standing t s) :
    Standing t (after c s) :=
  standing_after (p := .scheduler) (allowed_of_neutral hc) (by simp) ht

theorem standing_sameRows {s s' : Shared} (h : SameRows s s') (ht : Standing t s) :
    Standing t s' := by
  rw [Standing, Safety.standing, h.reservations]
  exact ht

theorem keeps_standing (hr : Makes (Continues t) r) :
    Keeps (respectContract cfg (.loop t)) (fun w => Standing t w.1) r := by
  refine keeps_of_makes hr (fun s s' _ hs hr => hr.standing t rfl hs)
    fun c s o a s' h hc hs _ _ ha => ?_
  rcases hc with hc | ⟨phase, d, st, rfl, hphase⟩
  · refine ⟨trivial, respects_answer hc ha, ?_⟩
    obtain ⟨d, rfl, rfl⟩ | ⟨-, hstore⟩ := answer_rows ha
    · exact standing_neutral hc hs
    · exact standing_sameRows hstore hs
  · obtain ⟨-, rfl⟩ := Prod.mk.inj (Option.some.inj ha)
    have hallowed : ∀ p, Allowed p (.updateReservation t phase d st) s := by
      intro p
      simp only [Allowed, hphase, if_false]
      exact hs
    exact ⟨trivial, respects_after (hallowed _), standing_after (hallowed .scheduler) (by simp) hs⟩

/-- A write that fails for want of a reservation, or begins the termination. -/
theorem safe_terminate_write (d : Option String) (w : Shared × Hist) :
    Safe (respectContract cfg (.loop t)) (db (.updateReservation t .terminationPending d none))
      (fun _ _ => True) (fun _ w => Standing t w.1) w := by
  refine safe_respect_db (fun s₁ _ _ => ?_) fun s₁ _ _ => ?_
  · simp [Allowed]
  · cases hq : s₁.ledger.reservations.find? t with
    | none =>
        have hreply : reply (.updateReservation t .terminationPending d none) s₁ =
            .error (.keyError "no reservation for task") := by
          simp [reply, LedgerCall.exec, Ledger.updateReservation, hq]
        rw [hreply]
        exact standing_of_none (none_after (p := .loop t) (by simp [Allowed]) (by simp) hq)
    | some q =>
        have hreply : reply (.updateReservation t .terminationPending d none) s₁ = .ok () := by
          simp [reply, LedgerCall.exec, Ledger.updateReservation, hq]
        rw [hreply]
        trivial

/-- The wait for a snapshot fails only while nothing waits for termination. -/
theorem safe_ensureDurable_standing (w : Shared × Hist) :
    Safe (respectContract cfg (.loop t)) ensureDurable (fun _ _ => True)
      (fun _ w => Standing t w.1) w := by
  have hrevision : Safe (respectContract cfg (.loop t)) (db .revision) (fun _ _ => True)
      (fun _ w => Standing t w.1) w := safe_respect_db (fun _ _ _ => trivial) fun _ _ _ => trivial
  refine Safe.seq hrevision fun revision w _ => ?_
  rintro s₁ - ⟨-, hh⟩ a s₂ ⟨hK, ⟨o, ho⟩, hh₂⟩
  have hans : s₁.1.answer (.loop t) o (.awaitConfirmed revision) = some (a, s₂.1) := ho
  obtain ⟨d, hd, -⟩ | ⟨-, hsame⟩ := answer_rows hans
  · simp at hd
  · refine ⟨trivial, ⟨.of_sameRows hsame, Machine.Cond.last_trivial _ _⟩, ?_⟩
    cases a with
    | ok u => trivial
    | error e => exact standing_sameRows hsame hK

/-! The identity of the sandbox is stored while the loop terminates it, or nobody
waits for its termination. -/

theorem standing_of_identified {s : Shared} (h : Identified t s)
    (hnone : s.ledger.creations.find? t = none) : Standing t s := by
  refine h.resolve_left ?_
  simp [hnone]

theorem identified_sameRows {s s' : Shared} (h : SameRows s s') (ht : Identified t s) :
    Identified t s' := by
  rw [Identified, h.creations]
  exact ht.imp id fun hs => standing_sameRows h hs

theorem keeps_identified (hr : Inert r) :
    Keeps (respectContract cfg (.loop t)) (fun w => Identified t w.1) r := by
  refine keeps_of_neutral (hr.mono fun _ => neutral_of_inert)
    (fun s s' hs hr => hr.identified t rfl hs)
    (fun c s hc hs => identified_after (p := .scheduler) (allowed_of_neutral hc) (by simp) hs)
    fun s s' hstore hs => identified_sameRows hstore hs

/-- An observation cannot be recorded only when the identity is gone. -/
theorem safe_observe {id : Option ProviderId} {st : SandboxProviderState} {d : Option String}
    {w : Shared × Hist} (hw : Identified t w.1) :
    Safe (respectContract cfg (.loop t)) (db (.updateSandboxCreation t id st d))
      (fun _ w => Identified t w.1) (fun _ w => Standing t w.1) w := by
  refine safe_respect_db (fun _ _ _ => trivial) fun s₁ hrely _ => ?_
  have hid : Identified t s₁ := hrely.identified t rfl hw
  have hallowed : Allowed .scheduler (.updateSandboxCreation t id st d) s₁ := trivial
  cases hr : reply (.updateSandboxCreation t id st d) s₁ with
  | ok row => exact identified_after hallowed (by simp) hid
  | error e =>
      refine standing_neutral (by simp [Neutral]) (standing_of_identified hid ?_)
      cases hq : s₁.ledger.creations.find? t with
      | none => rfl
      | some q =>
          have hok : ∃ row, reply (.updateSandboxCreation t id st d) s₁ = .ok row := by
            simp only [reply, LedgerCall.exec, Ledger.updateSandboxCreation, hq]
            split <;> exact ⟨_, rfl⟩
          obtain ⟨row, hrow⟩ := hok
          rw [hr] at hrow
          simp at hrow

/-- How looking at the provider can fail. -/
def Looked (t : TaskId) (e : Exn) (w : Shared × Hist) : Prop :=
  e.isLifecycle = true ∨ Standing t w.1

theorem safe_step_identified {β : Type} {f : α → Routine β} {post : β → Shared × Hist → Prop}
    {w : Shared × Hist} (hr : Safe (respectContract cfg (.loop t)) r (fun _ w => Identified t w.1)
      (fun _ w => Standing t w.1) w)
    (hf : ∀ a w, Identified t w.1 → Safe (respectContract cfg (.loop t)) (f a) post (Looked t) w) :
    Safe (respectContract cfg (.loop t)) (r >>= f) post (Looked t) w :=
  Safe.seq (Safe.mono hr (fun _ _ h => h) fun _ _ h => .inr h) hf

/-- An answer of the provider is taken as it comes. -/
theorem safe_ext_identified {c : ExtCall} (hc : c.inert = true)
    {exn : Exn → Shared × Hist → Prop} {w : Shared × Hist} (hw : Identified t w.1) :
    Safe (respectContract cfg (.loop t)) (ext c) (fun _ w => Identified t w.1) exn w := by
  refine safe_call fun s₁ o a s₂ _ hrely _ ha => ?_
  have hneutral : Neutral (.ext c) := neutral_of_inert hc
  refine ⟨trivial, respects_answer hneutral ha, ?_⟩
  obtain ⟨d, hd, -⟩ | ⟨-, hstore⟩ := answer_rows ha
  · simp at hd
  · exact identified_sameRows hstore (hrely.identified t rfl hw)

theorem safe_identified_pollHandle {id : ProviderId} {w : Shared × Hist} (hw : Identified t w.1) :
    Safe (respectContract cfg (.loop t)) (Lifecycle.pollHandle t id)
      (fun _ w => Identified t w.1) (Looked t) w := by
  refine Safe.seq (safe_ext_identified rfl hw) fun reply w hw => ?_
  split
  · exact safe_step_identified (safe_observe hw) fun _ _ hw => hw
  · exact safe_step_identified (safe_observe hw) fun _ _ hw => hw
  · exact safe_step_identified (safe_observe hw) fun _ _ hw => hw

theorem safe_identified_reconnectRecord {row : SandboxCreationRecord} (hrow : row.taskId = t)
    {w : Shared × Hist} (hw : Identified t w.1) :
    Safe (respectContract cfg (.loop t)) (Lifecycle.reconnectRecord row)
      (fun _ w => Identified t w.1) (Looked t) w := by
  subst hrow
  unfold Lifecycle.reconnectRecord
  dsimp only
  split
  · refine Safe.seq (safe_ext_identified rfl hw) fun reply w hw => ?_
    split
    · exact safe_identified_pollHandle hw
    · exact safe_step_identified (safe_observe hw) fun _ _ hw => hw
    · exact safe_step_identified (safe_observe hw) fun _ _ hw => hw
  · refine Safe.seq (safe_ext_identified rfl hw) fun reply w hw => ?_
    split
    · exact safe_step_identified (safe_observe hw) fun _ _ hw => hw
    · exact safe_step_identified (safe_observe hw) fun _ _ hw => hw
    · exact safe_step_identified (safe_observe hw) fun _ _ hw => safe_identified_pollHandle hw
    · exact safe_step_identified (safe_observe hw) fun _ _ _ => .inl rfl

/-- The row that is read is of the task, and there is one. -/
theorem safe_record (w : Shared × Hist) :
    Safe (respectContract cfg (.loop t)) (Lifecycle.record t)
      (fun row w => row.taskId = t ∧ Identified t w.1) (fun e _ => e.isLifecycle = true) w := by
  refine Safe.bind (safe_respect_db (fun _ _ _ => trivial) fun s₁ _ _ => ?_)
  have hreply : reply (.getSandboxCreation t) s₁ = .ok (s₁.ledger.creations.find? t) := rfl
  rw [hreply]
  cases hq : s₁.ledger.creations.find? t with
  | none => rfl
  | some row =>
      have hsome : (s₁.ledger.creations.find? t).isSome = true := by simp [hq]
      exact ⟨Table.key_of_find? hq, .inl hsome⟩

/-- `terminate` fails with a lifecycle error, or after nothing waits any more. -/
theorem safe_lifecycle_terminate (w : Shared × Hist) :
    Safe (respectContract cfg (.loop t)) (Lifecycle.terminate t) (fun _ _ => True)
      (Looked t) w := by
  refine Safe.seq (Safe.mono (safe_ensureDurable_standing w) (fun _ _ h => h) fun _ _ h => .inr h)
    fun _ w _ => ?_
  refine Safe.seq (Safe.mono (safe_record w) (fun _ _ h => h) fun _ _ h => .inl h)
    fun row w hrow => ?_
  refine Safe.seq (safe_identified_reconnectRecord hrow.1 hrow.2) fun a w hw => ?_
  dsimp only
  split
  · trivial
  · split
    · exact .inl rfl
    next id _ =>
      refine Safe.tryCatch (Safe.mono (keeps_identified (Lifecycle.inert_terminateHandle t id) w hw)
        (fun _ _ _ => trivial) fun e w hw => ?_)
      exact Safe.seq (Safe.mono (safe_observe hw) (fun _ _ h => h) fun _ _ h => .inr h)
        fun _ _ _ => .inl rfl

/-- A cleanup begins the termination, or fails when nothing waits any more. -/
theorem safe_attemptCleanup (w : Shared × Hist) :
    Safe (respectContract cfg (.loop t)) (Manager.attemptCleanup t) (fun _ _ => True)
      (fun _ w => Standing t w.1) w := by
  refine Safe.bind (Safe.attempt (Safe.mono (safe_lifecycle_terminate w) (fun snapshot w _ => ?_)
    fun e w he => ?_))
  · dsimp only
    split
    · exact safe_respect_db (fun _ _ _ => trivial) fun _ _ _ => trivial
    · exact safe_terminate_write _ w
  · dsimp only
    split
    · exact safe_terminate_write _ w
    next hne => exact he.resolve_left hne

theorem safe_failExecutionStart (detail : String) {w : Shared × Hist} (hw : Standing t w.1) :
    Safe (respectContract cfg (.loop t)) (Manager.failExecutionStart t detail) (fun _ _ => True)
      (fun _ w => Standing t w.1) w := by
  refine Safe.seq (Safe.mono (keeps_standing (makes_db (.inl (by simp [Neutral]))) w hw)
    (fun _ _ _ => trivial) fun _ _ h => h) fun _ w _ => ?_
  refine Safe.seq (safe_terminate_write _ w) fun _ w _ => ?_
  refine Safe.seq (safe_ensureDurable_standing w) fun _ w _ => ?_
  exact safe_attemptCleanup w

theorem continues_of_inert {c : Call} (hc : c.inert = true) : Continues t c :=
  .inl (neutral_of_inert hc)

theorem continues_of_followCall {c : Call} (hc : followCall t c = true) : Continues t c := by
  by_cases hupdate : ∃ t' phase d st, c = .db (.updateReservation t' phase d st)
  · obtain ⟨t', phase, d, st, rfl⟩ := hupdate
    have hown : t' = t ∧ phase ≠ .terminationPending := by
      simp only [followCall, Manager.followupCall, Manager.recordCall, Manager.saveCall, Manager.sendCall, Call.inert,
        LedgerCall.inert] at hc
      rcases st with - | st
      · cases phase <;> simp_all
      · cases phase <;> cases st <;> simp_all
    exact .inr ⟨phase, d, st, by rw [hown.1], hown.2⟩
  · refine .inl ⟨fun t' phase d st hc' => hupdate ⟨t', phase, d, st, hc'⟩, ?_, ?_⟩
    · rintro n rfl
      simp [followCall, Manager.followupCall, Manager.recordCall, Manager.saveCall, Manager.sendCall, Call.inert,
        LedgerCall.inert] at hc
    · rintro b n rfl
      simp [followCall, Manager.followupCall, Manager.recordCall, Manager.saveCall, Manager.sendCall, Call.inert,
        LedgerCall.inert] at hc

theorem continues_of_sleepCall {c : Call} (hc : Manager.sleepCall t c = true) : Continues t c := by
  refine .inl ⟨?_, ?_, ?_⟩
  · rintro t' phase d st rfl
    simp [Manager.sleepCall, Call.inert, LedgerCall.inert] at hc
  · rintro n rfl
    simp [Manager.sleepCall, Call.inert, LedgerCall.inert] at hc
  · rintro b n rfl
    simp [Manager.sleepCall, Call.inert, LedgerCall.inert] at hc

theorem drives_respect : Drives (respectContract cfg (.loop t)) t (fun w => Standing t w.1)
    (fun w => Standing t w.1) where
  escape _ h := h
  follow hr := keeps_standing (hr.mono fun _ => continues_of_followCall)
  fail detail _ hw := safe_failExecutionStart detail hw
  sleep w hw := Safe.mono (keeps_standing ((Manager.makes_sleepWorkspace t).mono fun _ =>
    continues_of_sleepCall) w hw) (fun _ _ _ => trivial) fun _ _ h => h

/-- An end is recorded, and then the termination begun. -/
theorem safe_end_terminate {st : TaskState} {o d condition : Option String} {w : Shared × Hist}
    (hw : Standing t w.1) :
    Safe (respectContract cfg (.loop t)) (do
      let _ ← db (.finishTask t st o d)
      db (.updateReservation t .terminationPending condition none)) (fun _ _ => True)
      (fun _ w => Standing t w.1) w := by
  refine Safe.seq (Safe.mono (keeps_standing (makes_db (.inl (by simp [Neutral]))) w hw)
    (fun _ _ _ => trivial) fun _ _ h => h) fun _ w _ => ?_
  exact safe_terminate_write _ w

theorem safe_settleRun (row : SupervisionRecord) (manifest : Option TaskResultManifest)
    {w : Shared × Hist} (hw : Standing t w.1) :
    Safe (respectContract cfg (.loop t)) (Manager.settleRun t row manifest) (fun _ _ => True)
      (fun _ w => Standing t w.1) w := by
  refine Safe.seq (keeps_standing (makes_db (continues_of_inert rfl)) w hw) fun _ w hw => ?_
  dsimp only
  split
  · exact safe_end_terminate hw
  · refine Safe.seq (keeps_standing (makes_db (.inl (by simp [Neutral]))) w hw) fun _ w hw => ?_
    exact Safe.mono (keeps_standing (makes_db (.inr ⟨_, _, _, rfl, by simp⟩)) w hw)
      (fun _ _ _ => trivial) fun _ _ h => h

theorem finalizes_respect : Finalizes (respectContract cfg (.loop t)) t (fun w => Standing t w.1)
    (fun w => Standing t w.1) (fun w => Standing t w.1) (fun w => Standing t w.1) where
  find w hw := Safe.mono (keeps_standing (makes_db (.inl (by simp [Neutral]))) w hw)
    (fun _ _ h => by simpa using h) fun _ _ h => h
  ended w hw := keeps_standing (makes_db (.inl (by simp [Neutral]))) w hw
  record hr w hw := keeps_standing (hr.mono fun _ hc =>
    continues_of_followCall (Follows.followCall_of_recordCall hc)) w hw
  escape _ h := h
  cleanup w _ := safe_attemptCleanup w
  lose _ _ _ hw := safe_end_terminate hw
  settle row manifest _ hw := safe_settleRun row manifest hw

/-- Taking and giving back a lock changes nothing that is stored. -/
theorem safe_lock {A : Shared → Prop} {c : Call} {f : c.Out → α}
    (hc : ∃ l, c = .acquire l ∨ c = .release l)
    (hrely : ∀ s s', A s → Relies p s s' → A s') (hstore : ∀ s s', SameRows s s' → A s → A s')
    {exn : Exn → Shared × Hist → Prop} {w : Shared × Hist} (hw : A w.1) :
    Safe (respectContract cfg p) (ExceptT.mk (Prog.call c fun r => .ret (.ok (f r))) : Routine α)
      (fun _ w => A w.1) exn w := by
  have hneutral : Neutral c := by
    obtain ⟨l, rfl | rfl⟩ := hc <;> simp [Neutral]
  refine safe_call fun s₁ o a s₂ _ hr _ ha => ⟨trivial, respects_answer hneutral ha, ?_⟩
  obtain ⟨d, rfl, -⟩ | ⟨-, hsame⟩ := answer_rows ha
  · obtain ⟨l, h | h⟩ := hc <;> simp at h
  · exact hstore s₁ s₂ hsame (hrely w.1 s₁ hw hr)

/-- The phase that a round goes on from is the one of the reservation. -/
theorem safe_getReservation_standing (w : Shared × Hist) :
    Safe (respectContract cfg (.loop t)) (db (.getReservation t)) (fun q? w => ∀ q, q? = some q →
      (q.phase = .terminationPending → True) ∧ (q.phase = .finalizing → Standing t w.1) ∧
        (q.phase = .running → Standing t w.1)) (fun _ w => Standing t w.1) w := by
  refine safe_respect_db (fun _ _ _ => trivial) fun s₁ _ _ => ?_
  intro q hq
  have hfind : s₁.ledger.reservations.find? t = some q := hq
  have hstand : q.phase ≠ .terminationPending → Standing t s₁ := by
    intro hphase
    refine standing_iff.mpr fun q' hq' => ?_
    obtain rfl := Option.some.inj (hfind.symm.trans hq')
    exact hphase
  exact ⟨fun _ => trivial, fun h => hstand (by simp [h]), fun h => hstand (by simp [h])⟩

theorem safe_respect_activation (w : Shared × Hist) :
    Safe (respectContract cfg (.loop t)) (App.activation cfg t) (fun _ _ => True)
      (fun _ _ => True) w := by
  have hround : ∀ w, True → Safe (respectContract cfg (.loop t)) (Manager.round cfg t)
      (fun _ _ => True) (fun _ w => Standing t w.1) w := by
    intro w hw
    refine safe_round (I := fun _ => True) (B := fun _ => True) (F := fun w => Standing t w.1)
      (fun w _ => safe_getReservation_standing w) (fun w _ => safe_attemptCleanup w)
      (fun w hw => ?_) (fun w hw => drives_respect.driveRunning hw) hw
    have hstanding : ∀ s s', Standing t s → Relies (.loop t) s s' → Standing t s' :=
      fun s s' hs hr => hr.standing t rfl hs
    refine safe_withLock (A := fun w => Standing t w.1) (B := fun _ => True) (fun w hw => ?_)
      (fun w hw => finalizes_respect.finalizeLocked hw) (fun w hw => ?_) (fun w hw => ?_) hw
    · exact safe_lock ⟨_, .inl rfl⟩ hstanding (fun _ _ => standing_sameRows) hw
    · exact safe_lock (A := fun _ => True) ⟨_, .inr rfl⟩ (fun _ _ _ _ => trivial)
        (fun _ _ _ _ => trivial) hw
    · exact safe_lock ⟨_, .inr rfl⟩ hstanding (fun _ _ => standing_sameRows) hw
  refine safe_activation (I := fun _ => True) hround (fun detail w hw => ?_) ?_ trivial
  · exact Safe.mono (keeps_standing (makes_db (.inr ⟨_, _, _, rfl, by simp⟩)) w hw)
      (fun _ _ _ => trivial) fun _ _ _ => trivial
  · exact keeps_neutral ⟨by simp [Neutral], fun _ => trivial⟩

/-! #### The scheduler -/

/-- A phase is written for a reservation that was last seen in another one than
the pending. -/
theorem safe_write_phase {phase : ReservationPhase} {d : Option String} {st : Option TaskState}
    {w : Shared × Hist} (hphase : phase ≠ .terminationPending)
    (hw : lastPhase t w.2 ≠ some .terminationPending) :
    Safe (respectContract cfg .scheduler) (db (.updateReservation t phase d st)) (fun _ _ => True)
      (fun e _ => e.isLifecycle = false) w := by
  refine safe_respect_db (fun s₁ _ hK => ?_) fun s₁ _ _ => ?_
  · have hw' : lastPhase t w.2 ≠ some .terminationPending := hw
    have hstand : standing t s₁.ledger = true := by
      simpa [terminationRespected, hphase, hw'] using hK
    simp only [Allowed, hphase, if_false]
    exact hstand
  · cases hr : reply (.updateReservation t phase d st) s₁ with
    | ok u => trivial
    | error e => exact not_lifecycle_of_updateReservation hr

/-- The pending phase is repeated for a reservation that waits, or is gone. -/
theorem safe_repeat_pending {d : Option String} {st : Option TaskState} {w : Shared × Hist}
    (hw : Terminating t w.1) :
    Safe (respectContract cfg .scheduler) (db (.updateReservation t .terminationPending d st))
      (fun _ _ => True) (fun e _ => e.isLifecycle = false) w := by
  refine safe_respect_db (fun s₁ hrely _ => ?_) fun s₁ _ _ => ?_
  · simp only [Allowed, if_true]
    exact .inr (hrely.terminating rfl t hw)
  · cases hr : reply (.updateReservation t .terminationPending d st) s₁ with
    | ok u => trivial
    | error e => exact not_lifecycle_of_updateReservation hr

/-- What the scheduler knows of a reservation that it has listed or read. -/
def Seen (q : ReservationRecord) (w : Shared × Hist) : Prop :=
  lastPhase q.taskId w.2 = some q.phase ∧
    (q.phase = .terminationPending → Terminating q.taskId w.1)

/-- A call that shows no reservation of `t` and makes none. -/
def Blind (t : TaskId) (c : Call) : Prop :=
  c ≠ .db .listReservations ∧ c ≠ .db (.getReservation t) ∧ ∀ n, c ≠ .db (.reserveNext n)

theorem phaseSeen_of_blind {e : Entry Call.Out Shared} (he : Blind t e.call) :
    phaseSeen t e = none := by
  unfold phaseSeen
  split
  · exact absurd rfl he.1
  next t' q _ =>
    split
    next ht => exact absurd (by rw [ht]) he.2.1
    next => rfl
  · exact absurd rfl (he.2.2 _)
  · rfl

theorem lastPhase_of_blind {e : Entry Call.Out Shared} {h : Hist} (he : Blind t e.call) :
    lastPhase t (e :: h) = lastPhase t h := by
  simp [lastPhase, phaseSeen_of_blind he]

theorem terminating_of_blind {o : Oracle} {c : Call} {s s' : Shared} {a : c.Out}
    (hc : Blind t c) (ha : s.answer p o c = some (a, s')) (hs : Sticks s s')
    (ht : Terminating t s) : Terminating t s' := by
  refine ht.sticks hs fun hnone => ?_
  obtain ⟨d, rfl, rfl⟩ | ⟨-, hsame⟩ := answer_rows ha
  · have hstep := exec_reservation s.clock d s.ledger t
    rw [show (d.exec s.clock s.ledger).2.reservations.find? t =
      (after d s).ledger.reservations.find? t from rfl] at hstep
    generalize (after d s).ledger.reservations.find? t = x at hstep
    cases hstep with
    | same => exact hnone
    | claim n => exact absurd rfl (hc.2.2 n)
    | update phase d st q hq => simp [hnone] at hq
    | release | lost => rfl
  · rw [hsame.reservations]
    exact hnone

/-- What is known of a reservation survives the calls that do not show it. -/
theorem Seen.step {q : ReservationRecord} {c : Call} {w w' : Shared × Hist} {a : c.Out}
    (hq : Seen q w) (hc : Blind q.taskId c) (hst : (respectContract cfg p).step c w a w')
    (hg : (respectContract cfg p).guar w w') : Seen q w' := by
  obtain ⟨-, ⟨o, ho⟩, hh⟩ := hst
  refine ⟨?_, fun hphase => terminating_of_blind hc ho hg.1.sticks (hq.2 hphase)⟩
  rw [hh, lastPhase_of_blind hc]
  exact hq.1

theorem Seen.rely {q : ReservationRecord} {w w' : Shared × Hist} (hq : Seen q w)
    (hr : (respectContract cfg .scheduler).rely w w') : Seen q w' := by
  refine ⟨?_, fun hphase => hr.1.terminating rfl q.taskId (hq.2 hphase)⟩
  rw [hr.2]
  exact hq.1

theorem safe_frame_seen {rs : List ReservationRecord} {post : α → Shared × Hist → Prop}
    {exn : Exn → Shared × Hist → Prop} {w : Shared × Hist}
    (hr : Makes (fun c => ∀ q ∈ rs, Blind q.taskId c) r)
    (h : Safe (respectContract cfg .scheduler) r post exn w) (hw : ∀ q ∈ rs, Seen q w) :
    Safe (respectContract cfg .scheduler) r (fun a w => post a w ∧ ∀ q ∈ rs, Seen q w)
      (fun e w => exn e w ∧ ∀ q ∈ rs, Seen q w) w :=
  Safe.frame_makes (E := respectContract cfg .scheduler) (A := fun w => ∀ q ∈ rs, Seen q w) hr
    (fun _ _ hs hrely q hq => (hs q hq).rely hrely)
    (fun _ _ _ _ hc hs hst hg q hq => (hs q hq).step (hc q hq) hst hg) h hw

theorem blind_of_inert {c : Call} (hc : c.inert = true) : Blind t c := by
  refine ⟨?_, ?_, ?_⟩
  · rintro rfl
    simp [Call.inert, LedgerCall.inert] at hc
  · rintro rfl
    simp [Call.inert, LedgerCall.inert] at hc
  · rintro n rfl
    simp [Call.inert, LedgerCall.inert] at hc

theorem blind_of_roundCall {t' : TaskId} {c : Call} (ht : t' ≠ t)
    (hc : Scheduler.roundCall t' c = true) : Blind t c := by
  refine ⟨?_, ?_, ?_⟩
  · rintro rfl
    simp [Scheduler.roundCall, Call.inert, LedgerCall.inert] at hc
  · rintro rfl
    simp only [Scheduler.roundCall, Call.inert, LedgerCall.inert, Bool.false_or,
      decide_eq_true_eq] at hc
    exact ht hc.symm
  · rintro n rfl
    simp [Scheduler.roundCall, Call.inert, LedgerCall.inert] at hc

/-- The phase last seen stays the same through calls that do not show it. -/
theorem safe_frame_phase {x : Option ReservationPhase} {post : α → Shared × Hist → Prop}
    {exn : Exn → Shared × Hist → Prop} {w : Shared × Hist} (hr : Makes (Blind t) r)
    (h : Safe (respectContract cfg p) r post exn w) (hw : lastPhase t w.2 = x) :
    Safe (respectContract cfg p) r (fun a w => post a w ∧ lastPhase t w.2 = x)
      (fun e w => exn e w ∧ lastPhase t w.2 = x) w := by
  refine Safe.frame_makes (E := respectContract cfg p) (A := fun w => lastPhase t w.2 = x) hr
    (fun s s' hs hrely => ?_) (fun c s a s' hc hs hst _ => ?_) h hw
  · rw [hrely.2]
    exact hs
  · rw [hst.2.2, lastPhase_of_blind hc]
    exact hs

theorem keeps_phase {x : Option ReservationPhase} (hr : Makes (fun c => Neutral c ∧ Blind t c) r) :
    Keeps (respectContract cfg p) (fun w => lastPhase t w.2 = x) r := by
  intro w hw
  have hneutral : Safe (respectContract cfg p) r (fun _ _ => True) (fun _ _ => True) w :=
    keeps_neutral (hr.mono fun _ hc => hc.1) w trivial
  exact Safe.mono (safe_frame_phase (hr.mono fun _ hc => hc.2) hneutral hw) (fun _ _ h => h.2)
    fun _ _ h => h.2

/-- The scheduler looks at the sandbox of `t`, whose identity is stored. -/
def Looking (t : TaskId) (w : Shared × Hist) : Prop :=
  (w.1.ledger.creations.find? t).isSome = true ∧ lookedUp w.2 = some t

theorem safe_ext_looking {c : ExtCall} (hc : c.inert = true) {exn : Exn → Shared × Hist → Prop}
    {w : Shared × Hist} (hw : Looking t w) :
    Safe (respectContract cfg .scheduler) (ext c) (fun a w => Looking t w ∧
      ∃ s₁ h, w.2 = ⟨.ext c, a, s₁⟩ :: h ∧ lookedUp h = some t ∧
        (terminationRespected cfg).call .scheduler h (.ext c) s₁ a = true) exn w := by
  refine safe_call fun s₁ o a s₂ _ hrely hK ha => ?_
  have hneutral : Neutral (.ext c) := neutral_of_inert hc
  refine ⟨trivial, respects_answer hneutral ha, ?_⟩
  obtain ⟨d, hd, -⟩ | ⟨-, hstore⟩ := answer_rows ha
  · simp at hd
  · refine ⟨⟨?_, hw.2⟩, s₁, _, rfl, hw.2, hK⟩
    rw [hstore.creations]
    exact hrely.creation rfl t hw.1

/-- What is recorded of the sandbox is what is answered. -/
theorem safe_observe_looking {id : Option ProviderId} {st : SandboxProviderState}
    {d : Option String} {w : Shared × Hist} (hw : Looking t w) :
    Safe (respectContract cfg .scheduler) (db (.updateSandboxCreation t id st d))
      (fun row w => Looking t w ∧ row.providerState = st ∧ lastObservation t w.2 = some st)
      (fun e _ => e.isLifecycle = false) w := by
  refine safe_respect_db (fun _ _ _ => trivial) fun s₁ hrely _ => ?_
  cases hr : reply (.updateSandboxCreation t id st d) s₁ with
  | error e =>
      simp only [reply, LedgerCall.exec, Ledger.updateSandboxCreation] at hr
      split at hr
      · obtain rfl := Except.error.inj hr
        rfl
      · split at hr <;> simp at hr
  | ok row =>
      obtain ⟨q, -, -, -, hst, -, hfind⟩ := updateSandboxCreation_ok hr
      have hfind' : (after (.updateSandboxCreation t id st d) s₁).ledger.creations.find? t =
        some row := hfind
      exact ⟨⟨by simp [hfind'], hw.2⟩, hst, by simp [lastObservation, observation]⟩

/-- How the scheduler's look at a sandbox ends. -/
theorem safe_pollHandle_looking {id : ProviderId} {w : Shared × Hist} (hw : Looking t w) :
    Safe (respectContract cfg .scheduler) (Lifecycle.pollHandle t id)
      (fun a w => lastObservation t w.2 = some a.1.state) (fun e _ => e.isLifecycle = false) w := by
  have hsnap : ∀ {row : SandboxCreationRecord} {st : SandboxProviderState} {w : Shared × Hist},
      row.providerState = st → lastObservation t w.2 = some st →
      lastObservation t w.2 = some (Lifecycle.snapshot row).state := by
    rintro row st w rfl h
    exact h
  refine Safe.seq (safe_ext_looking rfl hw) fun reply w hw => ?_
  split
  · exact Safe.seq (safe_observe_looking hw.1) fun _ _ h => hsnap h.2.1 h.2.2
  · exact Safe.seq (safe_observe_looking hw.1) fun _ _ h => hsnap h.2.1 h.2.2
  · exact Safe.seq (safe_observe_looking hw.1) fun _ _ h => hsnap h.2.1 h.2.2

/-- A lifecycle error of the look is a conflict, and then the reservation was not
seen waiting for termination. -/
def Conflicted (t : TaskId) (e : Exn) (w : Shared × Hist) : Prop :=
  e.isLifecycle = true → lastPhase t w.2 ≠ some .terminationPending

theorem conflicted_of_not_lifecycle {e : Exn} {w : Shared × Hist} (h : e.isLifecycle = false) :
    Conflicted t e w := by
  intro h'
  rw [h] at h'
  simp at h'

theorem safe_reconnectRecord_looking {row : SandboxCreationRecord} (hrow : row.taskId = t)
    {w : Shared × Hist} (hw : Looking t w) :
    Safe (respectContract cfg .scheduler) (Lifecycle.reconnectRecord row)
      (fun a w => lastObservation t w.2 = some a.1.state) (Conflicted t) w := by
  subst hrow
  have hstep : ∀ {id : Option ProviderId} {st : SandboxProviderState} {d : Option String}
      {f : SandboxCreationRecord → Routine (SandboxSnapshot × Option ProviderId)}
      {w : Shared × Hist}, Looking row.taskId w →
      (∀ r w, Looking row.taskId w ∧ r.providerState = st ∧
        lastObservation row.taskId w.2 = some st →
        Safe (respectContract cfg .scheduler) (f r)
          (fun a w => lastObservation row.taskId w.2 = some a.1.state) (Conflicted row.taskId) w) →
      Safe (respectContract cfg .scheduler) (do f (← db (.updateSandboxCreation row.taskId id st d)))
        (fun a w => lastObservation row.taskId w.2 = some a.1.state) (Conflicted row.taskId) w :=
    fun hw hf => Safe.seq (Safe.mono (safe_observe_looking hw) (fun _ _ h => h)
      fun _ _ h => conflicted_of_not_lifecycle h) hf
  have hsnap : ∀ {r : SandboxCreationRecord} {st : SandboxProviderState} {w : Shared × Hist},
      Looking row.taskId w ∧ r.providerState = st ∧ lastObservation row.taskId w.2 = some st →
      lastObservation row.taskId w.2 = some (Lifecycle.snapshot r).state := by
    rintro r st w ⟨-, rfl, h⟩
    exact h
  have hpoll : ∀ {id : ProviderId} {w : Shared × Hist}, Looking row.taskId w →
      Safe (respectContract cfg .scheduler) (Lifecycle.pollHandle row.taskId id)
        (fun a w => lastObservation row.taskId w.2 = some a.1.state) (Conflicted row.taskId) w :=
    fun hw => Safe.mono (safe_pollHandle_looking hw) (fun _ _ h => h)
      fun _ _ h => conflicted_of_not_lifecycle h
  unfold Lifecycle.reconnectRecord
  dsimp only
  split
  · refine Safe.seq (safe_ext_looking rfl hw) fun reply w hw => ?_
    split
    · exact hpoll hw.1
    · exact hstep hw.1 fun _ _ h => hsnap h
    · exact hstep hw.1 fun _ _ h => hsnap h
  · refine Safe.seq (safe_ext_looking rfl hw) fun reply w hw => ?_
    split
    · exact hstep hw.1 fun _ _ h => hsnap h
    · exact hstep hw.1 fun _ _ h => hsnap h
    · exact hstep hw.1 fun _ _ h => hpoll h.1
    next found hempty hone =>
      -- Two sandboxes: the condition says how the reservation was seen.
      obtain ⟨hlook, s₁, h, hh, hlooked, hK⟩ := hw
      have hphase : lastPhase row.taskId w.2 ≠ some .terminationPending := by
        have hseen : lastPhase row.taskId w.2 = lastPhase row.taskId h := by
          rw [hh]
          exact lastPhase_of_blind (blind_of_inert rfl)
        rw [hseen]
        match found, hempty, hone, hK with
        | [], hempty, _, _ => exact absurd rfl hempty
        | [id], _, hone, _ => exact absurd rfl (hone id)
        | _ :: _ :: _, _, _, hK => simpa [terminationRespected, hlooked] using hK
      refine Safe.bind (Safe.mono (safe_frame_phase (t := row.taskId)
        (makes_db (blind_of_inert rfl)) (safe_observe_looking hlook) rfl) (fun _ w hw _ => ?_)
        fun _ _ h => conflicted_of_not_lifecycle h.1)
      rw [hw.2]
      exact hphase

theorem safe_inspect_looking {w : Shared × Hist}
    (hw : (w.1.ledger.creations.find? t).isSome = true) :
    Safe (respectContract cfg .scheduler) (Lifecycle.inspect t)
      (fun a w => lastObservation t w.2 = some a.state) (Conflicted t) w := by
  have hrecord : Safe (respectContract cfg .scheduler) (Lifecycle.record t)
      (fun row w => row.taskId = t ∧ Looking t w) (Conflicted t) w := by
    refine Safe.bind (safe_respect_db (fun _ _ _ => trivial) fun s₁ hrely _ => ?_)
    have hsome : (s₁.ledger.creations.find? t).isSome = true := hrely.creation rfl t hw
    have hreply : reply (.getSandboxCreation t) s₁ = .ok (s₁.ledger.creations.find? t) := rfl
    rw [hreply]
    cases hq : s₁.ledger.creations.find? t with
    | none => simp [hq] at hsome
    | some row => exact ⟨Table.key_of_find? hq, hsome, by simp [lookedUp]⟩
  refine Safe.seq hrecord fun row w hrow => ?_
  exact Safe.seq (safe_reconnectRecord_looking hrow.1 hrow.2) fun _ _ hw => hw

theorem keeps_seen {q : ReservationRecord} (hr : Inert r) :
    Keeps (respectContract cfg .scheduler) (Seen q) r := by
  intro w hw
  refine Safe.mono (Safe.frame_makes (E := respectContract cfg .scheduler) (A := Seen q)
    (hr.mono fun _ hc => blind_of_inert hc) (fun _ _ hs hrely => hs.rely hrely)
    (fun _ _ _ _ hc hs hst hg => hs.step hc hst hg)
    (keeps_neutral (hr.mono fun _ hc => neutral_of_inert hc) w trivial) hw)
    (fun _ _ h => h.2) fun _ _ h => h.2

theorem safe_respect_terminateReserved {w : Shared × Hist} (hw : Terminating t w.1) :
    Safe (respectContract cfg .scheduler) (Scheduler.terminateReserved t) (fun _ _ => True)
      (fun _ _ => True) w := by
  have hwrite : ∀ d w, Terminating t w.1 → Safe (respectContract cfg .scheduler)
      (db (.updateReservation t .terminationPending d none)) (fun _ _ => True) (fun _ _ => True) w :=
    fun d w hw => Safe.mono (safe_repeat_pending hw) (fun _ _ h => h) fun _ _ _ => trivial
  have hkeep : Keeps (respectContract cfg .scheduler) (fun w => Terminating t w.1)
      (Lifecycle.terminate t) := by
    refine keeps_of_makes (Lifecycle.inert_terminate t) (fun _ _ _ hs hr => hr.terminating rfl t hs)
      fun c s o a s' h hc hs _ _ ha => ?_
    have hresp := respects_answer (p := .scheduler) (neutral_of_inert hc) ha
    exact ⟨trivial, hresp, terminating_of_blind (blind_of_inert hc) ha hresp.sticks hs⟩
  refine Safe.bind (Safe.mono (hkeep.attempt w hw) (fun r w hw => ?_) fun _ _ _ => trivial)
  split
  · split
    · exact hwrite _ w hw
    · trivial
  · split
    · exact keeps_neutral (makes_db (by simp [Neutral])) w trivial
    · exact hwrite _ w hw

theorem safe_respect_reconcileStopped {q : ReservationRecord} {creation : SandboxCreationRecord}
    {snapshot : SandboxSnapshot} {w : Shared × Hist} (hw : Seen q w) :
    Safe (respectContract cfg .scheduler) (Scheduler.reconcileStopped q creation snapshot)
      (fun _ _ => True) (fun _ _ => True) w := by
  have hneutral : ∀ {c : LedgerCall} {w : Shared × Hist}, Neutral (.db c) →
      Safe (respectContract cfg .scheduler) (db c) (fun _ _ => True) (fun _ _ => True) w :=
    fun hc => keeps_neutral (makes_db hc) _ trivial
  refine Safe.seq (Safe.mono (keeps_phase (makes_db (by simp [Neutral, Blind])) w hw.1)
    (fun _ _ h => h) fun _ _ _ => trivial) fun task? w hw => ?_
  split
  · exact hneutral (by simp [Neutral])
  next hne =>
    have hinert := Scheduler.inert_createAgain q creation
    refine Safe.seq (Safe.mono (keeps_phase (hinert.mono fun _ hc =>
      ⟨neutral_of_inert hc, blind_of_inert hc⟩) w hw) (fun _ _ h => h) fun _ _ _ => trivial)
      fun again w hw => ?_
    split
    · refine Safe.mono (safe_write_phase (by simp) ?_) (fun _ _ _ => trivial) fun _ _ _ => trivial
      rw [hw]
      intro h
      exact hne (.inl (Option.some.inj h))
    · refine Safe.seq (hneutral (by simp [Neutral])) fun row? w _ => ?_
      split
      · exact Safe.seq (hneutral (by simp [Neutral])) fun _ w _ => hneutral (by simp [Neutral])
      · exact hneutral (by simp [Neutral])

theorem safe_respect_reconcileLive {q : ReservationRecord} {w : Shared × Hist} (hw : Seen q w) :
    Safe (respectContract cfg .scheduler) (Scheduler.reconcileLive q) (fun _ _ => True)
      (fun _ _ => True) w := by
  unfold Scheduler.reconcileLive
  split
  next hphase => exact safe_respect_terminateReserved (hw.2 hphase)
  next hphase =>
    refine Safe.seq (Safe.mono (keeps_phase (makes_db (by simp [Neutral, Blind])) w hw.1)
      (fun _ _ h => h) fun _ _ _ => trivial) fun task? w hw => ?_
    refine Safe.mono (safe_write_phase ?_ ?_) (fun _ _ _ => trivial) fun _ _ _ => trivial
    · split <;> simp
    · rw [hw]
      simpa using hphase

/-- The reservation that is read again is the one that is acted upon. -/
theorem safe_getReservation_seen {w : Shared × Hist} {st : SandboxProviderState}
    (hw : lastObservation t w.2 = some st) :
    Safe (respectContract cfg .scheduler) (db (.getReservation t)) (fun q? w => ∀ q, q? = some q →
      q.taskId = t ∧ Seen q w ∧ (st = .unknown → q.phase ≠ .terminationPending))
      (fun _ _ => True) w := by
  refine safe_respect_db (fun _ _ _ => trivial) fun s₁ _ hK => ?_
  intro q hq
  have hfind : s₁.ledger.reservations.find? t = some q := hq
  obtain rfl : q.taskId = t := Table.key_of_find? hfind
  refine ⟨rfl, ⟨?_, fun hphase q' hq' => ?_⟩, fun hst => ?_⟩
  · have hseen : phaseSeen q.taskId ⟨.db (.getReservation q.taskId),
        .ok (s₁.ledger.getReservation q.taskId), s₁⟩ = some q.phase := by
      rw [show s₁.ledger.getReservation q.taskId = some q from hfind]
      simp [phaseSeen]
    simp only [lastPhase, List.findSome?_cons]
    rw [show phaseSeen q.taskId _ = some q.phase from hseen]
  · obtain rfl := Option.some.inj (hfind.symm.trans hq')
    exact hphase
  · have hobs : lastObservation q.taskId w.2 = some .unknown := by
      rw [hw, hst]
    have hstand : standing q.taskId s₁.ledger = true := by
      simpa [terminationRespected, hobs] using hK
    exact standing_iff.mp hstand q hfind

theorem safe_respect_reconcileReservation {q : ReservationRecord} {rs : List ReservationRecord}
    {w : Shared × Hist} (hw : Seen q w) (hrs : ∀ q' ∈ rs, q.taskId ≠ q'.taskId ∧ Seen q' w) :
    Safe (respectContract cfg .scheduler) (Scheduler.reconcileReservation q)
      (fun _ w => ∀ q' ∈ rs, Seen q' w) (fun _ _ => True) w := by
  have hblind : ∀ {c : Call}, Scheduler.roundCall q.taskId c = true →
      ∀ q' ∈ rs, Blind q'.taskId c := fun hc q' hq' => blind_of_roundCall (hrs q' hq').1 hc
  -- The calls of this round show none of the reservations that follow.
  have hframe : ∀ {β : Type} {r : Routine β} {post : β → Shared × Hist → Prop}
      {exn : Exn → Shared × Hist → Prop} {w : Shared × Hist},
      Makes (fun c => Scheduler.roundCall q.taskId c = true) r →
      Safe (respectContract cfg .scheduler) r post exn w → (∀ q' ∈ rs, Seen q' w) →
      Safe (respectContract cfg .scheduler) r (fun a w => post a w ∧ ∀ q' ∈ rs, Seen q' w)
        (fun e w => exn e w ∧ ∀ q' ∈ rs, Seen q' w) w :=
    fun hr h hw => safe_frame_seen (hr.mono fun _ hc => hblind hc) h hw
  have hlast : ∀ {r : Routine Unit} {w : Shared × Hist} {exn : Exn → Shared × Hist → Prop},
      Makes (fun c => Scheduler.roundCall q.taskId c = true) r →
      Safe (respectContract cfg .scheduler) r (fun _ _ => True) exn w →
      (∀ q' ∈ rs, Seen q' w) → Safe (respectContract cfg .scheduler) r
        (fun _ w => ∀ q' ∈ rs, Seen q' w) (fun _ _ => True) w :=
    fun hr h hw => Safe.mono (hframe hr h hw) (fun _ _ h => h.2) fun _ _ _ => trivial
  have hrs' : ∀ q' ∈ rs, Seen q' w := fun q' hq' => (hrs q' hq').2
  have hcreation : Safe (respectContract cfg .scheduler) (db (.getSandboxCreation q.taskId))
      (fun c? w => Seen q w ∧ (c?.isSome = true →
        (w.1.ledger.creations.find? q.taskId).isSome = true)) (fun _ _ => True) w := by
    refine safe_respect_db (fun _ _ _ => trivial) fun s₁ hrely _ => ?_
    have hreply : reply (.getSandboxCreation q.taskId) s₁ =
      .ok (s₁.ledger.creations.find? q.taskId) := rfl
    rw [hreply]
    refine ⟨⟨?_, fun hphase => hrely.terminating rfl _ (hw.2 hphase)⟩, fun h => h⟩
    rw [lastPhase_of_blind (blind_of_inert rfl)]
    exact hw.1
  refine Safe.bind (Safe.mono (hframe (makes_db rfl) hcreation hrs') (fun creation? w hw => ?_)
    fun _ _ _ => trivial)
  obtain ⟨⟨hq, hsome⟩, hrs'⟩ := hw
  split
  · split
    · exact hlast (makes_db (by simp [Scheduler.roundCall]))
        (keeps_neutral (makes_db (by simp [Neutral])) w trivial) hrs'
    next hphase =>
      refine hlast (makes_db (by simp [Scheduler.roundCall])) (safe_write_phase (by simp) ?_) hrs'
      rw [hq.1]
      simpa using hphase
  next creation =>
    refine Safe.bind (Safe.attempt (Safe.mono (hframe
      (Scheduler.inert_round (Lifecycle.inert_inspect q.taskId))
      (safe_inspect_looking (hsome rfl)) hrs') (fun snapshot w hw => ?_) fun e w hw => ?_))
    · have hget := hframe (makes_db (by simp [Scheduler.roundCall]))
        (safe_getReservation_seen hw.1) hw.2
      refine Safe.bind (Safe.mono hget (fun current? w hw => ?_) fun _ _ _ => trivial)
      split
      · exact hw.2
      next current =>
        obtain ⟨hkey, hseen, hunknown⟩ := hw.1 current rfl
        split
        · exact hw.2
        · split
          next hst =>
            refine hlast (makes_db (by simp [Scheduler.roundCall])) (safe_write_phase (by simp) ?_)
              hw.2
            have hphase := hunknown hst
            rw [← hkey, hseen.1]
            simpa using hphase
          next =>
            split
            · refine hlast ?_ (safe_respect_reconcileStopped hseen) hw.2
              rw [← hkey]
              exact Scheduler.makes_reconcileStopped current _ _
            · refine hlast ?_ (safe_respect_reconcileLive hseen) hw.2
              rw [← hkey]
              exact Scheduler.makes_reconcileLive current
    · split
      next heq =>
        obtain rfl := Except.error.inj heq
        exact hlast (makes_db (by simp [Scheduler.roundCall]))
          (safe_write_phase (by simp) (hw.1 rfl)) hw.2
      next heq =>
        obtain rfl := Except.error.inj heq
        exact hlast (makes_db (by simp [Scheduler.roundCall]))
          (safe_write_phase (by simp) (hw.1 rfl)) hw.2
      next => trivial
      next heq => simp at heq

theorem safe_list_seen (w : Shared × Hist) :
    Safe (respectContract cfg .scheduler) (db .listReservations) (fun rs w =>
      rs.Pairwise (fun q q' => q.taskId ≠ q'.taskId) ∧ ∀ q ∈ rs, Seen q w) (fun _ _ => True) w := by
  refine safe_respect_db (fun _ _ _ => trivial) fun s₁ _ _ => ?_
  refine ⟨listReservations_pairwise s₁.ledger, fun q hq => ?_⟩
  have hfind := mem_listReservations hq
  refine ⟨?_, fun hphase q' hq' => ?_⟩
  · have hseen : (s₁.ledger.listReservations.find? fun q' => q'.taskId = q.taskId) = some q := by
      cases hx : s₁.ledger.listReservations.find? fun q' => q'.taskId = q.taskId with
      | none => simpa using List.find?_eq_none.mp hx q hq
      | some q' =>
          have hkey : q'.taskId = q.taskId := by simpa using List.find?_some hx
          have hfind' := mem_listReservations (List.mem_of_find?_eq_some hx)
          rw [hkey] at hfind'
          exact congrArg some (Option.some.inj (hfind'.symm.trans hfind))
    simp only [lastPhase, List.findSome?_cons]
    rw [show phaseSeen q.taskId ⟨.db .listReservations, .ok s₁.ledger.listReservations, s₁⟩ =
      some q.phase by rw [phaseSeen, hseen]; rfl]
  · obtain rfl := Option.some.inj (hfind.symm.trans hq')
    exact hphase

theorem keeps_respect_reconcile :
    Keeps (respectContract cfg .scheduler) (fun _ => True) Scheduler.reconcile := by
  refine Keeps.bind (keeps_neutral (makes_db (by simp [Neutral]))) fun _ w _ => ?_
  refine Safe.seq (safe_list_seen w) fun rs w hw => ?_
  refine Safe.seq (safe_forM_reservations (A := fun _ => True) (R := Seen) (fun q rs w _ hq hrs => ?_)
    hw.1 trivial hw.2) fun _ w _ => ?_
  · exact Safe.mono (safe_respect_reconcileReservation hq hrs) (fun _ _ h => ⟨trivial, h⟩)
      fun _ _ h => h
  · exact keeps_neutral (Makes.mono Lifecycle.inert_ensureDurable fun _ hc => neutral_of_inert hc) w
      trivial

theorem safe_respect_detachReservation {q : ReservationRecord} {w : Shared × Hist}
    (hw : Seen q w) :
    Safe (respectContract cfg .scheduler) (Scheduler.detachReservation q) (fun _ _ => True)
      (fun _ _ => True) w := by
  -- The phase is written back as it was listed.
  have hback : ∀ d (w : Shared × Hist), Seen q w → Safe (respectContract cfg .scheduler)
      (db (.updateReservation q.taskId q.phase d none)) (fun _ _ => True)
      (fun e _ => e.isLifecycle = false) w := by
    intro d w hw
    by_cases hphase : q.phase = .terminationPending
    · rw [hphase]
      exact safe_repeat_pending (hw.2 hphase)
    · refine safe_write_phase hphase ?_
      rw [hw.1]
      simpa using hphase
  refine Safe.seq (Safe.mono (keeps_seen (makes_db rfl) w hw) (fun _ _ h => h) fun _ _ _ => trivial)
    fun creation? w hw => ?_
  split
  · trivial
  · refine Safe.tryCatch ?_
    suffices hdetach : Safe (respectContract cfg .scheduler) _ (fun _ _ => True)
        (fun (e : Exn) w => e.isLifecycle = true → Seen q w) w from
      Safe.mono hdetach (fun _ _ _ => trivial) fun e w hw => by
        split
        next he =>
          exact Safe.mono (hback _ w (hw he)) (fun _ _ _ => trivial) fun _ _ _ => trivial
        next => trivial
    refine Safe.seq (Safe.mono (keeps_seen (Lifecycle.inert_detach q.taskId) w hw)
      (fun _ _ h => h) fun _ _ h _ => h) fun snapshot w hw => ?_
    have hwrite : ∀ d, Safe (respectContract cfg .scheduler)
        (db (.updateReservation q.taskId q.phase d none)) (fun _ _ => True)
        (fun e w => e.isLifecycle = true → Seen q w) w :=
      fun d => Safe.mono (hback d w hw) (fun _ _ _ => trivial) fun e w he h => by simp [he] at h
    split
    · split
      · exact safe_respect_db (fun _ _ _ => trivial) fun _ _ _ => trivial
      · refine safe_respect_db (fun _ _ _ => trivial) fun s₁ _ _ => ?_
        have hok : ∀ d, reply (.markSandboxLost q.taskId d) s₁ = .ok () := by
          intro d
          simp only [reply, LedgerCall.exec, Ledger.markSandboxLost]
          split <;> rfl
        rw [hok]
        trivial
    · split
      · exact hwrite _
      · trivial

theorem keeps_respect_stop :
    Keeps (respectContract cfg .scheduler) (fun _ => True) Scheduler.stop := by
  intro w _
  refine Safe.seq (safe_list_seen w) fun rs w hw => ?_
  refine safe_forM_reservations (A := fun _ => True) (R := Seen) (fun q rs w _ hq hrs => ?_) hw.1
    trivial hw.2
  refine Safe.mono (safe_frame_seen ((Scheduler.makes_detachReservation q).mono fun _ hc q' hq' =>
    blind_of_roundCall (hrs q' hq').1 hc) (safe_respect_detachReservation hq) fun q' hq' =>
      (hrs q' hq').2) (fun _ _ h => ⟨trivial, h.2⟩) fun _ _ _ => trivial

/-- The reservation of `t` was not last seen waiting for termination. -/
def Provisionable (t : TaskId) (w : Shared × Hist) : Prop :=
  lastPhase t w.2 ≠ some .terminationPending

theorem keeps_provisionable {ts : List TaskId}
    (hr : Makes (fun c => Neutral c ∧ ∀ u, Blind u c) r) :
    Keeps (respectContract cfg p) (fun w => ∀ u ∈ ts, Provisionable u w) r := by
  refine keeps_of_makes hr (fun _ _ _ hs _ => hs) fun c s o a s' h hc hs _ _ ha => ?_
  refine ⟨trivial, respects_answer hc.1 ha, fun u hu => ?_⟩
  have hlast : lastPhase u (⟨c, a, s⟩ :: h) = lastPhase u h := lastPhase_of_blind (hc.2 u)
  rw [Provisionable, hlast]
  exact hs u hu

theorem plain_of_createCall {c : Call} (hc : Scheduler.createCall c = true) :
    Neutral c ∧ ∀ u, Blind u c := by
  refine ⟨⟨?_, ?_, ?_⟩, fun u => ⟨?_, ?_, ?_⟩⟩
  · rintro t phase d st rfl
    simp [Scheduler.createCall, Call.inert, LedgerCall.inert] at hc
  · rintro n rfl
    simp [Scheduler.createCall, Call.inert, LedgerCall.inert] at hc
  · rintro b n rfl
    simp [Scheduler.createCall, Call.inert, LedgerCall.inert] at hc
  · rintro rfl
    simp [Scheduler.createCall, Call.inert, LedgerCall.inert] at hc
  · rintro rfl
    simp [Scheduler.createCall, Call.inert, LedgerCall.inert] at hc
  · rintro n rfl
    simp [Scheduler.createCall, Call.inert, LedgerCall.inert] at hc

theorem safe_respect_provision {ts : List TaskId} {w : Shared × Hist} (ht : Provisionable t w)
    (hts : ∀ u ∈ ts, Provisionable u w) :
    Safe (respectContract cfg .scheduler) (Scheduler.provision cfg t)
      (fun _ w => ∀ u ∈ ts, Provisionable u w) (fun _ _ => True) w := by
  have hall : ∀ u ∈ t :: ts, Provisionable u w := by
    intro u hu
    rcases List.mem_cons.mp hu with rfl | hu
    · exact ht
    · exact hts u hu
  have hplain : ∀ {β : Type} {r : Routine β} {w : Shared × Hist},
      Makes (fun c => Neutral c ∧ ∀ u, Blind u c) r → (∀ u ∈ t :: ts, Provisionable u w) →
      Safe (respectContract cfg .scheduler) r (fun _ w => ∀ u ∈ t :: ts, Provisionable u w)
        (fun _ _ => True) w :=
    fun hr hw => Safe.mono (keeps_provisionable hr _ hw) (fun _ _ h => h) fun _ _ _ => trivial
  have hwrite : ∀ {phase : ReservationPhase} {d : Option String} {st : Option TaskState}
      {w : Shared × Hist}, phase ≠ .terminationPending → (∀ u ∈ t :: ts, Provisionable u w) →
      Safe (respectContract cfg .scheduler) (db (.updateReservation t phase d st))
        (fun _ w => ∀ u ∈ ts, Provisionable u w) (fun _ _ => True) w := by
    intro phase d st w hphase hw
    refine safe_respect_db (fun s₁ _ hK => ?_) fun s₁ _ _ => ?_
    · have hne : lastPhase t w.2 ≠ some .terminationPending := hw t (by simp)
      have hstand : standing t s₁.ledger = true := by
        simpa [terminationRespected, hphase, hne] using hK
      simp only [Allowed, hphase, if_false]
      exact hstand
    · cases reply (.updateReservation t phase d st) s₁ with
      | error e => trivial
      | ok u =>
          intro u hu
          rw [Provisionable, lastPhase_of_blind (by simp [Blind])]
          exact hw u (by simp [hu])
  have htail : ∀ {w : Shared × Hist}, (∀ u ∈ t :: ts, Provisionable u w) →
      ∀ u ∈ ts, Provisionable u w := fun hw u hu => hw u (by simp [hu])
  have hdurable : Makes (fun c => Neutral c ∧ ∀ u, Blind u c) ensureDurable :=
    Makes.mono Lifecycle.inert_ensureDurable fun _ hc =>
      ⟨neutral_of_inert hc, fun _ => blind_of_inert hc⟩
  refine Safe.seq (hplain hdurable hall) fun _ w hw => ?_
  refine Safe.seq (hplain ((Scheduler.makes_create cfg t).mono fun _ => plain_of_createCall).attempt
    hw) fun r w hw => ?_
  split
  · refine Safe.seq (hplain (makes_db (by simp [Neutral, Blind])) hw) fun _ w hw => ?_
    exact Safe.mono (hplain (makes_db (by simp [Neutral, Blind])) hw) (fun _ _ h => htail h)
      fun _ _ h => h
  · exact hwrite (by simp) hw
  · exact hwrite (by simp) hw
  · trivial
  · split
    · exact hwrite (by simp) hw
    · exact hwrite (by simp) hw

theorem keeps_respect_upkeep {α : Type} {r : Routine α}
    (hr : Makes (fun c => Scheduler.upkeepCall c = true) r) :
    Keeps (respectContract cfg .scheduler) (fun _ => True) r := by
  refine keeps_of_makes hr (fun _ _ _ _ _ => trivial) fun c s o a s' h hc _ _ _ ha => ?_
  refine ⟨trivial, ?_, trivial⟩
  obtain ⟨d, rfl, rfl⟩ | ⟨-, hsame⟩ := answer_rows ha
  · refine respects_after ?_
    unfold Allowed
    split
    · simp [Scheduler.upkeepCall, Scheduler.tendCall, Call.inert, LedgerCall.inert] at hc
    all_goals trivial
  · exact .of_sameRows hsame

theorem admits_respect : Admits (respectContract cfg .scheduler) cfg (fun _ => True)
    Provisionable where
  upkeep hr := keeps_respect_upkeep (hr.mono fun _ => Scheduler.upkeepCall_of_tendCall)
  maintain := keeps_respect_upkeep (Scheduler.makes_maintenance cfg)
  list w _ := Safe.mono (safe_list_seen w) (fun rs w hw => ⟨trivial, fun q hq hphase => by
    rw [Provisionable, (hw.2 q hq).1, hphase]
    simp⟩) fun _ _ _ => trivial
  reserve n w _ := by
    refine safe_respect_db (fun _ _ _ => rfl) fun s₁ _ _ => ?_
    cases reply (.reserveNext n) s₁ with
    | error e => trivial
    | ok r? =>
        refine ⟨trivial, ?_⟩
        rintro r rfl
        simp [Provisionable, lastPhase, phaseSeen]
  stop ts w _ hts := Safe.mono (keeps_provisionable (makes_stopIsSet (by simp [Neutral, Blind])) w hts)
    (fun _ _ h => ⟨trivial, h⟩) fun _ _ _ => trivial
  provision t ts w _ ht hts := Safe.mono (safe_respect_provision ht hts)
    (fun _ _ h => ⟨trivial, h⟩) fun _ _ h => h

/-! #### Requests -/

theorem neutral_of_messageCall {c : Call} (hc : Manager.messageCall t c = true) : Neutral c := by
  refine ⟨?_, ?_, ?_⟩
  · rintro t' phase d st rfl
    simp [Manager.messageCall, Call.inert, LedgerCall.inert] at hc
  · rintro n rfl
    simp [Manager.messageCall, Call.inert, LedgerCall.inert] at hc
  · rintro b n rfl
    simp [Manager.messageCall, Call.inert, LedgerCall.inert] at hc

theorem neutral_of_cancelCall {c : Call} (hc : Service.cancelCall t c = true) : Neutral c := by
  refine ⟨?_, ?_, ?_⟩
  · rintro t' phase d st rfl
    simp [Service.cancelCall] at hc
  · rintro n rfl
    simp [Service.cancelCall] at hc
  · rintro b n rfl
    simp [Service.cancelCall] at hc

theorem neutral_of_routeCall {q : Route} {c : Call} (hc : Routes.routeCall q c = true) :
    Neutral c := by
  refine ⟨?_, ?_, ?_⟩
  · rintro t' phase d st rfl
    cases q <;> simp [Routes.routeCall, Service.submitCall, Manager.messageCall,
      Service.cancelCall, Call.inert, LedgerCall.inert] at hc
  · rintro n rfl
    cases q <;> simp [Routes.routeCall, Service.submitCall, Manager.messageCall,
      Service.cancelCall, Call.inert, LedgerCall.inert] at hc
  · rintro b n rfl
    cases q <;> simp [Routes.routeCall, Service.submitCall, Manager.messageCall,
      Service.cancelCall, Call.inert, LedgerCall.inert] at hc

end Programs

/-! ### Runs -/

/-- Events that leave the reservations and identities alone. -/
theorem Relies.of_same {p : Pid} {s s' : Shared}
    (hres : s'.ledger.reservations = s.ledger.reservations)
    (hcre : s'.ledger.creations = s.ledger.creations) : Relies p s s' := by
  have hstand : ∀ t, Standing t s' ↔ Standing t s := fun t => by
    simp only [Standing, Safety.standing, hres]
  refine ⟨fun t _ h => (hstand t).mpr h, fun t _ h => ?_, fun _ t h => ?_, fun _ t h => ?_⟩
  · rw [Identified, hstand, hcre]
    exact h
  · intro q hq
    rw [hres] at hq
    exact h q hq
  · rw [hcre]
    exact h

theorem sound_terminationRespected (cfg : Config) :
    Machine.Sound (terminationRespected cfg) (fun _ => True) Relies Respects
      (fun _ _ _ => True) where
  rely_trans _ _ _ _ := Relies.trans
  guar_rely _ _ _ _ := Respects.relies
  job p j s prog s' _ hj := by
    obtain ⟨hstarted, ph, rfl⟩ := start_cases hj
    refine ⟨trivial, .of_sameRows ⟨rfl, rfl⟩, ?_⟩
    cases hstarted with
    | boot =>
        exact safe_ending (admits_respect.lifespan keeps_respect_reconcile
          (keeps_neutral ⟨by simp [Neutral], fun _ => trivial⟩) _ trivial)
    | cycle => exact safe_ending (admits_respect.dispatchOnce keeps_respect_reconcile _ trivial)
    | shutdown => exact safe_ending (keeps_respect_stop _ trivial)
    | iterate t => exact safe_ending (safe_respect_activation _)
    | message n t m content =>
        exact safe_ending (keeps_neutral ((Manager.makes_sendMessage cfg t m content).mono
          fun _ hc => neutral_of_messageCall hc) _ trivial)
    | cancel n t owner =>
        exact safe_ending (keeps_neutral ((Service.makes_cancel t owner).mono
          fun _ hc => neutral_of_cancelCall hc) _ trivial)
    | route n q =>
        exact safe_ending (keeps_neutral ((Routes.makes_handle cfg q).mono
          fun _ hc => neutral_of_routeCall hc) _ trivial)
  event e s s' _ _ he := by
    refine ⟨trivial, fun hkills p => ?_⟩
    have hne : e ≠ .restore := by
      rintro rfl
      simp [backend, Happening.kills] at hkills
    obtain ⟨hres, hcre⟩ := same_event he hne
    exact .of_same hres hcre

theorem sticks_event {cfg : Config} {e : Happening} {s s' : Shared}
    (hK : (terminationRespected cfg).event e s = true) (h : e.apply s = some s') :
    Sticks s s' := by
  intro t ht q' hq'
  obtain ⟨q, hq, hphase⟩ : ∃ q, s.ledger.reservations.find? t = some q ∧
      q.phase = .terminationPending := by
    by_contra hno
    refine ht (standing_iff.mpr fun q hq hphase => hno ⟨q, hq, hphase⟩)
  by_cases hrestore : e = .restore
  · subst hrestore
    simp only [Happening.apply] at h
    split at h
    · obtain ⟨l, hl, rfl⟩ := Option.map_eq_some_iff.mp h
      obtain rfl : q.taskId = t := Table.key_of_find? hq
      simp only [terminationRespected, hl, Option.all_some, List.all_eq_true] at hK
      have hrow := hK q (Table.mem_of_find? hq)
      have hl' : l.reservations.find? q.taskId = some q' := hq'
      simpa [hphase, hl'] using hrow
    · simp at h
  · obtain ⟨hres, -⟩ := same_event h hrestore
    rw [hres] at hq'
    obtain rfl := Option.some.inj (hq.symm.trans hq')
    exact hphase

/-- The task is reserved in every state of a run. -/
def reservedThroughout {cfg : Config} (t : TaskId) : System → List (Act cfg) → Bool
  | w, [] => (w.shared.ledger.reservations.find? t).isSome
  | w, a :: as => (w.shared.ledger.reservations.find? t).isSome &&
      match (backend cfg).step w a with
      | some w' => reservedThroughout t w' as
      | none => true

/-- In a run that respects terminations, a reservation that waits for one waits in
every later state, until it is deleted. -/
theorem termination_sticky {cfg : Config} {acts acts' : List (Act cfg)} {w w' : System}
    (hw : (backend cfg).run System.init acts = some w)
    (hw' : (backend cfg).run w acts' = some w')
    (hK : Machine.keeps (terminationRespected cfg) System.init (acts ++ acts') = true)
    {t : TaskId} (hstays : reservedThroughout t w acts' = true) {q : ReservationRecord}
    (hq : w.shared.ledger.reservations.find? t = some q) (hphase : q.phase = .terminationPending) :
    ∃ q', w'.shared.ledger.reservations.find? t = some q' ∧ q'.phase = .terminationPending := by
  rw [Machine.keeps_append hw, Bool.and_eq_true] at hK
  have hsound := sound_terminationRespected cfg
  have hok := hsound.run Relies.refl (ok_init trivial) hK.1 hw
  replace hK := hK.2
  clear hw
  induction acts' generalizing w q with
  | nil =>
      obtain rfl : w = w' := by simpa [Machine.run] using hw'
      exact ⟨q, hq, hphase⟩
  | cons a as ih =>
      simp only [Machine.run] at hw'
      cases hs : (backend cfg).step w a with
      | none => simp [hs] at hw'
      | some w₁ =>
          rw [hs] at hw'
          simp only [Machine.keeps, hs, Bool.and_eq_true] at hK
          simp only [reservedThroughout, hs, Bool.and_eq_true] at hstays
          obtain ⟨hok₁, heff⟩ := hsound.step Relies.refl hok hK.1 hs
          have hsticks : Sticks w.shared w₁.shared := by
            cases heff with
            | thread p h => exact h.sticks
            | event e _ hKe he => exact sticks_event hKe he
          have hterm : Terminating t w₁.shared :=
            hsticks t fun h => standing_iff.mp h q hq hphase
          obtain ⟨q₁, hq₁⟩ : ∃ q₁, w₁.shared.ledger.reservations.find? t = some q₁ := by
            refine Option.isSome_iff_exists.mp ?_
            cases as with
            | nil => exact hstays.2
            | cons b bs =>
                have := hstays.2
                simp only [reservedThroughout, Bool.and_eq_true] at this
                exact this.1
          exact ih hw' hstays.2 hq₁ (hterm q₁ hq₁) hok₁ hK.2

/-- The loop fails the task and begins to terminate its sandbox. -/
def doomed : List (Act demo) := failing ++ calls (.loop 1) 1 unstarted

/-- It goes on to the point where it can release the reservation. -/
def terminated : List (Act demo) :=
  [.event (.sandboxEnds 1)] ++ calls (.loop 1) 1 gone ++ snapshot ++ calls (.loop 1) 6 gone

/-- The phase of the reservation of a task at the end of a run. -/
def phaseAt (t : TaskId) (w : Option System) : Option ReservationPhase :=
  w.bind fun w => (w.shared.ledger.reservations.find? t).map ReservationRecord.phase

theorem of_phaseAt {t : TaskId} {o : Option System} {phase : ReservationPhase}
    (h : phaseAt t o = some phase) :
    ∃ w q, o = some w ∧ w.shared.ledger.reservations.find? t = some q ∧ q.phase = phase := by
  obtain ⟨w, hw, h⟩ := Option.bind_eq_some_iff.mp h
  obtain ⟨q, hq, hphase⟩ := Option.map_eq_some_iff.mp h
  exact ⟨w, q, hw, hq, hphase⟩

theorem termination_sticky_terminated :
    ∃ w w' q, (backend demo).run System.init doomed = some w ∧
      (backend demo).run w terminated = some w' ∧
      Machine.keeps (terminationRespected demo) System.init (doomed ++ terminated) = true ∧
      reservedThroughout 1 w terminated = true ∧
      w.shared.ledger.reservations.find? 1 = some q ∧ q.phase = .terminationPending ∧
      ∃ q', w'.shared.ledger.reservations.find? 1 = some q' ∧ q'.phase = .terminationPending := by
  have h : phaseAt 1 ((backend demo).run System.init doomed) = some .terminationPending := by
    decide +kernel
  have h' : phaseAt 1 ((backend demo).run System.init (doomed ++ terminated)) =
      some .terminationPending := by
    decide +kernel
  have hK : Machine.keeps (terminationRespected demo) System.init (doomed ++ terminated) = true := by
    decide +kernel
  have hstays : (((backend demo).run System.init doomed).all fun w =>
      reservedThroughout 1 w terminated) = true := by
    decide +kernel
  obtain ⟨w, q, hw, hq, hphase⟩ := of_phaseAt h
  obtain ⟨w', q', hw', -, -⟩ := of_phaseAt h'
  have hrest := run_of_append hw hw'
  rw [hw, Option.all_some] at hstays
  exact ⟨w, w', q, hw, hrest, hK, hstays, hq, hphase,
    termination_sticky hw hrest hK hstays hq hphase⟩

/-- The provider does not answer a lookup. -/
def unclear : Oracle :=
  { fine with ext := fun c =>
      match c with
      | .providerFromId _ => .error (.other "TimeoutError" "timed out")
      | c => working c }

/-- A cycle of the scheduler asks the provider about the sandbox, and is about to
write what it makes of the answer. -/
def unanswered : List (Act demo) :=
  [.start .scheduler .cycle] ++ calls .scheduler 1 unclear ++ snapshot ++
    calls .scheduler 8 unclear

/-- Without the condition a provider that does not answer makes the scheduler
forget the termination. -/
theorem termination_forgotten :
    ¬ ∀ (acts acts' : List (Act demo)) (w w' : System) (t : TaskId) (q : ReservationRecord),
      (backend demo).run System.init acts = some w → (backend demo).run w acts' = some w' →
      reservedThroughout t w acts' = true → w.shared.ledger.reservations.find? t = some q →
      q.phase = .terminationPending →
      ∃ q', w'.shared.ledger.reservations.find? t = some q' ∧ q'.phase = .terminationPending := by
  intro hclaim
  have h : phaseAt 1 ((backend demo).run System.init (doomed ++ unanswered)) =
      some .terminationPending := by
    decide +kernel
  have h' : phaseAt 1 ((backend demo).run System.init
      ((doomed ++ unanswered) ++ calls .scheduler 1 unclear)) = some .unresolvedCreation := by
    decide +kernel
  have hstays : (((backend demo).run System.init (doomed ++ unanswered)).all fun w =>
      reservedThroughout 1 w (calls .scheduler 1 unclear)) = true := by
    decide +kernel
  obtain ⟨w, q, hw, hq, hphase⟩ := of_phaseAt h
  obtain ⟨w', q', hw', hq', hphase'⟩ := of_phaseAt h'
  rw [hw, Option.all_some] at hstays
  obtain ⟨q₁, hq₁, hphase₁⟩ := hclaim _ _ w w' 1 q hw (run_of_append hw hw') hstays hq hphase
  obtain rfl := Option.some.inj (hq'.symm.trans hq₁)
  rw [hphase'] at hphase₁
  simp at hphase₁

end GgAgent.Safety
