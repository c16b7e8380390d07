import GgAgent.Safety.Basic

/-!
What `stop` and `reconcile` make of a reserved task whose sandbox the provider
reports as gone. Both are run alone, on the same state and with the same answers of
the provider, and the lifecycle class that they leave the task in is compared: its
public state, and whether it still holds its reservation.

`reconcile` tells five cases apart and `stop` two. They agree exactly where the
cases that `stop` does not look at are excluded.
-/

namespace GgAgent.Recovery

open GgAgent.Lib GgAgent.Lib.Co GgAgent.Backend

/-- The scheduler alone; the outside answers as `o` says. -/
abbrev answers (o : Oracle) : (c : Call) → Shared → Option (c.Out × Shared) :=
  Shared.answer .scheduler o

/-- The provider answers STOPPED about the sandbox of a stored identity: it does not
know the sandbox, or the sandbox has exited and lets go of its handle. -/
def Absent (o : Oracle) (c : SandboxCreationRecord) : Prop :=
  match c.providerId with
  | some id => o.ext (.providerFromId id) = .error .providerNotFound ∨
      (o.ext (.providerFromId id) = .ok () ∧ Exited id)
  | none => o.ext (.providerFind c.tags) = .ok [] ∨
      ∃ id, o.ext (.providerFind c.tags) = .ok [id] ∧ Exited id
where
  Exited (id : ProviderId) : Prop :=
    (∃ code, o.ext (.providerPoll id) = .ok (some code)) ∧ o.ext (.providerDetach id) = .ok ()

/-- The public state of a task, and whether it is reserved. -/
def lifecycleClass (t : TaskId) (l : Ledger) : Option TaskState × Bool :=
  ((l.tasks.find? t).map TaskRecord.state, (l.reservations.find? t).isSome)

/-! ### What a look at the provider changes -/

/-- Nothing but the sandbox identity of `t` differs. -/
structure Looked (t : TaskId) (s s' : Shared) : Prop where
  tasks : s'.ledger.tasks = s.ledger.tasks
  reservations : s'.ledger.reservations = s.ledger.reservations
  supervisions : s'.ledger.supervisions = s.ledger.supervisions
  results : s'.ledger.results = s.ledger.results
  creations : ∀ t', t' ≠ t → s'.ledger.creations.find? t' = s.ledger.creations.find? t'
  present : s.ledger.creations.find? t ≠ none → s'.ledger.creations.find? t ≠ none

theorem Looked.refl (t : TaskId) (s : Shared) : Looked t s s :=
  ⟨rfl, rfl, rfl, rfl, fun _ _ => rfl, fun h => h⟩

theorem Looked.trans {t : TaskId} {a b c : Shared} (h : Looked t a b) (h' : Looked t b c) :
    Looked t a c :=
  ⟨h'.tasks.trans h.tasks, h'.reservations.trans h.reservations,
    h'.supervisions.trans h.supervisions, h'.results.trans h.results,
    fun t' ht => (h'.creations t' ht).trans (h.creations t' ht), fun ha => h'.present (h.present ha)⟩

variable {o : Oracle} {s : Shared} {t : TaskId} {c : SandboxCreationRecord}

theorem ends_db (c : LedgerCall) :
    Ends (answers o) (db c) (fun x s' => x = (c.exec s.clock s.ledger).1 ∧
      s' = Safety.after c s) s :=
  ⟨_, _, rfl, rfl, rfl⟩

/-- A query answers from the database and leaves it. -/
theorem ends_read {c : LedgerCall} {f : Ledger → c.Out} (h : ∀ now, c.exec now = Ledger.read f)
    (hc : ∀ t r, c ≠ .saveTaskMessageReceipt t r := by simp) :
    Ends (answers o) (db c) (fun x s' => x = .ok (f s.ledger) ∧ s = s') s := by
  refine Ends.mono (ends_db c) ?_
  rintro x _ ⟨rfl, rfl⟩
  rw [Safety.after, refusal_eq_nil hc, h]
  exact ⟨rfl, rfl⟩

/-- An observation of the provider is recorded. -/
theorem ends_observe (id : Option ProviderId) (st : SandboxProviderState) (d : Option String)
    (hc : s.ledger.creations.find? t ≠ none) :
    Ends (answers o) (db (.updateSandboxCreation t id st d)) (fun x s' => Looked t s s' ∧
      ∃ r, x = .ok r ∧ r.providerState = st) s := by
  obtain ⟨c, hc⟩ := Option.ne_none_iff_exists'.mp hc
  refine Ends.mono (ends_db _) ?_
  rintro x _ ⟨rfl, rfl⟩
  simp only [Safety.after, LedgerCall.exec, Ledger.updateSandboxCreation, hc]
  split
  next hsame => exact ⟨⟨rfl, rfl, rfl, rfl, fun _ _ => rfl, fun h => h⟩, c, rfl, hsame.2.1⟩
  next =>
    refine ⟨⟨rfl, rfl, rfl, rfl, fun t' ht => ?_, fun _ => ?_⟩, _, rfl, rfl⟩
    · simp [Ledger.commit, ht]
    · simp [Ledger.commit, hc]

/-- An outside call that leaves the process as it is. -/
theorem ends_ext (c : ExtCall) (h : s.outside c (o.ext c) = some s) :
    Ends (answers o) (ext c) (fun x s' => x = .ok (o.ext c) ∧ s = s') s := by
  refine ⟨_, s, ?_, rfl, rfl⟩
  show ((s.outside c (o.ext c)).map fun s' => (o.ext c, s')).bind _ = _
  rw [h]
  rfl

theorem ends_pollHandle (id : ProviderId) (hc : s.ledger.creations.find? t ≠ none) :
    Ends (answers o) (Lifecycle.pollHandle t id) (fun x s' => Looked t s s' ∧
      ∃ snap, x = .ok (snap, some id) ∧ (Absent.Exited o id → snap.state = .stopped)) s := by
  refine Ends.bind (ends_ext (.providerPoll id) rfl) ?_ fun e s' h => by simp at h
  rintro _ _ ⟨hx, rfl⟩
  obtain rfl := Except.ok.inj hx
  split
  next e hp =>
    refine Ends.bind (ends_observe none .unknown _ hc) ?_ fun e s' h => by simp at h
    rintro _ s' ⟨hl, r, hr, hst⟩
    obtain rfl := Except.ok.inj hr
    exact Ends.pure ⟨hl, _, rfl, fun ⟨⟨code, hcode⟩, _⟩ => by rw [hp] at hcode; simp at hcode⟩
  next hp =>
    refine Ends.bind (ends_observe none .running _ hc) ?_ fun e s' h => by simp at h
    rintro _ s' ⟨hl, r, hr, hst⟩
    obtain rfl := Except.ok.inj hr
    exact Ends.pure ⟨hl, _, rfl, fun ⟨⟨code, hcode⟩, _⟩ => by rw [hp] at hcode; simp at hcode⟩
  next code hp =>
    refine Ends.bind (ends_observe none .stopped _ hc) ?_ fun e s' h => by simp at h
    rintro _ s' ⟨hl, r, hr, hst⟩
    obtain rfl := Except.ok.inj hr
    exact Ends.pure ⟨hl, _, rfl, fun _ => hst⟩

/-- The provider is asked for the state of a stored identity. -/
theorem ends_reconnectRecord (hc : s.ledger.creations.find? t = some c) :
    Ends (answers o) (Lifecycle.reconnectRecord c) (fun x s' => Looked t s s' ∧ match x with
      | .ok a => Absent o c → a.1.state = .stopped ∧
          ∀ id ∈ a.2, o.ext (.providerDetach id) = .ok ()
      | .error e => e.isLifecycle = true ∧ ¬ Absent o c) s := by
  have hkey : c.taskId = t := Table.key_of_find? hc
  have hne : s.ledger.creations.find? t ≠ none := by rw [hc]; simp
  unfold Lifecycle.reconnectRecord
  rw [hkey]
  cases hid : c.providerId with
  | some id =>
      refine Ends.bind (ends_ext (.providerFromId id) rfl) ?_ fun e s' h => by simp at h
      rintro _ _ ⟨hx, rfl⟩
      obtain rfl := Except.ok.inj hx
      split
      next hok =>
        refine Ends.mono (ends_pollHandle id hne) ?_
        rintro x s' ⟨hl, snap, rfl, hst⟩
        refine ⟨hl, fun habs => ?_⟩
        simp only [Absent, hid] at habs
        rcases habs with habs | ⟨-, habs⟩
        · rw [hok] at habs
          simp at habs
        · exact ⟨hst habs, by simpa using habs.2⟩
      next =>
        refine Ends.bind (ends_observe none .stopped _ hne) ?_ fun e s' h => by simp at h
        rintro _ s' ⟨hl, r, hr, hst⟩
        obtain rfl := Except.ok.inj hr
        exact Ends.pure ⟨hl, fun _ => ⟨hst, by simp⟩⟩
      next e hnf herr =>
        refine Ends.bind (ends_observe none .unknown _ hne) ?_ fun e s' h => by simp at h
        rintro _ s' ⟨hl, r, hr, hst⟩
        obtain rfl := Except.ok.inj hr
        refine Ends.pure ⟨hl, fun habs => ?_⟩
        simp only [Absent, hid] at habs
        rcases habs with habs | ⟨habs, -⟩
        · exact absurd (Except.error.inj (herr.symm.trans habs)) hnf
        · rw [herr] at habs
          simp at habs
  | none =>
      refine Ends.bind (ends_ext (.providerFind c.tags) rfl) ?_ fun e s' h => by simp at h
      rintro _ _ ⟨hx, rfl⟩
      obtain rfl := Except.ok.inj hx
      split
      next e herr =>
        refine Ends.bind (ends_observe none .unknown _ hne) ?_ fun e s' h => by simp at h
        rintro _ s' ⟨hl, r, hr, hst⟩
        obtain rfl := Except.ok.inj hr
        refine Ends.pure ⟨hl, fun habs => ?_⟩
        simp only [Absent, hid] at habs
        rcases habs with habs | ⟨_, habs, -⟩
        · rw [herr] at habs
          simp at habs
        · rw [herr] at habs
          simp at habs
      next =>
        refine Ends.bind (ends_observe none .stopped _ hne) ?_ fun e s' h => by simp at h
        rintro _ s' ⟨hl, r, hr, hst⟩
        obtain rfl := Except.ok.inj hr
        exact Ends.pure ⟨hl, fun _ => ⟨hst, by simp⟩⟩
      next id hone =>
        refine Ends.bind (ends_observe (some id) .creating none hne) ?_ fun e s' h => by simp at h
        rintro _ s' ⟨hl, r, hr, -⟩
        refine Ends.mono (ends_pollHandle id (hl.present hne)) ?_
        rintro x s'' ⟨hl', snap, rfl, hst⟩
        refine ⟨hl.trans hl', fun habs => ?_⟩
        simp only [Absent, hid] at habs
        rcases habs with habs | ⟨id', habs, hexit⟩
        · rw [hone] at habs
          simp at habs
        · rw [hone] at habs
          obtain rfl : id = id' := by simpa using habs
          exact ⟨hst hexit, by simpa using hexit.2⟩
      next ids hmany hone hids =>
        refine Ends.bind (ends_observe none .unknown _ hne) ?_ fun e s' h => by simp at h
        rintro _ s' ⟨hl, r, hr, hst⟩
        obtain rfl := Except.ok.inj hr
        refine Ends.throw ⟨hl, rfl, fun habs => ?_⟩
        simp only [Absent, hid] at habs
        rcases habs with habs | ⟨id', habs, -⟩
        · exact hmany (Except.ok.inj (hids.symm.trans habs))
        · exact hone id' (Except.ok.inj (hids.symm.trans habs))

theorem ends_record (hc : s.ledger.creations.find? t = some c) :
    Ends (answers o) (Lifecycle.record t) (fun x s' => x = .ok c ∧ s = s') s := by
  refine Ends.bind (ends_read (c := .getSandboxCreation t) fun _ => rfl) ?_ fun e s' h => by simp at h
  rintro _ _ ⟨hx, rfl⟩
  obtain rfl := Except.ok.inj hx
  rw [show Ledger.getSandboxCreation t s.ledger = some c from hc]
  exact Ends.pure ⟨rfl, rfl⟩

theorem ends_reconnect (hc : s.ledger.creations.find? t = some c) :
    Ends (answers o) (Lifecycle.reconnect t) (fun x s' => Looked t s s' ∧ match x with
      | .ok snap => Absent o c → snap.state = .stopped
      | .error e => e.isLifecycle = true ∧ ¬ Absent o c) s := by
  refine Ends.bind (ends_record hc) ?_ fun e s' h => by simp at h
  rintro _ _ ⟨hx, rfl⟩
  obtain rfl := Except.ok.inj hx
  refine Ends.bind (ends_reconnectRecord hc) ?_ fun e s' h => h
  rintro ⟨snap, handle⟩ s' ⟨hl, hst⟩
  exact Ends.pure ⟨hl, fun habs => (hst habs).1⟩

theorem ends_detach (hc : s.ledger.creations.find? t = some c) :
    Ends (answers o) (Lifecycle.detach t) (fun x s' => Looked t s s' ∧ match x with
      | .ok snap => Absent o c → snap.state = .stopped
      | .error e => e.isLifecycle = true ∧ ¬ Absent o c) s := by
  have hne : s.ledger.creations.find? t ≠ none := by rw [hc]; simp
  refine Ends.bind (ends_record hc) ?_ fun e s' h => by simp at h
  rintro _ _ ⟨hx, rfl⟩
  obtain rfl := Except.ok.inj hx
  refine Ends.bind (ends_reconnectRecord hc) ?_ fun e s' h => h
  rintro ⟨snap, handle⟩ s' ⟨hl, hst⟩
  cases handle with
  | none => exact Ends.pure ⟨hl, fun habs => (hst habs).1⟩
  | some id =>
      refine Ends.bind (ends_ext (.providerDetach id) rfl) ?_ fun e s' h => by simp at h
      rintro _ _ ⟨hx, rfl⟩
      obtain rfl := Except.ok.inj hx
      split
      · exact Ends.pure ⟨hl, fun habs => (hst habs).1⟩
      next e herr =>
        refine Ends.bind (ends_observe none .unknown _ (hl.present hne)) ?_ fun e s' h => by
          simp at h
        rintro _ s'' ⟨hl', -⟩
        refine Ends.throw ⟨hl.trans hl', rfl, fun habs => ?_⟩
        have hok := (hst habs).2 id rfl
        rw [herr] at hok
        simp at hok

/-! ### One reservation at a shutdown -/

/-- The rows of the tasks other than `t` are the same. -/
structure Apart (t : TaskId) (s s' : Shared) : Prop where
  tasks : ∀ t', t' ≠ t → s'.ledger.tasks.find? t' = s.ledger.tasks.find? t'
  reservations : ∀ t', t' ≠ t → s'.ledger.reservations.find? t' = s.ledger.reservations.find? t'
  creations : ∀ t', t' ≠ t → s'.ledger.creations.find? t' = s.ledger.creations.find? t'

theorem Looked.apart {s' : Shared} (h : Looked t s s') : Apart t s s' :=
  ⟨fun t' _ => by rw [h.tasks], fun t' _ => by rw [h.reservations], h.creations⟩

theorem Apart.trans {a b c : Shared} (h : Apart t a b) (h' : Apart t b c) : Apart t a c :=
  ⟨fun t' ht => (h'.tasks t' ht).trans (h.tasks t' ht),
    fun t' ht => (h'.reservations t' ht).trans (h.reservations t' ht),
    fun t' ht => (h'.creations t' ht).trans (h.creations t' ht)⟩

/-- A reservation is released: the task keeps its state. -/
theorem ends_release :
    Ends (answers o) (db (.releaseReservation t "confirmed_absent")) (fun x s' => x = .ok () ∧
      Apart t s s' ∧ lifecycleClass t s'.ledger =
        ((s.ledger.tasks.find? t).map TaskRecord.state, false)) s := by
  refine Ends.mono (ends_db _) ?_
  rintro x _ ⟨rfl, rfl⟩
  have hfind := releaseReservation_find s.clock s.ledger t "confirmed_absent"
  refine ⟨rfl, ⟨fun t' ht => ?_, fun t' ht => ?_, fun _ _ => rfl⟩, ?_⟩
  · exact (hfind t').2.trans (if_neg ht)
  · exact (hfind t').1.trans (if_neg ht)
  · simp only [lifecycleClass, Safety.after, LedgerCall.exec, (hfind t).1, (hfind t).2, if_true]
    cases s.ledger.tasks.find? t <;> rfl

/-- The sandbox of a task is marked lost. -/
theorem ends_markLost (d : String) :
    Ends (answers o) (db (.markSandboxLost t d)) (fun x s' => x = .ok () ∧ Apart t s s' ∧
      ∀ r, s.ledger.tasks.find? t = some r →
        lifecycleClass t s'.ledger = (some (Ledger.stateWhenLost r), false)) s := by
  refine Ends.mono (ends_db _) ?_
  rintro x _ ⟨rfl, rfl⟩
  cases hr : s.ledger.tasks.find? t with
  | none =>
      simp only [Safety.after, LedgerCall.exec, Ledger.markSandboxLost, hr]
      exact ⟨trivial, ⟨fun _ _ => rfl, fun _ _ => rfl, fun _ _ => rfl⟩, by simp⟩
  | some r =>
      have hfind := markSandboxLost_find s.clock hr d
      refine ⟨?_, ⟨fun t' ht => ?_, fun t' ht => ?_, fun t' _ => ?_⟩, ?_⟩
      · simp [LedgerCall.exec, Ledger.markSandboxLost, hr]
      · exact (hfind t').2.trans (if_neg ht)
      · exact (hfind t').1.trans (if_neg ht)
      · simp only [Safety.after, LedgerCall.exec, Ledger.markSandboxLost, hr]
        rfl
      · intro r' hr'
        obtain rfl := Option.some.inj hr'
        simp only [lifecycleClass, Safety.after, LedgerCall.exec, (hfind t).1, (hfind t).2, if_true]
        rfl

/-- A reservation is kept, in some phase. -/
theorem ends_keep (p : ReservationPhase) (d : Option String) {q : ReservationRecord}
    (hq : s.ledger.reservations.find? t = some q) :
    Ends (answers o) (db (.updateReservation t p d none)) (fun x s' => x = .ok () ∧ Apart t s s' ∧
      lifecycleClass t s'.ledger = ((s.ledger.tasks.find? t).map TaskRecord.state, true)) s := by
  refine Ends.mono (ends_db _) ?_
  rintro x _ ⟨rfl, rfl⟩
  have hfind := updateReservation_find s.clock p d none hq
  refine ⟨?_, ⟨fun t' ht => ?_, fun t' ht => ?_, fun t' _ => ?_⟩, ?_⟩
  · simp [LedgerCall.exec, Ledger.updateReservation, hq]
  · exact (hfind t').2.trans (if_neg ht)
  · exact (hfind t').1.trans (if_neg ht)
  · simp only [Safety.after, LedgerCall.exec, Ledger.updateReservation, hq]
    rfl
  · simp only [lifecycleClass, Safety.after, LedgerCall.exec, (hfind t).1, (hfind t).2, if_true]
    cases s.ledger.tasks.find? t <;> rfl

/-- What `stop` makes of a reservation whose sandbox is gone. -/
def detachedClass (q : ReservationRecord) (r : TaskRecord) : Option TaskState × Bool :=
  if q.phase = .terminationPending then (some r.state, false)
  else (some (Ledger.stateWhenLost r), false)

/-- A round of `stop` ends, touches one task, and treats it by its phase alone. -/
theorem ends_detachReservation {q : ReservationRecord}
    (hq : s.ledger.reservations.find? q.taskId = some q) :
    Ends (answers o) (Scheduler.detachReservation q) (fun x s' => x = .ok () ∧
      Apart q.taskId s s' ∧ ∀ r c, s.ledger.tasks.find? q.taskId = some r →
        s.ledger.creations.find? q.taskId = some c → Absent o c →
        lifecycleClass q.taskId s'.ledger = detachedClass q r) s := by
  refine Ends.bind (ends_read (c := .getSandboxCreation q.taskId) fun _ => rfl) ?_
    fun e s' h => by simp at h
  rintro _ _ ⟨hx, rfl⟩
  obtain rfl := Except.ok.inj hx
  unfold Ledger.getSandboxCreation
  cases hc : s.ledger.creations.find? q.taskId with
  | none => exact Ends.pure ⟨rfl, ⟨fun _ _ => rfl, fun _ _ => rfl, fun _ _ => rfl⟩, by simp⟩
  | some c =>
      have hbody : Ends (answers o) (do
          let snapshot ← Lifecycle.detach q.taskId
          if snapshot.state = .stopped then
            if q.phase = .terminationPending then
              db (.releaseReservation q.taskId "confirmed_absent")
            else
              db (.markSandboxLost q.taskId
                (snapshot.detail.getD "sandbox was confirmed lost during shutdown"))
          else if snapshot.state = .unknown then
            db (.updateReservation q.taskId q.phase
              (some (snapshot.detail.getD "detach state is unknown")) none)
          else pure ()) (fun x s' => Apart q.taskId s s' ∧ Co.Either
            (fun _ s' => Absent o c → ∀ r, s.ledger.tasks.find? q.taskId = some r →
              lifecycleClass q.taskId s'.ledger = detachedClass q r)
            (fun e s' => e.isLifecycle = true ∧ ¬ Absent o c ∧
              s'.ledger.reservations.find? q.taskId = some q) x s') s := by
        refine Ends.bind (ends_detach hc) ?_ ?_
        · rintro snap s₂ ⟨hl, hst⟩
          have hq₂ : s₂.ledger.reservations.find? q.taskId = some q := by rw [hl.reservations, hq]
          by_cases hstop : snap.state = .stopped
          · rw [if_pos hstop]
            by_cases hp : q.phase = .terminationPending
            · rw [if_pos hp]
              refine Ends.mono ends_release ?_
              rintro x s₃ ⟨rfl, ha, hcls⟩
              refine ⟨hl.apart.trans ha, fun _ r hr => ?_⟩
              rw [hcls, hl.tasks, hr, detachedClass, if_pos hp]
              rfl
            · rw [if_neg hp]
              refine Ends.mono (ends_markLost _) ?_
              rintro x s₃ ⟨rfl, ha, hcls⟩
              refine ⟨hl.apart.trans ha, fun _ r hr => ?_⟩
              rw [hcls r (by rw [hl.tasks, hr]), detachedClass, if_neg hp]
          · rw [if_neg hstop]
            by_cases hu : snap.state = .unknown
            · rw [if_pos hu]
              refine Ends.mono (ends_keep _ _ hq₂) ?_
              rintro x s₃ ⟨rfl, ha, -⟩
              exact ⟨hl.apart.trans ha, fun habs => absurd (hst habs) hstop⟩
            · rw [if_neg hu]
              exact Ends.pure ⟨hl.apart, fun habs => absurd (hst habs) hstop⟩
        · rintro e s₂ ⟨hl, he, hno⟩
          exact ⟨hl.apart, he, hno, by rw [hl.reservations, hq]⟩
      refine Ends.tryCatch hbody ?_ ?_
      · rintro u s₂ ⟨ha, hcls⟩
        refine ⟨rfl, ha, fun r c' hr hc' habs => ?_⟩
        obtain rfl := Option.some.inj hc'
        exact hcls habs r hr
      · rintro e s₂ ⟨ha, he, hno, hq₂⟩
        rw [if_pos he]
        refine Ends.mono (ends_keep _ _ hq₂) ?_
        rintro x s₃ ⟨rfl, ha', -⟩
        refine ⟨rfl, ha.trans ha', fun r c' _ hc' habs => ?_⟩
        obtain rfl := Option.some.inj hc'
        exact absurd habs hno

/-- The rounds of `stop`: each task is treated in its own round and left alone in the
others. -/
theorem ends_rounds : ∀ (qs : List ReservationRecord) (s : Shared),
    qs.Pairwise (fun q q' => q.taskId ≠ q'.taskId) →
    (∀ q ∈ qs, s.ledger.reservations.find? q.taskId = some q) →
    Ends (answers o) (qs.forM Scheduler.detachReservation) (fun x s' => x = .ok () ∧
      (∀ t, (∀ q ∈ qs, q.taskId ≠ t) → lifecycleClass t s'.ledger = lifecycleClass t s.ledger) ∧
      ∀ q ∈ qs, ∀ r c, s.ledger.tasks.find? q.taskId = some r →
        s.ledger.creations.find? q.taskId = some c → Absent o c →
        lifecycleClass q.taskId s'.ledger = detachedClass q r) s
  | [], s, _, _ => Ends.pure ⟨rfl, fun _ _ => rfl, by simp⟩
  | q :: qs, s, hpw, hres => by
      rw [List.pairwise_cons] at hpw
      refine Ends.bind (ends_detachReservation (hres q (by simp))) ?_ fun e s' h => by simp at h
      rintro _ s₁ ⟨-, ha, hcls⟩
      have hres₁ : ∀ q' ∈ qs, s₁.ledger.reservations.find? q'.taskId = some q' := by
        intro q' hq'
        rw [ha.reservations _ (hpw.1 q' hq').symm]
        exact hres q' (by simp [hq'])
      refine Ends.mono (ends_rounds qs s₁ hpw.2 hres₁) ?_
      rintro x s' ⟨rfl, hrest, hrounds⟩
      refine ⟨rfl, fun t ht => ?_, fun q' hq' r c hr hc habs => ?_⟩
      · have hne : t ≠ q.taskId := (ht q (by simp)).symm
        rw [hrest t fun q' hq' => ht q' (by simp [hq']), lifecycleClass, lifecycleClass,
          ha.tasks t hne, ha.reservations t hne]
      · rcases List.mem_cons.mp hq' with rfl | hq'
        · rw [hrest _ fun q'' hq'' => (hpw.1 q'' hq'').symm]
          exact hcls r c hr hc habs
        · have hne := (hpw.1 q' hq').symm
          exact hrounds q' hq' r c (by rw [ha.tasks _ hne, hr]) (by rw [ha.creations _ hne, hc]) habs

theorem mem_listReservations_of_find {l : Ledger} {q : ReservationRecord}
    (h : l.reservations.find? t = some q) : q ∈ l.listReservations := by
  unfold Ledger.listReservations
  rw [List.mem_insertionSort]
  exact Table.mem_of_find? h

theorem ends_stop {q : ReservationRecord} {r : TaskRecord}
    (hq : s.ledger.reservations.find? t = some q) (hr : s.ledger.tasks.find? t = some r)
    (hc : s.ledger.creations.find? t = some c) (habs : Absent o c) :
    Ends (answers o) Scheduler.stop (fun x s' => x = .ok () ∧
      lifecycleClass t s'.ledger = detachedClass q r) s := by
  refine Ends.bind (ends_read (c := .listReservations) fun _ => rfl) ?_ fun e s' h => by simp at h
  rintro _ _ ⟨hx, rfl⟩
  obtain rfl := Except.ok.inj hx
  have hkey : q.taskId = t := Table.key_of_find? hq
  refine Ends.mono (ends_rounds _ s (listReservations_pairwise _)
    fun q hq => mem_listReservations hq) ?_
  rintro x s' ⟨rfl, -, hrounds⟩
  refine ⟨rfl, ?_⟩
  rw [← hkey] at hr hc ⊢
  exact hrounds q (mem_listReservations_of_find hq) r c hr hc habs

/-! ### One reservation at a reconciliation -/

/-- What `reconcile` makes of a reservation whose sandbox is gone. -/
def reconciledClass (l : Ledger) (q : ReservationRecord) (c : SandboxCreationRecord)
    (r : TaskRecord) : Option TaskState × Bool :=
  if q.phase = .terminationPending ∨ r.state = .sleeping then (some r.state, false)
  else if c.providerId = none ∨ (q.phase = .starting ∧ l.results.find? q.taskId ≠ none) then
    (some r.state, true)
  else if l.supervisions.find? q.taskId ≠ none then (some .sleeping, false)
  else (some (Ledger.stateWhenLost r), false)

theorem ends_createAgain {q : ReservationRecord} :
    Ends (answers o) (Scheduler.createAgain q c) (fun x s' => s = s' ∧
      x = .ok (decide (c.providerId = none ∨
        (q.phase = .starting ∧ s.ledger.results.find? q.taskId ≠ none)))) s := by
  unfold Scheduler.createAgain
  cases hid : c.providerId with
  | none => exact Ends.pure ⟨rfl, by simp⟩
  | some id =>
      by_cases hp : q.phase = .starting
      · rw [if_neg (by simp), if_pos hp]
        refine Ends.bind (ends_read (c := .getTaskResult q.taskId) fun _ => rfl) ?_
          fun e s' h => by simp at h
        rintro _ _ ⟨hx, rfl⟩
        obtain rfl := Except.ok.inj hx
        refine Ends.pure ⟨rfl, ?_⟩
        unfold Ledger.getTaskResult
        cases s.ledger.results.find? q.taskId <;> simp [hp]
      · rw [if_neg (by simp), if_neg hp]
        exact Ends.pure ⟨rfl, by simp [hp]⟩

theorem ends_sleep (d : Option String) {r : TaskRecord} (hr : s.ledger.tasks.find? t = some r) :
    Ends (answers o) (db (.finishTask t .sleeping d none)) (fun x s' => (∃ r', x = .ok r') ∧
      (s'.ledger.tasks.find? t).map TaskRecord.state = some .sleeping) s := by
  refine Ends.mono (ends_db _) ?_
  rintro x _ ⟨rfl, rfl⟩
  simp [Safety.after, LedgerCall.exec, Ledger.finishTask, Ledger.setTask, Ledger.commit, hr,
    Ledger.finished]

theorem ends_reconcileStopped {q : ReservationRecord} {r : TaskRecord} (snap : SandboxSnapshot)
    (hq : s.ledger.reservations.find? q.taskId = some q)
    (hr : s.ledger.tasks.find? q.taskId = some r) :
    Ends (answers o) (Scheduler.reconcileStopped q c snap) (fun x s' => x = .ok () ∧
      lifecycleClass q.taskId s'.ledger = reconciledClass s.ledger q c r) s := by
  refine Ends.bind (ends_read (c := .get q.taskId none) fun _ => rfl) ?_ fun e s' h => by simp at h
  rintro _ _ ⟨hx, rfl⟩
  obtain rfl := Except.ok.inj hx
  have hget : Ledger.get q.taskId none s.ledger = some r := by simp [Ledger.get, hr, Option.filter]
  rw [hget]
  unfold reconciledClass
  by_cases hrel : q.phase = .terminationPending ∨ r.state = .sleeping
  · rw [if_pos (by simpa using hrel), if_pos hrel]
    refine Ends.mono ends_release ?_
    rintro x s' ⟨rfl, -, hcls⟩
    refine ⟨rfl, ?_⟩
    rw [hcls, hr]
    rfl
  · rw [if_neg (by simpa using hrel), if_neg hrel]
    refine Ends.bind ends_createAgain ?_ fun e s' h => by simp at h
    rintro b _ ⟨rfl, hb⟩
    obtain rfl := Except.ok.inj hb
    by_cases hagain : c.providerId = none ∨
        (q.phase = .starting ∧ s.ledger.results.find? q.taskId ≠ none)
    · rw [if_pos (by exact decide_eq_true hagain), if_pos hagain]
      refine Ends.mono (ends_keep (q := q) .starting none hq) ?_
      rintro x s' ⟨rfl, -, hcls⟩
      refine ⟨rfl, ?_⟩
      rw [hcls, hr]
      rfl
    · rw [if_neg (by simpa using hagain), if_neg hagain]
      refine Ends.bind (ends_read (c := .getSupervision q.taskId) fun _ => rfl) ?_
        fun e s' h => by simp at h
      rintro _ _ ⟨hx, rfl⟩
      obtain rfl := Except.ok.inj hx
      unfold Ledger.getSupervision
      cases hsup : s.ledger.supervisions.find? q.taskId with
      | some row =>
          rw [if_pos (by simp)]
          refine Ends.bind (ends_sleep _ hr) ?_ fun e s' h => by simp at h
          rintro _ s₂ ⟨-, hst⟩
          refine Ends.mono ends_release ?_
          rintro x s' ⟨rfl, -, hcls⟩
          exact ⟨rfl, by rw [hcls, hst]⟩
      | none =>
          rw [if_neg (by simp)]
          refine Ends.mono (ends_markLost _) ?_
          rintro x s' ⟨rfl, -, hcls⟩
          exact ⟨rfl, hcls r hr⟩

theorem ends_reconcileReservation {q : ReservationRecord} {r : TaskRecord}
    (hq : s.ledger.reservations.find? q.taskId = some q)
    (hr : s.ledger.tasks.find? q.taskId = some r)
    (hc : s.ledger.creations.find? q.taskId = some c) (habs : Absent o c) :
    Ends (answers o) (Scheduler.reconcileReservation q) (fun x s' => x = .ok () ∧
      lifecycleClass q.taskId s'.ledger = reconciledClass s.ledger q c r) s := by
  refine Ends.bind (ends_read (c := .getSandboxCreation q.taskId) fun _ => rfl) ?_
    fun e s' h => by simp at h
  rintro _ _ ⟨hx, rfl⟩
  obtain rfl := Except.ok.inj hx
  rw [show Ledger.getSandboxCreation q.taskId s.ledger = some c from hc]
  have hlook : Ends (answers o) (attempt (Lifecycle.reconnect q.taskId)) (fun x s' =>
      ∃ snap, x = .ok (.ok snap) ∧ snap.state = .stopped ∧ Looked q.taskId s s') s := by
    refine Ends.attempt (Ends.mono (ends_reconnect hc) ?_)
    rintro x s' ⟨hl, hx⟩
    cases x with
    | ok snap => exact ⟨snap, rfl, hx habs, hl⟩
    | error e => exact absurd habs hx.2
  refine Ends.bind hlook ?_ fun e s' h => by simp at h
  rintro _ s₂ ⟨snap, hx, hst, hl⟩
  obtain rfl := Except.ok.inj hx
  have hq₂ : s₂.ledger.reservations.find? q.taskId = some q := by rw [hl.reservations, hq]
  have hr₂ : s₂.ledger.tasks.find? q.taskId = some r := by rw [hl.tasks, hr]
  refine Ends.bind (ends_read (c := .getReservation q.taskId) fun _ => rfl) ?_
    fun e s' h => by simp at h
  rintro _ _ ⟨hx, rfl⟩
  obtain rfl := Except.ok.inj hx
  rw [show Ledger.getReservation q.taskId s₂.ledger = some q from hq₂]
  dsimp only
  rw [if_neg (by simp), if_neg (by simp [hst]), if_pos hst]
  refine Ends.mono (ends_reconcileStopped snap hq₂ hr₂) ?_
  rintro x s' ⟨rfl, hcls⟩
  refine ⟨rfl, hcls.trans ?_⟩
  show reconciledClass s₂.ledger q c r = reconciledClass s.ledger q c r
  simp only [reconciledClass, hl.results, hl.supervisions]

/-! ### Where the two agree -/

/-- A lost task is not asleep. -/
theorem stateWhenLost_ne_sleeping (r : TaskRecord) : Ledger.stateWhenLost r ≠ .sleeping := by
  unfold Ledger.stateWhenLost
  split
  · simp
  · split <;> simp

/-- The two decisions agree where `reconcile` takes one of the two cases of `stop`. -/
theorem detachedClass_eq_iff (l : Ledger) (q : ReservationRecord) (c : SandboxCreationRecord)
    (r : TaskRecord) : detachedClass q r = reconciledClass l q c r ↔
      q.phase = .terminationPending ∨
      (r.state ≠ .sleeping ∧ c.providerId ≠ none ∧
        ¬ (q.phase = .starting ∧ l.results.find? q.taskId ≠ none) ∧
        l.supervisions.find? q.taskId = none) := by
  have hne := stateWhenLost_ne_sleeping r
  unfold detachedClass reconciledClass
  by_cases hp : q.phase = .terminationPending
  · simp [hp]
  · by_cases hsl : r.state = .sleeping
    · simp [hp, hsl, hne]
    · by_cases hagain : c.providerId = none ∨ (q.phase = .starting ∧ l.results.find? q.taskId ≠ none)
      · have hno : ¬ (c.providerId ≠ none ∧
            ¬ (q.phase = .starting ∧ l.results.find? q.taskId ≠ none)) := by
          rintro ⟨h, h'⟩
          exact hagain.elim h h'
        simp only [hp, hsl, hagain, if_false, if_true, false_or, or_self]
        constructor
        · intro h
          simp at h
        · rintro ⟨-, h, h', -⟩
          exact absurd ⟨h, h'⟩ hno
      · have hyes := not_or.mp hagain
        cases hsup : l.supervisions.find? q.taskId with
        | none =>
            rw [if_neg hp, if_neg (by simp [hp, hsl]), if_neg hagain, if_neg (by simp)]
            exact ⟨fun _ => .inr ⟨hsl, hyes.1, hyes.2, rfl⟩, fun _ => rfl⟩
        | some row => simp [hp, hsl, hagain, hne]

/-- For a reserved task whose sandbox is gone, `stop` and `reconcile` both come to an
end, and they leave the task in the same class exactly when the reservation was to be
terminated, or the task is awake, its sandbox was once identified and is not being
woken, and nothing has been started in it. -/
theorem shutdown_agrees_iff {q : ReservationRecord} {r : TaskRecord}
    (hq : s.ledger.reservations.find? t = some q) (hr : s.ledger.tasks.find? t = some r)
    (hc : s.ledger.creations.find? t = some c) (habs : Absent o c) :
    ∃ s₁ s₂, Scheduler.stop.alone (answers o) s = some (.ok (), s₁) ∧
      (Scheduler.reconcileReservation q).alone (answers o) s = some (.ok (), s₂) ∧
      lifecycleClass t s₂.ledger = reconciledClass s.ledger q c r ∧
      (lifecycleClass t s₁.ledger = lifecycleClass t s₂.ledger ↔
        q.phase = .terminationPending ∨
        (r.state ≠ .sleeping ∧ c.providerId ≠ none ∧
          ¬ (q.phase = .starting ∧ s.ledger.results.find? t ≠ none) ∧
          s.ledger.supervisions.find? t = none)) := by
  obtain ⟨x₁, s₁, hstop, rfl, hcls₁⟩ := ends_stop hq hr hc habs
  have hkey : q.taskId = t := Table.key_of_find? hq
  subst hkey
  obtain ⟨x₂, s₂, hrec, rfl, hcls₂⟩ := ends_reconcileReservation hq hr hc habs
  refine ⟨s₁, s₂, hstop, hrec, hcls₂, ?_⟩
  rw [hcls₁, hcls₂]
  exact detachedClass_eq_iff s.ledger q c r

/-- What is stored of task 1 in a state: its reservation, its record and the identity
of its sandbox. -/
def rows (s : Shared) : Option (ReservationRecord × TaskRecord × SandboxCreationRecord) := do
  let q ← s.ledger.reservations.find? 1
  let r ← s.ledger.tasks.find? 1
  let c ← s.ledger.creations.find? 1
  pure (q, r, c)

theorem of_rows {w : Option System}
    {p : System → ReservationRecord → TaskRecord → SandboxCreationRecord → Bool}
    (h : (w.any fun w => (rows w.shared).any fun x => p w x.1 x.2.1 x.2.2) = true) :
    ∃ w' q r c, w = some w' ∧ w'.shared.ledger.reservations.find? 1 = some q ∧
      w'.shared.ledger.tasks.find? 1 = some r ∧ w'.shared.ledger.creations.find? 1 = some c ∧
      p w' q r c = true := by
  obtain ⟨w', hw, h⟩ := (Option.any_eq_true _ _).mp h
  obtain ⟨⟨q, r, c⟩, hrows, h⟩ := (Option.any_eq_true _ _).mp h
  simp only [rows, Option.bind_eq_bind, Option.pure_def, Option.bind_eq_some_iff] at hrows
  obtain ⟨q', hq, r', hr, c', hc, hx⟩ := hrows
  obtain ⟨rfl, rfl, rfl⟩ : q' = q ∧ r' = r ∧ c' = c := by simpa using hx
  exact ⟨w', q', r', c', hw, hq, hr, hc, h⟩

theorem absent_gone {c : SandboxCreationRecord} (h : c.providerId ≠ none) : Absent Safety.gone c := by
  obtain ⟨id, hid⟩ := Option.ne_none_iff_exists'.mp h
  simp only [Absent, hid]
  exact .inl rfl

/-- A sandbox that is gone before anything was started in it: both give the task up. -/
theorem shutdown_agrees_provisioned :
    ∃ w q r c, (backend Safety.demo).run System.init Safety.provisioned = some w ∧
      w.shared.ledger.reservations.find? 1 = some q ∧ w.shared.ledger.tasks.find? 1 = some r ∧
      w.shared.ledger.creations.find? 1 = some c ∧ Absent Safety.gone c ∧
      ∃ s₁ s₂, Scheduler.stop.alone (answers Safety.gone) w.shared = some (.ok (), s₁) ∧
        (Scheduler.reconcileReservation q).alone (answers Safety.gone) w.shared =
          some (.ok (), s₂) ∧
        lifecycleClass 1 s₁.ledger = lifecycleClass 1 s₂.ledger := by
  have h : (((backend Safety.demo).run System.init Safety.provisioned).any fun w =>
      (rows w.shared).any fun x => decide (x.2.1.state ≠ .sleeping) &&
        x.2.2.providerId.isSome && decide (x.1.phase ≠ .starting) &&
        (w.shared.ledger.supervisions.find? 1).isNone) = true := by
    decide +kernel
  obtain ⟨w, q, r, c, hw, hq, hr, hc, h⟩ := of_rows (p := fun w q r c =>
    decide (r.state ≠ .sleeping) && c.providerId.isSome && decide (q.phase ≠ .starting) &&
      (w.shared.ledger.supervisions.find? 1).isNone) h
  simp only [Bool.and_eq_true, decide_eq_true_eq, Option.isSome_iff_ne_none,
    Option.isNone_iff_eq_none] at h
  obtain ⟨⟨⟨hst, hid⟩, hph⟩, hsup⟩ := h
  obtain ⟨s₁, s₂, hstop, hrec, -, hiff⟩ := shutdown_agrees_iff hq hr hc (absent_gone hid)
  exact ⟨w, q, r, c, hw, hq, hr, hc, absent_gone hid, s₁, s₂, hstop, hrec,
    hiff.mpr (.inr ⟨hst, hid, fun h => hph h.1, hsup⟩)⟩

/-- A sandbox that is gone while an execution runs in it: `reconcile` puts the
workspace to sleep, and `stop` gives the task up. -/
theorem shutdown_loses_workspace :
    ¬ ∀ (acts : List (Act Safety.demo)) (w : System) (o : Oracle) (t : TaskId)
      (q : ReservationRecord) (r : TaskRecord) (c : SandboxCreationRecord) (s₁ s₂ : Shared),
      (backend Safety.demo).run System.init acts = some w →
      w.shared.ledger.reservations.find? t = some q → w.shared.ledger.tasks.find? t = some r →
      w.shared.ledger.creations.find? t = some c → Absent o c →
      Scheduler.stop.alone (answers o) w.shared = some (.ok (), s₁) →
      (Scheduler.reconcileReservation q).alone (answers o) w.shared = some (.ok (), s₂) →
      lifecycleClass t s₁.ledger = lifecycleClass t s₂.ledger := by
  intro hclaim
  have h : (((backend Safety.demo).run System.init Safety.executing).any fun w =>
      (rows w.shared).any fun x => x.2.2.providerId.isSome &&
        (Scheduler.stop.alone (answers Safety.gone) w.shared).any (fun y =>
          y.1.isOk && lifecycleClass 1 y.2.ledger == (some .failed, false)) &&
        ((Scheduler.reconcileReservation x.1).alone (answers Safety.gone) w.shared).any (fun y =>
          y.1.isOk && lifecycleClass 1 y.2.ledger == (some .sleeping, false))) = true := by
    decide +kernel
  obtain ⟨w, q, r, c, hw, hq, hr, hc, h⟩ := of_rows (p := fun w q r c => c.providerId.isSome &&
    (Scheduler.stop.alone (answers Safety.gone) w.shared).any (fun y =>
      y.1.isOk && lifecycleClass 1 y.2.ledger == (some .failed, false)) &&
    ((Scheduler.reconcileReservation q).alone (answers Safety.gone) w.shared).any (fun y =>
      y.1.isOk && lifecycleClass 1 y.2.ledger == (some .sleeping, false))) h
  simp only [Bool.and_eq_true, Option.isSome_iff_ne_none] at h
  obtain ⟨⟨hid, hstop⟩, hrec⟩ := h
  obtain ⟨⟨x₁, s₁⟩, hstop, h₁⟩ := (Option.any_eq_true _ _).mp hstop
  obtain ⟨⟨x₂, s₂⟩, hrec, h₂⟩ := (Option.any_eq_true _ _).mp hrec
  simp only [Bool.and_eq_true, beq_iff_eq] at h₁ h₂
  have hok₁ : x₁ = .ok () := by cases x₁ <;> simp_all [Except.isOk, Except.toBool]
  have hok₂ : x₂ = .ok () := by cases x₂ <;> simp_all [Except.isOk, Except.toBool]
  subst hok₁ hok₂
  have heq := hclaim _ w Safety.gone 1 q r c s₁ s₂ hw hq hr hc (absent_gone hid) hstop hrec
  rw [h₁.2, h₂.2] at heq
  simp at heq

end GgAgent.Recovery
