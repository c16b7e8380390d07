import GgAgent.Records.Evidence

/-!
Retention: when the payload of a task may be retired, and what may be written for
it afterwards.

Six tables hold the payload. Every transaction that inserts into one of them asks
first whether the task still has its payload; the others rewrite rows that are
there. So a transaction can bring a row of a task into these tables only if the
task has its payload, and only the pass that clears the tables takes it away.
-/

namespace GgAgent.Records

open GgAgent.Lib GgAgent.Backend

/-! ### The payload tables -/

/-- The tasks that have a row in `task_event_copies`, `task_message_receipts`,
`task_results`, `task_supervisions`, `sandbox_creations` or `publication_intents`. -/
def payloadIds (l : Ledger) : List TaskId :=
  l.eventCopies.keys.map Prod.fst ++ l.receipts.keys.map Prod.fst ++ l.results.keys ++
    l.supervisions.keys ++ l.creations.keys ++ l.publications.keys

theorem mem_payloadIds {t : TaskId} {l : Ledger} :
    t ∈ payloadIds l ↔ (∃ k ∈ l.eventCopies.keys, k.1 = t) ∨ (∃ k ∈ l.receipts.keys, k.1 = t) ∨
      t ∈ l.results.keys ∨ t ∈ l.supervisions.keys ∨ t ∈ l.creations.keys ∨
      t ∈ l.publications.keys := by
  simp only [payloadIds, List.mem_append, List.mem_map, or_assoc]

theorem hasPayload_iff {t : TaskId} {l : Ledger} :
    l.hasPayload t = true ↔ ∃ r, l.tasks.find? t = some r ∧ r.payloadExpired = false := by
  unfold Ledger.hasPayload
  cases l.tasks.find? t <;> simp

/-- No task without its payload has a row of it. -/
def Retained (l : Ledger) : Prop := ∀ t ∈ payloadIds l, l.hasPayload t = true

/-- What a transaction that is not a payload pass may do to the payload tables: a row
was there, or its task has its payload. -/
structure Guarded (l l' : Ledger) : Prop where
  copies : ∀ k ∈ l'.eventCopies.keys, k ∈ l.eventCopies.keys ∨ l.hasPayload k.1 = true
  receipts : ∀ k ∈ l'.receipts.keys, k ∈ l.receipts.keys ∨ l.hasPayload k.1 = true
  results : ∀ k ∈ l'.results.keys, k ∈ l.results.keys ∨ l.hasPayload k = true
  supervisions : ∀ k ∈ l'.supervisions.keys, k ∈ l.supervisions.keys ∨ l.hasPayload k = true
  creations : ∀ k ∈ l'.creations.keys, k ∈ l.creations.keys ∨ l.hasPayload k = true
  publications : ∀ k ∈ l'.publications.keys, k ∈ l.publications.keys ∨ l.hasPayload k = true

theorem Guarded.ids {l l' : Ledger} (h : Guarded l l') {t : TaskId} (ht : t ∈ payloadIds l') :
    t ∈ payloadIds l ∨ l.hasPayload t = true := by
  rw [mem_payloadIds] at ht
  rw [mem_payloadIds]
  rcases ht with ⟨k, hk, rfl⟩ | ⟨k, hk, rfl⟩ | ht | ht | ht | ht
  · exact (h.copies k hk).imp_left fun hk => .inl ⟨k, hk, rfl⟩
  · exact (h.receipts k hk).imp_left fun hk => .inr (.inl ⟨k, hk, rfl⟩)
  · exact (h.results t ht).imp_left fun ht => .inr (.inr (.inl ht))
  · exact (h.supervisions t ht).imp_left fun ht => .inr (.inr (.inr (.inl ht)))
  · exact (h.creations t ht).imp_left fun ht => .inr (.inr (.inr (.inr (.inl ht))))
  · exact (h.publications t ht).imp_left fun ht => .inr (.inr (.inr (.inr (.inr ht))))

theorem Guarded.refl (l : Ledger) : Guarded l l := by
  constructor <;> exact fun _ hk => .inl hk

/-- A transaction that keeps the payload tables. -/
theorem Guarded.of_eq {l l' : Ledger} (hc : l'.eventCopies = l.eventCopies)
    (hr : l'.receipts = l.receipts) (hs : l'.results = l.results)
    (hu : l'.supervisions = l.supervisions) (hn : l'.creations = l.creations)
    (hp : l'.publications = l.publications) : Guarded l l' := by
  constructor
  case copies => exact hc ▸ fun _ hk => .inl hk
  case receipts => exact hr ▸ fun _ hk => .inl hk
  case results => exact hs ▸ fun _ hk => .inl hk
  case supervisions => exact hu ▸ fun _ hk => .inl hk
  case creations => exact hn ▸ fun _ hk => .inl hk
  case publications => exact hp ▸ fun _ hk => .inl hk

theorem hasPayload_congr {l l' : Ledger} (h : l'.tasks = l.tasks) (t : TaskId) :
    l'.hasPayload t = l.hasPayload t := by
  rw [Ledger.hasPayload, h, Ledger.hasPayload]

theorem Guarded.trans {l l' l'' : Ledger} (h : Guarded l l') (h' : Guarded l' l'')
    (ht : l'.tasks = l.tasks) : Guarded l l'' := by
  have hp : ∀ {t}, l'.hasPayload t = true → l.hasPayload t = true :=
    fun {t} hp => (hasPayload_congr ht t).symm.trans hp
  constructor
  case copies => exact fun k hk => (h'.copies k hk).elim (h.copies k) fun hk => .inr (hp hk)
  case receipts => exact fun k hk => (h'.receipts k hk).elim (h.receipts k) fun hk => .inr (hp hk)
  case results => exact fun k hk => (h'.results k hk).elim (h.results k) fun hk => .inr (hp hk)
  case supervisions =>
    exact fun k hk => (h'.supervisions k hk).elim (h.supervisions k) fun hk => .inr (hp hk)
  case creations =>
    exact fun k hk => (h'.creations k hk).elim (h.creations k) fun hk => .inr (hp hk)
  case publications =>
    exact fun k hk => (h'.publications k hk).elim (h.publications k) fun hk => .inr (hp hk)

/-! ### Transactions that ask for the payload -/

section

variable {l : Ledger} {now : Time} {t : TaskId}

theorem guarded_insertTaskEvent (source : ConversationId) (seq : Nat) (payload : String) :
    Guarded l (l.insertTaskEvent now t source seq payload).2 := by
  unfold Ledger.insertTaskEvent
  split
  · exact .refl l
  · split
    next hp =>
      constructor
      case copies =>
        intro k hk
        rcases Table.mem_keys_insert hk with hk | rfl
        · exact .inl hk
        · exact .inr hp
      all_goals exact fun _ hk => .inl hk
    next => exact .refl l

theorem guarded_insertTaskEvents (payload : Event → Nat → String) (source : ConversationId)
    (events : List Event) (bytes : Nat) (done : List (Nat × String)) :
    Guarded l (Ledger.insertTaskEvents now payload t source events bytes done l).2 := by
  induction events generalizing bytes done l with
  | nil => exact .refl l
  | cons e events ih =>
      have hone : Guarded l (l.insertTaskEvent now t source e.seq (payload e bytes)).2 :=
        guarded_insertTaskEvent source e.seq (payload e bytes)
      have htasks : (l.insertTaskEvent now t source e.seq (payload e bytes)).2.tasks = l.tasks :=
        (Ledger.sameControl_insertTaskEvent source e.seq (payload e bytes)).tasks
      simp only [Ledger.insertTaskEvents]
      split
      next x l₁ hr =>
        rw [hr] at hone
        exact hone
      next l₁ hr =>
        rw [hr] at hone htasks
        exact hone.trans (ih bytes done) htasks
      next cursor l₁ hr =>
        rw [hr] at hone htasks
        exact hone.trans (ih _ _) htasks

theorem guarded_copyTaskEventPage (payload : Event → Nat → String) (source : ConversationId)
    (events : List Event) : Guarded l (l.copyTaskEventPage now payload t source events).2 := by
  have hins : Guarded l (l.insertTaskEvents now payload t source events (l.logBytes t) []).2 :=
    guarded_insertTaskEvents payload source events (l.logBytes t) []
  unfold Ledger.copyTaskEventPage
  split
  · exact .refl l
  · split
    · split
      · split
        next => exact .refl l
        next l' hx =>
          rw [hx] at hins
          exact ⟨hins.copies, hins.receipts, hins.results, hins.supervisions, hins.creations,
            hins.publications⟩
      · exact .refl l
    · exact .refl l

theorem guarded_beginSandboxCreation (d n : String) (g : Tags) (k : String) (v : Option Nat) :
    Guarded l (l.beginSandboxCreation now t d n g k v).2 := by
  unfold Ledger.beginSandboxCreation
  split
  next hp =>
    split
    · split
      · exact .of_eq rfl rfl rfl rfl rfl rfl
      · exact .refl l
    · constructor
      case creations =>
        intro j hj
        rcases Table.mem_keys_insert hj with hj | rfl
        · exact .inl hj
        · exact .inr hp
      all_goals exact fun _ hj => .inl hj
  next => exact .refl l

theorem guarded_beginPublication (r b f : String) (m : TaskId) (s : Option String)
    (c : CheckOutcome) (a : AgentOutcome) (st : PublicationState) (d : Option String) :
    Guarded l (l.beginPublication now t r b f m s c a st d).2 := by
  unfold Ledger.beginPublication
  split
  next hp =>
    split
    · split
      · exact .refl l
      · split
        · exact .refl l
        · exact .of_eq rfl rfl rfl rfl rfl rfl
    · constructor
      case publications =>
        intro j hj
        rcases Table.mem_keys_insert hj with hj | rfl
        · exact .inl hj
        · exact .inr hp
      all_goals exact fun _ hj => .inl hj
  next => exact .refl l

theorem guarded_beginSupervision (e : ExecutionId) (b : String) (k : StartKey)
    (v : Option ConversationId) : Guarded l (l.beginSupervision now t e b k v).2 := by
  unfold Ledger.beginSupervision
  split
  next hp =>
    split
    · split
      · exact .refl l
      · exact .of_eq rfl rfl rfl rfl rfl rfl
    · constructor
      case supervisions =>
        intro j hj
        rcases Table.mem_keys_insert hj with hj | rfl
        · exact .inl hj
        · exact .inr hp
      all_goals exact fun _ hj => .inl hj
  next => exact .refl l

theorem guarded_saveTaskMessageReceipt (r : MessageReceipt) :
    Guarded l (l.saveTaskMessageReceipt t r).2 := by
  unfold Ledger.saveTaskMessageReceipt
  split
  next hp =>
    split
    · constructor
      case receipts =>
        intro j hj
        rcases Table.mem_keys_insert hj with hj | rfl
        · exact .inl hj
        · exact .inr hp
      all_goals exact fun _ hj => .inl hj
    · split
      · constructor
        case receipts => exact fun j hj => .inl (Table.mem_keys_modify (by intro _; rfl) hj)
        all_goals exact fun _ hj => .inl hj
      · exact .refl l
  next => exact .refl l

theorem guarded_archiveTaskResult (e : Option ExecutionId) (m : Option TaskResultManifest)
    (c : Bool) (d : Option String) : Guarded l (l.archiveTaskResult now t e m c d).2 := by
  unfold Ledger.archiveTaskResult
  split
  next hp =>
    constructor
    case results =>
      intro j hj
      rcases Table.mem_keys_upsert (by intro _; rfl) hj with hj | rfl
      · exact .inl hj
      · exact .inr hp
    all_goals exact fun _ hj => .inl hj
  next => exact .refl l

/-- A purge deletes no row of a payload table. -/
theorem purgeTombstones_payload {rows : List Tombstone} {l' : Ledger}
    (h : l.purgeTombstones rows = (.ok (), l')) :
    l'.eventCopies = l.eventCopies ∧ l'.receipts = l.receipts ∧ l'.results = l.results ∧
      l'.supervisions = l.supervisions ∧ l'.creations = l.creations ∧
      l'.publications = l.publications := by
  induction rows generalizing l with
  | nil =>
      obtain ⟨-, rfl⟩ := Prod.mk.inj h
      exact ⟨rfl, rfl, rfl, rfl, rfl, rfl⟩
  | cons r rows ih =>
      simp only [Ledger.purgeTombstones, Ledger.purgeTombstone] at h
      split at h
      · simp at h
      next l₁ hr =>
        split at hr
        · simp at hr
        · obtain ⟨-, rfl⟩ := Prod.mk.inj hr
          have hrest := ih h
          exact hrest

/-- Every ledger call but a payload pass. -/
theorem guarded_exec (now : Time) (c : LedgerCall) (l : Ledger)
    (hc : ∀ b n, c ≠ .expireTerminalPayloads b n) : Guarded l (c.exec now l).2 := by
  cases c
  case expireTerminalPayloads b n => exact absurd rfl (hc b n)
  case copyTaskEventPage p t src es => exact guarded_copyTaskEventPage p src es
  case purgeExpiredTombstones b =>
    simp only [LedgerCall.exec, Ledger.purgeExpiredTombstones]
    split
    · exact .refl l
    next l' hx =>
      obtain ⟨hc, hr, hs, hu, hn, hp⟩ := purgeTombstones_payload hx
      exact .of_eq hc hr hs hu hn hp
  case beginSandboxCreation t d n g k v => exact guarded_beginSandboxCreation d n g k v
  case beginPublication t r b f m s c a => exact guarded_beginPublication r b f m s c a _ _
  case beginSupervision t e b k => exact guarded_beginSupervision e b k _
  case saveTaskMessageReceipt t r => exact guarded_saveTaskMessageReceipt r
  case archiveTaskResult t e m c d => exact guarded_archiveTaskResult e m c d
  case setSandboxCredentialVersion t v =>
    simp only [LedgerCall.exec, Ledger.setSandboxCredentialVersion]
    split <;> constructor
    case creations => exact fun j hj => .inl (Table.mem_keys_modify (by intro _; rfl) hj)
    case creations => exact fun j hj => .inl (Table.mem_keys_modify (by intro _; rfl) hj)
    all_goals exact fun _ hj => .inl hj
  case updateSandboxCreation t i s d =>
    simp only [LedgerCall.exec, Ledger.updateSandboxCreation]
    split
    · exact .refl l
    · split
      · exact .refl l
      · constructor
        case creations => exact fun j hj => .inl (Table.mem_keys_modify (by intro _; rfl) hj)
        all_goals exact fun _ hj => .inl hj
  case resetSandboxForWake t =>
    constructor
    case creations => exact fun j hj => .inl (Table.mem_keys_modifyIf (by intro _; rfl) hj)
    all_goals exact fun _ hj => .inl hj
  case updateSupervision t e k v c g =>
    simp only [LedgerCall.exec, Ledger.updateSupervision]
    split
    · exact .refl l
    · constructor
      case supervisions => exact fun j hj => .inl (Table.mem_keys_modify (by intro _; rfl) hj)
      all_goals exact fun _ hj => .inl hj
  -- The other transactions do not name a payload table.
  all_goals
    simp only [LedgerCall.exec, Ledger.reserveNext, Ledger.updateReservation,
      Ledger.markSandboxLost, Ledger.recordBaseSha, Ledger.finishTask, Ledger.tryMarkSleeping]
    repeat' split
    all_goals exact .of_eq rfl rfl rfl rfl rfl rfl

end

/-! ### The payload pass -/

/-- The rows of the tasks that were retired are gone; no row is new. -/
structure Cleared (ids : List TaskId) (l l' : Ledger) : Prop where
  kept : ∀ t ∈ payloadIds l', t ∈ payloadIds l
  gone : ∀ t ∈ ids, t ∉ payloadIds l'

theorem cleared_expirePayload {e : Time} {r : TaskRecord} {l l' : Ledger}
    (h : l.expirePayload e r = (.ok (), l')) : Cleared [r.id] l l' := by
  simp only [Ledger.expirePayload] at h
  split at h
  · simp at h
  · obtain ⟨-, rfl⟩ := Prod.mk.inj h
    constructor
    case kept =>
      intro t ht
      rw [mem_payloadIds] at ht ⊢
      rcases ht with ⟨k, hk, rfl⟩ | ⟨k, hk, rfl⟩ | ht | ht | ht | ht
      · exact .inl ⟨k, Table.keys_filter_subset _ _ hk, rfl⟩
      · exact .inr (.inl ⟨k, Table.keys_filter_subset _ _ hk, rfl⟩)
      · exact .inr (.inr (.inl (Table.keys_filter_subset _ _ ht)))
      · exact .inr (.inr (.inr (.inl (Table.keys_filter_subset _ _ ht))))
      · exact .inr (.inr (.inr (.inr (.inl (Table.keys_filter_subset _ _ ht)))))
      · exact .inr (.inr (.inr (.inr (.inr (Table.keys_filter_subset _ _ ht)))))
    case gone =>
      intro t hmem ht
      obtain rfl := List.mem_singleton.mp hmem
      rw [mem_payloadIds] at ht
      -- The two composite keys are filtered by their task, the others are erased.
      rcases ht with ⟨k, hk, hkt⟩ | ⟨k, hk, hkt⟩ | ht | ht | ht | ht
      · obtain ⟨c, hc, rfl⟩ := List.mem_map.mp hk
        have hne := (List.mem_filter.mp hc).2
        simp only [ne_eq, decide_not, Bool.not_eq_true', decide_eq_false_iff_not] at hne
        exact hne hkt
      · obtain ⟨c, hc, rfl⟩ := List.mem_map.mp hk
        have hne := (List.mem_filter.mp hc).2
        simp only [ne_eq, decide_not, Bool.not_eq_true', decide_eq_false_iff_not] at hne
        exact hne hkt
      all_goals
        rw [Table.mem_keys, Table.find?_erase, if_pos rfl] at ht
        exact ht rfl

theorem cleared_expirePayloads {e : Time} {rows : List TaskRecord} {l l' : Ledger}
    (h : Ledger.expirePayloads e rows l = (.ok (), l')) :
    Cleared (rows.map TaskRecord.id) l l' := by
  induction rows generalizing l with
  | nil =>
      obtain ⟨-, rfl⟩ := Prod.mk.inj h
      exact ⟨fun _ ht => ht, by simp⟩
  | cons r rows ih =>
      simp only [Ledger.expirePayloads] at h
      split at h
      · simp at h
      next l₁ hr =>
        have hone := cleared_expirePayload hr
        have hrest := ih h
        constructor
        case kept => exact fun t ht => hone.kept t (hrest.kept t ht)
        case gone =>
          intro t hmem ht
          rcases List.mem_cons.mp hmem with rfl | hmem
          · exact hone.gone r.id (by simp) (hrest.kept _ ht)
          · exact hrest.gone t hmem ht

/-! ### The row of a task -/

/-- A step of a task row keeps its payload flag, unless it is the pass that retires it. -/
theorem payloadExpired_step {now : Time} {l : Ledger} {r r' : TaskRecord} {c : LedgerCall}
    (h : TaskStep now l r c r') : r'.payloadExpired = r.payloadExpired ∨
      ∃ b n, c = .expireTerminalPayloads b n ∧ r'.payloadExpired = true ∧
        r.state.terminal = true ∧ r.payloadExpired = false ∧ l.reservations.find? r.id = none := by
  cases h with
  | retire b n ht hp hres => exact .inr ⟨b, n, rfl, rfl, ht, hp, hres⟩
  | _ => exact .inl rfl

/-- Everything an operation can do to the row of a task, as far as its payload goes. -/
inductive RowMove (op : LedgerOp) (t : TaskId) (s s' : Store) : Prop
  | absent (h : s.ledger.tasks.find? t = none) (h' : s'.ledger.tasks.find? t = none)
  | admitted (r' : TaskRecord) (hid : t ∉ s.issued) (hid' : t ∈ s'.issued)
      (h : s.ledger.tasks.find? t = none) (h' : s'.ledger.tasks.find? t = some r')
      (hp : r'.payloadExpired = false)
  | kept (r r' : TaskRecord) (h : s.ledger.tasks.find? t = some r)
      (h' : s'.ledger.tasks.find? t = some r') (hp : r'.payloadExpired = r.payloadExpired)
  | retired (b n : Time) (hop : op = .store (.call (.expireTerminalPayloads b n)))
      (r r' : TaskRecord) (h : s.ledger.tasks.find? t = some r)
      (h' : s'.ledger.tasks.find? t = some r') (hp' : r'.payloadExpired = true)
      (ht : r.state.terminal = true) (hp : r.payloadExpired = false)
      (hres : s.ledger.reservations.find? t = none)
  | purged (b : Time) (hop : op = .store (.call (.purgeExpiredTombstones b))) (r : TaskRecord)
      (h : s.ledger.tasks.find? t = some r) (h' : s'.ledger.tasks.find? t = none)
      (hp : r.payloadExpired = true) (hres : s.ledger.reservations.find? t = none)

theorem RowMove.of_tasks {op : LedgerOp} {t : TaskId} {s s' : Store}
    (h : s'.ledger.tasks = s.ledger.tasks) : RowMove op t s s' := by
  cases hr : s.ledger.tasks.find? t with
  | none => exact .absent hr (by rw [h, hr])
  | some r => exact .kept r r hr (by rw [h, hr]) rfl

/-- A purge deletes the row of a task only if nothing reserves it. -/
theorem purge_unreserved {now b : Time} {l : Ledger} {t : TaskId} {r : TaskRecord}
    (h : l.tasks.find? t = some r)
    (h' : ((LedgerCall.purgeExpiredTombstones b).exec now l).2.tasks.find? t = none) :
    l.reservations.find? t = none := by
  simp only [LedgerCall.exec, Ledger.purgeExpiredTombstones] at h'
  split at h'
  · rw [h] at h'
    simp at h'
  next l' hx =>
    have htasks : l'.tasks.find? t = none := h'
    rw [(Ledger.purgeTombstones_ok hx).tasks t, h] at htasks
    simp only [Option.filter_some, ite_eq_right_iff, reduceCtorEq, imp_false, Bool.not_eq_true,
      Bool.not_eq_false', Bool.and_eq_true, decide_eq_true_eq] at htasks
    obtain ⟨k, hk, rfl⟩ := List.mem_map.mp htasks.1
    have hfree := (List.mem_filter.mp hk).2
    simp only [Bool.and_eq_true, Option.isNone_iff_eq_none] at hfree
    exact hfree.2

theorem rowMove_call (now : Time) (c : LedgerCall) (s : Store) (t : TaskId) :
    RowMove (.store (.call c)) t s { s with ledger := (c.exec now s.ledger).2 } := by
  cases hr : s.ledger.tasks.find? t with
  | none => exact .absent hr (exec_task_none now c hr)
  | some r =>
      have hid : r.id = t := Table.key_of_find? hr
      subst hid
      rcases exec_task now c hr with ⟨b, rfl, hp, hnone⟩ | ⟨r', hr', hstep⟩
      · exact .purged b rfl r hr hnone hp (purge_unreserved hr hnone)
      · rcases payloadExpired_step hstep with hp | ⟨b, n, rfl, hp', hterm, hp, hres⟩
        · exact .kept r r' hr hr' hp
        · exact .retired b n rfl r r' hr hr' hp' hterm hp hres

theorem rowMove_submit {now : Time} {id : TaskId} {q : Submission} {s s' : Store} {t : TaskId}
    (hissued : ∀ u, s.ledger.tasks.find? u ≠ none → u ∈ s.issued)
    (h : (Op.submit id q).apply now s = some s') : RowMove (.store (.submit id q)) t s s' := by
  simp only [Op.apply] at h
  split at h
  · simp at h
  next hid =>
    obtain rfl := Option.some.inj h
    have hnone : s.ledger.tasks.find? id = none := by
      by_contra hne
      exact hid (hissued id hne)
    obtain ⟨-, -, -, -, heq | ⟨row, hrow, -, -, -, hp, heq⟩⟩ := submit_cases now s.ledger id
      q.idempotencyKey q.repository q.prompt q.baseRef q.retryOf q.model q.ownerId
    · exact .of_tasks heq
    · subst hrow
      have hfind : ∀ u, (submission now row.id q s.ledger).2.tasks.find? u =
          if row.id = u then some row else s.ledger.tasks.find? u := by
        intro u
        show ((Ledger.submit now row.id _ _ _ _ _ _ _ _).2.tasks).find? u = _
        rw [heq]
        exact Table.find?_insert hnone u
      by_cases ht : row.id = t
      · subst ht
        exact .admitted row hid List.mem_cons_self hnone (by rw [hfind, if_pos rfl]) hp
      · cases hr : s.ledger.tasks.find? t with
        | none => exact .absent hr (by rw [hfind, if_neg ht, hr])
        | some r => exact .kept r r hr (by rw [hfind, if_neg ht, hr]) rfl

section

variable {jsonValid : String → Bool}

theorem tasks_copyTaskEvent (now : Time) (t : TaskId) (source : ConversationId) (seq : Nat)
    (payload : String) (l : Ledger) :
    (l.copyTaskEvent now jsonValid t source seq payload).2.tasks = l.tasks := by
  have hone : (l.insertTaskEvent now t source seq payload).2.tasks = l.tasks :=
    (Ledger.sameControl_insertTaskEvent source seq payload).tasks
  unfold Ledger.copyTaskEvent
  split
  · rfl
  next l' hx =>
    rw [hx] at hone
    exact hone
  next cursor l' hx =>
    rw [hx] at hone
    split
    · exact hone
    · rfl

/-- The row that `update_publication` leaves of a task. -/
theorem tasks_updatePublication (now : Time) (t u : TaskId) (p : Ledger.PublicationPatch)
    (l : Ledger) :
    (l.updatePublication now t p).2.tasks.find? u = l.tasks.find? u ∨
      ∃ r r', l.tasks.find? u = some r ∧ (l.updatePublication now t p).2.tasks.find? u = some r' ∧
        r'.payloadExpired = r.payloadExpired := by
  unfold Ledger.updatePublication
  split
  · exact .inl rfl
  · dsimp only
    split
    · cases hr : l.tasks.find? u with
      | none => exact .inl (by simp [Ledger.setTask, Ledger.commit, hr])
      | some r =>
          by_cases hu : u = t
          · let r' := { r with
              checkStatus := p.checkStatus <|> r.checkStatus
              outcomeDetail := p.outcomeDetail <|> r.outcomeDetail
              updatedAt := now }
            exact .inr ⟨r, r', rfl, by simp [Ledger.setTask, Ledger.commit, hu ▸ hr, hu, r'], rfl⟩
          · exact .inl (by simp [Ledger.setTask, Ledger.commit, hu, hr])
    · exact .inl rfl

theorem rowMove_extra (now : Time) (op : LedgerOp) (s : Store) (t : TaskId) :
    RowMove op t s { s with ledger := op.exec jsonValid now s.ledger } := by
  cases op with
  | store op => exact .of_tasks rfl
  | beginPublication u r b f m sha c a st d =>
      apply RowMove.of_tasks
      simp only [LedgerOp.exec, Ledger.beginPublication]
      repeat' split
      all_goals rfl
  | updatePublication u p =>
      rcases tasks_updatePublication now u t p s.ledger with heq | ⟨r, r', hr, hr', hp⟩
      · cases hr : s.ledger.tasks.find? t with
        | none => exact .absent hr (heq.trans hr)
        | some r => exact .kept r r hr (heq.trans hr) rfl
      · exact .kept r r' hr hr' hp
  | beginSupervision u e b k v =>
      apply RowMove.of_tasks
      simp only [LedgerOp.exec, Ledger.beginSupervision]
      repeat' split
      all_goals rfl
  | copyTaskEvent u src n p => exact .of_tasks (tasks_copyTaskEvent now u src n p s.ledger)
  | deleteCopies p => exact .of_tasks rfl

theorem guarded_extra (now : Time) (op : LedgerOp) (l : Ledger) :
    Guarded l (op.exec jsonValid now l) := by
  cases op with
  | store op => exact .refl l
  | beginPublication u r b f m sha c a st d => exact guarded_beginPublication r b f m sha c a st d
  | updatePublication u p =>
      simp only [LedgerOp.exec, Ledger.updatePublication]
      split
      · exact .refl l
      · split <;> constructor
        case isTrue.publications =>
          exact fun j hj => .inl (Table.mem_keys_modify (p.key_apply now) hj)
        case isFalse.publications =>
          exact fun j hj => .inl (Table.mem_keys_modify (p.key_apply now) hj)
        all_goals exact fun _ hj => .inl hj
  | beginSupervision u e b k v => exact guarded_beginSupervision e b k v
  | copyTaskEvent u src n p =>
      have hone : Guarded l (l.insertTaskEvent now u src n p).2 := guarded_insertTaskEvent src n p
      simp only [LedgerOp.exec, Ledger.copyTaskEvent]
      split
      · exact .refl l
      next l' hx =>
        rw [hx] at hone
        exact ⟨hone.copies, hone.receipts, hone.results, hone.supervisions, hone.creations,
          hone.publications⟩
      next cursor l' hx =>
        rw [hx] at hone
        split
        · exact ⟨hone.copies, hone.receipts, hone.results, hone.supervisions, hone.creations,
            hone.publications⟩
        · exact .refl l
  | deleteCopies p =>
      constructor
      case copies => exact fun _ hj => .inl (Table.keys_filter_subset _ _ hj)
      all_goals exact fun _ hj => .inl hj

/-! ### The invariant -/

/-- Tasks are issued before they have a row, payload rows belong to tasks that have
their payload, and reservations to tasks that have a row. -/
structure Store.Retains (s : Store) : Prop where
  version : s.version = schemaVersion
  issued : ∀ t, s.ledger.tasks.find? t ≠ none → t ∈ s.issued
  payload : Retained s.ledger
  reserved : ∀ t, s.ledger.reservations.find? t ≠ none → s.ledger.tasks.find? t ≠ none

theorem retains_initialized : initialized.Retains where
  version := rfl
  issued := fun t h => absurd rfl h
  payload := fun t h => absurd h (by simp [payloadIds, Table.keys, initialized, migrations,
    Migration.apply, Ledger.commit, Table.empty, Ledger.empty])
  reserved := fun t h => absurd rfl h

theorem Store.Retains.rowMove {now : Time} {op : LedgerOp} {s s' : Store} (hs : s.Retains)
    (h : op.apply jsonValid now s = some s') (t : TaskId) : RowMove op t s s' := by
  cases op with
  | store op =>
      cases op with
      | submit id q => exact rowMove_submit hs.issued h
      | call c =>
          obtain rfl := Option.some.inj h
          exact rowMove_call now c s t
      | rolledBack =>
          obtain rfl := Option.some.inj h
          exact .of_tasks rfl
      | reopen =>
          simp only [LedgerOp.apply, Op.apply, hs.version, if_true] at h
          obtain rfl := Option.some.inj h
          exact .of_tasks rfl
      | migrate =>
          simp only [LedgerOp.apply, Op.apply, applyMigrations_current hs.version] at h
          obtain rfl := Option.some.inj h
          exact .of_tasks rfl
  | _ =>
      obtain rfl := Option.some.inj h
      exact rowMove_extra now _ s t

theorem guarded_apply {now : Time} {op : LedgerOp} {s s' : Store} (hv : s.version = schemaVersion)
    (hop : ∀ b n, op ≠ .store (.call (.expireTerminalPayloads b n)))
    (h : op.apply jsonValid now s = some s') : Guarded s.ledger s'.ledger := by
  cases op with
  | store op =>
      rcases apply_cases hv h with rfl | ⟨id, q, -, -, rfl⟩ | ⟨c, rfl, rfl⟩
      · exact .refl _
      · simp only [submission, Ledger.submit]
        repeat' split
        all_goals exact .of_eq rfl rfl rfl rfl rfl rfl
      · exact guarded_exec now c s.ledger fun b n hc => hop b n (by rw [hc])
  | _ =>
      obtain rfl := Option.some.inj h
      dsimp only
      apply guarded_extra

/-- After a payload pass, no task that it retired has a row in a payload table. -/
theorem retained_expire {now b n : Time} {l : Ledger} (hl : Retained l) :
    Retained ((LedgerCall.expireTerminalPayloads b n).exec now l).2 := by
  simp only [LedgerCall.exec, Ledger.expireTerminalPayloads]
  split
  · exact hl
  next l' hx =>
    have hclear := cleared_expirePayloads hx
    have htasks := (Ledger.expirePayloads_ok hx).tasks
    intro t ht
    obtain ⟨r, hr, hp⟩ := hasPayload_iff.mp (hl t (hclear.kept t ht))
    have hnot : t ∉ (l.tasks.rows.filter (l.expirable b)).map TaskRecord.id :=
      fun hmem => hclear.gone t hmem ht
    refine hasPayload_iff.mpr ⟨r, ?_, hp⟩
    show l'.tasks.find? t = some r
    rw [htasks t, hr, Option.map_some, if_neg hnot]

theorem Store.Retains.retained_apply {now : Time} {op : LedgerOp} {s s' : Store} (hs : s.Retains)
    (h : op.apply jsonValid now s = some s') : Retained s'.ledger := by
  by_cases hop : ∀ b n, op ≠ .store (.call (.expireTerminalPayloads b n))
  · intro t ht
    have hp : s.ledger.hasPayload t = true :=
      ((guarded_apply hs.version hop h).ids ht).elim (hs.payload t) id
    obtain ⟨r, hr, hlive⟩ := hasPayload_iff.mp hp
    cases hs.rowMove h t with
    | absent hn _ => simp [hr] at hn
    | admitted r' _ _ hn _ _ => simp [hr] at hn
    | kept r₀ r' hr₀ hr' hkeep =>
        obtain rfl := Option.some.inj (hr.symm.trans hr₀)
        exact hasPayload_iff.mpr ⟨r', hr', hkeep.trans hlive⟩
    | retired b n heq => exact absurd heq (hop b n)
    | purged b heq r₀ hr₀ hn hdead =>
        obtain rfl := Option.some.inj (hr.symm.trans hr₀)
        simp [hlive] at hdead
  · push Not at hop
    obtain ⟨b, n, rfl⟩ := hop
    obtain rfl := Option.some.inj h
    exact retained_expire hs.payload

/-- A reservation was there before, or its task had a row and was claimed. -/
theorem reservation_apply {now : Time} {op : LedgerOp} {s s' : Store} {t : TaskId}
    (hv : s.version = schemaVersion) (h : op.apply jsonValid now s = some s')
    (ht : s'.ledger.reservations.find? t ≠ none) :
    s.ledger.reservations.find? t ≠ none ∨
      s.ledger.tasks.find? t ≠ none ∧ ∃ n, op = .store (.call (.reserveNext n)) := by
  cases op with
  | store op =>
      rcases apply_cases hv h with rfl | ⟨id, q, -, -, rfl⟩ | ⟨c, rfl, rfl⟩
      · exact .inl ht
      · have hsame : (submission now id q s.ledger).2.reservations = s.ledger.reservations :=
          (submit_cases now s.ledger id q.idempotencyKey q.repository q.prompt q.baseRef q.retryOf
            q.model q.ownerId).1
        exact .inl (hsame ▸ ht)
      · have hstep := exec_reservation now c s.ledger t
        cases hq : ((c.exec now s.ledger).2.reservations.find? t) with
        | none => exact absurd hq ht
        | some q =>
            rw [hq] at hstep
            generalize ho : some q = o at hstep
            cases hstep with
            | same => exact .inl (by rw [← ho]; simp)
            | claim n r hr _ _ => exact .inr ⟨by rw [hr]; simp, n, rfl⟩
            | update p d st q₀ hq₀ => exact .inl (by rw [hq₀]; simp)
            | release => cases ho
            | lost => cases ho
  | copyTaskEvent u src n p =>
      obtain rfl := Option.some.inj h
      have hone : (s.ledger.insertTaskEvent now u src n p).2.reservations = s.ledger.reservations :=
        (Ledger.sameControl_insertTaskEvent src n p).reservations
      left
      simp only [LedgerOp.exec, Ledger.copyTaskEvent] at ht
      split at ht
      · exact ht
      next l' hx =>
        rw [hx] at hone
        exact hone ▸ ht
      next cursor l' hx =>
        rw [hx] at hone
        split at ht
        · exact hone ▸ ht
        · exact ht
  | _ =>
      obtain rfl := Option.some.inj h
      left
      simp only [LedgerOp.exec, Ledger.beginPublication, Ledger.updatePublication,
        Ledger.beginSupervision] at ht
      repeat' split at ht
      all_goals exact ht

theorem issued_apply {now : Time} {op : LedgerOp} {s s' : Store} {t : TaskId}
    (hv : s.version = schemaVersion) (h : op.apply jsonValid now s = some s')
    (ht : t ∈ s.issued) : t ∈ s'.issued := by
  cases op with
  | store op =>
      rcases apply_cases hv h with rfl | ⟨id, q, -, -, rfl⟩ | ⟨c, -, rfl⟩
      · exact ht
      · exact List.mem_cons_of_mem id ht
      · exact ht
  | _ =>
      obtain rfl := Option.some.inj h
      exact ht

theorem Store.Retains.apply {now : Time} {op : LedgerOp} {s s' : Store} (hs : s.Retains)
    (h : op.apply jsonValid now s = some s') : s'.Retains := by
  constructor
  case version => exact version_applyAll hs.version h
  case payload => exact hs.retained_apply h
  case issued =>
    intro t ht
    cases hs.rowMove h t with
    | absent _ hn => exact absurd hn ht
    | admitted r' _ hid' _ _ _ => exact hid'
    | kept r r' hr _ _ => exact issued_apply hs.version h (hs.issued t (by rw [hr]; simp))
    | retired _ _ _ r r' hr _ _ _ _ _ => exact issued_apply hs.version h (hs.issued t (by rw [hr]; simp))
    | purged _ _ r _ hn _ _ => exact absurd hn ht
  case reserved =>
    intro t ht
    have hrow : s.ledger.tasks.find? t ≠ none :=
      (reservation_apply hs.version h ht).elim (hs.reserved t) And.left
    cases hs.rowMove h t with
    | absent hn _ => exact absurd hn hrow
    | admitted r' _ _ _ hr' _ => rw [hr']; simp
    | kept r r' _ hr' _ => rw [hr']; simp
    | retired _ _ _ r r' _ hr' _ _ _ _ => rw [hr']; simp
    | purged b hop r _ _ _ hres =>
        rcases reservation_apply hs.version h ht with hheld | ⟨-, n, heq⟩
        · exact absurd hres hheld
        · rw [hop] at heq
          simp at heq

/-- A task whose payload is gone: its row says so, or there is no row any more. -/
def Gone (t : TaskId) (s : Store) : Prop := t ∈ s.issued ∧ s.ledger.hasPayload t = false

theorem Store.Retains.gone_apply {now : Time} {op : LedgerOp} {s s' : Store} {t : TaskId}
    (hs : s.Retains) (ht : Gone t s) (h : op.apply jsonValid now s = some s') : Gone t s' := by
  refine ⟨issued_apply hs.version h ht.1, ?_⟩
  by_contra hp
  obtain ⟨r', hr', hlive⟩ := hasPayload_iff.mp (by simpa using hp)
  cases hs.rowMove h t with
  | absent _ hn => simp [hr'] at hn
  | admitted _ hid => exact hid ht.1
  | kept r r₀ hr hr₀ hkeep =>
      obtain rfl := Option.some.inj (hr'.symm.trans hr₀)
      have hhad := hasPayload_iff.mpr ⟨r, hr, hkeep.symm.trans hlive⟩
      simp [ht.2] at hhad
  | retired b n _ r r₀ hr hr₀ hdead =>
      obtain rfl := Option.some.inj (hr'.symm.trans hr₀)
      simp [hlive] at hdead
  | purged _ _ _ _ hn => simp [hr'] at hn

theorem Store.Retains.gone_runAll {ops : List (Time × LedgerOp)} {s s' : Store} {t : TaskId}
    (hs : s.Retains) (ht : Gone t s) (h : runAll jsonValid s ops = some s') :
    s'.Retains ∧ Gone t s' :=
  runAll_keeps (I := fun s => s.Retains ∧ Gone t s)
    (fun _ _ _ _ hs hop => ⟨hs.1.apply hop, hs.1.gone_apply hs.2 hop⟩) ⟨hs, ht⟩ h

/-! ### Purges -/

theorem mem_payloadIds_of_referenced {t : TaskId} {l : Ledger} (h : l.referenced t = true)
    (hres : l.reservations.find? t = none) : t ∈ payloadIds l := by
  simp only [Ledger.referenced, hres, Option.isSome_none, Bool.false_or, Bool.or_eq_true,
    Option.isSome_iff_ne_none, ← Table.mem_keys, List.any_eq_true, decide_eq_true_eq] at h
  rw [mem_payloadIds]
  rcases h with ((((h | h) | h) | h) | ⟨r, hr, ht⟩) | ⟨c, hc, ht⟩
  · exact .inr (.inr (.inr (.inr (.inl h))))
  · exact .inr (.inr (.inr (.inl h)))
  · exact .inr (.inr (.inr (.inr (.inr h))))
  · exact .inr (.inr (.inl h))
  · exact .inr (.inl ⟨key r, List.mem_map_of_mem hr, ht⟩)
  · exact .inl ⟨key c, List.mem_map_of_mem hc, ht⟩

/-- Where payload rows belong to live payloads, no foreign key stops a purge. -/
theorem purgeTombstones_succeeds {rows : List Tombstone} {l : Ledger} (hl : Retained l)
    (hfree : ∀ k ∈ rows, l.reservations.find? k.taskId = none) :
    ∃ l', l.purgeTombstones rows = (.ok (), l') := by
  induction rows generalizing l with
  | nil => exact ⟨l, rfl⟩
  | cons k rows ih =>
      let l₁ : Ledger := { l with
        tombstones := l.tombstones.erase k.taskId
        tasks := l.tasks.filter fun r => !(r.id = k.taskId && r.payloadExpired) }
      have hfind : ∀ t, l₁.tasks.find? t =
          (l.tasks.find? t).filter fun r => !(r.id = k.taskId && r.payloadExpired) :=
        fun t => Table.find?_filter _ _ t
      -- A row that goes has no payload, so nothing refers to it.
      have hone : l.purgeTombstone k.taskId = (.ok (), l₁) := by
        rw [Ledger.purgeTombstone, if_neg]
        rintro ⟨hnone, href⟩
        have hmem := mem_payloadIds_of_referenced href (hfree k (by simp))
        obtain ⟨r, hr, hp⟩ := hasPayload_iff.mp (hl _ hmem)
        have hgone := hfind k.taskId
        rw [hr, Option.filter_some, hp, Bool.and_false] at hgone
        rw [Option.isNone_iff_eq_none] at hnone
        exact absurd (hnone.symm.trans hgone) (by simp)
      have hl₁ : Retained l₁ := by
        intro t ht
        obtain ⟨r, hr, hp⟩ := hasPayload_iff.mp (hl t ht)
        exact hasPayload_iff.mpr ⟨r, by rw [hfind, hr, Option.filter_some, hp]; simp, hp⟩
      obtain ⟨l', hl'⟩ := ih hl₁ fun k hk => hfree k (List.mem_cons_of_mem _ hk)
      exact ⟨l', by simp only [Ledger.purgeTombstones, hone]; exact hl'⟩

theorem Store.Retains.purge_succeeds {s : Store} (hs : s.Retains) (now b : Time) :
    ∃ n, ((LedgerCall.purgeExpiredTombstones b).exec now s.ledger).1 = .ok n := by
  have hfree : ∀ k ∈ s.ledger.tombstones.rows.filter (fun r =>
      r.expiresAt < b && (s.ledger.reservations.find? r.taskId).isNone),
      s.ledger.reservations.find? k.taskId = none := by
    intro k hk
    have hk := (List.mem_filter.mp hk).2
    simp only [Bool.and_eq_true, Option.isNone_iff_eq_none] at hk
    exact hk.2
  obtain ⟨l', hl'⟩ := purgeTombstones_succeeds hs.payload hfree
  simp only [LedgerCall.exec, Ledger.purgeExpiredTombstones, hl']
  exact ⟨_, rfl⟩

/-! ### Retention safety -/

/-- An operation retires the payload of a task. -/
def Expires (t : TaskId) (s s' : Store) : Prop :=
  s.ledger.hasPayload t = true ∧
    ∃ r', s'.ledger.tasks.find? t = some r' ∧ r'.payloadExpired = true

/-- Every row that refers to a task has it: `REFERENCES tasks(id)`. -/
def ForeignKeys (l : Ledger) : Prop :=
  (∀ t ∈ payloadIds l, l.tasks.find? t ≠ none) ∧
    ∀ t, l.reservations.find? t ≠ none → l.tasks.find? t ≠ none

/-- The two transactions of a retention pass. -/
def IsRetention (c : LedgerCall) : Prop :=
  (∃ b n, c = .expireTerminalPayloads b n) ∨ ∃ b, c = .purgeExpiredTombstones b

theorem retention_rolls_back {now : Time} {c : LedgerCall} {l : Ledger} {x : Exn}
    (hc : IsRetention c) (h : (c.exec now l).1 = .error x) : (c.exec now l).2 = l := by
  rcases hc with ⟨b, n, rfl⟩ | ⟨b, rfl⟩
  · simp only [LedgerCall.exec, Ledger.expireTerminalPayloads] at h ⊢
    split at h
    · rfl
    · simp at h
  · simp only [LedgerCall.exec, Ledger.purgeExpiredTombstones] at h ⊢
    split at h
    · rfl
    · simp at h

/-- A payload is retired at most once, only from a terminal task that nothing reserves,
and for ever; a purge deletes only such tasks, and no foreign key stops it. -/
theorem retention_safe {ops : List (Time × LedgerOp)} {s : Store}
    (h : runAll jsonValid initialized ops = some s) :
    ForeignKeys s.ledger ∧
      (∀ now b, ∃ n, ((LedgerCall.purgeExpiredTombstones b).exec now s.ledger).1 = .ok n) ∧
      (∀ now c x, IsRetention c → (c.exec now s.ledger).1 = .error x →
        (c.exec now s.ledger).2 = s.ledger) ∧
      (∀ t r, s.ledger.tasks.find? t = some r → r.payloadExpired = true →
        t ∉ payloadIds s.ledger) ∧
      ∀ now (op : LedgerOp) s', op.apply jsonValid now s = some s' →
        (∀ t, Expires t s s' →
          (∃ r, s.ledger.tasks.find? t = some r ∧ r.state.terminal = true) ∧
            s.ledger.reservations.find? t = none ∧
            ∀ later s'', runAll jsonValid s' later = some s'' → t ∉ payloadIds s''.ledger ∧
              ∀ now' (op' : LedgerOp) s₃, op'.apply jsonValid now' s'' = some s₃ →
                ¬ Expires t s'' s₃) ∧
        ∀ t r, s.ledger.tasks.find? t = some r → s'.ledger.tasks.find? t = none →
          r.payloadExpired = true ∧ s.ledger.reservations.find? t = none := by
  have hs : s.Retains := runAll_keeps (fun _ _ _ _ hs hop => hs.apply hop) retains_initialized h
  refine ⟨⟨?_, hs.reserved⟩, hs.purge_succeeds, fun _ _ _ => retention_rolls_back, ?_, ?_⟩
  · intro t ht
    obtain ⟨r, hr, -⟩ := hasPayload_iff.mp (hs.payload t ht)
    rw [hr]
    simp
  · intro t r hr hp ht
    obtain ⟨r', hr', hp'⟩ := hasPayload_iff.mp (hs.payload t ht)
    obtain rfl := Option.some.inj (hr.symm.trans hr')
    simp [hp] at hp'
  intro now op s' hop
  constructor
  · rintro t ⟨hp, r', hr', hdead⟩
    obtain ⟨r, hr, hlive⟩ := hasPayload_iff.mp hp
    have hgone : Gone t s' := by
      refine ⟨issued_apply hs.version hop (hs.issued t (by rw [hr]; simp)), ?_⟩
      simp [Ledger.hasPayload, hr', hdead]
    cases hs.rowMove hop t with
    | absent hn _ => simp [hr] at hn
    | admitted _ _ _ hn => simp [hr] at hn
    | kept r₀ r₁ hr₀ hr₁ hkeep =>
        obtain rfl := Option.some.inj (hr.symm.trans hr₀)
        obtain rfl := Option.some.inj (hr'.symm.trans hr₁)
        simp [hlive, hdead] at hkeep
    | purged _ _ _ _ hn => simp [hr'] at hn
    | retired b n _ r₀ _ hr₀ _ _ hterm _ hres =>
        refine ⟨⟨r₀, hr₀, hterm⟩, hres, ?_⟩
        intro later s'' hlater
        obtain ⟨hs'', hgone''⟩ := (hs.apply hop).gone_runAll hgone hlater
        have hnot : ¬ s''.ledger.hasPayload t = true := by
          rw [hgone''.2]
          simp
        exact ⟨fun ht => hnot (hs''.payload t ht), fun _ _ _ _ hex => hnot hex.1⟩
  · intro t r hr hnone
    cases hs.rowMove hop t with
    | absent hn _ => simp [hr] at hn
    | admitted _ _ _ hn => simp [hr] at hn
    | kept _ _ _ hr' => simp [hnone] at hr'
    | retired _ _ _ _ _ _ hr' => simp [hnone] at hr'
    | purged b _ r₀ hr₀ _ hp hres =>
        obtain rfl := Option.some.inj (hr.symm.trans hr₀)
        exact ⟨hp, hres⟩

end

/-- A task with rows in the payload tables, which ends. -/
def endedTask : List (Time × LedgerOp) :=
  [(1, .store (.submit 1 evidenceRequest)), (2, .copyTaskEvent 1 4 1 "x"),
   (2, .beginSupervision 1 (.sandbox 6) "b" (.task 1) none),
   (3, .store (.call (.archiveTaskResult 1 none none false none))),
   (4, .store (.call (.finishTask 1 .failed none none)))]

/-- Late writes, a reservation of what is left of the task, and two purges, the first of
which finds it reserved. -/
def lateWrites : List (Time × LedgerOp) :=
  [(21, .copyTaskEvent 1 4 2 "y"), (21, .store (.call (.archiveTaskResult 1 none none true none))),
   (22, .store (.call (.finishTask 1 .queued none none))), (22, .store (.call (.reserveNext 3))),
   (40, .store (.call (.purgeExpiredTombstones 35))),
   (41, .store (.call (.releaseReservation 1 "confirmed_absent"))),
   (42, .store (.call (.purgeExpiredTombstones 35)))]

theorem retention_safe_late_writes :
    ∃ s s' s'', runAll (fun _ => true) initialized endedTask = some s ∧
      LedgerOp.apply (fun _ => true) 20 (.store (.call (.expireTerminalPayloads 15 3))) s = some s' ∧
      Expires 1 s s' ∧ runAll (fun _ => true) s' lateWrites = some s'' ∧
      1 ∉ payloadIds s''.ledger ∧ s''.ledger.tasks.find? 1 = none := by
  have hall : (runAll (fun _ => true) initialized endedTask).any (fun s =>
      (LedgerOp.apply (fun _ => true) 20 (.store (.call (.expireTerminalPayloads 15 3))) s).any
        fun s' => s.ledger.hasPayload 1 && (s'.ledger.tasks.find? 1).any (·.payloadExpired) &&
          (runAll (fun _ => true) s' lateWrites).any fun s'' =>
            (s''.ledger.tasks.find? 1).isNone) = true := by decide +kernel
  obtain ⟨s, hs, hrest⟩ := (Option.any_eq_true _ _).mp hall
  obtain ⟨s', hs', hrest⟩ := (Option.any_eq_true _ _).mp hrest
  rw [Bool.and_eq_true, Bool.and_eq_true] at hrest
  obtain ⟨⟨hhad, hdead⟩, hrest⟩ := hrest
  obtain ⟨s'', hs'', hnone⟩ := (Option.any_eq_true _ _).mp hrest
  have hex : Expires 1 s s' := ⟨hhad, (Option.any_eq_true _ _).mp hdead⟩
  obtain ⟨-, -, hlater⟩ := ((retention_safe hs).2.2.2.2 20 _ s' hs').1 1 hex
  exact ⟨s, s', s'', hs, hs', hex, hs'', (hlater _ _ hs'').1, by simpa using hnone⟩

end GgAgent.Records
