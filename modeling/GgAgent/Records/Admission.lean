import GgAgent.Records.Store

/-!
Idempotent admission. A pair of an owner and an idempotency key is bound to a
task by the task's row, and, once the payload has been retired, by its row of
`task_idempotency`; the task row is deleted only after that. A `Binding` is what
both rows say of the pair, so that the set of bindings of a database does not
depend on how far retention has come.

`Admitted` is the invariant: no two bindings agree on the pair, the task id or the
sequence number. A ledger call leaves the set of bindings as it is; a submission
finds the pair bound, or adds one binding with a fresh id and the next number.
-/

namespace GgAgent.Records

open GgAgent.Lib GgAgent.Backend

/-- A pair of owner and key, and the task it stands for. -/
structure Binding where
  ownerId : Option OwnerId
  idempotencyKey : String
  taskId : TaskId
  seq : Nat
  deriving DecidableEq, Repr

/-- What a task row binds. -/
def ofTask (r : TaskRecord) : Binding := ⟨r.ownerId, r.idempotencyKey, r.id, r.seq⟩

/-- What a row of `task_idempotency` binds. -/
def ofRetired (k : RetiredKey) : Binding := ⟨k.ownerId, k.idempotencyKey, k.taskId, k.seq⟩

/-- The binding stands in the database. -/
def Binds (l : Ledger) (b : Binding) : Prop :=
  (∃ r, l.tasks.find? b.taskId = some r ∧ ofTask r = b) ∨
    ∃ k, l.retiredKeys.find? b.taskId = some k ∧ ofRetired k = b

theorem binds_of_task {l : Ledger} {t : TaskId} {r : TaskRecord} (h : l.tasks.find? t = some r) :
    Binds l (ofTask r) := by
  have hid : r.id = t := Table.key_of_find? h
  exact .inl ⟨r, by rw [← h, ← hid]; rfl, rfl⟩

theorem binds_of_retired {l : Ledger} {t : TaskId} {k : RetiredKey}
    (h : l.retiredKeys.find? t = some k) : Binds l (ofRetired k) := by
  have hid : k.taskId = t := Table.key_of_find? h
  exact .inr ⟨k, by rw [← h, ← hid]; rfl, rfl⟩

/-! ### Retention and the keys that it keeps -/

/-- The row that retention keeps of a task for ever. -/
def retiredKey (r : TaskRecord) : RetiredKey :=
  { taskId := r.id, ownerId := r.ownerId, idempotencyKey := r.idempotencyKey, seq := r.seq,
    terminalState := r.state, model := r.model, createdAt := r.createdAt, updatedAt := r.updatedAt }

theorem ofRetired_retiredKey (r : TaskRecord) : ofRetired (retiredKey r) = ofTask r := rfl

theorem expirePayload_retired {e : Time} {r : TaskRecord} {l l' : Ledger}
    (h : l.expirePayload e r = (.ok (), l')) :
    l'.taskSeq = l.taskSeq ∧ ∀ t, l'.retiredKeys.find? t =
      if t = r.id then some (retiredKey r) else l.retiredKeys.find? t := by
  unfold Ledger.expirePayload at h
  split at h
  · simp at h
  next hfree =>
    obtain ⟨-, rfl⟩ := Prod.mk.inj h
    refine ⟨rfl, fun t => ?_⟩
    have hnone : l.retiredKeys.find? r.id = none := by
      rw [not_or, not_or] at hfree
      simpa using hfree.2.1
    show (l.retiredKeys.insert (retiredKey r)).find? t = _
    rw [Table.find?_insert (by exact hnone)]
    by_cases ht : t = r.id
    · subst ht
      simp [key, retiredKey]
    · rw [if_neg ht, if_neg]
      exact fun hk => ht hk.symm

/-- A payload pass keeps the keys that are there and adds those of its rows. -/
theorem expirePayloads_retired {e : Time} :
    ∀ {rows : List TaskRecord} {l l' : Ledger}, (rows.map TaskRecord.id).Nodup →
      l.expirePayloads e rows = (.ok (), l') →
      l'.taskSeq = l.taskSeq ∧
        (∀ r ∈ rows, l'.retiredKeys.find? r.id = some (retiredKey r)) ∧
        ∀ t, t ∉ rows.map TaskRecord.id → l'.retiredKeys.find? t = l.retiredKeys.find? t
  | [], l, l', _, h => by
      obtain ⟨-, rfl⟩ := Prod.mk.inj h
      simp
  | r :: rows, l, l', hnd, h => by
      simp only [Ledger.expirePayloads] at h
      split at h
      · simp at h
      next l₁ h₁ =>
        rw [List.map_cons, List.nodup_cons] at hnd
        obtain ⟨hseq, hone⟩ := expirePayload_retired h₁
        obtain ⟨hseqs, hrows, hrest⟩ := expirePayloads_retired hnd.2 h
        refine ⟨hseqs.trans hseq, ?_, ?_⟩
        · intro q hq
          rcases List.mem_cons.mp hq with rfl | hq
          · rw [hrest q.id hnd.1, hone, if_pos rfl]
          · exact hrows q hq
        · intro t ht
          rw [List.map_cons, List.mem_cons, not_or] at ht
          rw [hrest t ht.2, hone, if_neg ht.1]

theorem purgeTombstones_retired :
    ∀ {rows : List Tombstone} {l l' : Ledger}, l.purgeTombstones rows = (.ok (), l') →
      l'.retiredKeys = l.retiredKeys ∧ l'.taskSeq = l.taskSeq
  | [], l, l', h => by
      obtain ⟨-, rfl⟩ := Prod.mk.inj h
      exact ⟨rfl, rfl⟩
  | k :: rows, l, l', h => by
      simp only [Ledger.purgeTombstones] at h
      split at h
      · simp at h
      next l₁ h₁ =>
        obtain ⟨hret, hseq⟩ := purgeTombstones_retired h
        simp only [Ledger.purgeTombstone] at h₁
        split at h₁
        · simp at h₁
        · obtain ⟨-, rfl⟩ := Prod.mk.inj h₁
          exact ⟨hret, hseq⟩

theorem insertTaskEvents_retired (now : Time) (payload : Event → Nat → String) (t : TaskId)
    (source : ConversationId) :
    ∀ (es : List Event) (bytes : Nat) (done : List (Nat × String)) (l : Ledger),
      (l.insertTaskEvents now payload t source es bytes done).2.retiredKeys = l.retiredKeys ∧
        (l.insertTaskEvents now payload t source es bytes done).2.taskSeq = l.taskSeq
  | [], _, _, l => ⟨rfl, rfl⟩
  | e :: es, bytes, done, l => by
      have hone : (l.insertTaskEvent now t source e.seq (payload e bytes)).2.retiredKeys =
          l.retiredKeys ∧
          (l.insertTaskEvent now t source e.seq (payload e bytes)).2.taskSeq = l.taskSeq := by
        unfold Ledger.insertTaskEvent
        split
        · exact ⟨rfl, rfl⟩
        · split <;> exact ⟨rfl, rfl⟩
      simp only [Ledger.insertTaskEvents]
      split
      next h => rw [h] at hone; exact hone
      next l₁ h =>
        rw [h] at hone
        obtain ⟨hret, hseq⟩ := insertTaskEvents_retired now payload t source es bytes done l₁
        exact ⟨hret.trans hone.1, hseq.trans hone.2⟩
      next l₁ h =>
        rw [h] at hone
        obtain ⟨hret, hseq⟩ := insertTaskEvents_retired now payload t source es _ _ l₁
        exact ⟨hret.trans hone.1, hseq.trans hone.2⟩

/-- What a ledger call leaves of the key kept of `t`. -/
inductive RetiredStep (l : Ledger) (t : TaskId) : LedgerCall → Option RetiredKey → Prop
  | same (c : LedgerCall) : RetiredStep l t c (l.retiredKeys.find? t)
  | retire (b n : Time) (r : TaskRecord) (hr : l.tasks.find? t = some r) :
      RetiredStep l t (.expireTerminalPayloads b n) (some (retiredKey r))

theorem exec_retired (now : Time) (c : LedgerCall) (l : Ledger) :
    (c.exec now l).2.taskSeq = l.taskSeq ∧
      ∀ t, RetiredStep l t c ((c.exec now l).2.retiredKeys.find? t) := by
  have hsame : ∀ l' : Ledger, l'.taskSeq = l.taskSeq → l'.retiredKeys = l.retiredKeys →
      l'.taskSeq = l.taskSeq ∧ ∀ t, RetiredStep l t c (l'.retiredKeys.find? t) := by
    intro l' hseq hret
    refine ⟨hseq, fun t => ?_⟩
    rw [hret]
    exact .same c
  cases c
  case expireTerminalPayloads b n =>
    simp only [LedgerCall.exec, Ledger.expireTerminalPayloads]
    split
    · exact hsame l rfl rfl
    next l' hx =>
      have hnd : ((l.tasks.rows.filter (l.expirable b)).map TaskRecord.id).Nodup :=
        l.tasks.nodup.sublist (List.filter_sublist.map TaskRecord.id)
      obtain ⟨hseq, hrows, hrest⟩ := expirePayloads_retired hnd hx
      refine ⟨hseq, fun t => ?_⟩
      show RetiredStep l t _ (l'.retiredKeys.find? t)
      by_cases ht : t ∈ (l.tasks.rows.filter (l.expirable b)).map TaskRecord.id
      · obtain ⟨r, hr, rfl⟩ := List.mem_map.mp ht
        rw [hrows r hr]
        exact .retire b n r (Table.find?_of_mem (List.mem_of_mem_filter hr))
      · rw [hrest t ht]
        exact .same _
  case purgeExpiredTombstones b =>
    simp only [LedgerCall.exec, Ledger.purgeExpiredTombstones]
    split
    · exact hsame l rfl rfl
    next l' hx =>
      obtain ⟨hret, hseq⟩ := purgeTombstones_retired hx
      exact hsame l'.commit hseq hret
  case copyTaskEventPage p t s es =>
    obtain ⟨hret, hseq⟩ := insertTaskEvents_retired now p t s es (l.logBytes t) [] l
    simp only [LedgerCall.exec, Ledger.copyTaskEventPage]
    split
    · exact hsame l rfl rfl
    · split
      · split
        · split
          · exact hsame l rfl rfl
          next l₁ h₁ =>
            rw [h₁] at hret hseq
            exact hsame _ hseq hret
        · exact hsame l rfl rfl
      · exact hsame l rfl rfl
  all_goals
    refine hsame _ ?_ ?_ <;> first
      | rfl
      | (simp only [LedgerCall.exec, Ledger.reserveNext, Ledger.updateReservation,
          Ledger.markSandboxLost, Ledger.recordBaseSha, Ledger.beginSandboxCreation,
          Ledger.setSandboxCredentialVersion, Ledger.updateSandboxCreation,
          Ledger.beginPublication, Ledger.beginSupervision, Ledger.updateSupervision,
          Ledger.saveTaskMessageReceipt, Ledger.archiveTaskResult, Ledger.finishTask,
          Ledger.tryMarkSleeping]
         repeat' split
         all_goals rfl)

/-- The pass that retires the payload of a task keeps its key. -/
theorem exec_retires {now : Time} (b n : Time) {l : Ledger} {r r' : TaskRecord}
    (hr : l.tasks.find? r.id = some r)
    (hr' : ((LedgerCall.expireTerminalPayloads b n).exec now l).2.tasks.find? r.id = some r')
    (hp : r.payloadExpired = false) (hp' : r'.payloadExpired = true) :
    ∃ k, ((LedgerCall.expireTerminalPayloads b n).exec now l).2.retiredKeys.find? r.id = some k := by
  simp only [LedgerCall.exec, Ledger.expireTerminalPayloads] at hr' ⊢
  split at hr'
  next =>
    obtain rfl := Option.some.inj (hr.symm.trans hr')
    rw [hp] at hp'
    simp at hp'
  next l' hx =>
    have hnd : ((l.tasks.rows.filter (l.expirable b)).map TaskRecord.id).Nodup :=
      l.tasks.nodup.sublist (List.filter_sublist.map TaskRecord.id)
    obtain ⟨-, hrows, -⟩ := expirePayloads_retired hnd hx
    have hfind : l'.tasks.find? r.id = some r' := hr'
    rw [(Ledger.expirePayloads_ok hx).tasks r.id, hr, Option.map_some] at hfind
    by_cases ht : r.id ∈ (l.tasks.rows.filter (l.expirable b)).map TaskRecord.id
    · obtain ⟨q, hq, hid⟩ := List.mem_map.mp ht
      have hk := hrows q hq
      rw [hid] at hk
      exact ⟨retiredKey q, hk⟩
    · rw [if_neg ht] at hfind
      obtain rfl := Option.some.inj hfind
      rw [hp] at hp'
      simp at hp'

theorem ofTask_step {now : Time} {l : Ledger} {r r' : TaskRecord} {c : LedgerCall}
    (h : TaskStep now l r c r') : ofTask r' = ofTask r := by
  cases h <;> rfl

/-- A retired row is new only together with its key. -/
theorem exec_expired (now : Time) (c : LedgerCall) {l : Ledger} {t : TaskId} {r' : TaskRecord}
    (hr' : (c.exec now l).2.tasks.find? t = some r') (he : r'.payloadExpired = true) :
    (∃ r, l.tasks.find? t = some r ∧ r.payloadExpired = true) ∨
      ∃ k, (c.exec now l).2.retiredKeys.find? t = some k := by
  cases hr : l.tasks.find? t with
  | none => rw [exec_task_none now c hr] at hr'; simp at hr'
  | some r =>
      obtain rfl : r.id = t := Table.key_of_find? hr
      rcases exec_task now c hr with ⟨_, _, _, hnone⟩ | ⟨r'', hr'', hstep⟩
      · rw [hnone] at hr'
        simp at hr'
      obtain rfl := Option.some.inj (hr''.symm.trans hr')
      cases hstep with
      | retire b n ht hp hres => exact .inr (exec_retires b n hr hr' hp he)
      | _ => exact .inl ⟨_, rfl, he⟩

/-! ### The invariant -/

/-- Any two bindings that agree somewhere are one, and a task whose payload is
retired has its key kept. -/
structure Admitted (issued : List TaskId) (l : Ledger) : Prop where
  pair : ∀ {b b'}, Binds l b → Binds l b' → b.ownerId = b'.ownerId →
    b.idempotencyKey = b'.idempotencyKey → b = b'
  task : ∀ {b b'}, Binds l b → Binds l b' → b.taskId = b'.taskId → b = b'
  seq : ∀ {b b'}, Binds l b → Binds l b' → b.seq = b'.seq → b = b'
  le_taskSeq : ∀ {b}, Binds l b → b.seq ≤ l.taskSeq
  issued : ∀ {b}, Binds l b → b.taskId ∈ issued
  kept : ∀ {t r}, l.tasks.find? t = some r → r.payloadExpired = true →
    ∃ k, l.retiredKeys.find? t = some k

/-- The invariant speaks of the set of bindings, the counter and the kept keys. -/
theorem Admitted.of_binds {issued : List TaskId} {l l' : Ledger} (h : Admitted issued l)
    (hb : ∀ b, Binds l' b ↔ Binds l b) (hseq : l'.taskSeq = l.taskSeq)
    (hkept : ∀ {t r}, l'.tasks.find? t = some r → r.payloadExpired = true →
      ∃ k, l'.retiredKeys.find? t = some k) : Admitted issued l' where
  pair hb₁ hb₂ := h.pair ((hb _).mp hb₁) ((hb _).mp hb₂)
  task hb₁ hb₂ := h.task ((hb _).mp hb₁) ((hb _).mp hb₂)
  seq hb₁ hb₂ := h.seq ((hb _).mp hb₁) ((hb _).mp hb₂)
  le_taskSeq hb₁ := hseq ▸ h.le_taskSeq ((hb _).mp hb₁)
  issued hb₁ := h.issued ((hb _).mp hb₁)
  kept := hkept

/-- No ledger call makes a binding, or loses one. -/
theorem binds_exec {issued : List TaskId} {l : Ledger} (h : Admitted issued l) (now : Time)
    (c : LedgerCall) (b : Binding) : Binds (c.exec now l).2 b ↔ Binds l b := by
  have hret := (exec_retired now c l).2 b.taskId
  constructor
  · rintro (⟨r', hr', rfl⟩ | ⟨k, hk, rfl⟩)
    · -- The row was there before, and its step kept the binding.
      cases hr : l.tasks.find? (ofTask r').taskId with
      | none => rw [exec_task_none now c hr] at hr'; simp at hr'
      | some r =>
          have hid : r.id = (ofTask r').taskId := Table.key_of_find? hr
          rw [← hid] at hr hr'
          rcases exec_task now c hr with ⟨_, _, _, hnone⟩ | ⟨r'', hr'', hstep⟩
          · rw [hnone] at hr'
            simp at hr'
          · obtain rfl := Option.some.inj (hr''.symm.trans hr')
            rw [ofTask_step hstep]
            exact binds_of_task hr
    · rw [hk] at hret
      generalize hx : some k = x at hret
      cases hret with
      | same => exact binds_of_retired hx.symm
      | retire b n r hr =>
          obtain rfl := Option.some.inj hx
          exact binds_of_task hr
  · rintro (⟨r, hr, rfl⟩ | ⟨k, hk, rfl⟩)
    · have hid : l.tasks.find? r.id = some r := hr
      rcases exec_task now c hid with ⟨b, hb, hexp, -⟩ | ⟨r', hr', hstep⟩
      · -- A purged row has its key kept, and the two bind the same.
        subst hb
        obtain ⟨k, hk⟩ := h.kept hid hexp
        have hkr : ofRetired k = ofTask r :=
          h.task (binds_of_retired hk) (binds_of_task hid) (Table.key_of_find? hk)
        generalize hx : (LedgerCall.exec now (.purgeExpiredTombstones b) l).2.retiredKeys.find?
          (ofTask r).taskId = x at hret
        cases hret with
        | same =>
            rw [← hkr]
            exact binds_of_retired (hx.trans hk)
      · rw [← ofTask_step hstep]
        exact binds_of_task hr'
    · generalize hx : (LedgerCall.exec now c l).2.retiredKeys.find? (ofRetired k).taskId = x at hret
      cases hret with
      | same => exact binds_of_retired (hx.trans hk)
      | retire b n r hr =>
          have hkr : ofRetired k = ofTask r :=
            h.task (binds_of_retired hk) (binds_of_task hr) (Table.key_of_find? hr).symm
          rw [hkr, ← ofRetired_retiredKey]
          exact binds_of_retired hx

theorem Admitted.exec {issued : List TaskId} {l : Ledger} (h : Admitted issued l) (now : Time)
    (c : LedgerCall) : Admitted issued (c.exec now l).2 := by
  refine h.of_binds (binds_exec h now c) (exec_retired now c l).1 ?_
  intro t r' hr' he
  rcases exec_expired now c hr' he with ⟨r, hr, hexp⟩ | hk
  · obtain ⟨k, hk⟩ := h.kept hr hexp
    have hret := (exec_retired now c l).2 t
    generalize (LedgerCall.exec now c l).2.retiredKeys.find? t = x at hret
    cases hret with
    | same => exact ⟨k, hk⟩
    | retire b n q hq => exact ⟨retiredKey q, rfl⟩
  · exact hk

/-! ### Submission -/

/-- What `submit` answers: the task that the pair is bound to, or a new one. -/
theorem submission_cases (l : Ledger) (now : Time) (id : TaskId) (q : Submission) :
    (∃ r b, Binds l b ∧ b.ownerId = q.ownerId ∧ b.idempotencyKey = q.idempotencyKey ∧
        (submission now id q l).1 = .ok (r, false) ∧ ofTask r = b ∧
        (submission now id q l).2 = l.commit) ∨
      ∃ r, (∀ b, Binds l b → b.ownerId = q.ownerId → b.idempotencyKey ≠ q.idempotencyKey) ∧
        ofTask r = ⟨q.ownerId, q.idempotencyKey, id, l.taskSeq + 1⟩ ∧ r.payloadExpired = false ∧
        (submission now id q l).1 = .ok (r, true) ∧
        (submission now id q l).2 =
          { l with taskSeq := l.taskSeq + 1, tasks := l.tasks.insert r }.commit := by
  simp only [submission, Ledger.submit]
  cases htask : l.tasks.rows.find? fun r => r.idempotencyKey = q.idempotencyKey ∧
      r.ownerId = q.ownerId with
  | some r =>
      have hp := List.find?_some htask
      simp only [decide_eq_true_eq] at hp
      have hfind := Table.find?_of_mem (List.mem_of_find?_eq_some htask)
      exact .inl ⟨r, ofTask r, binds_of_task hfind, hp.2, hp.1, rfl, rfl, rfl⟩
  | none =>
      cases hret : l.retiredKeys.rows.find? fun r => r.idempotencyKey = q.idempotencyKey ∧
          r.ownerId = q.ownerId with
      | some k =>
          have hp := List.find?_some hret
          simp only [decide_eq_true_eq] at hp
          have hfind := Table.find?_of_mem (List.mem_of_find?_eq_some hret)
          exact .inl ⟨_, ofRetired k, binds_of_retired hfind, hp.2, hp.1, rfl, rfl, rfl⟩
      | none =>
          refine .inr ⟨_, ?_, rfl, rfl, rfl, rfl⟩
          rintro b (⟨r, hr, rfl⟩ | ⟨k, hk, rfl⟩) howner hkey
          · have := List.find?_eq_none.mp htask r (Table.mem_of_find? hr)
            simp only [decide_eq_true_eq, not_and] at this
            exact this hkey howner
          · have := List.find?_eq_none.mp hret k (Table.mem_of_find? hk)
            simp only [decide_eq_true_eq, not_and] at this
            exact this hkey howner

/-- The bindings after a new task. -/
theorem binds_insert {l : Ledger} {r : TaskRecord} {n : Nat} (hnone : l.tasks.find? r.id = none)
    (b : Binding) :
    Binds ({ l with taskSeq := n, tasks := l.tasks.insert r } : Ledger).commit b ↔
      Binds l b ∨ b = ofTask r := by
  have hfind : ∀ t, (l.tasks.insert r).find? t = if r.id = t then some r else l.tasks.find? t :=
    Table.find?_insert (by exact hnone)
  constructor
  · rintro (⟨r', hr', rfl⟩ | hret)
    · have hr'' : (l.tasks.insert r).find? (ofTask r').taskId = some r' := hr'
      rw [hfind] at hr''
      split at hr''
      · obtain rfl := Option.some.inj hr''
        exact .inr rfl
      · exact .inl (binds_of_task hr'')
    · exact .inl (.inr hret)
  · rintro ((⟨r', hr', rfl⟩ | hret) | rfl)
    · refine .inl ⟨r', ?_, rfl⟩
      have hne : r.id ≠ (ofTask r').taskId := by
        rintro heq
        rw [← heq, hnone] at hr'
        simp at hr'
      show (l.tasks.insert r).find? _ = _
      rw [hfind, if_neg hne, hr']
    · exact .inr hret
    · refine .inl ⟨r, ?_, rfl⟩
      show (l.tasks.insert r).find? _ = _
      rw [hfind]
      exact if_pos rfl

/-- An id that was never drawn has no row. -/
theorem Admitted.fresh {issued : List TaskId} {l : Ledger} (h : Admitted issued l) {id : TaskId}
    (hid : id ∉ issued) : l.tasks.find? id = none := by
  cases hr : l.tasks.find? id with
  | none => rfl
  | some r =>
      have hmem := h.issued (binds_of_task hr)
      rw [show (ofTask r).taskId = id from Table.key_of_find? hr] at hmem
      exact absurd hmem hid

theorem Admitted.insert {issued : List TaskId} {l : Ledger} (h : Admitted issued l) {r : TaskRecord}
    (hid : r.id ∉ issued) (hseq : r.seq = l.taskSeq + 1) (hexp : r.payloadExpired = false)
    (hfree : ∀ b, Binds l b → b.ownerId = r.ownerId → b.idempotencyKey ≠ r.idempotencyKey) :
    Admitted (r.id :: issued)
      ({ l with taskSeq := l.taskSeq + 1, tasks := l.tasks.insert r } : Ledger).commit := by
  have hnone := h.fresh hid
  have hbinds := @binds_insert l r (l.taskSeq + 1) hnone
  constructor
  case pair =>
    intro b b' hb hb' howner hkey
    rcases (hbinds b).mp hb with hb | rfl <;> rcases (hbinds b').mp hb' with hb' | rfl
    · exact h.pair hb hb' howner hkey
    · exact absurd hkey (hfree b hb howner)
    · exact absurd hkey.symm (hfree b' hb' howner.symm)
    · rfl
  case task =>
    intro b b' hb hb' htask
    rcases (hbinds b).mp hb with hb | rfl <;> rcases (hbinds b').mp hb' with hb' | rfl
    · exact h.task hb hb' htask
    · have hmem := h.issued hb
      rw [htask] at hmem
      exact absurd hmem hid
    · have hmem := h.issued hb'
      rw [← htask] at hmem
      exact absurd hmem hid
    · rfl
  case seq =>
    intro b b' hb hb' heq
    have hnew : (ofTask r).seq = l.taskSeq + 1 := hseq
    rcases (hbinds b).mp hb with hb | rfl <;> rcases (hbinds b').mp hb' with hb' | rfl
    · exact h.seq hb hb' heq
    · have := h.le_taskSeq hb
      omega
    · have := h.le_taskSeq hb'
      omega
    · rfl
  case le_taskSeq =>
    intro b hb
    show b.seq ≤ l.taskSeq + 1
    rcases (hbinds b).mp hb with hb | rfl
    · exact Nat.le_succ_of_le (h.le_taskSeq hb)
    · exact hseq.le
  case issued =>
    intro b hb
    rcases (hbinds b).mp hb with hb | rfl
    · exact List.mem_cons_of_mem _ (h.issued hb)
    · exact List.mem_cons_self
  case kept =>
    intro t r' hr' he
    have hr'' : (l.tasks.insert r).find? t = some r' := hr'
    rw [Table.find?_insert (by exact hnone)] at hr''
    split at hr''
    · obtain rfl := Option.some.inj hr''
      rw [hexp] at he
      simp at he
    · exact h.kept hr'' he

theorem Admitted.weaken {issued : List TaskId} {l : Ledger} (h : Admitted issued l) (id : TaskId) :
    Admitted (id :: issued) l :=
  { h with issued := fun hb => List.mem_cons_of_mem _ (h.issued hb) }

/-! ### Sequences of operations -/

/-- The file is at the last schema version and its bindings are one to one. -/
def Store.Sound (s : Store) : Prop := s.version = schemaVersion ∧ Admitted s.issued s.ledger

theorem sound_initialized : initialized.Sound := by
  have hnone : ∀ b, ¬ Binds initialized.ledger b := by
    rintro b (⟨r, hr, -⟩ | ⟨k, hk, -⟩)
    · exact absurd hr (by simp [initialized, migrations, Migration.apply, Ledger.commit])
    · exact absurd hk (by simp [initialized, migrations, Migration.apply, Ledger.commit])
  refine ⟨rfl, ⟨?_, ?_, ?_, ?_, ?_, ?_⟩⟩
  case refine_6 =>
    intro t r hr
    exact absurd (binds_of_task hr) (hnone _)
  all_goals
    intro b
    intros
    exact absurd (by assumption) (hnone b)

/-- What one operation does to the bindings: it keeps them, and adds at most one,
that of a submission which created its task. -/
theorem Store.Sound.apply {now : Time} {op : Op} {s s' : Store} (hs : s.Sound)
    (h : op.apply now s = some s') :
    s'.Sound ∧ (∀ b, Binds s.ledger b → Binds s'.ledger b) ∧ s.ledger.taskSeq ≤ s'.ledger.taskSeq := by
  have hv := version_apply hs.1 h
  rcases apply_cases hs.1 h with rfl | ⟨id, q, rfl, hid, rfl⟩ | ⟨c, rfl, rfl⟩
  · exact ⟨hs, fun _ hb => hb, le_rfl⟩
  · rcases submission_cases s.ledger now id q with ⟨r, b, -, -, -, -, -, hl⟩ |
      ⟨r, hfree, hr, hexp, -, hl⟩
    · rw [hl]
      exact ⟨⟨hv, (hs.2.weaken id).of_binds (fun _ => Iff.rfl) rfl hs.2.kept⟩, fun _ hb => hb, le_rfl⟩
    · obtain ⟨howner, hkey, rfl, hseq⟩ := Binding.mk.inj hr
      have hnew := hs.2.insert hid hseq hexp (by rw [howner, hkey]; exact hfree)
      rw [hl]
      exact ⟨⟨hv, hnew⟩, fun b hb => (binds_insert (hs.2.fresh hid) b).mpr (.inl hb), Nat.le_succ _⟩
  · exact ⟨⟨hv, hs.2.exec now c⟩, fun b hb => (binds_exec hs.2 now c b).mpr hb,
      (exec_retired now c s.ledger).1.ge⟩

theorem Store.Sound.run {ops : List (Time × Op)} {s s' : Store} (hs : s.Sound)
    (h : run s ops = some s') :
    s'.Sound ∧ (∀ b, Binds s.ledger b → Binds s'.ledger b) ∧
      s.ledger.taskSeq ≤ s'.ledger.taskSeq := by
  induction ops generalizing s with
  | nil =>
      obtain rfl : s = s' := by simpa [Records.run] using h
      exact ⟨hs, fun _ hb => hb, le_rfl⟩
  | cons a ops ih =>
      obtain ⟨now, op⟩ := a
      obtain ⟨s₁, hop, hrest⟩ := Option.bind_eq_some_iff.mp h
      obtain ⟨hs₁, hb₁, hseq₁⟩ := hs.apply hop
      obtain ⟨hs', hb', hseq'⟩ := ih hs₁ hrest
      exact ⟨hs', fun b hb => hb' b (hb₁ b hb), hseq₁.trans hseq'⟩

/-- A submission leaves its pair bound to the task that it answers. -/
theorem Store.Sound.submitted {now : Time} {id : TaskId} {q : Submission} {s s₁ : Store}
    (hs : s.Sound) (hop : (Op.submit id q).apply now s = some s₁) {r : TaskRecord} {created : Bool}
    (hr : (submission now id q s.ledger).1 = .ok (r, created)) :
    Binds s₁.ledger ⟨q.ownerId, q.idempotencyKey, r.id, r.seq⟩ := by
  rcases apply_cases hs.1 hop with rfl | ⟨id', q', heq, hid, rfl⟩ | ⟨c, heq, -⟩
  · -- A submission draws an id, so it does not leave the store as it was.
    simp only [Op.apply] at hop
    split at hop
    · simp at hop
    · have hissued := congrArg Store.issued (Option.some.inj hop)
      simp at hissued
  · obtain ⟨rfl, rfl⟩ := Op.submit.inj heq
    rcases submission_cases s.ledger now id q with ⟨r', b, hb, howner, hkey, hans, hrb, hl⟩ |
      ⟨r', -, hrb, -, hans, hl⟩
    · obtain ⟨rfl, -⟩ := Prod.mk.inj (Except.ok.inj (hans.symm.trans hr))
      have hpair : b = ⟨q.ownerId, q.idempotencyKey, r'.id, r'.seq⟩ := by
        rw [← hrb, ← howner, ← hkey, ← hrb]
        rfl
      show Binds (submission now id q s.ledger).2 _
      rw [hl, ← hpair]
      exact hb
    · obtain ⟨rfl, -⟩ := Prod.mk.inj (Except.ok.inj (hans.symm.trans hr))
      obtain ⟨howner, hkey, rfl, hseq⟩ := Binding.mk.inj hrb
      show Binds (submission now r'.id q s.ledger).2 _
      rw [hl]
      refine (binds_insert (hs.2.fresh hid) _).mpr (.inr ?_)
      rw [hrb, hseq]
  · simp at heq

/-- A pair that was submitted once stays bound to one task, whatever is done to the
database afterwards: every later submission of the pair answers with that task and
adds none, no other pair has it, and a new task gets a number above it. -/
theorem submission_bound_for_ever {before : List (Time × Op)} {s : Store}
    (hbefore : run initialized before = some s) {now : Time} {id : TaskId} {q : Submission}
    {s₁ : Store} (hop : (Op.submit id q).apply now s = some s₁) {r : TaskRecord} {created : Bool}
    (hr : (submission now id q s.ledger).1 = .ok (r, created)) {later : List (Time × Op)}
    {s₂ : Store} (hlater : run s₁ later = some s₂) :
    (∀ b, Binds s₂.ledger b → (b.ownerId = q.ownerId ∧ b.idempotencyKey = q.idempotencyKey ↔
        b = ⟨q.ownerId, q.idempotencyKey, r.id, r.seq⟩)) ∧
      Binds s₂.ledger ⟨q.ownerId, q.idempotencyKey, r.id, r.seq⟩ ∧
      (∀ now' id' q', q'.ownerId = q.ownerId → q'.idempotencyKey = q.idempotencyKey →
        ∃ r', (submission now' id' q' s₂.ledger).1 = .ok (r', false) ∧ r'.id = r.id ∧
          r'.seq = r.seq ∧ (submission now' id' q' s₂.ledger).2.tasks = s₂.ledger.tasks) ∧
      (∀ b b', Binds s₂.ledger b → Binds s₂.ledger b' → b.ownerId ≠ b'.ownerId →
        b.taskId ≠ b'.taskId) ∧
      ∀ now' id' q' r', (submission now' id' q' s₂.ledger).1 = .ok (r', true) → r.seq < r'.seq := by
  have hs := (sound_initialized.run hbefore).1
  have hbound := hs.submitted hop hr
  obtain ⟨hs₂, hgrow, -⟩ := (hs.apply hop).1.run hlater
  have hbound₂ := hgrow _ hbound
  refine ⟨fun b hb => ⟨?_, ?_⟩, hbound₂, ?_, ?_, ?_⟩
  · rintro ⟨howner, hkey⟩
    exact hs₂.2.pair hb hbound₂ howner hkey
  · rintro rfl
    exact ⟨rfl, rfl⟩
  · intro now' id' q' howner hkey
    rcases submission_cases s₂.ledger now' id' q' with ⟨r', b, hb, howner', hkey', hans, hrb, hl⟩ |
      ⟨r', hfree, -, -, -, -⟩
    · have hbr : b = ⟨q.ownerId, q.idempotencyKey, r.id, r.seq⟩ :=
        hs₂.2.pair hb hbound₂ (howner'.trans howner) (hkey'.trans hkey)
      obtain ⟨-, -, hid, hseq⟩ := Binding.mk.inj (hrb.trans hbr)
      exact ⟨r', hans, hid, hseq, by rw [hl]; rfl⟩
    · exact absurd hkey.symm (hfree _ hbound₂ howner.symm)
  · intro b b' hb hb' hne heq
    exact hne (congrArg Binding.ownerId (hs₂.2.task hb hb' heq))
  · intro now' id' q' r' hans
    rcases submission_cases s₂.ledger now' id' q' with ⟨r'', b, -, -, -, hans', -, -⟩ |
      ⟨r'', -, hrb, -, hans', -⟩
    · have := Prod.mk.inj (Except.ok.inj (hans'.symm.trans hans))
      simp at this
    · obtain ⟨rfl, -⟩ := Prod.mk.inj (Except.ok.inj (hans'.symm.trans hans))
      have hle := hs₂.2.le_taskSeq hbound₂
      have hseq : r''.seq = s₂.ledger.taskSeq + 1 := congrArg Binding.seq hrb
      show r.seq < r''.seq
      rw [hseq]
      exact Nat.lt_succ_of_le hle

/-- A request of owner 5 with key "k". -/
def keyed : Submission :=
  { idempotencyKey := "k", repository := none, prompt := "p", baseRef := none, retryOf := none,
    model := "m", ownerId := some 5 }

/-- The task ends, its payload is retired and its tombstone purged; then the file is
opened again and another owner uses the same key. -/
def retention : List (Time × Op) :=
  [(2, .call (.finishTask 1 .failed none none)), (9, .call (.expireTerminalPayloads 5 3)),
   (9, .rolledBack), (20, .call (.purgeExpiredTombstones 15)), (21, .reopen), (21, .migrate),
   (22, .submit 2 { keyed with ownerId := none })]

/-- After the purge no row of task 1 is left, and the key still answers with it. -/
theorem submission_bound_for_ever_purged :
    ∃ s₁ s₂ r r', (Op.submit 1 keyed).apply 1 initialized = some s₁ ∧
      run s₁ retention = some s₂ ∧ s₂.ledger.tasks.find? 1 = none ∧
      (submission 1 1 keyed initialized.ledger).1 = .ok (r, true) ∧
      (submission 30 3 keyed s₂.ledger).1 = .ok (r', false) ∧ r'.id = r.id ∧ r'.seq = r.seq := by
  have hop : (Op.submit 1 keyed).apply 1 initialized =
      some ⟨10, (submission 1 1 keyed initialized.ledger).2, [1]⟩ := rfl
  have hpurged : (run ⟨10, (submission 1 1 keyed initialized.ledger).2, [1]⟩ retention).any
      (fun s => (s.ledger.tasks.find? 1).isNone) = true := by decide +kernel
  obtain ⟨s₂, hrun, hnone⟩ := (Option.any_eq_true _ _).mp hpurged
  have hans : ∃ r, (submission 1 1 keyed initialized.ledger).1 = .ok (r, true) := ⟨_, rfl⟩
  obtain ⟨r, hr⟩ := hans
  have hstart : run initialized [] = some initialized := rfl
  obtain ⟨-, -, hreplay, -, -⟩ := submission_bound_for_ever hstart hop hr hrun
  obtain ⟨r', hr', hid, hseq, -⟩ := hreplay 30 3 keyed rfl rfl
  exact ⟨_, s₂, r, r', hop, hrun, by simpa using hnone, hr, hr', hid, hseq⟩

end GgAgent.Records
