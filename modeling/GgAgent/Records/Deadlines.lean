import GgAgent.Backend.Scheduler
import GgAgent.Records.Admission
import GgAgent.Records.Replay
import GgAgent.Records.Retention

/-!
When a retention pass takes the payload of a task away, and when its row.

The pass that retires the payload writes a tombstone with the time at which it expires: the
time of the pass and the tombstone retention. A later pass deletes the row and the tombstone if
the tombstone expired before a cutoff, and the cutoff is the tombstone retention before that
pass. So the retention is counted twice.
-/

namespace GgAgent.Records

open GgAgent.Lib GgAgent.Backend

/-! ### Tombstones -/

theorem expirePayloads_tombstones {e : Time} :
    ∀ {rows : List TaskRecord} {l l' : Ledger}, (rows.map TaskRecord.id).Nodup →
      l.expirePayloads e rows = (.ok (), l') →
      (∀ t ∈ rows.map TaskRecord.id, ∃ k, l'.tombstones.find? t = some k ∧ k.expiresAt = e) ∧
        ∀ t, t ∉ rows.map TaskRecord.id → l'.tombstones.find? t = l.tombstones.find? t
  | [], l, l', _, h => by
      obtain ⟨-, rfl⟩ := Prod.mk.inj h
      exact ⟨fun _ ht => (by cases ht), fun _ _ => rfl⟩
  | r :: rows, l, l', hnd, h => by
      simp only [Ledger.expirePayloads] at h
      split at h
      · simp at h
      next l₁ h₁ =>
        rw [List.map_cons, List.nodup_cons] at hnd
        obtain ⟨hrows, hrest⟩ := expirePayloads_tombstones hnd.2 h
        obtain ⟨k, hk, hone⟩ : ∃ k : Tombstone, k.expiresAt = e ∧ ∀ t, l₁.tombstones.find? t =
            if t = r.id then some k else l.tombstones.find? t := by
          unfold Ledger.expirePayload at h₁
          split at h₁
          · simp at h₁
          next hfree =>
            obtain ⟨-, rfl⟩ := Prod.mk.inj h₁
            have hnone : l.tombstones.find? r.id = none := by
              rw [not_or] at hfree
              simpa using hfree.1
            refine ⟨⟨r.id, (l.publications.find? r.id).map fun p =>
              (p.prNumber, p.prUrl, p.prState, p.state), e⟩, rfl, fun t => ?_⟩
            show (l.tombstones.insert _).find? t = _
            rw [Table.find?_insert (by exact hnone)]
            by_cases ht : t = r.id
            · subst ht
              simp [key]
            · rw [if_neg ht, if_neg]
              exact fun hk => ht hk.symm
        constructor
        · intro t ht
          rcases List.mem_cons.mp ht with rfl | ht
          · exact ⟨k, by rw [hrest r.id hnd.1, hone, if_pos rfl], hk⟩
          · exact hrows t ht
        · intro t ht
          rw [List.map_cons, List.mem_cons, not_or] at ht
          rw [hrest t ht.2, hone, if_neg ht.1]

theorem purgeTombstones_tombstones :
    ∀ {rows : List Tombstone} {l l' : Ledger}, l.purgeTombstones rows = (.ok (), l') →
      ∀ t, l'.tombstones.find? t =
        if t ∈ rows.map Tombstone.taskId then none else l.tombstones.find? t
  | [], l, l', h, t => by
      obtain ⟨-, rfl⟩ := Prod.mk.inj h
      simp
  | k :: rows, l, l', h, t => by
      simp only [Ledger.purgeTombstones] at h
      split at h
      · simp at h
      next l₁ h₁ =>
        simp only [Ledger.purgeTombstone] at h₁
        split at h₁
        · simp at h₁
        · obtain ⟨-, rfl⟩ := Prod.mk.inj h₁
          rw [purgeTombstones_tombstones h t, Table.find?_erase]
          by_cases ht : t = k.taskId <;> simp [ht]

theorem insertTaskEvents_tombstones (now : Time) (payload : Event → Nat → String) (t : TaskId)
    (source : ConversationId) :
    ∀ (es : List Event) (bytes : Nat) (done : List (Nat × String)) (l : Ledger),
      (Ledger.insertTaskEvents now payload t source es bytes done l).2.tombstones = l.tombstones := by
  have hone : ∀ seq payload (l : Ledger),
      (l.insertTaskEvent now t source seq payload).2.tombstones = l.tombstones := by
    intro seq payload l
    unfold Ledger.insertTaskEvent
    repeat' split
    all_goals rfl
  intro es
  induction es with
  | nil => exact fun _ _ _ => rfl
  | cons e es ih =>
      intro bytes done l
      have hfirst := hone e.seq (payload e bytes) l
      simp only [Ledger.insertTaskEvents]
      split
      next x l₁ hr =>
        rw [hr] at hfirst
        exact hfirst
      next l₁ hr =>
        rw [hr] at hfirst
        exact (ih bytes done l₁).trans hfirst
      next cursor l₁ hr =>
        rw [hr] at hfirst
        exact (ih _ _ l₁).trans hfirst

/-- What a ledger call other than a payload pass leaves of the tombstone of `t`. -/
inductive TombstoneStep (l : Ledger) (t : TaskId) : LedgerCall → Option Tombstone → Prop
  | same (c : LedgerCall) : TombstoneStep l t c (l.tombstones.find? t)
  | purge (b : Time) : TombstoneStep l t (.purgeExpiredTombstones b) none

theorem exec_tombstone (now : Time) (c : LedgerCall) (l : Ledger) (t : TaskId)
    (hc : ∀ b n, c ≠ .expireTerminalPayloads b n) :
    TombstoneStep l t c ((c.exec now l).2.tombstones.find? t) := by
  have hsame : ∀ l' : Ledger, l'.tombstones = l.tombstones →
      TombstoneStep l t c (l'.tombstones.find? t) := by
    intro l' heq
    rw [heq]
    exact .same c
  cases c
  case expireTerminalPayloads b n => exact absurd rfl (hc b n)
  case purgeExpiredTombstones b =>
    simp only [LedgerCall.exec, Ledger.purgeExpiredTombstones]
    split
    · exact hsame l rfl
    next l' hx =>
      show TombstoneStep l t _ (l'.tombstones.find? t)
      rw [purgeTombstones_tombstones hx t]
      split
      · exact .purge b
      · exact .same _
  case copyTaskEventPage p u s es =>
    have hins := insertTaskEvents_tombstones now p u s es (l.logBytes u) [] l
    simp only [LedgerCall.exec, Ledger.copyTaskEventPage]
    split
    · exact hsame l rfl
    · split
      · split
        · split
          · exact hsame l rfl
          next l₁ h₁ =>
            rw [h₁] at hins
            exact hsame _ hins
        · exact hsame l rfl
      · exact hsame l rfl
  all_goals
    refine hsame _ ?_
    first
      | rfl
      | (simp only [LedgerCall.exec, Ledger.reserveNext, Ledger.updateReservation,
          Ledger.markSandboxLost, Ledger.recordBaseSha, Ledger.beginSandboxCreation,
          Ledger.setSandboxCredentialVersion, Ledger.updateSandboxCreation,
          Ledger.beginPublication, Ledger.beginSupervision, Ledger.updateSupervision,
          Ledger.saveTaskMessageReceipt, Ledger.archiveTaskResult, Ledger.finishTask,
          Ledger.tryMarkSleeping]
         repeat' split
         all_goals rfl)

/-- A purge that leaves the tombstone of a task leaves its row. -/
theorem purge_keeps_row {now b : Time} {l : Ledger} {t : TaskId} {r : TaskRecord}
    (hr : l.tasks.find? t = some r)
    (hk : ((LedgerCall.purgeExpiredTombstones b).exec now l).2.tombstones.find? t ≠ none) :
    ((LedgerCall.purgeExpiredTombstones b).exec now l).2.tasks.find? t = some r := by
  simp only [LedgerCall.exec, Ledger.purgeExpiredTombstones] at hk ⊢
  split at hk
  · exact hr
  next l' hx =>
    have htomb : l'.tombstones.find? t ≠ none := hk
    rw [purgeTombstones_tombstones hx t] at htomb
    split at htomb
    · exact absurd rfl htomb
    next hmem =>
      show l'.tasks.find? t = some r
      rw [(Ledger.purgeTombstones_ok hx).tasks t, hr, Option.filter_some, decide_eq_false hmem]
      rfl

/-! ### Tasks with their payload have left nothing behind -/

/-- A tombstone or a kept key stands for a task whose payload is retired. -/
structure Entombed (l : Ledger) : Prop where
  tombstone : ∀ {t k}, l.tombstones.find? t = some k →
    ∃ r, l.tasks.find? t = some r ∧ r.payloadExpired = true
  key : ∀ {t k r}, l.retiredKeys.find? t = some k → l.tasks.find? t = some r →
    r.payloadExpired = true

theorem entombed_expirePayloads {e : Time} {rows : List TaskRecord} {l l' : Ledger}
    (h : Entombed l) (hnd : (rows.map TaskRecord.id).Nodup)
    (hrows : ∀ r ∈ rows, l.tasks.find? r.id = some r)
    (hx : l.expirePayloads e rows = (.ok (), l')) : Entombed l' := by
  have htasks := (Ledger.expirePayloads_ok hx).tasks
  have hretired : ∀ t ∈ rows.map TaskRecord.id, ∃ r, l'.tasks.find? t = some r ∧
      r.payloadExpired = true := by
    intro t ht
    obtain ⟨r, hr, rfl⟩ := List.mem_map.mp ht
    exact ⟨r.retired, by rw [htasks, hrows r hr, Option.map_some, if_pos ht], rfl⟩
  have hsame : ∀ t, t ∉ rows.map TaskRecord.id → l'.tasks.find? t = l.tasks.find? t := by
    intro t ht
    rw [htasks t]
    cases l.tasks.find? t with
    | none => rfl
    | some r => rw [Option.map_some, if_neg ht]
  constructor
  case tombstone =>
    intro t k hk
    by_cases ht : t ∈ rows.map TaskRecord.id
    · exact hretired t ht
    · rw [(expirePayloads_tombstones hnd hx).2 t ht] at hk
      rw [hsame t ht]
      exact h.tombstone hk
  case key =>
    intro t k r hk hr
    by_cases ht : t ∈ rows.map TaskRecord.id
    · obtain ⟨r', hr', hp⟩ := hretired t ht
      obtain rfl := Option.some.inj (hr'.symm.trans hr)
      exact hp
    · rw [(expirePayloads_retired hnd hx).2.2 t ht] at hk
      rw [hsame t ht] at hr
      exact h.key hk hr

theorem Entombed.exec {l : Ledger} (h : Entombed l) (now : Time) (c : LedgerCall) :
    Entombed (c.exec now l).2 := by
  by_cases hc : ∀ b n, c ≠ .expireTerminalPayloads b n
  case neg =>
    push Not at hc
    obtain ⟨b, n, rfl⟩ := hc
    simp only [LedgerCall.exec, Ledger.expireTerminalPayloads]
    split
    · exact h
    next l' hx =>
      have hl' := entombed_expirePayloads h
        (l.tasks.nodup.sublist (List.filter_sublist.map TaskRecord.id))
        (fun r hr => Table.find?_of_mem (List.mem_of_mem_filter hr)) hx
      exact ⟨hl'.tombstone, hl'.key⟩
  case pos =>
    have hrow : ∀ {t r}, l.tasks.find? t = some r → r.payloadExpired = true →
        ∀ r', (c.exec now l).2.tasks.find? t = some r' → r'.payloadExpired = true := by
      intro t r hr hp r' hr'
      obtain rfl : r.id = t := Table.key_of_find? hr
      rcases exec_task now c hr with ⟨_, _, _, hnone⟩ | ⟨r'', hr'', hstep⟩
      · rw [hnone] at hr'
        cases hr'
      · obtain rfl := Option.some.inj (hr''.symm.trans hr')
        rcases payloadExpired_step hstep with heq | ⟨_, _, _, heq, _⟩
        · exact heq.trans hp
        · exact heq
    constructor
    case tombstone =>
      intro t k hk
      have hstep := exec_tombstone now c l t hc
      rw [hk] at hstep
      generalize ho : some k = o at hstep
      cases hstep with
      | purge b => cases ho
      | same =>
          obtain ⟨r, hr, hp⟩ := h.tombstone ho.symm
          obtain rfl : r.id = t := Table.key_of_find? hr
          rcases exec_task now c hr with ⟨b, rfl, _, hnone⟩ | ⟨r', hr', -⟩
          · have hkept := purge_keeps_row hr (by rw [hk]; simp)
            rw [hnone] at hkept
            cases hkept
          · exact ⟨r', hr', hrow hr hp r' hr'⟩
    case key =>
      intro t k r' hk hr'
      have hstep := (exec_retired now c l).2 t
      rw [hk] at hstep
      generalize ho : some k = o at hstep
      cases hstep with
      | retire b n => exact absurd rfl (hc b n)
      | same =>
          cases hr : l.tasks.find? t with
          | none =>
              rw [exec_task_none now c hr] at hr'
              cases hr'
          | some r => exact hrow hr (h.key ho.symm hr) r' hr'

/-- What is kept of a file of the runtime. -/
structure Store.Lasting (s : Store) : Prop where
  sound : s.Sound
  retains : s.Retains
  entombed : Entombed s.ledger

theorem entombed_initialized : Entombed initialized.ledger where
  tombstone h := by cases h
  key h := by cases h

theorem lasting_initialized : initialized.Lasting where
  sound := sound_initialized
  retains := retains_initialized
  entombed := entombed_initialized

/-- A new task has neither a tombstone nor a kept key. -/
theorem Entombed.insert {issued : List TaskId} {l : Ledger} (h : Entombed l)
    (hl : Admitted issued l) {r : TaskRecord} (hid : r.id ∉ issued) (n : Nat) :
    Entombed { l with taskSeq := n, tasks := l.tasks.insert r } := by
  have hnone : l.tasks.find? r.id = none := hl.fresh hid
  have hfind : ∀ t, (l.tasks.insert r).find? t = if r.id = t then some r else l.tasks.find? t :=
    fun t => Table.find?_insert hnone t
  constructor
  case tombstone =>
    intro t k hk
    obtain ⟨r', hr', hp⟩ := h.tombstone hk
    refine ⟨r', ?_, hp⟩
    show (l.tasks.insert r).find? t = some r'
    rw [hfind, if_neg, hr']
    rintro rfl
    rw [hnone] at hr'
    cases hr'
  case key =>
    intro t k r' hk hr'
    have hr'' : (l.tasks.insert r).find? t = some r' := hr'
    rw [hfind] at hr''
    split at hr''
    next hrt =>
      subst hrt
      have hkey : k.taskId = r.id := Table.key_of_find? hk
      exact absurd (hkey ▸ hl.issued (binds_of_retired hk)) hid
    next => exact h.key hk hr''

theorem Store.Lasting.apply {now : Time} {op : Op} {s s' : Store} (hs : s.Lasting)
    (h : op.apply now s = some s') : s'.Lasting := by
  have hop : LedgerOp.apply (fun _ => true) now (.store op) s = some s' := h
  refine ⟨(hs.sound.apply h).1, hs.retains.apply hop, ?_⟩
  rcases apply_cases hs.sound.1 h with rfl | ⟨id, q, rfl, hid, rfl⟩ | ⟨c, rfl, rfl⟩
  · exact hs.entombed
  · rcases submission_cases s.ledger now id q with ⟨r, b, -, -, -, -, -, hl⟩ |
      ⟨r, -, hr, -, -, hl⟩
    · rw [hl]
      exact ⟨hs.entombed.tombstone, hs.entombed.key⟩
    · obtain rfl : r.id = id := congrArg Binding.taskId hr
      have hnew := hs.entombed.insert hs.sound.2 hid (s.ledger.taskSeq + 1)
      rw [hl]
      exact ⟨hnew.tombstone, hnew.key⟩
  · exact hs.entombed.exec now c

theorem Store.Lasting.run {ops : List (Time × Op)} {s s' : Store} (hs : s.Lasting)
    (h : run s ops = some s') : s'.Lasting :=
  run_keeps (fun _ _ _ _ hs hop => hs.apply hop) hs h

/-! ### A payload pass does not fail -/

/-- No tombstone and no kept key is in the way of the row. -/
structure Unkept (l : Ledger) (r : TaskRecord) : Prop where
  tombstone : l.tombstones.find? r.id = none
  key : ∀ k ∈ l.retiredKeys.rows, k.taskId ≠ r.id ∧ k.seq ≠ r.seq ∧
    ¬ (k.ownerId = r.ownerId ∧ k.idempotencyKey = r.idempotencyKey)

/-- Two rows of different tasks. -/
def Apart (r r' : TaskRecord) : Prop :=
  r.id ≠ r'.id ∧ r.seq ≠ r'.seq ∧
    ¬ (r.ownerId = r'.ownerId ∧ r.idempotencyKey = r'.idempotencyKey)

theorem Unkept.expirePayload {e : Time} {r : TaskRecord} {l : Ledger} (h : Unkept l r) :
    ∃ l', l.expirePayload e r = (.ok (), l') ∧ ∀ r', Apart r r' → Unkept l r' → Unkept l' r' := by
  have hkey : l.retiredKeys.find? r.id = none := by
    rw [Table.find?_eq_none]
    exact fun k hk => (h.key k hk).1
  have hany : l.retiredKeys.rows.any (fun k => k.seq = r.seq ∨
      k.ownerId = r.ownerId ∧ k.idempotencyKey = r.idempotencyKey) = false := by
    rw [List.any_eq_false]
    intro k hk
    simp only [decide_eq_true_eq, not_or]
    exact (h.key k hk).2
  have hfree : ¬ ((l.tombstones.find? r.id).isSome ∨ (l.retiredKeys.find? r.id).isSome ∨
      l.retiredKeys.rows.any (fun k => k.seq = r.seq ∨
        k.ownerId = r.ownerId ∧ k.idempotencyKey = r.idempotencyKey)) := by
    rw [h.tombstone, hkey, hany]
    simp
  unfold Ledger.expirePayload
  rw [if_neg hfree]
  refine ⟨_, rfl, fun r' hapart hr' => ?_⟩
  constructor
  case tombstone =>
    show (l.tombstones.insert _).find? r'.id = none
    rw [Table.find?_insert (by exact h.tombstone), if_neg (by exact hapart.1)]
    exact hr'.tombstone
  case key =>
    intro k hk
    have hk : k ∈ (l.retiredKeys.insert (retiredKey r)).rows := hk
    rw [Table.rows_insert (by exact hkey), List.mem_append, List.mem_singleton] at hk
    rcases hk with hk | rfl
    · exact hr'.key k hk
    · exact hapart

theorem expirePayloads_succeeds {e : Time} {rows : List TaskRecord} {l : Ledger}
    (h : ∀ r ∈ rows, Unkept l r) (hapart : rows.Pairwise Apart) :
    ∃ l', l.expirePayloads e rows = (.ok (), l') := by
  induction rows generalizing l with
  | nil => exact ⟨l, rfl⟩
  | cons r rows ih =>
      rw [List.pairwise_cons] at hapart
      obtain ⟨l₁, hone, hkept⟩ := (h r List.mem_cons_self).expirePayload (e := e)
      obtain ⟨l', hl'⟩ := ih (fun r' hr' => hkept r' (hapart.1 r' hr')
        (h r' (List.mem_cons_of_mem _ hr'))) hapart.2
      exact ⟨l', by simp only [Ledger.expirePayloads, hone]; exact hl'⟩

theorem Admitted.apart {issued : List TaskId} {l : Ledger} (h : Admitted issued l)
    {r r' : TaskRecord} (hr : r ∈ l.tasks.rows) (hr' : r' ∈ l.tasks.rows) (hne : r.id ≠ r'.id) :
    Apart r r' := by
  have hb := binds_of_task (Table.find?_of_mem hr)
  have hb' := binds_of_task (Table.find?_of_mem hr')
  refine ⟨hne, fun hseq => hne ?_, fun hpair => hne ?_⟩
  · exact congrArg Binding.taskId (h.seq hb hb' hseq)
  · exact congrArg Binding.taskId (h.pair hb hb' hpair.1 hpair.2)

theorem Store.Lasting.unkept {s : Store} (hs : s.Lasting) {r : TaskRecord}
    (hr : r ∈ s.ledger.tasks.rows) (hp : r.payloadExpired = false) : Unkept s.ledger r := by
  have hfind : s.ledger.tasks.find? r.id = some r := Table.find?_of_mem hr
  constructor
  case tombstone =>
    cases hk : s.ledger.tombstones.find? r.id with
    | none => rfl
    | some k =>
        obtain ⟨r', hr', hp'⟩ := hs.entombed.tombstone hk
        obtain rfl := Option.some.inj (hfind.symm.trans hr')
        rw [hp] at hp'
        cases hp'
  case key =>
    intro k hk
    have hkey : s.ledger.retiredKeys.find? k.taskId = some k := Table.find?_of_mem hk
    have hb := binds_of_retired hkey
    have hb' := binds_of_task hfind
    -- A kept key that agrees with the row is the key of its task.
    have hne : k.taskId ≠ r.id := by
      intro heq
      rw [heq] at hkey
      have hp' := hs.entombed.key hkey hfind
      rw [hp] at hp'
      cases hp'
    refine ⟨hne, fun hseq => hne ?_, fun hpair => hne ?_⟩
    · exact congrArg Binding.taskId (hs.sound.2.seq hb hb' hseq)
    · exact congrArg Binding.taskId (hs.sound.2.pair hb hb' hpair.1 hpair.2)

theorem Store.Lasting.expire_succeeds {s : Store} (hs : s.Lasting) (e b : Time) :
    ∃ l', s.ledger.expirePayloads e (s.ledger.tasks.rows.filter (s.ledger.expirable b)) =
      (.ok (), l') := by
  apply expirePayloads_succeeds
  · intro r hr
    obtain ⟨hr, hexp⟩ := List.mem_filter.mp hr
    simp only [Ledger.expirable, Bool.and_eq_true, Bool.not_eq_true'] at hexp
    exact hs.unkept hr hexp.1.1.2
  · have hnd : (s.ledger.tasks.rows.map TaskRecord.id).Nodup := s.ledger.tasks.nodup
    rw [List.Nodup, List.pairwise_map] at hnd
    have hpair : s.ledger.tasks.rows.Pairwise Apart :=
      hnd.imp_of_mem fun hr hr' hne => hs.sound.2.apart hr hr' hne
    exact hpair.sublist List.filter_sublist

theorem Store.Lasting.purge_succeeds {s : Store} (hs : s.Lasting) (b : Time) :
    ∃ l', s.ledger.purgeTombstones (s.ledger.tombstones.rows.filter fun r =>
      r.expiresAt < b && (s.ledger.reservations.find? r.taskId).isNone) = (.ok (), l') := by
  obtain ⟨n, hn⟩ := hs.retains.purge_succeeds 0 b
  simp only [LedgerCall.exec, Ledger.purgeExpiredTombstones] at hn
  split at hn
  · cases hn
  next l' hl' => exact ⟨l', hl'⟩

/-! ### The passes -/

/-- The clock as a pass reads it, and as the ledger does later in the pass. -/
structure Pass where
  moment : Time
  clock : Time

/-- The calls of a pass, with nothing else going on. -/
def Pass.handle (p : Pass) : (c : Call) → Store → Option (c.Out × Store)
  | .now, s => some (p.moment, s)
  | .db c, s =>
    let x := c.exec p.clock s.ledger
    some (x.1, { s with ledger := x.2 })
  | _, _ => none

def Pass.perform (cfg : Config) (p : Pass) (s : Store) : Option Store :=
  ((Scheduler.runRetentionPass cfg).run.alone p.handle s).map Prod.snd

theorem Pass.alone_db {α : Type} {p : Pass} {c : LedgerCall} {a : c.Out} (f : c.Out → Routine α)
    {s : Store} (h : (c.exec p.clock s.ledger).1 = .ok a) :
    (db c >>= f).run.alone p.handle s =
      (f a).run.alone p.handle { s with ledger := (c.exec p.clock s.ledger).2 } := by
  show Prog.alone p.handle (ExceptT.bindCont f (c.exec p.clock s.ledger).1)
    { s with ledger := (c.exec p.clock s.ledger).2 } = _
  rw [h]
  rfl

theorem Pass.perform_eq (cfg : Config) (p : Pass) {s : Store} (hs : s.Lasting) :
    p.perform cfg s = run s
      [(p.clock, .call (.expireTerminalPayloads (p.moment - cfg.terminalRetention)
        cfg.tombstoneRetention)),
       (p.clock, .call (.purgeExpiredTombstones (p.moment - cfg.tombstoneRetention)))] := by
  obtain ⟨l₁, h₁⟩ := hs.expire_succeeds (p.clock + cfg.tombstoneRetention)
    (p.moment - cfg.terminalRetention)
  have hok₁ : ∃ n, ((LedgerCall.expireTerminalPayloads (p.moment - cfg.terminalRetention)
      cfg.tombstoneRetention).exec p.clock s.ledger).1 = .ok n := by
    simp only [LedgerCall.exec, Ledger.expireTerminalPayloads, h₁]
    exact ⟨_, rfl⟩
  obtain ⟨n, hn⟩ := hok₁
  have hs₁ : Store.Lasting { s with ledger :=
      ((LedgerCall.expireTerminalPayloads (p.moment - cfg.terminalRetention)
        cfg.tombstoneRetention).exec p.clock s.ledger).2 } :=
    hs.apply (show Op.apply p.clock (.call (.expireTerminalPayloads
      (p.moment - cfg.terminalRetention) cfg.tombstoneRetention)) s = some _ from rfl)
  obtain ⟨m, hm⟩ := hs₁.retains.purge_succeeds p.clock (p.moment - cfg.tombstoneRetention)
  have hread : (Scheduler.runRetentionPass cfg).run.alone p.handle s =
      (db (.expireTerminalPayloads (p.moment - cfg.terminalRetention) cfg.tombstoneRetention) >>=
        fun _ => db (.purgeExpiredTombstones (p.moment - cfg.tombstoneRetention)) >>=
          fun _ => (pure () : Routine Unit)).run.alone p.handle s := rfl
  rw [Pass.perform, hread, Pass.alone_db _ hn, Pass.alone_db _ hm]
  rfl

/-! ### The stages of a task that has ended -/

/-- What the file has of a task that has ended: its payload, the row of a payload that was
retired at some time and a tombstone, or nothing. -/
inductive Stage
  | live
  | retired (e : Time)
  | removed

namespace Stage

/-- The payload pass and the purge of one retention pass. -/
def retire (expiry : Time) (p : Pass) : Stage → Stage
  | live => if expiry < p.moment then retired p.clock else live
  | st => st

def purge (keep : Time) (p : Pass) : Stage → Stage
  | retired e => if e + keep < p.moment then removed else retired e
  | st => st

def next (expiry keep : Time) (st : Stage) (p : Pass) : Stage :=
  (st.retire expiry p).purge keep p

/-- The stage after the passes: the first one past `expiry` has retired the payload, and the
first one more than `keep` later has removed the row and the tombstone. -/
def after (expiry keep : Time) (ps : List Pass) : Stage :=
  match ps.find? fun p => expiry < p.moment with
  | none => live
  | some p => if ps.any fun q => p.clock + keep < q.moment then removed else retired p.clock

theorem after_snoc {expiry keep : Time} {ps : List Pass} {p : Pass}
    (hord : ∀ q ∈ ps, q.moment ≤ p.moment) :
    after expiry keep (ps ++ [p]) = next expiry keep (after expiry keep ps) p := by
  unfold after
  rw [List.find?_append]
  cases hfind : ps.find? fun p => expiry < p.moment with
  | some p₀ =>
      simp only [Option.some_or, List.any_append, List.any_cons, List.any_nil, Bool.or_false]
      by_cases hany : ps.any (fun q => p₀.clock + keep < q.moment) = true
      · simp [hany, next, retire, purge]
      · by_cases hlast : p₀.clock + keep < p.moment <;>
          simp [hany, hlast, next, retire, purge]
  | none =>
      by_cases hexp : expiry < p.moment
      case neg => simp [hexp, next, retire, purge]
      case pos =>
        -- An earlier pass that is late enough for the purge makes this one late enough.
        have hany : (ps ++ [p]).any (fun q => p.clock + keep < q.moment) =
            decide (p.clock + keep < p.moment) := by
          rw [Bool.eq_iff_iff, List.any_eq_true, decide_eq_true_eq]
          constructor
          · rintro ⟨q, hq, hlate⟩
            rw [decide_eq_true_eq] at hlate
            rcases List.mem_append.mp hq with hq | hq
            · exact Nat.lt_of_lt_of_le hlate (hord q hq)
            · rw [List.mem_singleton] at hq
              rwa [hq] at hlate
          · intro hlate
            exact ⟨p, by simp, by simpa using hlate⟩
        by_cases hlast : p.clock + keep < p.moment <;>
          simp [hexp, hlast, hany, next, retire, purge]

theorem foldl_next {expiry keep : Time} {ps : List Pass}
    (hord : ps.Pairwise fun p q => p.moment ≤ q.moment) :
    ps.foldl (next expiry keep) live = after expiry keep ps := by
  induction ps using List.reverseRecOn with
  | nil => rfl
  | append_singleton ps p ih =>
      rw [List.pairwise_append] at hord
      obtain ⟨hps, -, hlast⟩ := hord
      rw [List.foldl_append, ih hps, after_snoc fun q hq => hlast q hq p (by simp)]
      rfl

/-- The file has of the task `r` what the stage tells. -/
def Holds (r : TaskRecord) (s : Store) : Stage → Prop
  | live => s.ledger.tasks.find? r.id = some r
  | retired _ => s.ledger.tasks.find? r.id = some r.retired ∧
      (s.ledger.tombstones.find? r.id).isSome
  | removed => s.ledger.tasks.find? r.id = none ∧ s.ledger.tombstones.find? r.id = none

end Stage

/-- The stage, and what the passes still need to know. -/
structure Tracks (cfg : Config) (r : TaskRecord) (s : Store) (st : Stage) : Prop where
  lasting : s.Lasting
  unreserved : s.ledger.reservations.find? r.id = none
  stage : st.Holds r s
  expires : ∀ e k, st = .retired e → s.ledger.tombstones.find? r.id = some k →
    k.expiresAt = e + cfg.tombstoneRetention

theorem mem_expirable {l : Ledger} {b : Time} {t : TaskId} :
    t ∈ (l.tasks.rows.filter (l.expirable b)).map TaskRecord.id ↔
      ∃ r, l.tasks.find? t = some r ∧ l.expirable b r = true := by
  constructor
  · intro h
    obtain ⟨r, hr, rfl⟩ := List.mem_map.mp h
    obtain ⟨hr, hexp⟩ := List.mem_filter.mp hr
    exact ⟨r, Table.find?_of_mem hr, hexp⟩
  · rintro ⟨r, hr, hexp⟩
    exact List.mem_map.mpr ⟨r, List.mem_filter.mpr ⟨Table.mem_of_find? hr, hexp⟩,
      Table.key_of_find? hr⟩

theorem mem_purgeable {l : Ledger} {b : Time} {t : TaskId}
    (hres : l.reservations.find? t = none) :
    t ∈ (l.tombstones.rows.filter fun k =>
        k.expiresAt < b && (l.reservations.find? k.taskId).isNone).map Tombstone.taskId ↔
      ∃ k, l.tombstones.find? t = some k ∧ k.expiresAt < b := by
  constructor
  · intro h
    obtain ⟨k, hk, rfl⟩ := List.mem_map.mp h
    obtain ⟨hk, hlate⟩ := List.mem_filter.mp hk
    rw [Bool.and_eq_true, decide_eq_true_eq] at hlate
    exact ⟨k, Table.find?_of_mem hk, hlate.1⟩
  · rintro ⟨k, hk, hlate⟩
    have hid : k.taskId = t := Table.key_of_find? hk
    refine List.mem_map.mpr ⟨k, List.mem_filter.mpr ⟨Table.mem_of_find? hk, ?_⟩, hid⟩
    rw [hid, hres]
    simpa using hlate

variable {cfg : Config} {r : TaskRecord}

/-- The payload pass of a retention pass. -/
theorem Tracks.retire {s s' : Store} {st : Stage} {p : Pass} (h : Tracks cfg r s st)
    (hterm : r.state.terminal = true) (hp : r.payloadExpired = false)
    (hop : (Op.call (.expireTerminalPayloads (p.moment - cfg.terminalRetention)
      cfg.tombstoneRetention)).apply p.clock s = some s') :
    Tracks cfg r s' (st.retire (r.updatedAt + cfg.terminalRetention) p) := by
  have hlasting := h.lasting.apply hop
  obtain ⟨l', hl'⟩ := h.lasting.expire_succeeds (p.clock + cfg.tombstoneRetention)
    (p.moment - cfg.terminalRetention)
  obtain rfl := Option.some.inj hop
  simp only [LedgerCall.exec, Ledger.expireTerminalPayloads, hl'] at hlasting ⊢
  have hexp := Ledger.expirePayloads_ok hl'
  obtain ⟨hnew, hold⟩ := expirePayloads_tombstones
    (s.ledger.tasks.nodup.sublist (List.filter_sublist.map TaskRecord.id)) hl'
  have hunres : l'.reservations.find? r.id = none := by
    rw [hexp.reservations]
    exact h.unreserved
  -- The pass takes the row if it still has its payload and is old enough.
  have hsame : r.id ∉ (s.ledger.tasks.rows.filter (s.ledger.expirable
      (p.moment - cfg.terminalRetention))).map TaskRecord.id →
      l'.tasks.find? r.id = s.ledger.tasks.find? r.id ∧
        l'.tombstones.find? r.id = s.ledger.tombstones.find? r.id := by
    intro hnot
    refine ⟨?_, hold r.id hnot⟩
    rw [hexp.tasks r.id]
    cases s.ledger.tasks.find? r.id with
    | none => rfl
    | some r₀ => rw [Option.map_some, if_neg hnot]
  cases st with
  | live =>
      have hrow : s.ledger.tasks.find? r.id = some r := h.stage
      have hmem : r.id ∈ (s.ledger.tasks.rows.filter (s.ledger.expirable
          (p.moment - cfg.terminalRetention))).map TaskRecord.id ↔
          r.updatedAt + cfg.terminalRetention < p.moment := by
        rw [mem_expirable, hrow]
        simp only [Option.some.injEq, exists_eq_left', Ledger.expirable, hterm, hp, h.unreserved,
          Bool.not_false, Bool.and_true, Bool.true_and, Option.isNone_none, decide_eq_true_eq]
        exact Nat.lt_sub_iff_add_lt
      by_cases hdue : r.updatedAt + cfg.terminalRetention < p.moment
      · obtain ⟨k, hk, hkexp⟩ := hnew r.id (hmem.mpr hdue)
        have hrow' : l'.tasks.find? r.id = some r.retired := by
          rw [hexp.tasks r.id, hrow, Option.map_some, if_pos (hmem.mpr hdue)]
        rw [Stage.retire, if_pos hdue]
        refine ⟨hlasting, hunres, ⟨hrow', by exact Option.isSome_of_eq_some hk⟩, ?_⟩
        intro e k' he hk'
        obtain rfl := Stage.retired.inj he
        obtain rfl := Option.some.inj (hk.symm.trans hk')
        exact hkexp
      · obtain ⟨hrow', -⟩ := hsame fun hin => hdue (hmem.mp hin)
        rw [Stage.retire, if_neg hdue]
        exact ⟨hlasting, hunres, hrow'.trans hrow, fun _ _ he => (by cases he)⟩
  | retired e =>
      obtain ⟨hrow, hsome⟩ := h.stage
      obtain ⟨hrow', htomb⟩ := hsame (by
        rw [mem_expirable, hrow]
        simp [Ledger.expirable, TaskRecord.retired])
      refine ⟨hlasting, hunres, ⟨hrow'.trans hrow, ?_⟩, fun e' k he hk => ?_⟩
      · show (l'.tombstones.find? r.id).isSome
        rw [htomb]
        exact hsome
      · exact h.expires e' k he (htomb.symm.trans hk)
  | removed =>
      obtain ⟨hrow, hnone⟩ := h.stage
      obtain ⟨hrow', htomb⟩ := hsame (by
        rw [mem_expirable, hrow]
        simp)
      exact ⟨hlasting, hunres, ⟨hrow'.trans hrow, htomb.trans hnone⟩, fun _ _ he => (by cases he)⟩

/-- The purge of a retention pass, which counts the tombstone retention again. -/
theorem Tracks.purge {s s' : Store} {st : Stage} {p : Pass} (h : Tracks cfg r s st)
    (hp : r.payloadExpired = false)
    (hop : (Op.call (.purgeExpiredTombstones (p.moment - cfg.tombstoneRetention))).apply p.clock s =
      some s') :
    Tracks cfg r s' (st.purge (cfg.tombstoneRetention + cfg.tombstoneRetention) p) := by
  have hlasting := h.lasting.apply hop
  obtain ⟨l', hl'⟩ := h.lasting.purge_succeeds (p.moment - cfg.tombstoneRetention)
  obtain rfl := Option.some.inj hop
  simp only [LedgerCall.exec, Ledger.purgeExpiredTombstones, hl'] at hlasting ⊢
  have hpur := Ledger.purgeTombstones_ok hl'
  have htomb := purgeTombstones_tombstones hl' r.id
  have hunres : l'.reservations.find? r.id = none := by
    rw [hpur.reservations]
    exact h.unreserved
  have hsame : s.ledger.tombstones.find? r.id = none ∨
      (∃ k, s.ledger.tombstones.find? r.id = some k ∧
        ¬ k.expiresAt < p.moment - cfg.tombstoneRetention) →
      l'.tasks.find? r.id = s.ledger.tasks.find? r.id ∧
        l'.tombstones.find? r.id = s.ledger.tombstones.find? r.id := by
    intro hkeep
    have hnot : r.id ∉ (s.ledger.tombstones.rows.filter fun k =>
        k.expiresAt < p.moment - cfg.tombstoneRetention &&
          (s.ledger.reservations.find? k.taskId).isNone).map Tombstone.taskId := by
      rw [mem_purgeable h.unreserved]
      rintro ⟨k, hk, hlate⟩
      rcases hkeep with hnone | ⟨k', hk', hearly⟩
      · rw [hnone] at hk
        cases hk
      · obtain rfl := Option.some.inj (hk.symm.trans hk')
        exact hearly hlate
    refine ⟨?_, by rw [htomb, if_neg hnot]⟩
    rw [hpur.tasks r.id, decide_eq_false hnot]
    cases s.ledger.tasks.find? r.id <;> rfl
  cases st with
  | live =>
      have hrow : s.ledger.tasks.find? r.id = some r := h.stage
      have hnone : s.ledger.tombstones.find? r.id = none := by
        cases hk : s.ledger.tombstones.find? r.id with
        | none => rfl
        | some k =>
            obtain ⟨r', hr', hp'⟩ := h.lasting.entombed.tombstone hk
            obtain rfl := Option.some.inj (hrow.symm.trans hr')
            rw [hp] at hp'
            cases hp'
      obtain ⟨hrow', -⟩ := hsame (.inl hnone)
      exact ⟨hlasting, hunres, hrow'.trans hrow, fun _ _ he => (by cases he)⟩
  | retired e =>
      obtain ⟨hrow, hsome⟩ := h.stage
      obtain ⟨k, hk⟩ := Option.isSome_iff_exists.mp hsome
      have hlate : k.expiresAt < p.moment - cfg.tombstoneRetention ↔
          e + (cfg.tombstoneRetention + cfg.tombstoneRetention) < p.moment := by
        rw [h.expires e k rfl hk, ← Nat.add_assoc]
        exact Nat.lt_sub_iff_add_lt
      by_cases hdue : e + (cfg.tombstoneRetention + cfg.tombstoneRetention) < p.moment
      · have hmem := (mem_purgeable (b := p.moment - cfg.tombstoneRetention) h.unreserved).mpr
          ⟨k, hk, hlate.mpr hdue⟩
        rw [Stage.purge, if_pos hdue]
        refine ⟨hlasting, hunres, ⟨?_, ?_⟩, fun _ _ he => (by cases he)⟩
        · show l'.tasks.find? r.id = none
          rw [hpur.tasks r.id, hrow, Option.filter_some, decide_eq_true hmem]
          rfl
        · show l'.tombstones.find? r.id = none
          rw [htomb, if_pos hmem]
      · obtain ⟨hrow', hkeep⟩ := hsame (.inr ⟨k, hk, fun hl => hdue (hlate.mp hl)⟩)
        rw [Stage.purge, if_neg hdue]
        refine ⟨hlasting, hunres, ⟨hrow'.trans hrow, ?_⟩, fun e' k' he hk' => ?_⟩
        · show (l'.tombstones.find? r.id).isSome
          rw [hkeep]
          exact hsome
        · exact h.expires e' k' he (hkeep.symm.trans hk')
  | removed =>
      obtain ⟨hrow, hnone⟩ := h.stage
      obtain ⟨hrow', hkeep⟩ := hsame (.inl hnone)
      exact ⟨hlasting, hunres, ⟨hrow'.trans hrow, hkeep.trans hnone⟩, fun _ _ he => (by cases he)⟩

theorem Tracks.pass {s s' : Store} {st : Stage} {p : Pass} (h : Tracks cfg r s st)
    (hterm : r.state.terminal = true) (hp : r.payloadExpired = false)
    (hpass : p.perform cfg s = some s') :
    Tracks cfg r s' (st.next (r.updatedAt + cfg.terminalRetention)
      (cfg.tombstoneRetention + cfg.tombstoneRetention) p) := by
  rw [p.perform_eq cfg h.lasting] at hpass
  obtain ⟨s₁, h₁, hrest⟩ := Option.bind_eq_some_iff.mp hpass
  obtain ⟨s₂, h₂, hdone⟩ := Option.bind_eq_some_iff.mp hrest
  obtain rfl := Option.some.inj hdone
  exact (h.retire hterm hp h₁).purge hp h₂

/-! ### Runs -/

/-- A retention pass, or an operation that something else makes on the ledger. -/
inductive Deed
  | pass (p : Pass)
  | other (now : Time) (op : Op)

def Deed.perform (cfg : Config) : Deed → Store → Option Store
  | .pass p, s => p.perform cfg s
  | .other now op, s => op.apply now s

def Deed.pass? : Deed → Option Pass
  | .pass p => some p
  | .other _ _ => none

def performAll (cfg : Config) : Store → List Deed → Option Store
  | s, [] => some s
  | s, d :: ds => (d.perform cfg s).bind fun s' => performAll cfg s' ds

/-- The row of a task, its reservation and its tombstone. -/
def view (t : TaskId) (s : Store) : Option TaskRecord × Option ReservationRecord × Option Tombstone :=
  (s.ledger.tasks.find? t, s.ledger.reservations.find? t, s.ledger.tombstones.find? t)

/-- Only the passes update the task. -/
def Untouched (cfg : Config) (t : TaskId) : Store → List Deed → Prop
  | _, [] => True
  | s, d :: ds => ∀ s', d.perform cfg s = some s' →
      (d.pass? = none → view t s' = view t s) ∧ Untouched cfg t s' ds

theorem performAll_append {ds es : List Deed} {s : Store} :
    performAll cfg s (ds ++ es) = (performAll cfg s ds).bind fun s' => performAll cfg s' es := by
  induction ds generalizing s with
  | nil => rfl
  | cons d ds ih =>
      simp only [List.cons_append, performAll]
      cases d.perform cfg s with
      | none => rfl
      | some s' => exact ih

theorem Untouched.before {ds es : List Deed} {t : TaskId} {s : Store}
    (h : Untouched cfg t s (ds ++ es)) : Untouched cfg t s ds := by
  induction ds generalizing s with
  | nil => trivial
  | cons d ds ih => exact fun s' hs' => ⟨(h s' hs').1, ih (h s' hs').2⟩

theorem Tracks.deed {s s' : Store} {st : Stage} {d : Deed} (h : Tracks cfg r s st)
    (hterm : r.state.terminal = true) (hp : r.payloadExpired = false)
    (hd : d.perform cfg s = some s') (hquiet : d.pass? = none → view r.id s' = view r.id s) :
    Tracks cfg r s' (d.pass?.toList.foldl (Stage.next (r.updatedAt + cfg.terminalRetention)
      (cfg.tombstoneRetention + cfg.tombstoneRetention)) st) := by
  cases d with
  | pass p => exact h.pass hterm hp hd
  | other now op =>
      obtain ⟨htask, hrest⟩ := Prod.mk.inj (hquiet rfl)
      obtain ⟨hres, htomb⟩ := Prod.mk.inj hrest
      refine ⟨h.lasting.apply hd, hres.trans h.unreserved, ?_, ?_⟩
      · have hstage := h.stage
        cases st <;> simp only [Stage.Holds, htask, htomb] at hstage ⊢ <;> exact hstage
      · intro e k he hk
        exact h.expires e k he (htomb.symm.trans hk)

/-- What a whole run leaves of the task. -/
theorem Tracks.performAll {ds : List Deed} {s s' : Store} {st : Stage} (h : Tracks cfg r s st)
    (hterm : r.state.terminal = true) (hp : r.payloadExpired = false)
    (hquiet : Untouched cfg r.id s ds) (hrun : performAll cfg s ds = some s') :
    Tracks cfg r s' ((ds.filterMap Deed.pass?).foldl
      (Stage.next (r.updatedAt + cfg.terminalRetention)
        (cfg.tombstoneRetention + cfg.tombstoneRetention)) st) := by
  induction ds generalizing s st with
  | nil =>
      obtain rfl := Option.some.inj hrun
      exact h
  | cons d ds ih =>
      obtain ⟨s₁, hd, hrest⟩ := Option.bind_eq_some_iff.mp hrun
      have h₁ := ih (h.deed hterm hp hd (hquiet s₁ hd).1) (hquiet s₁ hd).2 hrest
      cases hpass : d.pass? <;> simpa [List.filterMap_cons, hpass] using h₁

/-- The limits as the names of the settings have them: what the file has of the task after each
beginning of the run is what it should have after its passes, where the tombstone retention
counts from the time at which the payload was retired. -/
def OnTime (cfg : Config) (r : TaskRecord) (s₀ : Store) (ds : List Deed) : Prop :=
  ∀ before rest s, ds = before ++ rest → Records.performAll cfg s₀ before = some s →
    (Stage.after (r.updatedAt + cfg.terminalRetention) cfg.tombstoneRetention
      (before.filterMap Deed.pass?)).Holds r s

/-- No pass that finds the payload retired runs more than the tombstone retention after the
pass that retired it and within twice the tombstone retention. -/
def Punctual (expiry keep : Time) (ps : List Pass) : Prop :=
  ∀ p, ps.find? (fun p => expiry < p.moment) = some p → ∀ q ∈ ps, expiry < q.moment →
    p.clock + keep < q.moment → p.clock + (keep + keep) < q.moment

theorem Punctual.before {expiry keep : Time} {ps qs : List Pass}
    (h : Punctual expiry keep (ps ++ qs)) : Punctual expiry keep ps := by
  intro p hp q hq hexp hlate
  have hfind : (ps ++ qs).find? (fun p => expiry < p.moment) = some p := by
    rw [List.find?_append, hp, Option.some_or]
  exact h p hfind q (List.mem_append_left qs hq) hexp hlate

theorem Punctual.after_eq {expiry keep : Time} {ps : List Pass} (h : Punctual expiry keep ps) :
    Stage.after expiry (keep + keep) ps = Stage.after expiry keep ps := by
  unfold Stage.after
  cases hfind : ps.find? fun p => expiry < p.moment with
  | none => rfl
  | some p =>
      have hpast : expiry < p.moment := by simpa using List.find?_some hfind
      have hmem : p ∈ ps := List.mem_of_find?_eq_some hfind
      have hany : ps.any (fun q => p.clock + (keep + keep) < q.moment) =
          ps.any (fun q => p.clock + keep < q.moment) := by
        rw [Bool.eq_iff_iff, List.any_eq_true, List.any_eq_true]
        simp only [decide_eq_true_eq]
        constructor
        · rintro ⟨q, hq, hlate⟩
          refine ⟨q, hq, Nat.lt_of_le_of_lt ?_ hlate⟩
          exact Nat.add_le_add_left (Nat.le_add_left keep keep) p.clock
        · rintro ⟨q, hq, hlate⟩
          by_cases hexp : expiry < q.moment
          · exact ⟨q, hq, h p hfind q hq hexp hlate⟩
          · -- A pass before the retiring one: then the retiring one is late as well.
            have hle : q.moment ≤ p.moment :=
              Nat.le_of_lt (Nat.lt_of_le_of_lt (Nat.le_of_not_lt hexp) hpast)
            exact ⟨p, hmem, h p hfind p hmem hpast (Nat.lt_of_lt_of_le hlate hle)⟩
      simp only [hany]

/-- When the deadlines are met: the tombstone retention counts twice, once in the time at which
the tombstone expires and once in the cutoff of the purge. -/
theorem onTime_iff {ops : List (Time × Op)} {s₀ s : Store} {ds : List Deed}
    (hstart : run initialized ops = some s₀) (hrow : s₀.ledger.tasks.find? r.id = some r)
    (hterm : r.state.terminal = true) (hp : r.payloadExpired = false)
    (hres : s₀.ledger.reservations.find? r.id = none)
    (hord : (ds.filterMap Deed.pass?).Pairwise fun p q => p.moment ≤ q.moment)
    (hquiet : Untouched cfg r.id s₀ ds) (hrun : performAll cfg s₀ ds = some s) :
    OnTime cfg r s₀ ds ↔
      Punctual (r.updatedAt + cfg.terminalRetention) cfg.tombstoneRetention
        (ds.filterMap Deed.pass?) := by
  have htracks : Tracks cfg r s₀ .live :=
    ⟨lasting_initialized.run hstart, hres, hrow, fun _ _ he => (by cases he)⟩
  -- The stage that the code reaches counts the tombstone retention twice.
  have hstage : ∀ before rest s₁, ds = before ++ rest → performAll cfg s₀ before = some s₁ →
      Tracks cfg r s₁ (Stage.after (r.updatedAt + cfg.terminalRetention)
        (cfg.tombstoneRetention + cfg.tombstoneRetention) (before.filterMap Deed.pass?)) := by
    intro before rest s₁ hds hbefore
    subst hds
    rw [List.filterMap_append, List.pairwise_append] at hord
    rw [← Stage.foldl_next hord.1]
    exact htracks.performAll hterm hp hquiet.before hbefore
  constructor
  case mpr =>
    intro hpunct before rest s₁ hds hbefore
    have htrack := hstage before rest s₁ hds hbefore
    rw [hds, List.filterMap_append] at hpunct
    rw [hpunct.before.after_eq] at htrack
    exact htrack.stage
  case mp =>
    intro htime p hfind q hq hexp hlate
    by_contra hsoon
    obtain ⟨d, hd, hdq⟩ := List.mem_filterMap.mp hq
    obtain ⟨before, rest, hds⟩ := List.append_of_mem hd
    have hsplit : ds = (before ++ [d]) ++ rest := by rw [hds, List.append_assoc]; rfl
    have hpasses : (before ++ [d]).filterMap Deed.pass? = before.filterMap Deed.pass? ++ [q] := by
      rw [List.filterMap_append, List.filterMap_cons_some hdq, List.filterMap_nil]
    -- After `q` the pass `p` is still the one that retired the payload.
    have hlast : (before.filterMap Deed.pass? ++ [q]).find?
        (fun p => r.updatedAt + cfg.terminalRetention < p.moment) = some p := by
      rw [hsplit, List.filterMap_append, hpasses, List.find?_append] at hfind
      cases hfound : (before.filterMap Deed.pass? ++ [q]).find?
          (fun p => r.updatedAt + cfg.terminalRetention < p.moment) with
      | some p' => rwa [hfound] at hfind
      | none =>
          rw [List.find?_eq_none] at hfound
          exact absurd (by simpa using hexp) (hfound q (by simp))
    have hle : ∀ q' ∈ before.filterMap Deed.pass? ++ [q], q'.moment ≤ q.moment := by
      rw [hsplit, List.filterMap_append, hpasses, List.pairwise_append] at hord
      intro q' hq'
      rcases List.mem_append.mp hq' with hq' | hq'
      · exact (List.pairwise_append.mp hord.1).2.2 q' hq' q (by simp)
      · exact le_of_eq (by rw [List.mem_singleton.mp hq'])
    have hprefix := hrun
    rw [hsplit, performAll_append] at hprefix
    obtain ⟨s₁, hs₁, -⟩ := Option.bind_eq_some_iff.mp hprefix
    have hdue := htime _ rest s₁ hsplit hs₁
    have hcode := (hstage _ rest s₁ hsplit hs₁).stage
    rw [hpasses] at hdue hcode
    have hearly : (before.filterMap Deed.pass? ++ [q]).any (fun q' =>
        p.clock + (cfg.tombstoneRetention + cfg.tombstoneRetention) < q'.moment) = false := by
      rw [List.any_eq_false]
      intro q' hq'
      rw [decide_eq_true_eq]
      exact fun hl => hsoon (Nat.lt_of_lt_of_le hl (hle q' hq'))
    have hpast : (before.filterMap Deed.pass? ++ [q]).any (fun q' =>
        p.clock + cfg.tombstoneRetention < q'.moment) = true :=
      List.any_eq_true.mpr ⟨q, by simp, by simpa using hlate⟩
    simp only [Stage.after, hlast, hearly, hpast, if_true, Bool.false_eq_true, if_false] at hdue hcode
    exact absurd (hcode.1.symm.trans hdue.1) (by simp)

/-- A task that ends at time 2, and limits of 5 and 3. -/
def briefly : Config := { sample with terminalRetention := 5, tombstoneRetention := 3 }

def ended : List (Time × Op) := [(1, .submit 1 keyed), (2, .call (.finishTask 1 .failed none none))]

theorem untouched_passes {t : TaskId} {ps : List Pass} {s : Store} :
    Untouched cfg t s (ps.map Deed.pass) := by
  induction ps generalizing s with
  | nil => trivial
  | cons p ps ih => exact fun s' _ => ⟨fun h => (by cases h), ih⟩

/-- A retention pass at time 9, within whose ledger calls it is 10, and one at time 17. -/
def spaced : List Pass := [⟨9, 10⟩, ⟨17, 17⟩]

theorem onTime_spaced :
    ∃ s₀ r, run initialized ended = some s₀ ∧ s₀.ledger.tasks.find? 1 = some r ∧
      OnTime briefly r s₀ (spaced.map Deed.pass) := by
  have hall : (run initialized ended).any (fun s₀ => (s₀.ledger.tasks.find? 1).any fun r =>
      decide (r.id = 1) && decide (r.updatedAt = 2) && r.state.terminal && !r.payloadExpired &&
        (s₀.ledger.reservations.find? 1).isNone &&
          (performAll briefly s₀ (spaced.map Deed.pass)).isSome) = true := by decide +kernel
  obtain ⟨s₀, hrun, hrest⟩ := (Option.any_eq_true _ _).mp hall
  obtain ⟨r, hr, hrest⟩ := (Option.any_eq_true _ _).mp hrest
  simp only [Bool.and_eq_true, decide_eq_true_eq, Bool.not_eq_true', Option.isNone_iff_eq_none]
    at hrest
  obtain ⟨⟨⟨⟨⟨hid, hupdated⟩, hterm⟩, hp⟩, hres⟩, hdone⟩ := hrest
  obtain ⟨s, hs⟩ := Option.isSome_iff_exists.mp hdone
  have hpunct : Punctual (r.updatedAt + briefly.terminalRetention) briefly.tombstoneRetention
      ((spaced.map Deed.pass).filterMap Deed.pass?) := by
    rw [hupdated]
    intro p hp q hq
    obtain rfl := Option.some.inj hp
    revert q
    decide
  refine ⟨s₀, r, hrun, hr, (onTime_iff hrun (by rw [hid]; exact hr) hterm hp
    (by rw [hid]; exact hres) (by decide) untouched_passes hs).mpr hpunct⟩

/-- The payload is retired at time 9 and the tombstone retention is 3, but the pass at time 13
leaves the row and the tombstone. -/
def soon : List Pass := [⟨9, 9⟩, ⟨13, 13⟩]

theorem onTime_fails_soon :
    ∃ s₀ r, run initialized ended = some s₀ ∧ s₀.ledger.tasks.find? r.id = some r ∧
      r.state.terminal = true ∧ r.payloadExpired = false ∧
      s₀.ledger.reservations.find? r.id = none ∧
      (soon.Pairwise fun p q => p.moment ≤ q.moment) ∧
      Untouched briefly r.id s₀ (soon.map Deed.pass) ∧
      ¬ OnTime briefly r s₀ (soon.map Deed.pass) := by
  have hall : (run initialized ended).any (fun s₀ => (s₀.ledger.tasks.find? 1).any fun r =>
      decide (r.id = 1) && decide (r.updatedAt = 2) && r.state.terminal && !r.payloadExpired &&
        (s₀.ledger.reservations.find? 1).isNone &&
          (performAll briefly s₀ (soon.map Deed.pass)).any fun s =>
            (s.ledger.tasks.find? 1).isSome) = true := by decide +kernel
  obtain ⟨s₀, hrun, hrest⟩ := (Option.any_eq_true _ _).mp hall
  obtain ⟨r, hr, hrest⟩ := (Option.any_eq_true _ _).mp hrest
  simp only [Bool.and_eq_true, decide_eq_true_eq, Bool.not_eq_true', Option.isNone_iff_eq_none]
    at hrest
  obtain ⟨⟨⟨⟨⟨hid, hupdated⟩, hterm⟩, hp⟩, hres⟩, hdone⟩ := hrest
  obtain ⟨s, hs, hkept⟩ := (Option.any_eq_true _ _).mp hdone
  refine ⟨s₀, r, hrun, by rw [hid]; exact hr, hterm, hp, by rw [hid]; exact hres, by decide,
    untouched_passes, fun htime => ?_⟩
  have hdue := htime (soon.map Deed.pass) [] s (by simp) hs
  have hremoved : Stage.after (r.updatedAt + briefly.terminalRetention) briefly.tombstoneRetention
      ((soon.map Deed.pass).filterMap Deed.pass?) = .removed := by
    rw [hupdated]
    rfl
  rw [hremoved] at hdue
  have hnone : s.ledger.tasks.find? r.id = none := hdue.1
  rw [hid] at hnone
  rw [hnone] at hkept
  cases hkept

end GgAgent.Records
