import GgAgent.Safety.Rounds

/-!
The receipts of messages.

A receipt is written as accepted by the request that brings the message, under the
lock of the workspace, and settled by the loop of the task. `save_task_message_receipt`
replaces whatever status is stored, so that a settled receipt stays as it is depends on
who writes it: the loop settles a receipt that it has picked, and nobody else touches
it in between. What it picks is accepted, except where it resumes a start that was never
acknowledged; that branch takes the receipt in any status.
-/

namespace GgAgent.Safety

open GgAgent.Lib GgAgent.Backend
open GgAgent.Lib.Co (Makes Safe Keeps)

/-! ### Statuses -/

def receiptStatus (t : TaskId) (m : MessageId) (l : Ledger) : Option MessageDeliveryStatus :=
  (l.receipts.find? (t, m)).map fun row => row.receipt.status

/-- The statuses of a message that is settled. -/
def isFinal (st : MessageDeliveryStatus) : Bool := st = .delivered || st = .failed

/-- The receipt was retired with its task, and nothing makes a new one. -/
def receiptGone (t : TaskId) (m : MessageId) (l : Ledger) : Bool :=
  (l.receipts.find? (t, m)).isNone && !l.hasPayload t

/-- The receipt has the status, or it was retired. -/
def Settled (t : TaskId) (m : MessageId) (st : MessageDeliveryStatus) (s : Shared) : Prop :=
  receiptStatus t m s.ledger = some st ∨ t ∈ s.taskIds ∧ receiptGone t m s.ledger = true

/-- A transaction keeps a status unless it writes another one over it. -/
theorem settled_after {c : LedgerCall} {s : Shared} {t : TaskId} {m : MessageId}
    {st : MessageDeliveryStatus} (hissued : AllIssued s)
    (hc : ∀ q, c = .saveTaskMessageReceipt t q → q.id = m →
      receiptStatus t m s.ledger = some st → q.status = st)
    (h : Settled t m st s) : Settled t m st (after c s) := by
  have hstep := exec_receipt s.clock c s.ledger t m
  generalize hx : (c.exec s.clock s.ledger).2.receipts.find? (t, m) = x at hstep
  have hx' : (after c s).ledger.receipts.find? (t, m) = x := hx
  rcases h with hst | ⟨hmem, hgone⟩
  · cases hstep with
    | same => exact .inl (by rw [receiptStatus, hx']; exact hst)
    | insert q hm hp hnone => simp [receiptStatus, hnone] at hst
    | update q row hm hrow => exact .inl (by simp [receiptStatus, hx', hc q rfl hm hst])
    | retire b n r hr hterm hres hretired =>
        have hretired : (after (.expireTerminalPayloads b n) s).ledger.tasks.find? t =
          some r.retired := hretired
        refine .inr ⟨hissued.ledger t r hr, ?_⟩
        simp [receiptGone, hx', Ledger.hasPayload, hretired, TaskRecord.retired]
  · simp only [receiptGone, Bool.and_eq_true, Option.isNone_iff_eq_none, Bool.not_eq_true'] at hgone
    have hnone : x = none := by
      cases hstep with
      | same => exact hgone.1
      | insert q hm hp => rw [hgone.2] at hp; simp at hp
      | update q row hm hrow => rw [hgone.1] at hrow; simp at hrow
      | retire => rfl
    exact .inr ⟨hmem, by simp [receiptGone, hx', hnone, hasPayload_after (c := c) hgone.2]⟩

/-- A receipt that does not exist is made by nobody but the one who saves it. -/
theorem receipt_none_after {c : LedgerCall} {s : Shared} {t : TaskId} {m : MessageId}
    (hc : ∀ q, c ≠ .saveTaskMessageReceipt t q) (h : s.ledger.receipts.find? (t, m) = none) :
    (after c s).ledger.receipts.find? (t, m) = none := by
  have hstep := exec_receipt s.clock c s.ledger t m
  generalize hx : (c.exec s.clock s.ledger).2.receipts.find? (t, m) = x at hstep
  have hx' : (after c s).ledger.receipts.find? (t, m) = x := hx
  rw [hx']
  cases hstep with
  | same => exact h
  | insert q => exact absurd rfl (hc q)
  | update q => exact absurd rfl (hc q)
  | retire => rfl

/-! ### The condition -/

/-- The status of a receipt of `t` that a call has picked for delivery. -/
def pickedStatus (t : TaskId) : Entry Call.Out Shared → Option MessageDeliveryStatus
  | ⟨.db (.getTaskMessageReceipt t' _), .ok (some r), _⟩ => if t' = t then some r.status else none
  | ⟨.db (.listAcceptedTaskMessages t'), .ok (r :: _), _⟩ => if t' = t then some r.status else none
  | _ => none

/-- The status in which the thread has last picked a receipt of `t`. -/
def lastPicked (t : TaskId) (h : Hist) : Option MessageDeliveryStatus := h.findSome? (pickedStatus t)

/-- A snapshot that is restored has the receipts that are settled, and the retired tasks. -/
def finalsSurvive (e : Happening) (s : Shared) : Bool :=
  match e with
  | .restore => s.confirmed.all fun l =>
      s.ledger.receipts.rows.all (fun row => !isFinal row.receipt.status ||
        receiptStatus row.taskId row.receipt.id l = some row.receipt.status) &&
      s.taskIds.all fun t => s.ledger.hasPayload t ||
        !l.hasPayload t && l.receipts.rows.all fun row => row.taskId ≠ t
  | _ => true

/-- The branch of the loop that resumes a start does not find the receipt failed, and
where it finds it delivered, the repository is still accessible. -/
def resumesUnsettled (cfg : Config) : Cond cfg where
  call p h c _ a :=
    match p, c, a with
    | .loop _, .db (.getTaskMessageReceipt _ _), .ok (some r) => r.status ≠ .failed
    | .loop t, .ext (.repositoryCredential _ _ _), .error (.repositoryAccess _) =>
      lastPicked t h ≠ some .delivered
    | _, _, _ => true
  event := finalsSurvive

/-! ### What threads owe each other -/

/-- A message that was recorded as failed has a failed receipt. -/
structure ReceiptsKnown (s : Shared) : Prop where
  issued : AllIssued s
  refused : ∀ k ∈ s.refused, Settled k.1 k.2 .failed s

/-- What a step of `p` owes the others. -/
structure KeepsReceipts (p : Pid) (s s' : Shared) : Prop where
  final : ∀ t m st, isFinal st = true → Settled t m st s → Settled t m st s'
  refused : ∀ k, k ∈ s.refused → k ∈ s'.refused
  /-- No start of a message that was recorded as failed. -/
  starts : ∀ k, k ∈ s.refused →
    s'.starts.count (.message k.1 k.2) = s.starts.count (.message k.1 k.2)
  /-- Only the loop of a task settles its messages. -/
  status : ∀ t m st, p ≠ .loop t → Settled t m st s → Settled t m st s'
  refuses : ∀ t m, p ≠ .loop t → (t, m) ∈ s'.refused → (t, m) ∈ s.refused
  /-- Only the holder of the workspace accepts a message. -/
  none : ∀ t m, s.locks (.workspace t) ≠ some p → s.ledger.receipts.find? (t, m) = none →
    s'.ledger.receipts.find? (t, m) = none
  locks : ∀ l q, q ≠ p → s.locks l = some q → s'.locks l = some q

/-- What `q` relies on. -/
structure ReliesOnReceipts (q : Pid) (s s' : Shared) : Prop where
  status : ∀ t m st, q = .loop t → Settled t m st s → Settled t m st s'
  refuses : ∀ t m, q = .loop t → (t, m) ∈ s'.refused → (t, m) ∈ s.refused
  none : ∀ t m, s.locks (.workspace t) = some q → s.ledger.receipts.find? (t, m) = none →
    s'.ledger.receipts.find? (t, m) = none
  locks : ∀ l, s.locks l = some q → s'.locks l = some q

theorem ReliesOnReceipts.refl (q : Pid) (s : Shared) : ReliesOnReceipts q s s :=
  ⟨fun _ _ _ _ h => h, fun _ _ _ h => h, fun _ _ _ h => h, fun _ h => h⟩

theorem ReliesOnReceipts.trans {q : Pid} {a b c : Shared} (h : ReliesOnReceipts q a b)
    (h' : ReliesOnReceipts q b c) : ReliesOnReceipts q a c where
  status t m st hq hs := h'.status t m st hq (h.status t m st hq hs)
  refuses t m hq hk := h.refuses t m hq (h'.refuses t m hq hk)
  none t m hl hn := h'.none t m (h.locks _ hl) (h.none t m hl hn)
  locks l hl := h'.locks l (h.locks l hl)

theorem KeepsReceipts.relies {p q : Pid} {s s' : Shared} (hqp : q ≠ p)
    (h : KeepsReceipts p s s') : ReliesOnReceipts q s s' where
  status t m st hq := h.status t m st (by rintro rfl; exact hqp hq)
  refuses t m hq := h.refuses t m (by rintro rfl; exact hqp hq)
  none t m hl := h.none t m (by rw [hl]; simpa using hqp)
  locks l := h.locks l q hqp

theorem KeepsReceipts.refl (p : Pid) (s : Shared) : KeepsReceipts p s s :=
  ⟨fun _ _ _ _ h => h, fun _ h => h, fun _ _ => rfl, fun _ _ _ _ h => h, fun _ _ _ h => h,
    fun _ _ _ h => h, fun _ _ _ h => h⟩

/-! ### One call -/

/-- The call saves no receipt, sends no message and gives back no lock. -/
structure Impartial (c : Call) : Prop where
  save : ∀ t q, c ≠ .db (.saveTaskMessageReceipt t q)
  send : ∀ request token, c = .ext (.startExecution request token) →
    ∀ t m, request.startKey ≠ .message t m
  release : ∀ l, c ≠ .release l

theorem impartial_of_inert {c : Call} (hc : c.inert = true) : Impartial c := by
  refine ⟨?_, ?_, ?_⟩
  · rintro t q rfl
    simp [Call.inert, LedgerCall.inert] at hc
  · rintro request token rfl
    simp [Call.inert, ExtCall.inert] at hc
  · rintro l rfl
    simp [Call.inert] at hc

/-- What an impartial call leaves of the logs and the locks. -/
theorem traces_answer {p : Pid} {o : Oracle} {c : Call} {s s' : Shared} {a : c.Out}
    (hc : Impartial c) (h : s.answer p o c = some (a, s')) :
    s'.refused = s.refused ∧
      (∀ t m, s'.starts.count (.message t m) = s.starts.count (.message t m)) ∧
      ∀ l q, s.locks l = some q → s'.locks l = some q := by
  obtain ⟨hstarts, hrefused, hlocks⟩ := answer_traces h
  refine ⟨?_, fun t m => ?_, hlocks hc.release⟩
  · obtain hsame | ⟨t, q, hsave⟩ := hrefused
    · exact hsame
    · exact absurd hsave (hc.save t q)
  · obtain hsame | ⟨request, token, hsend, hcons⟩ := hstarts
    · rw [hsame]
    · rw [hcons, List.count_cons_of_ne (hc.send request token hsend t m)]

/-- A submission leaves the receipts alone. -/
theorem settled_submit {id : TaskId} {r : Submission} {s s' : Shared} (hissued : AllIssued s)
    (h : Happening.apply (.submit id r) s = some s') :
    s'.ledger.receipts = s.ledger.receipts ∧
      ∀ t m st, Settled t m st s → Settled t m st s' := by
  have hid := fresh_of_submit h
  obtain rfl := apply_submit h
  obtain ⟨-, -, -, hrec, -⟩ := submit_cases s.clock s.ledger id r.idempotencyKey r.repository
    r.prompt r.baseRef r.retryOf r.model r.ownerId
  have hrec' : (submitted id r s).ledger.receipts = s.ledger.receipts := hrec
  refine ⟨hrec', ?_⟩
  rintro t m st (hst | ⟨hmem, hgone⟩)
  · exact .inl (by rw [receiptStatus, hrec']; exact hst)
  · refine .inr ⟨List.mem_cons_of_mem _ hmem, ?_⟩
    obtain hsame | ⟨rfl, -⟩ := submitted_task r hissued.ledger hid t
    · unfold receiptGone Ledger.hasPayload
      rw [hrec', hsame]
      exact hgone
    · exact absurd hmem hid

/-- What an impartial call leaves of the receipts. -/
theorem settled_answer {p : Pid} {o : Oracle} {c : Call} {s s' : Shared} {a : c.Out}
    (hissued : AllIssued s) (hc : Impartial c) (h : s.answer p o c = some (a, s')) :
    (∀ t m st, Settled t m st s → Settled t m st s') ∧
      ∀ t m, s.ledger.receipts.find? (t, m) = none → s'.ledger.receipts.find? (t, m) = none := by
  obtain ⟨d, rfl, rfl⟩ | ⟨id, q, -, he⟩ | ⟨-, hsame⟩ := answer_cases h
  · refine ⟨fun t m st => settled_after hissued fun q hq => ?_, fun t m hnone => ?_⟩
    · exact absurd (congrArg Call.db hq) (hc.save t q)
    · exact receipt_none_after (fun q hq => hc.save t q (congrArg Call.db hq)) hnone
  · obtain ⟨hrec, hset⟩ := settled_submit hissued he
    exact ⟨hset, fun t m hnone => by rw [hrec]; exact hnone⟩
  · unfold Settled
    rw [hsame.ledger, hsame.taskIds]
    exact ⟨fun _ _ _ h => h, fun _ _ h => h⟩

theorem keepsReceipts_answer {p : Pid} {o : Oracle} {c : Call} {s s' : Shared} {a : c.Out}
    (hinv : ReceiptsKnown s) (hc : Impartial c) (h : s.answer p o c = some (a, s')) :
    ReceiptsKnown s' ∧ KeepsReceipts p s s' := by
  obtain ⟨hrefused, hstarts, hlocks⟩ := traces_answer hc h
  obtain ⟨hset, hnone⟩ := settled_answer hinv.issued hc h
  refine ⟨⟨allIssued_answer hinv.issued h, fun k hk => ?_⟩, ?_⟩
  · rw [hrefused] at hk
    exact hset _ _ _ (hinv.refused k hk)
  · refine ⟨fun t m st _ => hset t m st, fun k hk => ?_, fun k _ => hstarts k.1 k.2,
      fun t m st _ => hset t m st, fun t m _ hk => ?_, fun t m _ => hnone t m,
      fun l q _ => hlocks l q⟩
    · rw [hrefused]
      exact hk
    · rw [hrefused] at hk
      exact hk

/-! ### The writes -/

/-- What a receipt says after it was saved. -/
theorem receiptStatus_save {t : TaskId} {q : MessageReceipt} {s : Shared}
    (h : reply (.saveTaskMessageReceipt t q) s = .ok ()) :
    receiptStatus t q.id (after (.saveTaskMessageReceipt t q) s).ledger = some q.status := by
  simp only [reply, after, LedgerCall.exec, Ledger.saveTaskMessageReceipt] at h ⊢
  split at h
  next hp =>
    rw [if_pos hp]
    cases hrow : s.ledger.receipts.find? (t, q.id) with
    | none =>
        have hnone : s.ledger.receipts.find? (key (ρ := ReceiptRow) ⟨t, q⟩) = none := hrow
        simp only [receiptStatus, Ledger.commit, Table.find?_insert hnone]
        rw [if_pos (show key (ρ := ReceiptRow) ⟨t, q⟩ = (t, q.id) from rfl)]
        rfl
    | some row =>
        simp only [hrow] at h ⊢
        split at h
        next hcontent =>
          rw [if_pos hcontent]
          simp [receiptStatus, Ledger.commit, hrow]
        next => simp at h
  next => simp at h

theorem refused_save {t : TaskId} {q : MessageReceipt} {s : Shared} {k : TaskId × MessageId}
    (h : k ∈ (after (.saveTaskMessageReceipt t q) s).refused) :
    k ∈ s.refused ∨ k = (t, q.id) ∧ q.status = .failed ∧
      reply (.saveTaskMessageReceipt t q) s = .ok () := by
  have hafter : (after (.saveTaskMessageReceipt t q) s).refused =
    Shared.refusal (.saveTaskMessageReceipt t q) (reply (.saveTaskMessageReceipt t q) s) ++
      s.refused := rfl
  rw [hafter] at h
  rcases List.mem_append.mp h with hnew | hold
  · cases hr : reply (.saveTaskMessageReceipt t q) s with
    | error e => simp [hr, Shared.refusal] at hnew
    | ok u =>
        rw [hr] at hnew
        simp only [Shared.refusal] at hnew
        split at hnew
        next hfailed => exact .inr ⟨by simpa using hnew, hfailed, rfl⟩
        next => simp at hnew
  · exact .inl hold

/-- The loop settles a receipt that it has picked. -/
theorem keepsReceipts_settle {t : TaskId} {q : MessageReceipt} {st : MessageDeliveryStatus}
    {s : Shared} (hinv : ReceiptsKnown s) (hset : Settled t q.id st s)
    (hst : isFinal st = false ∨ q.status = st) :
    ReceiptsKnown (after (.saveTaskMessageReceipt t q) s) ∧
      KeepsReceipts (.loop t) s (after (.saveTaskMessageReceipt t q) s) := by
  -- Any other receipt keeps its status, and so does this one if it was settled.
  have hkeep : ∀ t' m st', ((t', m) = (t, q.id) → isFinal st' = true) → Settled t' m st' s →
      Settled t' m st' (after (.saveTaskMessageReceipt t q) s) := by
    intro t' m st' hne h
    refine settled_after hinv.issued (fun q' hq hm hstat => ?_) h
    obtain ⟨rfl, rfl⟩ : t = t' ∧ q = q' := by simpa using hq
    subst hm
    have hsame : st' = st := by
      rcases hset with hrow | ⟨-, hgone⟩
      · rw [hstat] at hrow
        exact Option.some.inj hrow
      · simp only [receiptGone, Bool.and_eq_true, Option.isNone_iff_eq_none] at hgone
        simp [receiptStatus, hgone.1] at hstat
    rcases hst with hopen | hq
    · rw [← hsame, hne rfl] at hopen
      simp at hopen
    · exact hq.trans hsame.symm
  refine ⟨⟨⟨issued_after hinv.issued.ledger, hinv.issued.published, hinv.issued.confirmed⟩, ?_⟩, ?_⟩
  · intro k hk
    rcases refused_save hk with hold | ⟨rfl, hfailed, hok⟩
    · exact hkeep k.1 k.2 .failed (fun _ => rfl) (hinv.refused k hold)
    · exact .inl (by rw [receiptStatus_save hok, hfailed])
  · refine ⟨fun t' m st' hne => hkeep t' m st' fun _ => hne, fun k hk => ?_, fun _ _ => rfl,
      fun t' m st' hp => hkeep t' m st' fun heq => ?_, fun t' m hp hk => ?_, fun t' m _ hnone => ?_,
      fun _ _ _ h => h⟩
    · exact List.mem_append_right _ hk
    · exact absurd (congrArg Pid.loop (Prod.mk.inj heq).1.symm) hp
    · rcases refused_save hk with hold | ⟨heq, -⟩
      · exact hold
      · exact absurd (congrArg Pid.loop (Prod.mk.inj heq).1.symm) hp
    · have hstep := exec_receipt s.clock (.saveTaskMessageReceipt t q) s.ledger t' m
      generalize hx : (LedgerCall.exec s.clock (.saveTaskMessageReceipt t q) s.ledger).2.receipts.find?
        (t', m) = x at hstep
      have hx' : (after (.saveTaskMessageReceipt t q) s).ledger.receipts.find? (t', m) = x := hx
      rw [hx']
      cases hstep with
      | same => exact hnone
      | insert _ hm hp =>
          subst hm
          rcases hset with hrow | ⟨-, hgone⟩
          · simp [receiptStatus, hnone] at hrow
          · simp [receiptGone, hp] at hgone
      | update _ row _ hrow => rw [hnone] at hrow; simp at hrow

/-- A request accepts a message that has no receipt, while it holds the workspace. -/
theorem keepsReceipts_accept {p : Pid} {t : TaskId} {q : MessageReceipt} {s : Shared}
    (hinv : ReceiptsKnown s) (hnone : s.ledger.receipts.find? (t, q.id) = none)
    (hq : q.status = .accepted) (hown : s.locks (.workspace t) = some p) :
    ReceiptsKnown (after (.saveTaskMessageReceipt t q) s) ∧
      KeepsReceipts p s (after (.saveTaskMessageReceipt t q) s) := by
  have hkeep : ∀ t' m st', Settled t' m st' s →
      Settled t' m st' (after (.saveTaskMessageReceipt t q) s) := by
    intro t' m st' h
    refine settled_after hinv.issued (fun q' hq hm hstat => ?_) h
    obtain ⟨rfl, rfl⟩ : t = t' ∧ q = q' := by simpa using hq
    subst hm
    simp [receiptStatus, hnone] at hstat
  have hrefused : ∀ k, k ∈ (after (.saveTaskMessageReceipt t q) s).refused → k ∈ s.refused := by
    intro k hk
    rcases refused_save hk with hold | ⟨-, hfailed, -⟩
    · exact hold
    · rw [hq] at hfailed
      simp at hfailed
  refine ⟨⟨⟨issued_after hinv.issued.ledger, hinv.issued.published, hinv.issued.confirmed⟩,
    fun k hk => hkeep _ _ _ (hinv.refused k (hrefused k hk))⟩, ?_⟩
  refine ⟨fun t' m st' _ => hkeep t' m st', fun k hk => List.mem_append_right _ hk, fun _ _ => rfl,
    fun t' m st' _ => hkeep t' m st', fun t' m _ hk => hrefused _ hk, fun t' m hl hnone' => ?_,
    fun _ _ _ h => h⟩
  refine receipt_none_after (fun q' hq' => ?_) hnone'
  obtain ⟨rfl, rfl⟩ : t = t' ∧ q = q' := by simpa using hq'
  exact hl hown

/-! ### Programs -/

abbrev receiptContract (cfg : Config) (p : Pid) :=
  Machine.contract (resumesUnsettled cfg) ReceiptsKnown ReliesOnReceipts KeepsReceipts p

/-- The thread holds the lock. -/
def Owns (p : Pid) (l : Lock) (w : Shared × Hist) : Prop := w.1.locks l = some p

section Locks

variable {cfg : Config} {p : Pid} {l : Lock} {α : Type} {r : Routine α}

theorem keeps_evenhanded (hr : Makes Impartial r) :
    Keeps (receiptContract cfg p) (fun _ => True) r := by
  refine keeps_of_makes hr (fun _ _ _ _ _ => trivial) fun c s o a s' h hc _ hinv _ ha => ?_
  obtain ⟨hinv', hguar⟩ := keepsReceipts_answer hinv hc ha
  exact ⟨hinv', hguar, trivial⟩

theorem keeps_receipts_inert (hr : Inert r) : Keeps (receiptContract cfg p) (fun _ => True) r :=
  keeps_evenhanded (hr.mono fun _ => impartial_of_inert)

theorem keeps_owning (hr : Makes Impartial r) : Keeps (receiptContract cfg p) (Owns p l) r := by
  refine keeps_of_makes hr (fun s s' h hown hrely => hrely.locks l hown)
    fun c s o a s' h hc hown hinv _ ha => ?_
  obtain ⟨hinv', hguar⟩ := keepsReceipts_answer hinv hc ha
  exact ⟨hinv', hguar, (traces_answer hc ha).2.2 l p hown⟩

/-- A lock is given back by the thread that has taken it. -/
theorem keeps_lock (hr : Keeps (receiptContract cfg p) (Owns p l) r) :
    Keeps (receiptContract cfg p) (fun _ => True) (withLock l r) := by
  rintro ⟨s, h⟩ _
  refine Safe.bind (safe_call fun s₁ o a s₂ hinv _ _ ha => ?_)
  have himp : Impartial (.acquire l) := ⟨by simp, by simp, by simp⟩
  obtain ⟨hinv', hguar⟩ := keepsReceipts_answer hinv himp ha
  refine ⟨hinv', hguar, (Co.safe_pure (E := receiptContract cfg p) a).mpr ?_⟩
  have hown : Owns p l (s₂, ⟨.acquire l, a, s₁⟩ :: h) := by
    have ha : (if s₁.locks l = none then
        some ((), { s₁ with locks := Function.update s₁.locks l (some p) }) else none) =
      some (a, s₂) := ha
    split at ha
    · obtain ⟨-, rfl⟩ := Prod.mk.inj (Option.some.inj ha)
      simp [Owns]
    · simp at ha
  refine Safe.seq (Safe.attempt_either (hr _ hown)) fun x w hown => ?_
  obtain ⟨s₃, h₃⟩ := w
  refine Safe.bind (safe_call fun s₄ o a s₅ hinv hrely _ ha => ?_)
  obtain ⟨-, rfl⟩ := Prod.mk.inj (Option.some.inj ha)
  have hown' : s₄.locks l = some p := hrely.locks l hown
  refine ⟨⟨⟨hinv.issued.ledger, hinv.issued.published, hinv.issued.confirmed⟩, hinv.refused⟩, ?_, ?_⟩
  · refine ⟨fun _ _ _ _ h => h, fun _ h => h, fun _ _ => rfl, fun _ _ _ _ h => h, fun _ _ _ h => h,
      fun _ _ _ h => h, fun l' q hq hl => ?_⟩
    have hne : l' ≠ l := by
      rintro rfl
      rw [hown'] at hl
      exact hq (Option.some.inj hl).symm
    simpa [Function.update_of_ne hne] using hl
  · cases x with
    | ok a => trivial
    | error e => trivial

end Locks

/-! ### The loop -/

/-- The loop has picked a receipt that is not failed. Its status stays as it was read
until the loop settles it. -/
structure Picked (t : TaskId) (r : MessageReceipt) (w : Shared × Hist) : Prop where
  unfailed : r.status ≠ .failed
  settled : Settled t r.id r.status w.1
  fresh : (t, r.id) ∉ w.1.refused
  last : lastPicked t w.2 = some r.status

/-- The call picks no receipt. -/
structure Unpicking (c : Call) : Prop extends Impartial c where
  resume : ∀ t m, c ≠ .db (.getTaskMessageReceipt t m)
  list : ∀ t, c ≠ .db (.listAcceptedTaskMessages t)

section Loop

variable {cfg : Config} {t : TaskId} {receipt : MessageReceipt} {α : Type} {r : Routine α}

theorem lastPicked_cons {c : Call} {a : c.Out} {s : Shared} {h : Hist} (hc : Unpicking c) :
    lastPicked t (⟨c, a, s⟩ :: h) = lastPicked t h := by
  have hnone : pickedStatus t ⟨c, a, s⟩ = none := by
    unfold pickedStatus
    split
    next t' m _ _ heq => exact absurd (congrArg Entry.call heq) (hc.resume t' m)
    next t' _ _ _ heq => exact absurd (congrArg Entry.call heq) (hc.list t')
    next => rfl
  simp [lastPicked, hnone]

theorem Picked.rely {s s' : Shared} {h : Hist} (hw : Picked t receipt (s, h))
    (hrely : ReliesOnReceipts (.loop t) s s') : Picked t receipt (s', h) :=
  ⟨hw.unfailed, hrely.status t _ _ rfl hw.settled,
    fun hk => hw.fresh (hrely.refuses t _ rfl hk), hw.last⟩

theorem Picked.answer {o : Oracle} {c : Call} {a : c.Out} {s s' : Shared} {h : Hist}
    (hw : Picked t receipt (s, h)) (hinv : ReceiptsKnown s) (hc : Unpicking c)
    (ha : s.answer (.loop t) o c = some (a, s')) : Picked t receipt (s', ⟨c, a, s⟩ :: h) := by
  obtain ⟨hrefused, -, -⟩ := traces_answer hc.toImpartial ha
  refine ⟨hw.unfailed, (settled_answer hinv.issued hc.toImpartial ha).1 t _ _ hw.settled, ?_, ?_⟩
  · rw [hrefused]
    exact hw.fresh
  · rw [lastPicked_cons hc]
    exact hw.last

theorem keeps_picked (hr : Makes Unpicking r) :
    Keeps (receiptContract cfg (.loop t)) (Picked t receipt) r := by
  refine keeps_of_makes hr (fun s s' h hw hrely => hw.rely hrely)
    fun c s o a s' h hc hw hinv _ ha => ?_
  obtain ⟨hinv', hguar⟩ := keepsReceipts_answer hinv hc.toImpartial ha
  exact ⟨hinv', hguar, hw.answer hinv hc ha⟩

/-- A step that picks nothing, and the rest of the program. -/
theorem Picked.step {β : Type} {f : α → Routine β} {w : Shared × Hist} (hw : Picked t receipt w)
    (hr : Makes Unpicking r) (hf : ∀ a w, Picked t receipt w →
      Safe (receiptContract cfg (.loop t)) (f a) (fun _ _ => True) (fun _ _ => True) w) :
    Safe (receiptContract cfg (.loop t)) (r >>= f) (fun _ _ => True) (fun _ _ => True) w :=
  Safe.seq (Safe.mono (keeps_picked hr w hw) (fun _ _ h => h) fun _ _ _ => trivial) hf

/-- A token that is refused is that of a message that is not settled. -/
theorem safe_freshGithubToken_picked {task : TaskRecord} {w : Shared × Hist}
    (hw : Picked t receipt w) :
    Safe (receiptContract cfg (.loop t)) (Manager.freshGithubToken cfg task)
      (fun _ => Picked t receipt) (fun e w => Picked t receipt w ∧
        ∀ text, e = .repositoryAccess text → isFinal receipt.status = false) w := by
  unfold Manager.freshGithubToken
  split
  next owner repository _ _ =>
    split
    · exact ⟨hw, by simp⟩
    · obtain ⟨s, h⟩ := w
      refine Safe.bind (safe_call fun s₁ o a s₂ hinv hrely hK ha => ?_)
      have hc : Unpicking (.ext (.repositoryCredential owner repository (task.baseRef.getD ""))) :=
        ⟨⟨by simp, by simp, by simp⟩, by simp, by simp⟩
      obtain ⟨hinv', hguar⟩ := keepsReceipts_answer hinv hc.toImpartial ha
      have hw₁ := hw.rely hrely
      have hw₂ := hw₁.answer hinv hc ha
      refine ⟨hinv', hguar, (Co.safe_pure (E := receiptContract cfg (.loop t)) a).mpr ?_⟩
      cases a with
      | ok x => exact hw₂
      | error e =>
          refine ⟨hw₂, ?_⟩
          rintro text rfl
          have hlast : lastPicked t h ≠ some .delivered := by simpa [resumesUnsettled] using hK
          rw [hw.last] at hlast
          simpa [isFinal, hw.unfailed] using hlast
  · exact hw

/-- A message is sent that was not recorded as failed. -/
theorem safe_send_picked {request : StartTaskExecutionRequest} {token : Option String}
    (hk : request.startKey = .message t receipt.id) {w : Shared × Hist}
    (hw : Picked t receipt w) :
    Safe (receiptContract cfg (.loop t)) (ext (.startExecution request token))
      (fun _ => Picked t receipt) (fun _ _ => True) w := by
  obtain ⟨s, h⟩ := w
  refine safe_call fun s₁ o a s₂ hinv hrely _ ha => ?_
  obtain ⟨-, rfl⟩ := Prod.mk.inj (Option.some.inj ha)
  have hw₁ := hw.rely hrely
  refine ⟨⟨⟨hinv.issued.ledger, hinv.issued.published, hinv.issued.confirmed⟩, hinv.refused⟩, ?_, ?_⟩
  · refine ⟨fun _ _ _ _ h => h, fun _ h => h, fun k hmem => ?_, fun _ _ _ _ h => h,
      fun _ _ _ h => h, fun _ _ _ h => h, fun _ _ _ h => h⟩
    refine List.count_cons_of_ne ?_
    rw [hk]
    rintro heq
    obtain ⟨hkt, hkm⟩ := StartKey.message.inj heq
    exact hw₁.fresh (by rw [hkt, hkm]; exact hmem)
  · exact ⟨hw₁.unfailed, hw₁.settled, hw₁.fresh, hw.last⟩

/-- The loop settles what it has picked. -/
theorem safe_settle {q : MessageReceipt} {w : Shared × Hist} (hw : Picked t receipt w)
    (hid : q.id = receipt.id) (hq : isFinal receipt.status = false ∨ q.status = receipt.status) :
    Safe (receiptContract cfg (.loop t)) (db (.saveTaskMessageReceipt t q)) (fun _ _ => True)
      (fun _ _ => True) w := by
  obtain ⟨s, h⟩ := w
  refine safe_db fun s₁ hinv hrely _ => ?_
  have hset : Settled t q.id receipt.status s₁ := by
    rw [hid]
    exact (hw.rely hrely).settled
  obtain ⟨hinv', hguar⟩ := keepsReceipts_settle hinv hset hq
  refine ⟨hinv', hguar, ?_⟩
  cases reply (.saveTaskMessageReceipt t q) s₁ <;> trivial

theorem unpicking_db {c : LedgerCall} (hs : ∀ t q, c ≠ .saveTaskMessageReceipt t q)
    (hr : ∀ t m, c ≠ .getTaskMessageReceipt t m) (hl : ∀ t, c ≠ .listAcceptedTaskMessages t) :
    Unpicking (.db c) :=
  ⟨⟨fun t q h => hs t q (Call.db.inj h), by simp, by simp⟩,
    fun t m h => hr t m (Call.db.inj h), fun t h => hl t (Call.db.inj h)⟩

theorem unpicking_ensureDurable : Makes Unpicking ensureDurable :=
  makes_ensureDurable (unpicking_db (by simp) (by simp) (by simp))
    fun _ => ⟨⟨by simp, by simp, by simp⟩, by simp, by simp⟩

theorem safe_deliverFollowup_picked {task : TaskRecord} {row : SupervisionRecord}
    {token : Option String} {w : Shared × Hist} (hw : Picked t receipt w) :
    Safe (receiptContract cfg (.loop t)) (Manager.deliverFollowup t task receipt row token)
      (fun _ _ => True) (fun _ _ => True) w := by
  have hnow : Makes Unpicking now := makes_now ⟨⟨by simp, by simp, by simp⟩, by simp, by simp⟩
  refine hw.step hnow fun moment w hw => ?_
  refine hw.step (Manager.makes_authorizeExecution task _ (fun _ _ =>
    unpicking_db (by simp) (by simp) (by simp)) unpicking_ensureDurable) fun _ w hw => ?_
  refine Safe.seq (safe_send_picked rfl hw) fun reply w hw => ?_
  refine hw.step (makes_ofReply reply) fun record w hw => ?_
  refine hw.step hnow fun moment w hw => ?_
  have hdelivers : isFinal receipt.status = false ∨ .delivered = receipt.status := by
    by_cases hd : receipt.status = .delivered
    · exact .inr hd.symm
    · exact .inl (by simp [isFinal, hd, hw.unfailed])
  refine Safe.seq (safe_settle hw rfl hdelivers) fun _ w _ => ?_
  refine keeps_evenhanded ?_ w trivial
  refine Makes.bind (makes_db ⟨by simp, by simp, by simp⟩) fun _ => ?_
  exact Makes.bind (makes_db ⟨by simp, by simp, by simp⟩) fun _ => trivial

theorem safe_startFollowup_picked {w : Shared × Hist} (hw : Picked t receipt w) :
    Safe (receiptContract cfg (.loop t)) (Manager.startFollowup cfg t receipt) (fun _ _ => True)
      (fun _ _ => True) w := by
  refine hw.step (makes_db (unpicking_db (by simp) (by simp) (by simp))) fun task? w hw => ?_
  refine hw.step (makes_db (unpicking_db (by simp) (by simp) (by simp))) fun row? w hw => ?_
  split
  next task row =>
    refine Safe.bind (Safe.attempt (Safe.mono (safe_freshGithubToken_picked hw) (fun token w hw => ?_)
      fun e w hw => ?_))
    · refine hw.step ?_ fun row w hw => safe_deliverFollowup_picked hw
      unfold Manager.bindFollowup
      split
      · exact makes_db (unpicking_db (by simp) (by simp) (by simp))
      · trivial
    · split
      next text heq =>
        obtain rfl := Except.error.inj heq
        refine hw.1.step (makes_now ⟨⟨by simp, by simp, by simp⟩, by simp, by simp⟩)
          fun moment w hw' => ?_
        refine Safe.seq (safe_settle hw' rfl (.inl (hw.2 text rfl))) fun _ w _ => ?_
        exact keeps_evenhanded (makes_db ⟨by simp, by simp, by simp⟩) w trivial
      next => trivial
      next heq => simp at heq
  next => trivial

theorem impartial_of_driveCall {c : Call} (hc : Manager.driveCall t c = true) : Impartial c := by
  refine ⟨?_, ?_, ?_⟩
  · rintro t q rfl
    simp [Manager.driveCall, Manager.recordCall, Manager.failCall, Manager.cleanupCall, Call.inert,
      LedgerCall.inert] at hc
  · rintro request token rfl
    simp [Manager.driveCall, Manager.recordCall, Manager.failCall, Manager.cleanupCall, Call.inert,
      ExtCall.inert] at hc
  · rintro l rfl
    simp [Manager.driveCall, Manager.recordCall, Manager.failCall, Manager.cleanupCall,
      Call.inert] at hc

/-- The first execution of a task is not that of a message. -/
theorem keeps_receipts_startExecution (task : TaskRecord) :
    Keeps (receiptContract cfg (.loop t)) (fun _ => True) (Manager.startExecution cfg t task) := by
  have hdrive : ∀ {β : Type} {r : Routine β}, Makes (fun c => Manager.driveCall t c = true) r →
      Keeps (receiptContract cfg (.loop t)) (fun _ => True) r :=
    fun hr => keeps_evenhanded (hr.mono fun _ => impartial_of_driveCall)
  refine Keeps.bind (hdrive ((Manager.makes_startDeadline t task).mono fun _ =>
    Manager.driveCall_of_recordCall t)) fun deadline => ?_
  refine Keeps.bind (keeps_receipts_inert (makes_now rfl)) fun moment => ?_
  dsimp only
  split
  · exact Keeps.bind (hdrive ((Manager.makes_failExecutionStart t _).mono fun _ =>
      Manager.driveCall_of_failCall t)) fun _ => Keeps.pure _
  · refine Keeps.bind (hdrive (makes_db (by simp [Manager.driveCall, Manager.recordCall])))
      fun _ => ?_
    refine Keeps.bind (keeps_receipts_inert (Manager.inert_authorizeExecution task _)) fun _ => ?_
    refine Keeps.bind (Keeps.attempt ?_) fun reply => ?_
    · refine Keeps.bind (keeps_receipts_inert (Manager.inert_freshGithubToken cfg task))
        fun token => ?_
      refine Keeps.bind (keeps_evenhanded (makes_ext ⟨by simp, ?_, by simp⟩)) fun reply =>
        keeps_receipts_inert (makes_ofReply reply)
      rintro request token ⟨⟩
      simp
    · split
      · exact hdrive ((Manager.makes_startRaised t _).mono fun _ => Manager.driveCall_of_raisedCall t)
      · exact hdrive ((Manager.makes_startAccepted t task _).mono fun _ =>
          Manager.driveCall_of_recordCall t)

/-- What the loop reads of a receipt that is not failed. -/
theorem picked_of_row {s : Shared} {h : Hist} {row : ReceiptRow} (hinv : ReceiptsKnown s)
    (hrow : s.ledger.receipts.find? (t, row.receipt.id) = some row)
    (hst : row.receipt.status ≠ .failed) (hlast : lastPicked t h = some row.receipt.status) :
    Picked t row.receipt (s, h) := by
  have hstatus : receiptStatus t row.receipt.id s.ledger = some row.receipt.status := by
    simp [receiptStatus, hrow]
  refine ⟨hst, .inl hstatus, fun hk => ?_, hlast⟩
  rcases hinv.refused _ hk with hfailed | ⟨-, hgone⟩
  · rw [hstatus] at hfailed
    exact hst (Option.some.inj hfailed)
  · simp [receiptGone, hrow] at hgone

theorem accepted_row {l : Ledger} {r : MessageReceipt} (h : r ∈ l.listAcceptedTaskMessages t) :
    ∃ row, l.receipts.find? (t, row.receipt.id) = some row ∧ row.receipt = r ∧
      r.status = .accepted := by
  unfold Ledger.listAcceptedTaskMessages Ledger.listTaskMessageReceipts at h
  rw [List.mem_filter, List.mem_insertionSort, List.mem_map] at h
  obtain ⟨⟨row, hrow, rfl⟩, hacc⟩ := h
  rw [List.mem_filter] at hrow
  have ht : row.taskId = t := of_decide_eq_true hrow.2
  refine ⟨row, ?_, rfl, of_decide_eq_true hacc⟩
  rw [← ht]
  exact Table.find?_of_mem hrow.1

theorem delivers_receipts : Delivers (receiptContract cfg (.loop t)) cfg t (fun _ => True)
    (fun _ => True) (Picked t) where
  work hr := keeps_evenhanded (hr.mono fun _ => impartial_of_driveCall)
  lock hr := keeps_lock (keeps_owning (hr.mono fun _ => impartial_of_driveCall))
  exit := keeps_evenhanded ⟨⟨by simp, by simp, by simp⟩, fun _ => trivial⟩
  supervision w _ := Safe.mono (keeps_evenhanded (makes_db ⟨by simp, by simp, by simp⟩) w trivial)
    (fun _ _ _ => ⟨trivial, fun _ => trivial⟩) fun _ _ _ => trivial
  start task w _ := keeps_receipts_startExecution task w trivial
  resume := by
    rintro m ⟨s, h⟩ _
    refine safe_db fun s₁ hinv _ hK => ⟨hinv, .refl _ _, trivial, fun r hr => ?_⟩
    have hreply : reply (.getTaskMessageReceipt t m) s₁ = .ok (some r) := congrArg Except.ok hr
    rw [hreply] at hK
    have hunfailed : r.status ≠ .failed := by simpa [resumesUnsettled] using hK
    obtain ⟨row, hrow, rfl⟩ := Option.map_eq_some_iff.mp hr
    obtain rfl : row.receipt.id = m := (Prod.mk.inj (Table.key_of_find? hrow)).2
    refine picked_of_row hinv hrow hunfailed ?_
    have hr : s₁.ledger.getTaskMessageReceipt t row.receipt.id = some row.receipt := hr
    simp [lastPicked, pickedStatus, hr]
  pick := by
    rintro ⟨s, h⟩ _
    refine safe_db fun s₁ hinv _ _ => ⟨hinv, .refl _ _, trivial, fun r hr => ?_⟩
    obtain ⟨rest, hrest⟩ := List.head?_eq_some_iff.mp hr
    have hrest : s₁.ledger.listAcceptedTaskMessages t = r :: rest := hrest
    obtain ⟨row, hrow, rfl, hacc⟩ := accepted_row (by rw [hrest]; exact List.mem_cons_self)
    refine picked_of_row hinv hrow (by simp [hacc]) ?_
    simp [lastPicked, pickedStatus, hrest]
  followup _ _ hw := safe_startFollowup_picked hw

end Loop

/-! ### Requests -/

section Requests

variable {cfg : Config} {p : Pid} {t : TaskId}

/-- The thread holds the workspace, and the message has no receipt. -/
def Unreceived (p : Pid) (t : TaskId) (m : MessageId) (w : Shared × Hist) : Prop :=
  Owns p (.workspace t) w ∧ w.1.ledger.receipts.find? (t, m) = none

theorem safe_acceptMessage {m : MessageId} {content : String} {w : Shared × Hist}
    (hw : Unreceived p t m w) :
    Safe (receiptContract cfg p) (Manager.acceptMessage t m content) (fun _ => Owns p (.workspace t))
      (fun _ => Owns p (.workspace t)) w := by
  have hnow : Keeps (receiptContract cfg p) (Unreceived p t m) now := by
    refine keeps_of_makes (S := Impartial) (makes_now ⟨by simp, by simp, by simp⟩) ?_ ?_
    · exact fun s s' h hw hrely => ⟨hrely.locks _ hw.1, hrely.none t m hw.1 hw.2⟩
    · intro c s o a s' h hc hw hinv _ ha
      obtain ⟨hinv', hguar⟩ := keepsReceipts_answer hinv hc ha
      exact ⟨hinv', hguar, (traces_answer hc ha).2.2 _ _ hw.1,
        (settled_answer hinv.issued hc ha).2 t m hw.2⟩
  refine Safe.seq (Safe.mono (hnow w hw) (fun _ _ h => h) fun _ _ h => h.1) fun created w hw => ?_
  refine Safe.seq (Q := fun _ => Owns p (.workspace t)) ?_ fun _ w hw => ?_
  · obtain ⟨s, h⟩ := w
    refine safe_db fun s₁ hinv hrely _ => ?_
    have hown : s₁.locks (.workspace t) = some p := hrely.locks _ hw.1
    obtain ⟨hinv', hguar⟩ := keepsReceipts_accept (q := ⟨m, content, .accepted, none, created, created⟩)
      hinv (hrely.none t m hw.1 hw.2) rfl hown
    refine ⟨hinv', hguar, ?_⟩
    cases reply (.saveTaskMessageReceipt t ⟨m, content, .accepted, none, created, created⟩) s₁ <;>
      exact hown
  · refine keeps_owning ?_ w hw
    refine Makes.bind (makes_db ⟨by simp, by simp, by simp⟩) fun _ => ?_
    refine Makes.bind ?_ fun _ => ?_
    · refine Makes.bind (makes_db ⟨by simp, by simp, by simp⟩) fun task? => ?_
      split
      · trivial
      · split
        · exact makes_db ⟨by simp, by simp, by simp⟩
        · trivial
    · refine Makes.bind (Lifecycle.inert_ensureDurable.mono fun _ => impartial_of_inert) fun _ => ?_
      exact Makes.bind (makes_ensureLoop ⟨by simp, by simp, by simp⟩) fun _ => trivial

theorem keeps_sendMessage (m : MessageId) (content : String) :
    Keeps (receiptContract cfg p) (fun _ => True) (Manager.sendMessage cfg t m content) := by
  refine Keeps.bind (keeps_evenhanded (makes_db ⟨by simp, by simp, by simp⟩)) fun task? => ?_
  split
  · exact Keeps.throw _
  next task =>
    refine Keeps.bind (keeps_receipts_inert (Manager.inert_authorizeMessage cfg task)) fun _ => ?_
    refine keeps_lock (Keeps.bind (keeps_owning (makes_db ⟨by simp, by simp, by simp⟩))
      fun task? => ?_)
    split
    · exact Keeps.throw _
    next task =>
      split
      · exact Keeps.throw _
      · refine Keeps.bind (keeps_owning ((Manager.inert_expireSleepingLocked task).mono fun _ =>
          impartial_of_inert)) fun _ w hw => ?_
        refine Safe.seq (Q := fun r? w => Owns p (.workspace t) w ∧
          (r? = none → w.1.ledger.receipts.find? (t, m) = none)) ?_ fun r? w hw => ?_
        · obtain ⟨s, h⟩ := w
          refine safe_db fun s₁ hinv hrely _ => ⟨hinv, .refl _ _, hrely.locks _ hw, fun hnone => ?_⟩
          exact Option.map_eq_none_iff.mp hnone
        · split
          · split
            · exact hw.1
            · exact Safe.seq (keeps_owning (Lifecycle.inert_ensureDurable.mono fun _ =>
                impartial_of_inert) w hw.1) fun _ _ hw => hw
          · exact safe_acceptMessage ⟨hw.1, hw.2 rfl⟩

theorem impartial_of_cancelCall {c : Call} (hc : Service.cancelCall t c = true) : Impartial c := by
  refine ⟨?_, ?_, ?_⟩
  · rintro t q rfl
    simp [Service.cancelCall] at hc
  · rintro request token rfl
    simp [Service.cancelCall] at hc
  · rintro l rfl
    simp [Service.cancelCall] at hc

theorem impartial_of_submitCall {c : Call} (hc : Service.submitCall c = true) : Impartial c := by
  refine ⟨?_, ?_, ?_⟩
  · rintro t q rfl
    simp [Service.submitCall, Call.inert, LedgerCall.inert] at hc
  · rintro request token rfl
    simp [Service.submitCall, Call.inert, ExtCall.inert] at hc
  · rintro l rfl
    simp [Service.submitCall, Call.inert] at hc

theorem keeps_receipts_handle (r : Route) :
    Keeps (receiptContract cfg p) (fun _ => True) (Routes.handle cfg r) := by
  cases r with
  | submitTask body owner =>
      exact Keeps.bind (keeps_evenhanded ((Service.makes_submit cfg body owner).mono fun _ =>
        impartial_of_submitCall)) fun x => Keeps.bind
          (keeps_receipts_inert Lifecycle.inert_ensureDurable) fun _ => Keeps.pure _
  | retryTask t body owner =>
      exact Keeps.bind (keeps_evenhanded ((Service.makes_retry cfg t body owner).mono fun _ =>
        impartial_of_submitCall)) fun x => Keeps.bind
          (keeps_receipts_inert Lifecycle.inert_ensureDurable) fun _ => Keeps.pure _
  | sendTaskMessage t m content owner =>
      refine Keeps.bind (keeps_evenhanded (makes_db ⟨by simp, by simp, by simp⟩)) fun task? => ?_
      split
      · exact Keeps.throw _
      · exact Keeps.bind (keeps_sendMessage m content) fun _ => Keeps.pure _
  | cancelTask t owner =>
      exact Keeps.bind (keeps_evenhanded ((Service.makes_cancel t owner).mono fun _ =>
        impartial_of_cancelCall)) fun x => Keeps.bind
          (keeps_receipts_inert Lifecycle.inert_ensureDurable) fun _ => Keeps.pure _

end Requests

/-! ### The scheduler -/

section Scheduler

variable {cfg : Config} {p : Pid}

theorem impartial_of_schedulerCall {c : Call} (hlock : ∀ l, c ≠ .release l)
    (hc : Scheduler.schedulerCall c = true) : Impartial c := by
  refine ⟨?_, ?_, hlock⟩
  · rintro t q rfl
    simp [Scheduler.schedulerCall, Scheduler.recoveryCall, Scheduler.admissionCall,
      Scheduler.createCall, Scheduler.upkeepCall, Scheduler.tendCall, Call.inert,
      LedgerCall.inert] at hc
  · rintro request token rfl
    simp [Scheduler.schedulerCall, Scheduler.recoveryCall, Scheduler.admissionCall,
      Scheduler.createCall, Scheduler.upkeepCall, Scheduler.tendCall, Call.inert,
      ExtCall.inert] at hc

theorem impartial_of_recoveryCall {c : Call} (hc : Scheduler.recoveryCall c = true) :
    Impartial c := by
  refine impartial_of_schedulerCall ?_ (Scheduler.schedulerCall_of_recoveryCall hc)
  rintro l rfl
  simp [Scheduler.recoveryCall, Call.inert] at hc

theorem impartial_of_admissionCall {c : Call} (hc : Scheduler.admissionCall c = true) :
    Impartial c := by
  refine impartial_of_schedulerCall ?_ (Scheduler.schedulerCall_of_admissionCall hc)
  rintro l rfl
  simp [Scheduler.admissionCall, Scheduler.createCall, Scheduler.tendCall, Call.inert] at hc

theorem admits_receipts : Admits (receiptContract cfg p) cfg (fun _ => True) (fun _ _ => True) where
  upkeep hr := keeps_evenhanded (hr.mono fun _ hc =>
    impartial_of_admissionCall (Scheduler.admissionCall_of_tendCall hc))
  maintain := keeps_maintenance
    (fun hr => keeps_evenhanded (hr.mono fun _ hc =>
      impartial_of_admissionCall (Scheduler.admissionCall_of_tendCall hc)))
    fun hr => keeps_lock (keeps_owning (hr.mono fun _ hc =>
      impartial_of_admissionCall (Scheduler.admissionCall_of_tendCall hc)))
  list w hw := Safe.mono (keeps_evenhanded (makes_db ⟨by simp, by simp, by simp⟩) w hw)
    (fun _ _ _ => ⟨trivial, fun _ _ _ => trivial⟩) fun _ _ h => h
  reserve n w hw := Safe.mono (keeps_evenhanded (makes_db ⟨by simp, by simp, by simp⟩) w hw)
    (fun _ _ _ => ⟨trivial, fun _ _ => trivial⟩) fun _ _ h => h
  stop ts w hw _ := Safe.mono (keeps_receipts_inert (makes_stopIsSet rfl) w hw)
    (fun _ _ _ => ⟨trivial, fun _ _ => trivial⟩) fun _ _ h => h
  provision t ts w hw _ _ := Safe.mono (keeps_evenhanded ((Scheduler.makes_provision cfg t).mono
    fun _ => impartial_of_admissionCall) w hw) (fun _ _ _ => ⟨trivial, fun _ _ => trivial⟩)
    fun _ _ h => h

theorem keeps_receipts_reconcile :
    Keeps (receiptContract cfg p) (fun _ => True) Scheduler.reconcile :=
  keeps_evenhanded (Scheduler.makes_reconcile.mono fun _ => impartial_of_recoveryCall)

end Scheduler

/-! ### Runs -/

/-- A restored snapshot has the settled receipts. -/
theorem settled_restored {s : Shared} {l : Ledger} (hl : s.confirmed = some l)
    (hK : finalsSurvive .restore s = true) {t : TaskId} {m : MessageId}
    {st : MessageDeliveryStatus} (hst : isFinal st = true) (hs : Settled t m st s) :
    receiptStatus t m l = some st ∨ t ∈ s.taskIds ∧ receiptGone t m l = true := by
  simp only [finalsSurvive, hl, Option.all_some, Bool.and_eq_true, List.all_eq_true] at hK
  rcases hs with hrow | ⟨hmem, hgone⟩
  · obtain ⟨row, hfind, rfl⟩ := Option.map_eq_some_iff.mp hrow
    obtain ⟨rfl, rfl⟩ : row.taskId = t ∧ row.receipt.id = m :=
      Prod.mk.inj (Table.key_of_find? hfind)
    have hkept := hK.1 row (Table.mem_of_find? hfind)
    rw [hst] at hkept
    exact .inl (by simpa using hkept)
  · simp only [receiptGone, Bool.and_eq_true, Bool.not_eq_true'] at hgone
    have hkept := hK.2 t hmem
    rw [hgone.2, Bool.false_or, Bool.and_eq_true, List.all_eq_true] at hkept
    have hnone : l.receipts.find? (t, m) = none := by
      rw [Table.find?_eq_none]
      intro row hrow hkey
      have hne := hkept.2 row hrow
      simp only [decide_eq_true_eq] at hne
      exact hne (Prod.mk.inj hkey).1
    refine .inr ⟨hmem, ?_⟩
    simp only [receiptGone, hnone, Option.isNone_none, Bool.true_and]
    exact hkept.1

/-- What happens outside the threads keeps the settled receipts, and unless it kills
the threads, the open ones. -/
theorem settled_event {e : Happening} {s s' : Shared} (hissued : AllIssued s)
    (hK : finalsSurvive e s = true) (h : e.apply s = some s') {t : TaskId} {m : MessageId}
    {st : MessageDeliveryStatus} (hst : isFinal st = true ∨ e.kills = false)
    (hs : Settled t m st s) : Settled t m st s' := by
  obtain ⟨id, r, rfl, -⟩ | ⟨u, sha, rfl, rfl⟩ | ⟨l, rfl, hl, hledger, hids⟩ | ⟨hledger, hids⟩ :=
    event_cases h
  · exact (settled_submit hissued h).2 t m st hs
  · exact settled_after hissued (by simp) hs
  · have hfinal : isFinal st = true := hst.resolve_right (by simp [Happening.kills])
    unfold Settled
    rw [hledger, hids]
    exact settled_restored hl hK hfinal hs
  · unfold Settled
    rw [hledger, hids]
    exact hs

theorem receipts_none_event {e : Happening} {s s' : Shared} (hissued : AllIssued s)
    (h : e.apply s = some s') (hkill : e.kills = false) {t : TaskId} {m : MessageId}
    (hs : s.ledger.receipts.find? (t, m) = none) : s'.ledger.receipts.find? (t, m) = none := by
  obtain ⟨id, r, rfl, -⟩ | ⟨u, sha, rfl, rfl⟩ | ⟨l, rfl, -⟩ | ⟨hledger, -⟩ := event_cases h
  · rw [(settled_submit hissued h).1]
    exact hs
  · exact receipt_none_after (by simp) hs
  · simp [Happening.kills] at hkill
  · rw [hledger]
    exact hs

theorem receiptsKnown_event {cfg : Config} {e : Happening} {s s' : Shared} (hinv : ReceiptsKnown s)
    (hK : (resumesUnsettled cfg).event e s = true) (h : e.apply s = some s') :
    ReceiptsKnown s' where
  issued := allIssued_event hinv.issued h
  refused k hk := by
    rw [(event_traces h).2.1] at hk
    exact settled_event hinv.issued hK h (.inl rfl) (hinv.refused k hk)

theorem reliesOnReceipts_event {cfg : Config} {e : Happening} {s s' : Shared}
    (hinv : ReceiptsKnown s) (hK : (resumesUnsettled cfg).event e s = true)
    (h : e.apply s = some s') (hkill : e.kills = false) (q : Pid) : ReliesOnReceipts q s s' where
  status t m st _ hs := settled_event hinv.issued hK h (.inr hkill) hs
  refuses t m _ hk := by rwa [(event_traces h).2.1] at hk
  none t m _ hs := receipts_none_event hinv.issued h hkill hs
  locks l hl := by rwa [(event_traces h).2.2 hkill]

theorem sound_resumesUnsettled (cfg : Config) :
    Machine.Sound (resumesUnsettled cfg) ReceiptsKnown ReliesOnReceipts KeepsReceipts
      (fun _ _ _ => True) where
  rely_trans _ _ _ _ := ReliesOnReceipts.trans
  guar_rely _ _ _ _ hqp h := h.relies hqp
  job p j s prog s' hinv hj := by
    obtain ⟨hstarted, ph, rfl⟩ := start_cases hj
    refine ⟨⟨⟨hinv.issued.ledger, hinv.issued.published, hinv.issued.confirmed⟩, hinv.refused⟩,
      ⟨fun _ _ _ _ h => h, fun _ h => h, fun _ _ => rfl, fun _ _ _ _ h => h, fun _ _ _ h => h,
        fun _ _ _ h => h, fun _ _ _ h => h⟩, ?_⟩
    cases hstarted with
    | boot =>
        exact safe_ending (admits_receipts.lifespan keeps_receipts_reconcile
          (keeps_evenhanded ⟨⟨by simp, by simp, by simp⟩, fun _ => trivial⟩) _ trivial)
    | cycle => exact safe_ending (admits_receipts.dispatchOnce keeps_receipts_reconcile _ trivial)
    | shutdown =>
        exact safe_ending (keeps_evenhanded (Scheduler.makes_stop.mono fun _ =>
          impartial_of_recoveryCall) _ trivial)
    | iterate t => exact safe_ending (delivers_receipts.activation _ trivial)
    | message n t m content => exact safe_ending (keeps_sendMessage m content _ trivial)
    | cancel n t owner =>
        exact safe_ending (keeps_evenhanded ((Service.makes_cancel t owner).mono fun _ =>
          impartial_of_cancelCall) _ trivial)
    | route n q => exact safe_ending (keeps_receipts_handle q _ trivial)
  event e s s' hinv hK he :=
    ⟨receiptsKnown_event hinv hK he, fun hkill q => reliesOnReceipts_event hinv hK he hkill q⟩

/-- What holds between any two states of a run. -/
structure FinalsKept (s s' : Shared) : Prop where
  final : ∀ t m st, isFinal st = true → Settled t m st s → Settled t m st s'
  refused : ∀ k, k ∈ s.refused → k ∈ s'.refused
  starts : ∀ k, k ∈ s.refused →
    s'.starts.count (.message k.1 k.2) = s.starts.count (.message k.1 k.2)

theorem FinalsKept.trans (a b c : Shared) (h : FinalsKept a b) (h' : FinalsKept b c) :
    FinalsKept a c where
  final t m st hst hs := h'.final t m st hst (h.final t m st hst hs)
  refused k hk := h'.refused k (h.refused k hk)
  starts k hk := (h'.starts k (h.refused k hk)).trans (h.starts k hk)

/-- A settled receipt keeps its status until it is retired, and no start request is sent
for a message that was recorded as failed. -/
theorem settled_receipts_are_final {cfg : Config} {acts acts' : List (Act cfg)} {w w' : System}
    (hw : (backend cfg).run System.init acts = some w)
    (hw' : (backend cfg).run w acts' = some w')
    (hK : Machine.keeps (resumesUnsettled cfg) System.init (acts ++ acts') = true) (t : TaskId)
    (m : MessageId) :
    (∀ st, isFinal st = true → receiptStatus t m w.shared.ledger = some st →
      receiptStatus t m w'.shared.ledger = some st ∨ receiptGone t m w'.shared.ledger = true) ∧
    ((t, m) ∈ w.shared.refused →
      w'.shared.starts.count (.message t m) = w.shared.starts.count (.message t m)) := by
  rw [Machine.keeps_append hw, Bool.and_eq_true] at hK
  have hsound := sound_resumesUnsettled cfg
  have hinit : ReceiptsKnown Shared.init := ⟨allIssued_init, by simp [Shared.init]⟩
  have hok := hsound.run ReliesOnReceipts.refl (ok_init hinit) hK.1 hw
  have hkept : FinalsKept w.shared w'.shared := by
    refine hsound.run_rel ReliesOnReceipts.refl
      (fun _ => ⟨fun _ _ _ _ h => h, fun _ h => h, fun _ _ => rfl⟩) FinalsKept.trans ?_ hok hK.2 hw'
    intro s s' heff
    cases heff with
    | thread p h => exact ⟨h.final, h.refused, h.starts⟩
    | event e hinv hKe he =>
        obtain ⟨hstarts, hrefused, -⟩ := event_traces he
        exact ⟨fun t m st hst => settled_event hinv.issued hKe he (.inl hst),
          fun k hk => by rwa [hrefused], fun k _ => by rw [hstarts]⟩
  refine ⟨fun st hst hrow => ?_, fun hk => hkept.starts (t, m) hk⟩
  rcases hkept.final t m st hst (.inl hrow) with hsame | ⟨-, hgone⟩
  · exact .inl hsame
  · exact .inr hgone

/-- A backend whose tasks have an owner and a repository. -/
def owned : Config := { demo with hasVault := true, hasAuthorization := true }

def ownedRequest : Submission :=
  ⟨"key", some "owner/repo", "prompt", some "main", none, "model", some 1⟩

def ownedCalls (p : Pid) (n : Nat) (o : Oracle) : List (Act owned) := List.replicate n (.call p o)

def ownedSnapshot : List (Act owned) := [.event .publish, .event .confirm]

/-- A cycle of the scheduler that finds the sandbox of task 1 running. -/
def ownedCycle : List (Act owned) :=
  [.start .scheduler .cycle] ++ ownedCalls .scheduler 1 fine ++ ownedSnapshot ++
    ownedCalls .scheduler 12 fine ++ ownedSnapshot ++ ownedCalls .scheduler 8 fine

/-- Task 1 runs, and message 7 is accepted for it. -/
def messaged : List (Act owned) :=
  ownedSnapshot ++ [.start .scheduler .boot] ++ ownedCalls .scheduler 5 fine ++ ownedSnapshot ++
    ownedCalls .scheduler 3 fine ++
  [.event (.submit 1 ownedRequest), .start .scheduler .cycle] ++ ownedCalls .scheduler 1 fine ++
    ownedSnapshot ++ ownedCalls .scheduler 4 fine ++ ownedSnapshot ++
    ownedCalls .scheduler 12 fine ++ ownedSnapshot ++ ownedCalls .scheduler 11 fine ++
    ownedSnapshot ++ ownedCalls .scheduler 4 fine ++ ownedSnapshot ++ ownedCalls .scheduler 6 fine ++
  ownedCycle ++
  [.start (.loop 1) .iterate] ++ ownedCalls (.loop 1) 14 fine ++ ownedSnapshot ++
    ownedCalls (.loop 1) 7 fine ++
  [.start (.request 1) (.message 1 7 "more")] ++ ownedCalls (.request 1) 10 fine ++
    ownedSnapshot ++ ownedCalls (.request 1) 3 fine

/-- The sandbox does not know the execution, and the outside answers as `reply`. -/
def restarted (reply : (c : ExtCall) → c.Out) : Oracle :=
  { fine with ext := fun c =>
      match c with
      | .getExecution _ _ => .error (.httpStatus 404 none "not found")
      | c => reply c }

/-- The repository is not accessible. -/
def denied : (c : ExtCall) → c.Out
  | .repositoryCredential _ _ _ => .error (.repositoryAccess "denied")
  | c => working c

/-- The start request fails. -/
def startFails : (c : ExtCall) → c.Out
  | .startExecution _ _ => .error (.httpStatus 500 none "error")
  | c => working c

/-- What a run leaves of message 7 of task 1: its status, whether it was refused, and
how often it was sent. -/
def messageTrace (o : Option System) : Option (Option MessageDeliveryStatus × Bool × Nat) :=
  o.map fun w => (receiptStatus 1 7 w.shared.ledger, (1, 7) ∈ w.shared.refused,
    w.shared.starts.count (.message 1 7))

/-- The message is refused, and the loop goes on without it. -/
def refusing : List (Act owned) :=
  messaged ++ .start (.loop 1) .iterate :: ownedCalls (.loop 1) 22 (restarted denied)

/-- A later cycle starts the loop again. -/
def afterRefusal : List (Act owned) :=
  ownedCycle ++ .start (.loop 1) .iterate :: ownedCalls (.loop 1) 11 (restarted working)

theorem settled_receipts_are_final_refused :
    ∃ w w', (backend owned).run System.init refusing = some w ∧
      (backend owned).run w afterRefusal = some w' ∧
      Machine.keeps (resumesUnsettled owned) System.init (refusing ++ afterRefusal) = true ∧
      receiptStatus 1 7 w.shared.ledger = some .failed ∧ (1, 7) ∈ w.shared.refused ∧
      (receiptStatus 1 7 w'.shared.ledger = some .failed ∨
        receiptGone 1 7 w'.shared.ledger = true) ∧
      w'.shared.starts.count (.message 1 7) = w.shared.starts.count (.message 1 7) := by
  have h : messageTrace ((backend owned).run System.init refusing) =
      some (some .failed, true, 0) := by decide +kernel
  have h' : messageTrace ((backend owned).run System.init (refusing ++ afterRefusal)) =
      some (some .failed, true, 0) := by decide +kernel
  have hK : Machine.keeps (resumesUnsettled owned) System.init (refusing ++ afterRefusal) =
      true := by decide +kernel
  obtain ⟨w, hw, hm⟩ := Option.map_eq_some_iff.mp h
  obtain ⟨w', hw', -⟩ := Option.map_eq_some_iff.mp h'
  simp only [Prod.mk.injEq, decide_eq_true_eq] at hm
  have hrest := run_of_append hw hw'
  obtain ⟨hfinal, hstarts⟩ := settled_receipts_are_final hw hrest hK 1 7
  exact ⟨w, w', hw, hrest, hK, hm.1, hm.2.1, hfinal .failed rfl hm.1, hstarts hm.2.1⟩

/-- The start of the message fails, and then its token: the receipt is failed while the
supervision row is bound to the message. -/
def bound : List (Act owned) :=
  messaged ++ [.start (.loop 1) .iterate] ++ ownedCalls (.loop 1) 18 (restarted startFails) ++
    ownedSnapshot ++ ownedCalls (.loop 1) 4 (restarted startFails) ++ ownedCycle ++
    .start (.loop 1) .iterate :: ownedCalls (.loop 1) 19 { fine with ext := denied }

/-- The next round of the loop sends it. -/
def resending : List (Act owned) :=
  [.start (.loop 1) .iterate] ++ ownedCalls (.loop 1) 16 fine ++ ownedSnapshot ++
    ownedCalls (.loop 1) 9 fine

/-- A failed receipt becomes delivered. -/
theorem failed_receipt_is_delivered :
    ¬ ∀ (acts acts' : List (Act owned)) (w w' : System) (t : TaskId) (m : MessageId),
      (backend owned).run System.init acts = some w → (backend owned).run w acts' = some w' →
      (∀ st, isFinal st = true → receiptStatus t m w.shared.ledger = some st →
        receiptStatus t m w'.shared.ledger = some st ∨ receiptGone t m w'.shared.ledger = true) ∧
      ((t, m) ∈ w.shared.refused →
        w'.shared.starts.count (.message t m) = w.shared.starts.count (.message t m)) := by
  intro hclaim
  have h : messageTrace ((backend owned).run System.init bound) = some (some .failed, true, 1) := by
    decide +kernel
  have h' : messageTrace ((backend owned).run System.init (bound ++ resending)) =
      some (some .delivered, true, 2) := by decide +kernel
  obtain ⟨w, hw, hm⟩ := Option.map_eq_some_iff.mp h
  obtain ⟨w', hw', hm'⟩ := Option.map_eq_some_iff.mp h'
  simp only [Prod.mk.injEq, decide_eq_true_eq] at hm hm'
  have hcount := (hclaim _ _ w w' 1 7 hw (run_of_append hw hw')).2 hm.2.1
  rw [hm.2.2, hm'.2.2] at hcount
  simp at hcount

end GgAgent.Safety
