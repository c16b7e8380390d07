import GgAgent.Records.Store

/-!
The copied events of a task and the numbers they are known by.

A copy takes the next cursor of its task. The cursor is kept in four tables that
do not live equally long: the counter and the identities are never deleted, the
copies go with the payload of the task, and the watermark of a source only says
how far a page has reached. Any operation may come between two copies, also a
deletion of copies that the ledger itself never makes.
-/

namespace GgAgent.Records

open GgAgent.Lib GgAgent.Backend

/-! ### All operations -/

/-- The operations of the control plane, those of the publication service and of
single copies, and a deletion of copies by hand. -/
inductive LedgerOp
  | store (op : Op)
  | beginPublication (t : TaskId) (repository taskBranch baseRef : String) (taskMarker : TaskId)
      (commitSha : Option String) (checkOutcome : CheckOutcome) (agentOutcome : AgentOutcome)
      (state : PublicationState) (detail : Option String)
  | updatePublication (t : TaskId) (patch : Ledger.PublicationPatch)
  | beginSupervision (t : TaskId) (executionId : ExecutionId) (taskBranch : String)
      (startKey : StartKey) (conversationId : Option ConversationId)
  | copyTaskEvent (t : TaskId) (source : ConversationId) (seq : Nat) (payload : String)
  /-- `DELETE FROM task_event_copies`, of the rows that meet a condition. -/
  | deleteCopies (p : EventCopy → Bool)

section

variable (jsonValid : String → Bool)

/-- The ledger after an operation that is not one of the control plane. -/
def LedgerOp.exec (now : Time) : LedgerOp → Ledger → Ledger
  | .store _, l => l
  | .beginPublication t r b f m s c a st d, l =>
    (Ledger.beginPublication now t r b f m s c a st d l).2
  | .updatePublication t p, l => (Ledger.updatePublication now t p l).2
  | .beginSupervision t e b k v, l => (Ledger.beginSupervision now t e b k v l).2
  | .copyTaskEvent t src n p, l => (Ledger.copyTaskEvent now jsonValid t src n p l).2
  | .deleteCopies p, l => { l with eventCopies := l.eventCopies.filter fun c => !p c }.commit

/-- The store after an operation at clock reading `now`. -/
def LedgerOp.apply (now : Time) : LedgerOp → Store → Option Store
  | .store op, s => op.apply now s
  | op, s => some { s with ledger := op.exec jsonValid now s.ledger }

def runAll : Store → List (Time × LedgerOp) → Option Store
  | s, [] => some s
  | s, (now, op) :: ops => (op.apply jsonValid now s).bind fun s' => runAll s' ops

variable {jsonValid}

theorem runAll_of_append {s s'' : Store} {ops ops' : List (Time × LedgerOp)}
    (h : runAll jsonValid s (ops ++ ops') = some s'') :
    ∃ s', runAll jsonValid s ops = some s' ∧ runAll jsonValid s' ops' = some s'' := by
  induction ops generalizing s with
  | nil => exact ⟨s, rfl, h⟩
  | cons a ops ih =>
      obtain ⟨now, op⟩ := a
      obtain ⟨s₁, hop, hrest⟩ := Option.bind_eq_some_iff.mp h
      obtain ⟨s', hs', hlast⟩ := ih hrest
      exact ⟨s', Option.bind_eq_some_iff.mpr ⟨s₁, hop, hs'⟩, hlast⟩

/-- What one operation keeps, every sequence keeps. -/
theorem runAll_keeps {I : Store → Prop}
    (hstep : ∀ now op s s', I s → LedgerOp.apply jsonValid now op s = some s' → I s')
    {ops : List (Time × LedgerOp)} {s s' : Store} (hs : I s)
    (h : runAll jsonValid s ops = some s') : I s' := by
  induction ops generalizing s with
  | nil =>
      obtain rfl : s = s' := by simpa [runAll] using h
      exact hs
  | cons a ops ih =>
      obtain ⟨now, op⟩ := a
      obtain ⟨s₁, hop, hrest⟩ := Option.bind_eq_some_iff.mp h
      exact ih (hstep now op s s₁ hs hop) hrest

theorem version_applyAll {now : Time} {op : LedgerOp} {s s' : Store}
    (hs : s.version = schemaVersion) (h : op.apply jsonValid now s = some s') :
    s'.version = schemaVersion := by
  cases op with
  | store op => exact version_apply hs h
  | _ =>
      obtain rfl := Option.some.inj h
      exact hs

end

/-! ### Identities -/

/-- The identities of a task, in the order of their insertion. -/
def identitiesOf (t : TaskId) (l : Ledger) : List EventIdentity :=
  l.eventIdentities.rows.filter fun r => r.taskId = t

/-- What an event is called at its source. -/
def sourcePair (r : EventIdentity) : ConversationId × Nat := (r.sourceId, r.sourceSeq)

/-- The identity that a copy was stored under. -/
def identityOf (c : EventCopy) : EventIdentity :=
  { taskId := c.taskId, sourceId := c.sourceId, sourceSeq := c.sourceSeq,
    cursorSeq := c.cursorSeq }

/-- The number of the next cursor is the number of the identities, and every copy
has its identity. -/
structure Numbered (l : Ledger) : Prop where
  cursors : ∀ t, (identitiesOf t l).map EventIdentity.cursorSeq =
    List.range' 1 (identitiesOf t l).length
  counter : ∀ t, l.eventCounters.find? t =
    if identitiesOf t l = [] then none else some ⟨t, (identitiesOf t l).length⟩
  copies : ∀ c ∈ l.eventCopies.rows, identityOf c ∈ l.eventIdentities.rows

/-- A transaction that copies nothing: at most, copies are gone. -/
structure Quiet (l l' : Ledger) : Prop where
  counters : l'.eventCounters = l.eventCounters
  identities : l'.eventIdentities = l.eventIdentities
  copies : l'.eventCopies.rows.Sublist l.eventCopies.rows

theorem Quiet.refl (l : Ledger) : Quiet l l := ⟨rfl, rfl, List.Sublist.refl _⟩

theorem Quiet.trans {l l' l'' : Ledger} (h : Quiet l l') (h' : Quiet l' l'') : Quiet l l'' :=
  ⟨h'.counters.trans h.counters, h'.identities.trans h.identities, h'.copies.trans h.copies⟩

theorem Numbered.of_quiet {l l' : Ledger} (hl : Numbered l) (h : Quiet l l') : Numbered l' := by
  have hids : ∀ t, identitiesOf t l' = identitiesOf t l := by
    intro t
    rw [identitiesOf, identitiesOf, h.identities]
  constructor
  case cursors =>
    intro t
    rw [hids]
    exact hl.cursors t
  case counter =>
    intro t
    rw [hids, h.counters]
    exact hl.counter t
  case copies =>
    intro c hc
    rw [h.identities]
    exact hl.copies c (h.copies.subset hc)

/-! ### Operations that copy nothing -/

theorem quiet_expirePayload {e : Time} {r : TaskRecord} {l l' : Ledger}
    (h : l.expirePayload e r = (.ok (), l')) : Quiet l l' := by
  simp only [Ledger.expirePayload] at h
  split at h
  · simp at h
  · obtain ⟨-, rfl⟩ := Prod.mk.inj h
    exact ⟨rfl, rfl, List.filter_sublist⟩

theorem quiet_expirePayloads {e : Time} :
    ∀ {rows : List TaskRecord} {l l' : Ledger},
      Ledger.expirePayloads e rows l = (.ok (), l') → Quiet l l'
  | [], l, l', h => by
      obtain ⟨-, rfl⟩ := Prod.mk.inj h
      exact .refl l
  | r :: rows, l, l', h => by
      simp only [Ledger.expirePayloads] at h
      split at h
      · simp at h
      next l₁ hr => exact (quiet_expirePayload hr).trans (quiet_expirePayloads h)

theorem quiet_purgeTombstones :
    ∀ {rows : List Tombstone} {l l' : Ledger},
      Ledger.purgeTombstones rows l = (.ok (), l') → Quiet l l'
  | [], l, l', h => by
      obtain ⟨-, rfl⟩ := Prod.mk.inj h
      exact .refl l
  | r :: rows, l, l', h => by
      simp only [Ledger.purgeTombstones, Ledger.purgeTombstone] at h
      split at h
      · simp at h
      next l₁ hr =>
        split at hr
        · simp at hr
        · obtain ⟨-, rfl⟩ := Prod.mk.inj hr
          refine Quiet.trans ?_ (quiet_purgeTombstones h)
          exact ⟨rfl, rfl, List.Sublist.refl _⟩

theorem quiet_exec (now : Time) (c : LedgerCall) (l : Ledger)
    (hc : ∀ p t src es, c ≠ .copyTaskEventPage p t src es) : Quiet l (c.exec now l).2 := by
  cases c
  case copyTaskEventPage p t src es => exact absurd rfl (hc p t src es)
  case expireTerminalPayloads b n =>
    simp only [LedgerCall.exec, Ledger.expireTerminalPayloads]
    split
    · exact .refl l
    next l' hx =>
      have hq : Quiet l l' := quiet_expirePayloads hx
      exact ⟨hq.counters, hq.identities, hq.copies⟩
  case purgeExpiredTombstones b =>
    simp only [LedgerCall.exec, Ledger.purgeExpiredTombstones]
    split
    · exact .refl l
    next l' hx =>
      have hq : Quiet l l' := quiet_purgeTombstones hx
      exact ⟨hq.counters, hq.identities, hq.copies⟩
  -- The other transactions do not name an event table.
  all_goals
    simp only [LedgerCall.exec, Ledger.reserveNext, Ledger.updateReservation,
      Ledger.markSandboxLost, Ledger.recordBaseSha, Ledger.beginSandboxCreation,
      Ledger.setSandboxCredentialVersion, Ledger.updateSandboxCreation,
      Ledger.beginPublication, Ledger.beginSupervision, Ledger.updateSupervision,
      Ledger.saveTaskMessageReceipt, Ledger.archiveTaskResult, Ledger.finishTask,
      Ledger.tryMarkSleeping]
    repeat' split
    all_goals exact ⟨rfl, rfl, List.Sublist.refl _⟩

theorem quiet_submission (now : Time) (id : TaskId) (q : Submission) (l : Ledger) :
    Quiet l (submission now id q l).2 := by
  simp only [submission, Ledger.submit]
  repeat' split
  all_goals exact ⟨rfl, rfl, List.Sublist.refl _⟩

/-! ### Copying -/

/-- A pair takes the next place, unless it has one. -/
def see {α : Type} [DecidableEq α] (seen : List α) (p : α) : List α :=
  if p ∈ seen then seen else seen ++ [p]

/-- The distinct members of a list, in the order of their first occurrence, after
those already seen. -/
def firstSeen {α : Type} [DecidableEq α] (seen ps : List α) : List α := ps.foldl see seen

theorem firstSeen_append {α : Type} [DecidableEq α] (seen ps qs : List α) :
    firstSeen seen (ps ++ qs) = firstSeen (firstSeen seen ps) qs := List.foldl_append

theorem find?_identity_none {t : TaskId} {source : ConversationId} {seq : Nat} {l : Ledger} :
    l.eventIdentities.find? (t, source, seq) = none ↔
      (source, seq) ∉ (identitiesOf t l).map sourcePair := by
  rw [Table.find?_eq_none]
  constructor
  · intro h hmem
    obtain ⟨r, hr, hp⟩ := List.mem_map.mp hmem
    obtain ⟨hrow, ht⟩ := List.mem_filter.mp hr
    obtain ⟨hsrc, hseq⟩ := Prod.mk.inj hp
    exact h r hrow (by rw [← hsrc, ← hseq, ← of_decide_eq_true ht]; rfl)
  · intro h r hr hk
    obtain ⟨ht, hp⟩ := Prod.mk.inj hk
    exact h (List.mem_map.mpr ⟨r, List.mem_filter.mpr ⟨hr, decide_eq_true ht⟩, hp⟩)

/-- Some identities were appended, and a copy for each; they are all of one task. -/
structure Appended (t : TaskId) (new : List EventIdentity) (l l' : Ledger) : Prop where
  task : ∀ r ∈ new, r.taskId = t
  identities : l'.eventIdentities.rows = l.eventIdentities.rows ++ new
  copies : ∃ cs : List EventCopy, cs.map identityOf = new ∧
    l'.eventCopies.rows = l.eventCopies.rows ++ cs

theorem Appended.identitiesOf_self {t : TaskId} {new : List EventIdentity} {l l' : Ledger}
    (h : Appended t new l l') : identitiesOf t l' = identitiesOf t l ++ new := by
  have hnew : new.filter (fun r => r.taskId = t) = new :=
    List.filter_eq_self.mpr fun r hr => decide_eq_true (h.task r hr)
  rw [identitiesOf, h.identities, List.filter_append, hnew]
  rfl

theorem Appended.identitiesOf_other {t u : TaskId} {new : List EventIdentity} {l l' : Ledger}
    (h : Appended t new l l') (hu : u ≠ t) : identitiesOf u l' = identitiesOf u l := by
  have hnew : new.filter (fun r => r.taskId = u) = [] := by
    apply List.filter_eq_nil_iff.mpr
    intro r hr
    rw [h.task r hr]
    simpa using Ne.symm hu
  rw [identitiesOf, h.identities, List.filter_append, hnew, List.append_nil]
  rfl

theorem Appended.refl (t : TaskId) (l : Ledger) : Appended t [] l l :=
  ⟨by simp, (List.append_nil _).symm, [], rfl, (List.append_nil _).symm⟩

theorem Appended.trans {t : TaskId} {new new' : List EventIdentity} {l l' l'' : Ledger}
    (h : Appended t new l l') (h' : Appended t new' l' l'') : Appended t (new ++ new') l l'' := by
  constructor
  case task =>
    intro r hr
    rcases List.mem_append.mp hr with hr | hr
    · exact h.task r hr
    · exact h'.task r hr
  case identities => rw [h'.identities, h.identities, List.append_assoc]
  case copies =>
    obtain ⟨cs, rfl, hcs⟩ := h.copies
    obtain ⟨cs', rfl, hcs'⟩ := h'.copies
    exact ⟨cs ++ cs', List.map_append, by rw [hcs', hcs, List.append_assoc]⟩

/-- The three ends of one insertion: the pair is known, the payload is gone, or the
pair takes the next cursor. -/
inductive Insertion (t : TaskId) (source : ConversationId) (seq : Nat) (l : Ledger) :
    Except Exn (Option Nat) × Ledger → Prop
  | known (h : (source, seq) ∈ (identitiesOf t l).map sourcePair) :
      Insertion t source seq l (.ok none, l)
  | refused (h : l.hasPayload t = false) (x : Exn) : Insertion t source seq l (.error x, l)
  | new {l' : Ledger} (h : (source, seq) ∉ (identitiesOf t l).map sourcePair)
      (hp : l.hasPayload t = true)
      (happ : Appended t [⟨t, source, seq, (identitiesOf t l).length + 1⟩] l l')
      (hl : Numbered l') (ht : l'.tasks = l.tasks) :
      Insertion t source seq l (.ok (some ((identitiesOf t l).length + 1)), l')

/-- The cursors of the identities do not pass their number. -/
theorem Numbered.cursor_le {l : Ledger} (hl : Numbered l) {t : TaskId} {r : EventIdentity}
    (hr : r ∈ identitiesOf t l) : r.cursorSeq ≤ (identitiesOf t l).length := by
  have hmem : r.cursorSeq ∈ (identitiesOf t l).map EventIdentity.cursorSeq :=
    List.mem_map_of_mem hr
  rw [hl.cursors t, List.mem_range'_1] at hmem
  omega

/-- No copy lies under the next cursor. -/
theorem Numbered.copy_none {l : Ledger} (hl : Numbered l) (t : TaskId) :
    l.eventCopies.find? (t, (identitiesOf t l).length + 1) = none := by
  rw [Table.find?_eq_none]
  intro c hc hk
  obtain ⟨ht, hcur⟩ := Prod.mk.inj hk
  have hrow : identityOf c ∈ identitiesOf t l :=
    List.mem_filter.mpr ⟨hl.copies c hc, decide_eq_true ht⟩
  have hle : c.cursorSeq ≤ (identitiesOf t l).length := hl.cursor_le hrow
  omega

/-- The ledger in which a pair has taken the next cursor. -/
theorem key_bumped (c : EventCounter) : key { c with value := c.value + 1 } = key c := rfl

def withEvent (now : Time) (t : TaskId) (source : ConversationId) (seq : Nat) (payload : String)
    (l : Ledger) : Ledger :=
  { l with
    eventCounters := l.eventCounters.upsert ⟨t, 1⟩ (fun c => { c with value := c.value + 1 })
      key_bumped
    eventIdentities := l.eventIdentities.insert ⟨t, source, seq, (identitiesOf t l).length + 1⟩
    eventCopies := l.eventCopies.insert
      ⟨t, (identitiesOf t l).length + 1, source, seq, payload, now⟩ }

section

variable {l : Ledger} (hl : Numbered l) {t : TaskId} {source : ConversationId} {seq : Nat}

include hl

theorem Numbered.appended_withEvent (now : Time) (payload : String)
    (h : l.eventIdentities.find? (t, source, seq) = none) :
    Appended t [⟨t, source, seq, (identitiesOf t l).length + 1⟩] l
      (withEvent now t source seq payload l) := by
  constructor
  case task => simp
  case identities => exact Table.rows_insert h
  case copies => exact ⟨[_], rfl, Table.rows_insert (hl.copy_none t)⟩

theorem Numbered.withEvent (now : Time) (payload : String)
    (h : l.eventIdentities.find? (t, source, seq) = none) :
    Numbered (withEvent now t source seq payload l) := by
  have happ := hl.appended_withEvent now payload h
  constructor
  case cursors =>
    intro u
    by_cases hu : u = t
    · subst hu
      rw [happ.identitiesOf_self, List.map_append, hl.cursors, List.length_append,
        List.length_singleton, List.range'_concat]
      simp [Nat.add_comm]
    · rw [happ.identitiesOf_other hu]
      exact hl.cursors u
  case counter =>
    intro u
    show (l.eventCounters.upsert _ _).find? u = _
    rw [Table.find?_upsert, hl.counter u]
    by_cases hu : u = t
    · subst hu
      rw [happ.identitiesOf_self]
      by_cases he : identitiesOf u l = [] <;> simp [he, key]
    · rw [happ.identitiesOf_other hu]
      simp [key, hu]
  case copies =>
    intro c hc
    obtain ⟨cs, hcs, hrows⟩ := happ.copies
    rw [hrows] at hc
    rw [happ.identities, ← hcs]
    rcases List.mem_append.mp hc with hold | hnew
    · exact List.mem_append_left _ (hl.copies c hold)
    · exact List.mem_append_right _ (List.mem_map_of_mem hnew)

theorem Numbered.insertTaskEvent (now : Time) (t : TaskId) (source : ConversationId) (seq : Nat)
    (payload : String) :
    Insertion t source seq l (l.insertTaskEvent now t source seq payload) := by
  unfold Ledger.insertTaskEvent
  split
  next r hr =>
    apply Insertion.known
    by_contra hno
    rw [← find?_identity_none, hr] at hno
    simp at hno
  next hnone =>
    split
    next hp =>
      -- The counter holds the number of the identities, so the cursor is the next one.
      have hcur : (l.eventCounters.find? t).elim 1 (fun c => c.value + 1) =
          (identitiesOf t l).length + 1 := by
        rw [hl.counter t]
        by_cases he : identitiesOf t l = [] <;> simp [he]
      rw [hcur]
      exact .new (find?_identity_none.mp hnone) hp (hl.appended_withEvent now payload hnone)
        (hl.withEvent now payload hnone) rfl
    next hp => exact .refused (by simpa using hp) _

end

/-- The pairs of a page. -/
def pagePairs (source : ConversationId) (events : List Event) : List (ConversationId × Nat) :=
  events.map fun e => (source, e.seq)

/-- What copying a list of pairs leaves: they have their places, in the order in which
they were first seen. -/
structure Copied (t : TaskId) (ps : List (ConversationId × Nat)) (l l' : Ledger) : Prop where
  numbered : Numbered l'
  appended : ∃ new, Appended t new l l'
  seen : (identitiesOf t l').map sourcePair = firstSeen ((identitiesOf t l).map sourcePair) ps

theorem Copied.trans {t : TaskId} {ps qs : List (ConversationId × Nat)} {l l' l'' : Ledger}
    (h : Copied t ps l l') (h' : Copied t qs l' l'') : Copied t (ps ++ qs) l l'' := by
  obtain ⟨new, happ⟩ := h.appended
  obtain ⟨new', happ'⟩ := h'.appended
  exact ⟨h'.numbered, ⟨new ++ new', happ.trans happ'⟩, by
    rw [firstSeen_append, ← h.seen, h'.seen]⟩

/-- What the transaction writes besides does not matter. -/
theorem Copied.congr {t : TaskId} {ps : List (ConversationId × Nat)} {l l' l'' : Ledger}
    (h : Copied t ps l l') (hc : l''.eventCounters = l'.eventCounters)
    (hi : l''.eventIdentities = l'.eventIdentities) (hcs : l''.eventCopies = l'.eventCopies) :
    Copied t ps l l'' := by
  have hq : Quiet l' l'' := ⟨hc, hi, hcs ▸ List.Sublist.refl _⟩
  obtain ⟨new, happ⟩ := h.appended
  have hids : identitiesOf t l'' = identitiesOf t l' := by rw [identitiesOf, hi, identitiesOf]
  exact ⟨h.numbered.of_quiet hq, ⟨new, happ.task, hi ▸ happ.identities, hcs ▸ happ.copies⟩,
    hids ▸ h.seen⟩

/-- An insertion that did not raise has copied its pair. -/
theorem Insertion.copied {t : TaskId} {source : ConversationId} {seq : Nat} {l l' : Ledger}
    {o : Option Nat} (hl : Numbered l) (h : Insertion t source seq l (.ok o, l')) :
    Copied t [(source, seq)] l l' := by
  cases h with
  | known hmem =>
      refine ⟨hl, ⟨[], .refl t l⟩, ?_⟩
      rw [firstSeen, List.foldl_cons, List.foldl_nil, see, if_pos hmem]
  | new hmem hp happ hl' ht =>
      refine ⟨hl', ⟨_, happ⟩, ?_⟩
      rw [happ.identitiesOf_self, List.map_append, firstSeen, List.foldl_cons, List.foldl_nil, see,
        if_neg hmem]
      rfl

theorem Numbered.insertTaskEvents (now : Time) (payload : Event → Nat → String) (t : TaskId)
    (source : ConversationId) {events : List Event} {bytes : Nat} {done ins : List (Nat × String)}
    {l l' : Ledger} (hl : Numbered l)
    (h : Ledger.insertTaskEvents now payload t source events bytes done l = (.ok ins, l')) :
    Copied t (pagePairs source events) l l' := by
  induction events generalizing bytes done l with
  | nil =>
      obtain ⟨-, rfl⟩ := Prod.mk.inj h
      exact ⟨hl, ⟨[], .refl t l⟩, rfl⟩
  | cons e events ih =>
      simp only [Ledger.insertTaskEvents] at h
      have hone := hl.insertTaskEvent now t source e.seq (payload e bytes)
      split at h
      · simp at h
      next l₁ hr =>
        rw [hr] at hone
        have hfirst := hone.copied hl
        exact hfirst.trans (ih hfirst.numbered h)
      next cursor l₁ hr =>
        rw [hr] at hone
        have hfirst := hone.copied hl
        exact hfirst.trans (ih hfirst.numbered h)

/-! ### The two copying calls -/

section

variable {l : Ledger} (hl : Numbered l) (now : Time) (t : TaskId) (source : ConversationId)

include hl

/-- A page is copied as a whole, or it raises and nothing is changed. -/
theorem Numbered.copyTaskEventPage (payload : Event → Nat → String) (events : List Event) :
    (∃ x, l.copyTaskEventPage now payload t source events = (.error x, l)) ∨
      ∃ ins l', l.copyTaskEventPage now payload t source events = (.ok ins, l') ∧
        Copied t (pagePairs source events) l l' := by
  unfold Ledger.copyTaskEventPage
  split
  next hlast =>
    rw [List.getLast?_eq_none_iff.mp hlast]
    exact .inr ⟨[], l, rfl, hl, ⟨[], .refl t l⟩, rfl⟩
  next last hlast =>
    split
    next =>
      split
      next =>
        split
        next x l' hx => exact .inl ⟨x, rfl⟩
        next ins l' hx =>
          exact .inr ⟨ins, _, rfl, (hl.insertTaskEvents now payload t source hx).congr rfl rfl rfl⟩
      next => exact .inl ⟨_, rfl⟩
    next => exact .inl ⟨_, rfl⟩

/-- So is a single event. -/
theorem Numbered.copyTaskEvent (jsonValid : String → Bool) (seq : Nat) (payload : String) :
    (∃ x, l.copyTaskEvent now jsonValid t source seq payload = (.error x, l)) ∨
      ∃ o l', l.copyTaskEvent now jsonValid t source seq payload = (.ok o, l') ∧
        Copied t [(source, seq)] l l' := by
  have hone := hl.insertTaskEvent now t source seq payload
  unfold Ledger.copyTaskEvent
  split
  next x l' hx => exact .inl ⟨x, rfl⟩
  next l' hx =>
    rw [hx] at hone
    exact .inr ⟨none, _, rfl, (hone.copied hl).congr rfl rfl rfl⟩
  next cursor l' hx =>
    rw [hx] at hone
    split
    · exact .inr ⟨some cursor, _, rfl, (hone.copied hl).congr rfl rfl rfl⟩
    · exact .inl ⟨.sqliteError, rfl⟩

end

/-! ### Runs -/

section

variable (jsonValid : String → Bool)

/-- The pairs of a task that an operation has accepted: those of a copying call that
did not raise. -/
def LedgerOp.accepted (now : Time) (t : TaskId) (l : Ledger) :
    LedgerOp → List (ConversationId × Nat)
  | .copyTaskEvent u source seq payload =>
    if u = t ∧ (Ledger.copyTaskEvent now jsonValid u source seq payload l).1.isOk then
      [(source, seq)]
    else []
  | .store (.call (.copyTaskEventPage payload u source events)) =>
    if u = t ∧ (Ledger.copyTaskEventPage now payload u source events l).1.isOk then
      pagePairs source events
    else []
  | _ => []

/-- The pairs accepted along a run, in order. -/
def acceptedBy (t : TaskId) : Store → List (Time × LedgerOp) → List (ConversationId × Nat)
  | _, [] => []
  | s, (now, op) :: ops => op.accepted jsonValid now t s.ledger ++
    (op.apply jsonValid now s).elim [] fun s' => acceptedBy t s' ops

variable {jsonValid}

/-- What an operation does to the events of every task. -/
structure Advances (ps : TaskId → List (ConversationId × Nat)) (l l' : Ledger) : Prop where
  numbered : Numbered l'
  grows : ∀ t, identitiesOf t l <+: identitiesOf t l'
  seen : ∀ t, (identitiesOf t l').map sourcePair =
    firstSeen ((identitiesOf t l).map sourcePair) (ps t)

theorem Advances.of_quiet {l l' : Ledger} (hl : Numbered l) (h : Quiet l l') :
    Advances (fun _ => []) l l' := by
  have hids : ∀ t, identitiesOf t l' = identitiesOf t l := by
    intro t
    rw [identitiesOf, h.identities, identitiesOf]
  exact ⟨hl.of_quiet h, fun t => hids t ▸ List.prefix_rfl, fun t => by rw [hids t]; rfl⟩

theorem Advances.of_copied {t : TaskId} {qs : List (ConversationId × Nat)} {l l' : Ledger}
    (h : Copied t qs l l') : Advances (fun u => if t = u then qs else []) l l' := by
  obtain ⟨new, happ⟩ := h.appended
  constructor
  case numbered => exact h.numbered
  case grows =>
    intro u
    by_cases hu : u = t
    · subst hu
      exact happ.identitiesOf_self ▸ List.prefix_append _ _
    · exact happ.identitiesOf_other hu ▸ List.prefix_rfl
  case seen =>
    intro u
    by_cases hu : u = t
    · subst hu
      rw [if_pos rfl]
      exact h.seen
    · rw [if_neg (Ne.symm hu), happ.identitiesOf_other hu]
      rfl

theorem advances_call (now : Time) (c : LedgerCall) {l : Ledger} (hl : Numbered l) :
    Advances (fun t => LedgerOp.accepted jsonValid now t l (.store (.call c))) l
      (c.exec now l).2 := by
  by_cases hc : ∀ p t src es, c ≠ .copyTaskEventPage p t src es
  · have hnone : ∀ t, LedgerOp.accepted jsonValid now t l (.store (.call c)) = [] := by
      intro t
      cases c
      case copyTaskEventPage p u src es => exact absurd rfl (hc p u src es)
      all_goals rfl
    simpa only [hnone] using Advances.of_quiet hl (quiet_exec now c l hc)
  · push Not at hc
    obtain ⟨payload, u, source, events, rfl⟩ := hc
    show Advances _ _ (l.copyTaskEventPage now payload u source events).2
    simp only [LedgerOp.accepted]
    rcases hl.copyTaskEventPage now u source payload events with ⟨x, hx⟩ | ⟨ins, l', hx, hcop⟩
    · simpa [hx, Except.isOk, Except.toBool] using Advances.of_quiet hl (.refl l)
    · simpa [hx, Except.isOk, Except.toBool] using Advances.of_copied hcop

theorem quiet_extra (now : Time) {op : LedgerOp} (l : Ledger)
    (hop : ∀ t src n p, op ≠ .copyTaskEvent t src n p) : Quiet l (op.exec jsonValid now l) := by
  cases op
  case copyTaskEvent t src n p => exact absurd rfl (hop t src n p)
  case deleteCopies p => exact ⟨rfl, rfl, List.filter_sublist⟩
  all_goals
    simp only [LedgerOp.exec, Ledger.beginPublication, Ledger.updatePublication,
      Ledger.beginSupervision]
    repeat' split
    all_goals exact ⟨rfl, rfl, List.Sublist.refl _⟩

theorem advances_apply {now : Time} {op : LedgerOp} {s s' : Store} (hv : s.version = schemaVersion)
    (hs : Numbered s.ledger) (h : op.apply jsonValid now s = some s') :
    Advances (fun t => op.accepted jsonValid now t s.ledger) s.ledger s'.ledger := by
  cases op with
  | store op =>
      cases op with
      | submit id q =>
          simp only [LedgerOp.apply, Op.apply] at h
          split at h
          · simp at h
          · obtain rfl := Option.some.inj h
            exact Advances.of_quiet hs (quiet_submission now id q s.ledger)
      | call c =>
          obtain rfl := Option.some.inj h
          exact advances_call now c hs
      | rolledBack =>
          obtain rfl := Option.some.inj h
          exact Advances.of_quiet hs (.refl s.ledger)
      | reopen =>
          simp only [LedgerOp.apply, Op.apply, hv, if_true] at h
          obtain rfl := Option.some.inj h
          exact Advances.of_quiet hs (.refl s.ledger)
      | migrate =>
          simp only [LedgerOp.apply, Op.apply, applyMigrations_current hv] at h
          obtain rfl := Option.some.inj h
          exact Advances.of_quiet hs (.refl s.ledger)
  | copyTaskEvent u source seq payload =>
      obtain rfl := Option.some.inj h
      show Advances _ _ (Ledger.copyTaskEvent now jsonValid u source seq payload s.ledger).2
      simp only [LedgerOp.accepted]
      rcases hs.copyTaskEvent now u source jsonValid seq payload with ⟨x, hx⟩ | ⟨o, l', hx, hc⟩
      · simpa [hx, Except.isOk, Except.toBool] using Advances.of_quiet hs (.refl s.ledger)
      · simpa [hx, Except.isOk, Except.toBool] using Advances.of_copied hc
  | _ =>
      obtain rfl := Option.some.inj h
      apply Advances.of_quiet hs
      dsimp only
      apply quiet_extra
      exact fun _ _ _ _ heq => by cases heq

theorem numbered_initialized : Numbered initialized.ledger := by
  constructor
  case cursors => intro t; rfl
  case counter => intro t; rfl
  case copies => intro c hc; exact absurd hc List.not_mem_nil

/-- The file is at the last version, and its events are numbered. -/
def Store.Numbered (s : Store) : Prop := s.version = schemaVersion ∧ Records.Numbered s.ledger

theorem Store.Numbered.apply {now : Time} {op : LedgerOp} {s s' : Store} (hs : s.Numbered)
    (h : op.apply jsonValid now s = some s') : s'.Numbered :=
  ⟨version_applyAll hs.1 h, (advances_apply hs.1 hs.2 h).numbered⟩

/-- The events of every task along a run: the pairs it accepts take their places after
those that are there. -/
theorem advances_runAll {ops : List (Time × LedgerOp)} {s s' : Store} (hs : s.Numbered)
    (h : runAll jsonValid s ops = some s') :
    Advances (fun t => acceptedBy jsonValid t s ops) s.ledger s'.ledger := by
  induction ops generalizing s with
  | nil =>
      obtain rfl : s = s' := by simpa [runAll] using h
      exact Advances.of_quiet hs.2 (.refl s.ledger)
  | cons a ops ih =>
      obtain ⟨now, op⟩ := a
      obtain ⟨s₁, hop, hrest⟩ := Option.bind_eq_some_iff.mp h
      have hone := advances_apply hs.1 hs.2 hop
      have hmore := ih (hs.apply hop) hrest
      constructor
      case numbered => exact hmore.numbered
      case grows => exact fun t => (hone.grows t).trans (hmore.grows t)
      case seen =>
        intro t
        rw [hmore.seen, hone.seen, ← firstSeen_append]
        simp only [acceptedBy, hop, Option.elim_some]

/-! ### Cursors -/

/-- A copying call for a task. -/
inductive CopyCall
  | event (source : ConversationId) (seq : Nat) (payload : String)
  | page (payload : Event → Nat → String) (source : ConversationId) (events : List Event)

def CopyCall.pairs : CopyCall → List (ConversationId × Nat)
  | .event source seq _ => [(source, seq)]
  | .page _ source events => pagePairs source events

/-- The exception that the call raises, if it does, and the ledger it leaves. -/
def CopyCall.exec (jsonValid : String → Bool) (now : Time) (t : TaskId) (l : Ledger) :
    CopyCall → Except Exn Unit × Ledger
  | .event source seq payload =>
    let a := Ledger.copyTaskEvent now jsonValid t source seq payload l
    (a.1.map fun _ => (), a.2)
  | .page payload source events =>
    let a := Ledger.copyTaskEventPage now payload t source events l
    (a.1.map fun _ => (), a.2)

theorem Numbered.copyCall {l : Ledger} (hl : Numbered l) (now : Time) (t : TaskId) (c : CopyCall) :
    (∃ x, c.exec jsonValid now t l = (.error x, l)) ∨
      ∃ l', c.exec jsonValid now t l = (.ok (), l') ∧ Copied t c.pairs l l' := by
  cases c with
  | event source seq payload =>
      rcases hl.copyTaskEvent now t source jsonValid seq payload with ⟨x, hx⟩ | ⟨o, l', hx, hc⟩
      · exact .inl ⟨x, by simp only [CopyCall.exec, hx]; rfl⟩
      · exact .inr ⟨l', by simp only [CopyCall.exec, hx]; rfl, hc⟩
  | page payload source events =>
      rcases hl.copyTaskEventPage now t source payload events with ⟨x, hx⟩ | ⟨ins, l', hx, hc⟩
      · exact .inl ⟨x, by simp only [CopyCall.exec, hx]; rfl⟩
      · exact .inr ⟨l', by simp only [CopyCall.exec, hx]; rfl, hc⟩

/-- No identity, no copy, and every counter as it was. -/
structure SameEvents (l l' : Ledger) : Prop where
  identities : l'.eventIdentities = l.eventIdentities
  copies : l'.eventCopies = l.eventCopies
  counters : ∀ t, l'.eventCounters.find? t = l.eventCounters.find? t

theorem mem_firstSeen {α : Type} [DecidableEq α] {seen ps : List α} {p : α} :
    p ∈ firstSeen seen ps ↔ p ∈ seen ∨ p ∈ ps := by
  induction ps generalizing seen with
  | nil => simp [firstSeen]
  | cons q ps ih =>
      rw [firstSeen, List.foldl_cons, ← firstSeen, ih, see]
      by_cases hq : q ∈ seen
      · rw [if_pos hq, List.mem_cons]
        constructor
        · rintro (h | h)
          · exact .inl h
          · exact .inr (.inr h)
        · rintro (h | rfl | h)
          · exact .inl h
          · exact .inl hq
          · exact .inr h
      · simp [hq, or_assoc]

theorem nodup_firstSeen {α : Type} [DecidableEq α] {seen ps : List α} (h : seen.Nodup) :
    (firstSeen seen ps).Nodup := by
  induction ps generalizing seen with
  | nil => exact h
  | cons q ps ih =>
      rw [firstSeen, List.foldl_cons, ← firstSeen, see]
      by_cases hq : q ∈ seen
      · rw [if_pos hq]
        exact ih h
      · rw [if_neg hq]
        exact ih (List.nodup_append.mpr ⟨h, List.nodup_singleton q, by
          intro a ha b hb hab
          rw [List.mem_singleton.mp hb] at hab
          exact hq (hab ▸ ha)⟩)

theorem firstSeen_known {α : Type} [DecidableEq α] {seen ps : List α} (h : ∀ p ∈ ps, p ∈ seen) :
    firstSeen seen ps = seen := by
  induction ps with
  | nil => rfl
  | cons q ps ih =>
      rw [firstSeen, List.foldl_cons, ← firstSeen, see, if_pos (h q (by simp))]
      exact ih fun p hp => h p (List.mem_cons_of_mem q hp)

/-- The rows that copying adds have pairs that were copied and were not known. -/
theorem Copied.new_pairs {t : TaskId} {ps : List (ConversationId × Nat)} {l l' : Ledger}
    (h : Copied t ps l l') (hnd : ((identitiesOf t l).map sourcePair).Nodup) :
    ∃ new, Appended t new l l' ∧
      ∀ r ∈ new, sourcePair r ∈ ps ∧ sourcePair r ∉ (identitiesOf t l).map sourcePair := by
  obtain ⟨new, happ⟩ := h.appended
  have hseen := h.seen
  have hall : ((identitiesOf t l).map sourcePair ++ new.map sourcePair).Nodup := by
    rw [← List.map_append, ← happ.identitiesOf_self, hseen]
    exact nodup_firstSeen hnd
  refine ⟨new, happ, fun r hr => ?_⟩
  have hfresh : sourcePair r ∉ (identitiesOf t l).map sourcePair := fun hold =>
    (List.nodup_append.mp hall).2.2 _ hold _ (List.mem_map_of_mem hr) rfl
  have hmem : sourcePair r ∈ (identitiesOf t l').map sourcePair := by
    rw [happ.identitiesOf_self, List.map_append]
    exact List.mem_append_right _ (List.mem_map_of_mem hr)
  rw [hseen, mem_firstSeen] at hmem
  exact ⟨hmem.resolve_left hfresh, hfresh⟩

theorem Copied.sameEvents {t : TaskId} {ps : List (ConversationId × Nat)} {l l' : Ledger}
    (hl : Numbered l) (h : Copied t ps l l')
    (hknown : ∀ p ∈ ps, p ∈ (identitiesOf t l).map sourcePair) : SameEvents l l' := by
  obtain ⟨new, happ⟩ := h.appended
  have hseen := h.seen
  rw [firstSeen_known hknown, happ.identitiesOf_self, List.map_append] at hseen
  obtain rfl : new = [] := List.map_eq_nil_iff.mp (List.append_right_eq_self.mp hseen)
  have hids : l'.eventIdentities = l.eventIdentities :=
    Table.ext (happ.identities.trans (List.append_nil _))
  obtain ⟨cs, hcs, hrows⟩ := happ.copies
  obtain rfl : cs = [] := List.map_eq_nil_iff.mp hcs
  refine ⟨hids, Table.ext (hrows.trans (List.append_nil _)), fun u => ?_⟩
  rw [h.numbered.counter u, hl.counter u, identitiesOf, hids, identitiesOf]

/-- The cursors of a task are `1..n` in the order in which its pairs were first accepted,
whatever else was done to the file. -/
theorem event_cursors_gapless {ops : List (Time × LedgerOp)} {s : Store}
    (h : runAll jsonValid initialized ops = some s) (t : TaskId) :
    (identitiesOf t s.ledger).map EventIdentity.cursorSeq =
        List.range' 1 (identitiesOf t s.ledger).length ∧
      (identitiesOf t s.ledger).map sourcePair =
        firstSeen [] (acceptedBy jsonValid t initialized ops) ∧
      ((identitiesOf t s.ledger).map sourcePair).Nodup ∧
      s.ledger.eventCounters.find? t = (if identitiesOf t s.ledger = [] then none
        else some ⟨t, (identitiesOf t s.ledger).length⟩) ∧
      (∀ c ∈ s.ledger.eventCopies.rows, identityOf c ∈ s.ledger.eventIdentities.rows) ∧
      (∀ ops' s', runAll jsonValid s ops' = some s' →
        identitiesOf t s.ledger <+: identitiesOf t s'.ledger) ∧
      ∀ now (c : CopyCall),
        (∀ x, (c.exec jsonValid now t s.ledger).1 = .error x →
          (c.exec jsonValid now t s.ledger).2 = s.ledger) ∧
        (∃ new, Appended t new s.ledger (c.exec jsonValid now t s.ledger).2 ∧
          ∀ r ∈ new, sourcePair r ∈ c.pairs ∧
            sourcePair r ∉ (identitiesOf t s.ledger).map sourcePair) ∧
        ((∀ p ∈ c.pairs, p ∈ (identitiesOf t s.ledger).map sourcePair) →
          SameEvents s.ledger (c.exec jsonValid now t s.ledger).2) := by
  have hinit : initialized.Numbered := ⟨rfl, numbered_initialized⟩
  have hrun := advances_runAll hinit h
  have hs : s.Numbered := runAll_keeps (fun _ _ _ _ hs hop => hs.apply hop) hinit h
  have hseen : (identitiesOf t s.ledger).map sourcePair =
      firstSeen [] (acceptedBy jsonValid t initialized ops) := hrun.seen t
  have hnd : ((identitiesOf t s.ledger).map sourcePair).Nodup := by
    rw [hseen]
    exact nodup_firstSeen List.nodup_nil
  refine ⟨hs.2.cursors t, hseen, hnd, hs.2.counter t, hs.2.copies, ?_, ?_⟩
  · intro ops' s' h'
    exact (advances_runAll hs h').grows t
  · intro now c
    rcases hs.2.copyCall now t c with ⟨x, hx⟩ | ⟨l', hx, hcop⟩
    · rw [hx]
      exact ⟨fun _ _ => rfl, ⟨[], .refl t _, fun _ hr => by cases hr⟩,
        fun _ => ⟨rfl, rfl, fun _ => rfl⟩⟩
    · rw [hx]
      exact ⟨fun _ hx => (by cases hx), hcop.new_pairs hnd, hcop.sameEvents hs.2⟩

end

/-- A request for a task. -/
def evidenceRequest : Submission :=
  { idempotencyKey := "k", repository := none, prompt := "p", baseRef := none, retryOf := none,
    model := "m", ownerId := none }

/-- Two sources, an overlapping page, a page that is refused and one that is rolled back;
then the copies are deleted, the payload is retired and the tombstone purged. -/
def copiedAndRetired : List (Time × LedgerOp) :=
  let text : Event → Nat → String := fun e _ => e.kind
  [(1, .store (.submit 1 evidenceRequest)),
   (2, .store (.call (.copyTaskEventPage text 1 4 [⟨1, "a", []⟩, ⟨2, "b", []⟩]))),
   (3, .copyTaskEvent 1 5 1 "z"),
   (4, .store (.call (.copyTaskEventPage text 1 4 [⟨2, "b", []⟩, ⟨3, "c", []⟩]))),
   (5, .store (.call (.copyTaskEventPage text 1 4 [⟨9, "b", []⟩, ⟨8, "c", []⟩]))),
   (6, .store .rolledBack), (6, .deleteCopies fun _ => true), (7, .copyTaskEvent 1 4 2 "y"),
   (8, .store (.call (.finishTask 1 .failed none none))),
   (20, .store (.call (.expireTerminalPayloads 15 3))), (21, .copyTaskEvent 1 4 4 "v"),
   (40, .store (.call (.purgeExpiredTombstones 35))), (41, .store .reopen),
   (42, .copyTaskEvent 1 4 4 "v")]

theorem event_cursors_gapless_retired :
    ∃ s, runAll (fun _ => true) initialized copiedAndRetired = some s ∧
      s.ledger.tasks.find? 1 = none ∧
      (identitiesOf 1 s.ledger).map EventIdentity.cursorSeq = [1, 2, 3, 4] ∧
      (identitiesOf 1 s.ledger).map sourcePair = [(4, 1), (4, 2), (5, 1), (4, 3)] := by
  have hpurged : (runAll (fun _ => true) initialized copiedAndRetired).any
      (fun s => (s.ledger.tasks.find? 1).isNone) = true := by decide +kernel
  obtain ⟨s, hrun, hnone⟩ := (Option.any_eq_true _ _).mp hpurged
  obtain ⟨hcursors, hpairs, -⟩ := event_cursors_gapless hrun 1
  have hseen : firstSeen [] (acceptedBy (fun _ => true) 1 initialized copiedAndRetired) =
      [(4, 1), (4, 2), (5, 1), (4, 3)] := by decide +kernel
  rw [hseen] at hpairs
  have hlen : (identitiesOf 1 s.ledger).length = 4 := by
    rw [← List.length_map (f := sourcePair), hpairs]
    rfl
  rw [hlen] at hcursors
  exact ⟨s, hrun, by simpa using hnone, hcursors, hpairs⟩

end GgAgent.Records
