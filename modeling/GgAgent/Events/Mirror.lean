import GgAgent.Records.Evidence
import GgAgent.Backend.System
import Mathlib.Data.List.Infix

/-!
The mirror of a sandbox's event log in the ledger.

A sandbox appends to the log of a conversation, under the numbers 1, 2, 3, ..., and
serves it in pages. Any number of `_sync_events` runs read pages and copy them,
each at its own pace, with a local position of its own; a run may stop at any call
for ever, and a crash stops them all. What is in the ledger is a prefix of the log
all the same: a run asks from a position that the ledger has reached, so the page
it copies, however late, starts inside the prefix or right behind it.
-/

namespace GgAgent.Events

open GgAgent.Lib GgAgent.Backend GgAgent.Records

/-! ### The text of a copy -/

/-- The longest beginning of a text that takes at most `n` bytes:
`text.encode("utf-8")[:n].decode("utf-8", errors="ignore")`. -/
def takeBytes : Nat → List Char → List Char
  | _, [] => []
  | n, c :: cs => if c.utf8Size ≤ n then c :: takeBytes (n - c.utf8Size) cs else []

/-- `TRUNCATION_SUFFIX`. -/
def truncationSuffix : String := "\n[truncated by storage policy]"

/-- `_truncate_text`. -/
def truncateText (text : String) (limit : Nat) : String × Bool :=
  if text.utf8ByteSize ≤ limit then (text, false)
  else (String.ofList (takeBytes (limit - 64) text.toList) ++ truncationSuffix, true)

section

-- `Event.model_dump_json`.
variable (dump : Event → String)

/-- The loop of `truncate_event_json` over the keys of the payload: shorten one text after
the other until the event fits. -/
def shortenTexts (event : Event) (remaining : Nat) :
    List String → List (String × PayloadValue) → Option String
  | [], _ => none
  | key :: keys, payload =>
    match payload.lookup key with
    | some (.text s) =>
      let short := PayloadValue.text (truncateText s (max 256 (remaining / 4))).1
      let payload := payload.map fun kv => if kv.1 = key then (key, short) else kv
      let serialized := dump { event with payload }
      if serialized.utf8ByteSize ≤ remaining then some serialized
      else shortenTexts event remaining keys payload
    | _ => shortenTexts event remaining keys payload

/-- `truncate_event_json`: the serialized event within the log cap of its task, and
whether it was shortened. -/
def truncateEventJson (event : Event) (maxTaskLogBytes currentLogBytes : Nat) : String × Bool :=
  let remaining := maxTaskLogBytes - currentLogBytes
  if remaining = 0 then
    (dump { event with
      payload := [("storage", .text "event omitted; per-task log cap reached")] }, true)
  else if (dump event).utf8ByteSize ≤ remaining then (dump event, false)
  else
    let keys := (event.payload.insertionSort fun a b => b.2.str.length ≤ a.2.str.length).map Prod.fst
    match shortenTexts dump event remaining keys event.payload with
    | some serialized => (serialized, true)
    | none =>
      (dump { event with
        payload := [("storage", .text "event truncated"),
          ("detail", .text "[truncated by storage policy]")] }, true)

/-- The text that is stored for an event, with the byte limit of a task's log if there is one. -/
def storedText (maxLogBytes : Option Nat) (event : Event) (logBytes : Nat) : String :=
  match maxLogBytes with
  | none => dump event
  | some limit => (truncateEventJson dump event limit logBytes).1

variable {dump}

/-- A text that stands for an event: another payload, but its number and kind. -/
def StandsFor (dump : Event → String) (event : Event) (text : String) : Prop :=
  ∃ event' : Event, event'.seq = event.seq ∧ event'.kind = event.kind ∧ text = dump event'

theorem standsFor_payload (event : Event) (payload : List (String × PayloadValue)) :
    StandsFor dump event (dump { event with payload }) :=
  ⟨{ event with payload }, rfl, rfl, rfl⟩

theorem standsFor_shortenTexts {event : Event} {remaining : Nat} {keys : List String}
    {payload : List (String × PayloadValue)} {text : String}
    (h : shortenTexts dump event remaining keys payload = some text) :
    StandsFor dump event text := by
  induction keys generalizing payload with
  | nil => simp [shortenTexts] at h
  | cons key keys ih =>
      simp only [shortenTexts] at h
      split at h
      next s _ =>
        split at h
        · obtain rfl := Option.some.inj h
          exact standsFor_payload event _
        · exact ih h
      next => exact ih h

theorem standsFor_storedText (maxLogBytes : Option Nat) (event : Event) (logBytes : Nat) :
    StandsFor dump event (storedText dump maxLogBytes event logBytes) := by
  cases maxLogBytes with
  | none => exact ⟨event, rfl, rfl, rfl⟩
  | some limit =>
      simp only [storedText, truncateEventJson]
      split
      · exact standsFor_payload event _
      · split
        · exact ⟨event, rfl, rfl, rfl⟩
        · split
          next text htext => exact standsFor_shortenTexts htext
          next => exact standsFor_payload event _

end

/-! ### The sandbox and the runs -/

/-- One `_sync_events` run: the task and conversation it is for, and its number. -/
structure RunId where
  task : TaskId
  conversation : ConversationId
  number : Nat
  deriving DecidableEq, Repr

structure Mirror where
  /-- The events of a conversation of the sandbox of a task. -/
  log : TaskId → ConversationId → List Event
  store : Store
  clock : Time

/-- `EventLog.list`: the events after a number, at most `limit` of them. The events of a
log are numbered from 1 without a gap. -/
def servedPage (log : List Event) (after limit : Nat) : List Event := (log.drop after).take limit

/-- What decides the answer to a call: whether it fails, and how. -/
structure Fault where
  /-- The exception of a request or a transaction that fails. -/
  exn : Option Exn := none
  /-- The sandbox answers a request for events with 404. -/
  notFound : Bool := false
  /-- The number of rounds guessed for a loop. -/
  rounds : Nat := 0

namespace Mirror

def init : Mirror := ⟨fun _ _ => [], initialized, 0⟩

/-- The answer to a call of a run. A transaction that fails is rolled back. -/
def answer (_ : RunId) (o : Fault) : (c : Call) → Mirror → Option (c.Out × Mirror)
  | .db c, s =>
    match o.exn with
    | some x => some (.error x, s)
    | none =>
      let a := c.exec s.clock s.store.ledger
      some (a.1, { s with store := { s.store with ledger := a.2 } })
  | .ext (.conversationEvents t c after limit), s =>
    match o.exn with
    | some x => some (.error x, s)
    | none =>
      if o.notFound then some (.ok .notFound, s)
      else some (.ok (.page (servedPage (s.log t c) after limit)), s)
  | .ext .rounds, s => some (o.rounds, s)
  | _, _ => none

/-- What happens besides the runs. -/
inductive Happening
  /-- The sandbox appends an event to a conversation. -/
  | append (t : TaskId) (c : ConversationId) (kind : String)
      (payload : List (String × PayloadValue))
  | tick (n : Nat)
  /-- Another part of the backend makes a transaction. -/
  | ledger (op : LedgerOp)
  | crash

/-- The operations that neither copy events nor delete copies. -/
def leavesEvents : LedgerOp → Bool
  | .store (.call (.copyTaskEventPage _ _ _ _)) | .store (.call (.expireTerminalPayloads _ _))
  | .copyTaskEvent _ _ _ _ | .deleteCopies _ => false
  | _ => true

def Happening.apply : Happening → Mirror → Option Mirror
  | .append t c kind payload, s =>
    let event : Event := ⟨(s.log t c).length + 1, kind, payload⟩
    let logs := Function.update (s.log t) c (s.log t c ++ [event])
    some { s with log := Function.update s.log t logs }
  | .tick n, s => some { s with clock := s.clock + n }
  | .ledger op, s =>
    if leavesEvents op then
      (op.apply (fun _ => true) s.clock s.store).map fun store => { s with store }
    else none
  | .crash, s => some s

end Mirror

/-- The runs over one ledger, and the sandboxes. -/
def mirror (cfg : Config) : Machine RunId Call.Out (Except Exn Unit) Mirror where
  Oracle := Fault
  Job := Unit
  Event := Mirror.Happening
  answer := Mirror.answer
  job p _ s := some ((Manager.syncEvents cfg p.task p.conversation).run, s)
  event := Mirror.Happening.apply
  kills
    | .crash => true
    | _ => false

/-! ### First occurrences -/

/-- Copying a range that starts inside a prefix, or right behind it, extends the prefix. -/
theorem firstSeen_range {k a : Nat} (m : Nat) (h : a ≤ k) :
    firstSeen (List.range' 1 k) (List.range' (a + 1) m) = List.range' 1 (max k (a + m)) := by
  induction m generalizing a k with
  | zero => rw [List.range'_zero, Nat.add_zero, Nat.max_eq_left h]; rfl
  | succ m ih =>
      rw [List.range'_succ, firstSeen, List.foldl_cons, ← firstSeen, see]
      by_cases hmem : a + 1 ∈ List.range' 1 k
      · rw [if_pos hmem]
        rw [List.mem_range'_1] at hmem
        rw [ih (by omega), show a + 1 + m = a + (m + 1) by omega]
      · rw [if_neg hmem]
        rw [List.mem_range'_1] at hmem
        obtain rfl : a = k := by omega
        have happ : List.range' 1 a ++ [a + 1] = List.range' 1 (a + 1) := by
          rw [List.range'_concat, Nat.one_mul, Nat.add_comm 1 a]
        rw [happ, ih (Nat.le_refl _), show max (a + 1) (a + 1 + m) = max a (a + (m + 1)) by omega]

/-- The numbers of a source among some pairs. -/
def seqsAmong (c : ConversationId) (ps : List (ConversationId × Nat)) : List Nat :=
  (ps.filter fun p => p.1 = c).map Prod.snd

theorem mem_seqsAmong {c : ConversationId} {ps : List (ConversationId × Nat)} {n : Nat} :
    n ∈ seqsAmong c ps ↔ (c, n) ∈ ps := by
  simp [seqsAmong]

theorem seqsAmong_firstSeen (c d : ConversationId) (ps : List (ConversationId × Nat))
    (ns : List Nat) :
    seqsAmong d (firstSeen ps (ns.map fun n => (c, n))) =
      if c = d then firstSeen (seqsAmong d ps) ns else seqsAmong d ps := by
  induction ns generalizing ps with
  | nil => simp [firstSeen]
  | cons n ns ih =>
      rw [List.map_cons, firstSeen, List.foldl_cons, ← firstSeen, ih]
      by_cases hcd : c = d
      · subst hcd
        rw [if_pos rfl, if_pos rfl]
        show _ = firstSeen (see (seqsAmong c ps) n) ns
        congr 1
        by_cases hmem : (c, n) ∈ ps
        · rw [see, if_pos hmem, see, if_pos (mem_seqsAmong.mpr hmem)]
        · rw [see, if_neg hmem, see, if_neg (mt mem_seqsAmong.mp hmem)]
          simp [seqsAmong]
      · rw [if_neg hcd, if_neg hcd]
        unfold see
        split
        · rfl
        · simp [seqsAmong, hcd]

/-! ### What is copied -/

/-- The numbers of the events that are copied of a conversation, in the order of their
cursors. -/
def seqsOf (t : TaskId) (c : ConversationId) (l : Ledger) : List Nat :=
  seqsAmong c ((identitiesOf t l).map sourcePair)

/-- The copies of a conversation. -/
def copiesOf (t : TaskId) (c : ConversationId) (l : Ledger) : List EventCopy :=
  l.eventCopies.rows.filter fun r => r.taskId = t ∧ r.sourceId = c

section

variable {now : Time} {payload : Event → Nat → String} {t : TaskId} {c : ConversationId}

theorem insertTaskEvent_cursors (seq : Nat) (text : String) (l : Ledger) :
    (l.insertTaskEvent now t c seq text).2.eventSourceCursors = l.eventSourceCursors := by
  unfold Ledger.insertTaskEvent
  split
  · rfl
  · split <;> rfl

theorem insertTaskEvents_cursors (es : List Event) (bytes : Nat) (done : List (Nat × String))
    (l : Ledger) :
    (l.insertTaskEvents now payload t c es bytes done).2.eventSourceCursors =
      l.eventSourceCursors := by
  induction es generalizing bytes done l with
  | nil => rfl
  | cons e es ih =>
      have hone : (l.insertTaskEvent now t c e.seq (payload e bytes)).2.eventSourceCursors =
          l.eventSourceCursors := insertTaskEvent_cursors e.seq (payload e bytes) l
      simp only [Ledger.insertTaskEvents]
      split
      next x l₁ hr =>
        rw [hr] at hone
        exact hone
      next l₁ hr =>
        rw [hr] at hone
        exact (ih _ _ l₁).trans hone
      next cursor l₁ hr =>
        rw [hr] at hone
        exact (ih _ _ l₁).trans hone

/-- A copy of `e`, under any cursor. -/
def IsCopy (payload : Event → Nat → String) (t : TaskId) (c : ConversationId) (e : Event)
    (r : EventCopy) : Prop :=
  r.taskId = t ∧ r.sourceId = c ∧ r.sourceSeq = e.seq ∧ ∃ bytes, r.eventJson = payload e bytes

theorem insertTaskEvent_copies {e : Event} {bytes : Nat} {l : Ledger} {r : EventCopy}
    (hr : r ∈ (l.insertTaskEvent now t c e.seq (payload e bytes)).2.eventCopies.rows) :
    r ∈ l.eventCopies.rows ∨ IsCopy payload t c e r := by
  unfold Ledger.insertTaskEvent at hr
  split at hr
  · exact .inl hr
  · split at hr
    · dsimp only [Table.insert] at hr
      split at hr
      · rcases List.mem_append.mp hr with hr | hr
        · exact .inl hr
        · obtain rfl := List.mem_singleton.mp hr
          exact .inr ⟨rfl, rfl, rfl, bytes, rfl⟩
      · exact .inl hr
    · exact .inl hr

theorem insertTaskEvents_copies {es : List Event} {bytes : Nat} {done : List (Nat × String)}
    {l : Ledger} {r : EventCopy}
    (hr : r ∈ (l.insertTaskEvents now payload t c es bytes done).2.eventCopies.rows) :
    r ∈ l.eventCopies.rows ∨ ∃ e ∈ es, IsCopy payload t c e r := by
  induction es generalizing bytes done l with
  | nil => exact .inl hr
  | cons e es ih =>
      simp only [Ledger.insertTaskEvents] at hr
      have hone : ∀ l₁, (l.insertTaskEvent now t c e.seq (payload e bytes)).2 = l₁ →
          r ∈ l₁.eventCopies.rows →
          r ∈ l.eventCopies.rows ∨ ∃ e' ∈ e :: es, IsCopy payload t c e' r := by
        rintro l₁ rfl hmem
        exact (insertTaskEvent_copies hmem).imp_right fun hcopy => ⟨e, List.mem_cons_self, hcopy⟩
      have hmore : ∀ {P}, (P ∨ ∃ e' ∈ es, IsCopy payload t c e' r) →
          P ∨ ∃ e' ∈ e :: es, IsCopy payload t c e' r := by
        rintro P (hP | ⟨e', he', hcopy⟩)
        · exact .inl hP
        · exact .inr ⟨e', List.mem_cons_of_mem e he', hcopy⟩
      split at hr
      next x l₁ hx => exact hone l₁ (by rw [hx]) hr
      next l₁ hx => exact (hmore (ih hr)).elim (hone l₁ (by rw [hx])) .inr
      next cursor l₁ hx => exact (hmore (ih hr)).elim (hone l₁ (by rw [hx])) .inr

/-- The transaction of a page that is not empty and did not raise. -/
theorem copyTaskEventPage_ok {es : List Event} {ins : List (Nat × String)} {l l' : Ledger}
    (hne : es ≠ []) (h : l.copyTaskEventPage now payload t c es = (.ok ins, l')) :
    ∃ l₁, l.insertTaskEvents now payload t c es (l.logBytes t) [] = (.ok ins, l₁) ∧
      l' = { l₁ with
        eventSourceCursors := l₁.eventSourceCursors.upsert ⟨t, c, (es.getLast hne).seq⟩ fun m =>
          { m with sourceSeq := max m.sourceSeq (es.getLast hne).seq } }.commit := by
  unfold Ledger.copyTaskEventPage at h
  rw [List.getLast?_eq_some_getLast hne] at h
  dsimp only at h
  split at h
  · split at h
    · split at h
      · simp at h
      next l₁ hx =>
        obtain ⟨hins, rfl⟩ := Prod.mk.inj h
        obtain rfl := Except.ok.inj hins
        exact ⟨l₁, hx, rfl⟩
    · simp at h
  · simp at h

/-- A page moves the watermark of its source up to its last event, and no other. -/
theorem eventSourceCursor_page {es : List Event} {ins : List (Nat × String)} {l l' : Ledger}
    (hne : es ≠ []) (h : l.copyTaskEventPage now payload t c es = (.ok ins, l')) (u : TaskId)
    (d : ConversationId) :
    l'.eventSourceCursor u d = if u = t ∧ d = c then
      max (l.eventSourceCursor t c) (es.getLast hne).seq else l.eventSourceCursor u d := by
  obtain ⟨l₁, hins, rfl⟩ := copyTaskEventPage_ok hne h
  have hcursors : l₁.eventSourceCursors = l.eventSourceCursors := by
    have hkeep : (l.insertTaskEvents now payload t c es (l.logBytes t) []).2.eventSourceCursors =
        l.eventSourceCursors := insertTaskEvents_cursors es (l.logBytes t) [] l
    rwa [hins] at hkeep
  show ((l₁.eventSourceCursors.upsert _ _).find? (u, d)).elim 0 _ = _
  rw [Table.find?_upsert, hcursors]
  simp only [Ledger.eventSourceCursor, key, Prod.mk.injEq]
  by_cases hud : u = t ∧ d = c
  · obtain ⟨rfl, rfl⟩ := hud
    rw [if_pos ⟨rfl, rfl⟩, if_pos ⟨rfl, rfl⟩]
    cases l.eventSourceCursors.find? (u, d) <;> simp
  · rw [if_neg hud, if_neg hud]

end

/-! ### The invariant -/

namespace Mirror

/-- How far the log of a conversation is copied. -/
def mark (s : Mirror) (t : TaskId) (c : ConversationId) : Nat := s.store.ledger.eventSourceCursor t c

/-- The ledger holds a prefix of every log. -/
structure Faithful (dump : Event → String) (s : Mirror) : Prop where
  version : s.store.version = schemaVersion
  numbered : Numbered s.store.ledger
  whole : s.store.ledger.eventCopies.rows.map identityOf = s.store.ledger.eventIdentities.rows
  log : ∀ t c, (s.log t c).map Event.seq = List.range' 1 (s.log t c).length
  seqs : ∀ t c, seqsOf t c s.store.ledger = List.range' 1 (s.mark t c)
  bounded : ∀ t c, s.mark t c ≤ (s.log t c).length
  texts : ∀ r ∈ s.store.ledger.eventCopies.rows, ∃ e ∈ s.log r.taskId r.sourceId,
    e.seq = r.sourceSeq ∧ StandsFor dump e r.eventJson

/-- What nobody takes back: logs and prefixes only grow. -/
structure Grows (s s' : Mirror) : Prop where
  log : ∀ t c, s.log t c <+: s'.log t c
  mark : ∀ t c, s.mark t c ≤ s'.mark t c

theorem Grows.refl (s : Mirror) : Grows s s := ⟨fun _ _ => List.prefix_rfl, fun _ _ => Nat.le_refl _⟩

theorem Grows.trans {s s' s'' : Mirror} (h : Grows s s') (h' : Grows s' s'') : Grows s s'' :=
  ⟨fun t c => (h.log t c).trans (h'.log t c), fun t c => (h.mark t c).trans (h'.mark t c)⟩

/-- The events of a page are a piece of the log behind a position that is copied. -/
structure Piece (s : Mirror) (t : TaskId) (c : ConversationId) (after : Nat) (es : List Event) :
    Prop where
  reached : after ≤ s.mark t c
  events : es <+: (s.log t c).drop after

theorem Piece.grows {s s' : Mirror} {t : TaskId} {c : ConversationId} {after : Nat}
    {es : List Event} (h : Piece s t c after es) (hg : Grows s s') : Piece s' t c after es :=
  ⟨h.reached.trans (hg.mark t c), h.events.trans ((hg.log t c).drop after)⟩

variable {dump : Event → String} {s : Mirror} {t : TaskId} {c : ConversationId} {after : Nat}
  {es : List Event}

theorem Piece.seqs (hs : Faithful dump s) (h : Piece s t c after es) :
    es.map Event.seq = List.range' (after + 1) es.length := by
  obtain ⟨rest, hrest⟩ := h.events
  have hdrop : ((s.log t c).drop after).map Event.seq =
      List.range' (after + 1) ((s.log t c).length - after) := by
    rw [List.map_drop, hs.log t c, List.drop_range']
    simp [Nat.add_comm]
  rw [← hrest, List.map_append] at hdrop
  obtain ⟨k, -, hes, -⟩ := List.range'_eq_append_iff.mp hdrop.symm
  have hk : es.length = k := by
    rw [← List.length_map (f := Event.seq), hes, List.length_range']
  rw [hes, hk]

theorem Piece.last (hs : Faithful dump s) (h : Piece s t c after es) (hne : es ≠ []) :
    (es.getLast hne).seq = after + es.length := by
  have hmap : (es.map Event.seq).getLast (by simpa using hne) = (es.getLast hne).seq :=
    List.getLast_map ..
  have hlen : 0 < es.length := List.length_pos_of_ne_nil hne
  simp only [h.seqs hs, List.getLast_range'] at hmap
  omega

/-- The state after a transaction of the ledger. -/
def withLedger (s : Mirror) (l : Ledger) : Mirror := { s with store := { s.store with ledger := l } }

/-- A transaction that leaves the event tables alone. -/
structure Still (l l' : Ledger) : Prop where
  counters : l'.eventCounters = l.eventCounters
  identities : l'.eventIdentities = l.eventIdentities
  copies : l'.eventCopies = l.eventCopies
  cursors : l'.eventSourceCursors = l.eventSourceCursors

theorem Still.refl (l : Ledger) : Still l l := ⟨rfl, rfl, rfl, rfl⟩

theorem Faithful.still {store : Store} (hs : Faithful dump s) (hv : store.version = schemaVersion)
    (h : Still s.store.ledger store.ledger) :
    Faithful dump { s with store } ∧ Grows s { s with store } := by
  have hmark : ∀ t c, Mirror.mark { s with store } t c = s.mark t c := by
    intro t c
    simp only [Mirror.mark, Ledger.eventSourceCursor, h.cursors]
  have hids : ∀ t, identitiesOf t store.ledger = identitiesOf t s.store.ledger := by
    intro t
    rw [identitiesOf, h.identities, identitiesOf]
  refine ⟨?_, fun _ _ => List.prefix_rfl, fun t c => (hmark t c).ge⟩
  constructor
  case version => exact hv
  case numbered => exact hs.numbered.of_quiet ⟨h.counters, h.identities, h.copies ▸ .refl _⟩
  case whole =>
    show store.ledger.eventCopies.rows.map identityOf = store.ledger.eventIdentities.rows
    rw [h.copies, h.identities]
    exact hs.whole
  case log => exact hs.log
  case seqs =>
    intro t c
    rw [hmark, ← hs.seqs t c]
    show seqsAmong c ((identitiesOf t store.ledger).map sourcePair) = _
    rw [hids]
    rfl
  case bounded =>
    intro t c
    rw [hmark]
    exact hs.bounded t c
  case texts =>
    intro r hr
    exact hs.texts r (h.copies ▸ hr)

/-- Copying a piece of a log extends its prefix, and no other. -/
theorem Faithful.copyPage {payload : Event → Nat → String} {ins : List (Nat × String)} {l' : Ledger}
    (hs : Faithful dump s) (hp : Piece s t c after es) (hne : es ≠ [])
    (hstored : ∀ e bytes, StandsFor dump e (payload e bytes))
    (h : s.store.ledger.copyTaskEventPage s.clock payload t c es = (.ok ins, l')) :
    Faithful dump (s.withLedger l') ∧ Grows s (s.withLedger l') ∧
      after + es.length ≤ (s.withLedger l').mark t c := by
  have hcopied : Copied t (pagePairs c es) s.store.ledger l' := by
    rcases hs.numbered.copyTaskEventPage s.clock t c payload es with ⟨x, hx⟩ | ⟨ins', l₂, hx, hcop⟩
    · rw [h] at hx
      simp at hx
    · rw [h] at hx
      obtain ⟨-, rfl⟩ := Prod.mk.inj hx
      exact hcop
  obtain ⟨new, happ⟩ := hcopied.appended
  have hmark : ∀ u d, (s.withLedger l').mark u d =
      if u = t ∧ d = c then max (s.mark t c) (after + es.length) else s.mark u d := by
    intro u d
    rw [← hp.last hs hne]
    exact eventSourceCursor_page hne h u d
  have hpairs : pagePairs c es = (List.range' (after + 1) es.length).map fun n => (c, n) := by
    rw [← hp.seqs hs, List.map_map]
    rfl
  have hend : after + es.length ≤ (s.log t c).length := by
    have hle := hp.events.length_le
    rw [List.length_drop] at hle
    have hpos : 0 < es.length := List.length_pos_of_ne_nil hne
    omega
  refine ⟨?_, ⟨fun _ _ => List.prefix_rfl, fun u d => ?_⟩, ?_⟩
  · constructor
    case version => exact hs.version
    case numbered => exact hcopied.numbered
    case whole =>
      obtain ⟨cs, hcs, hrows⟩ := happ.copies
      show l'.eventCopies.rows.map identityOf = l'.eventIdentities.rows
      rw [hrows, List.map_append, hs.whole, hcs, happ.identities]
    case log => exact hs.log
    case seqs =>
      intro u d
      rw [hmark]
      show seqsAmong d ((identitiesOf u l').map sourcePair) = _
      by_cases hu : u = t
      · subst hu
        rw [hcopied.seen, hpairs, seqsAmong_firstSeen]
        by_cases hd : d = c
        · subst hd
          rw [if_pos rfl, if_pos ⟨rfl, rfl⟩, ← firstSeen_range es.length hp.reached]
          exact congrArg (firstSeen · _) (hs.seqs u d)
        · rw [if_neg (Ne.symm hd), if_neg (fun h => hd h.2)]
          exact hs.seqs u d
      · rw [happ.identitiesOf_other hu, if_neg (fun h => hu h.1)]
        exact hs.seqs u d
    case bounded =>
      intro u d
      rw [hmark]
      by_cases hud : u = t ∧ d = c
      · obtain ⟨rfl, rfl⟩ := hud
        rw [if_pos ⟨rfl, rfl⟩]
        exact max_le (hs.bounded u d) hend
      · rw [if_neg hud]
        exact hs.bounded u d
    case texts =>
      intro r hr
      obtain ⟨l₁, hins, rfl⟩ := copyTaskEventPage_ok hne h
      have hr₁ : r ∈ (s.store.ledger.insertTaskEvents s.clock payload t c es
          (s.store.ledger.logBytes t) []).2.eventCopies.rows := by
        rw [hins]
        exact hr
      rcases insertTaskEvents_copies hr₁ with hold | ⟨e, he, rfl, rfl, hseq, bytes, htext⟩
      · exact hs.texts r hold
      · exact ⟨e, List.mem_of_mem_drop (hp.events.subset he), hseq.symm, htext ▸ hstored e bytes⟩
  · rw [hmark]
    split
    next hud =>
      obtain ⟨rfl, rfl⟩ := hud
      exact le_max_left _ _
    next => exact Nat.le_refl _
  · rw [hmark, if_pos ⟨rfl, rfl⟩]
    exact le_max_right _ _

/-! ### Happenings -/

theorem still_purgeTombstones {rows : List Tombstone} {l l' : Ledger}
    (h : l.purgeTombstones rows = (.ok (), l')) : Still l l' := by
  induction rows generalizing l with
  | nil =>
      obtain ⟨-, rfl⟩ := Prod.mk.inj h
      exact .refl l
  | cons r rows ih =>
      simp only [Ledger.purgeTombstones, Ledger.purgeTombstone] at h
      split at h
      · simp at h
      next l₁ hr =>
        split at hr
        · simp at hr
        · obtain ⟨-, rfl⟩ := Prod.mk.inj hr
          have hrest := ih h
          exact ⟨hrest.counters, hrest.identities, hrest.copies, hrest.cursors⟩

theorem still_exec (now : Time) (c : LedgerCall) (l : Ledger)
    (hc : leavesEvents (.store (.call c)) = true) : Still l (c.exec now l).2 := by
  cases c
  case copyTaskEventPage => cases hc
  case expireTerminalPayloads => cases hc
  case purgeExpiredTombstones b =>
    simp only [LedgerCall.exec, Ledger.purgeExpiredTombstones]
    split
    · exact .refl l
    next l' hx =>
      have hst := still_purgeTombstones hx
      exact ⟨hst.counters, hst.identities, hst.copies, hst.cursors⟩
  all_goals
    simp only [LedgerCall.exec, Ledger.reserveNext, Ledger.updateReservation,
      Ledger.markSandboxLost, Ledger.recordBaseSha, Ledger.beginSandboxCreation,
      Ledger.setSandboxCredentialVersion, Ledger.updateSandboxCreation,
      Ledger.beginPublication, Ledger.beginSupervision, Ledger.updateSupervision,
      Ledger.saveTaskMessageReceipt, Ledger.archiveTaskResult, Ledger.finishTask,
      Ledger.tryMarkSleeping]
    repeat' split
    all_goals exact ⟨rfl, rfl, rfl, rfl⟩

theorem still_apply {valid : String → Bool} {now : Time} {op : LedgerOp} {store store' : Store}
    (hv : store.version = schemaVersion) (hop : leavesEvents op = true)
    (h : op.apply valid now store = some store') : Still store.ledger store'.ledger := by
  cases op with
  | store op =>
      rcases apply_cases hv h with rfl | ⟨id, q, -, -, rfl⟩ | ⟨c, rfl, rfl⟩
      · exact .refl _
      · simp only [submission, Ledger.submit]
        repeat' split
        all_goals exact ⟨rfl, rfl, rfl, rfl⟩
      · exact still_exec now c store.ledger hop
  | copyTaskEvent => cases hop
  | deleteCopies => cases hop
  | _ =>
      obtain rfl := Option.some.inj h
      simp only [LedgerOp.exec, Ledger.beginPublication, Ledger.updatePublication,
        Ledger.beginSupervision]
      repeat' split
      all_goals exact ⟨rfl, rfl, rfl, rfl⟩

/-- An event is appended under the next number. -/
theorem Faithful.append {s' : Mirror} (hs : Faithful dump s) (event : Event)
    (hseq : event.seq = (s.log t c).length + 1) (hstore : s'.store = s.store)
    (hlog : ∀ u d, s'.log u d = if u = t ∧ d = c then s.log t c ++ [event] else s.log u d) :
    Faithful dump s' ∧ Grows s s' := by
  have hmark : ∀ u d, s'.mark u d = s.mark u d := by
    intro u d
    rw [mark, hstore, mark]
  have hgrow : ∀ u d, s.log u d <+: s'.log u d := by
    intro u d
    rw [hlog]
    split
    next hud =>
      obtain ⟨rfl, rfl⟩ := hud
      exact List.prefix_append _ _
    next => exact List.prefix_rfl
  refine ⟨?_, hgrow, fun u d => (hmark u d).ge⟩
  constructor
  case version => exact hstore ▸ hs.version
  case numbered => exact hstore ▸ hs.numbered
  case whole => exact hstore ▸ hs.whole
  case log =>
    intro u d
    rw [hlog]
    split
    next =>
      rw [List.map_append, hs.log t c, List.length_append, List.length_singleton,
        List.range'_concat, List.map_singleton, hseq, Nat.one_mul, Nat.add_comm 1]
    next => exact hs.log u d
  case seqs =>
    intro u d
    rw [hmark, hstore]
    exact hs.seqs u d
  case bounded =>
    intro u d
    rw [hmark]
    exact (hs.bounded u d).trans (hgrow u d).length_le
  case texts =>
    intro r hr
    obtain ⟨e, he, hrest⟩ := hs.texts r (hstore ▸ hr)
    exact ⟨e, (hgrow _ _).subset he, hrest⟩

theorem Faithful.happening {e : Happening} {s' : Mirror} (hs : Faithful dump s)
    (h : e.apply s = some s') : Faithful dump s' ∧ Grows s s' := by
  cases e with
  | append t c kind payload =>
      obtain rfl := Option.some.inj h
      refine hs.append ⟨(s.log t c).length + 1, kind, payload⟩ rfl rfl ?_
      intro u d
      dsimp only
      by_cases hu : u = t
      · subst hu
        by_cases hd : d = c
        · subst hd
          simp
        · simp [hd]
      · simp [hu]
  | tick n =>
      obtain rfl := Option.some.inj h
      exact ⟨⟨hs.version, hs.numbered, hs.whole, hs.log, hs.seqs, hs.bounded, hs.texts⟩,
        fun _ _ => List.prefix_rfl, fun _ _ => Nat.le_refl _⟩
  | ledger op =>
      simp only [Happening.apply] at h
      split at h
      next hop =>
        obtain ⟨store, hstore, rfl⟩ := Option.map_eq_some_iff.mp h
        exact hs.still (version_applyAll hs.version hstore) (still_apply hs.version hop hstore)
      next => simp at h
  | crash =>
      obtain rfl := Option.some.inj h
      exact ⟨hs, .refl s⟩

end Mirror

/-! ### A run -/

section

open Mirror Co

variable {cfg : Config} {dump : Event → String} {p : RunId}

abbrev Hist := List (Entry Call.Out Mirror)

/-- What a run relies on and owes: the ledger mirrors the logs, and nothing is taken back. -/
def runContract (cfg : Config) (dump : Event → String) (p : RunId) :
    Prog.Contract Call.Out (Mirror × Hist) :=
  Machine.contract (M := mirror cfg) {} (Faithful dump) (fun _ => Grows) (fun _ => Grows) p

/-- The sandbox has answered a request of the run with 404. -/
def Missing (p : RunId) (h : Hist) : Prop :=
  ∃ after limit s, ⟨.ext (.conversationEvents p.task p.conversation after limit), .ok .notFound, s⟩ ∈ h

/-- All that was in the log at some request of the run is copied. -/
def CaughtUp (p : RunId) (s : Mirror) (h : Hist) : Prop :=
  ∃ e ∈ h, (e.found.log p.task p.conversation).length ≤ s.mark p.task p.conversation

/-- The obligation of one call. -/
theorem safe_call {α : Type} {c : Call} {k : c.Out → Prog Call.Out (Except Exn α)}
    {post : α → Mirror × Hist → Prop} {exn : Exn → Mirror × Hist → Prop} {s : Mirror} {h : Hist}
    (H : ∀ s₁ o r s₂, Faithful dump s₁ → Grows s s₁ → s₁.answer p o c = some (r, s₂) →
      Faithful dump s₂ ∧ Grows s₁ s₂ ∧
        Safe (runContract cfg dump p) (ExceptT.mk (k r)) post exn (s₂, ⟨c, r, s₁⟩ :: h)) :
    Safe (runContract cfg dump p) (ExceptT.mk (Prog.call c k)) post exn (s, h) := by
  rintro ⟨s₁, h₁⟩ hinv ⟨hrely, hh⟩ r ⟨s₂, h₂⟩ ⟨-, ⟨o, ho⟩, hh₂⟩
  obtain rfl : h₁ = h := hh
  obtain rfl : h₂ = _ := hh₂
  obtain ⟨hinv₂, hguar, hk⟩ := H s₁ o r s₂ hinv hrely ho
  exact ⟨hinv₂, ⟨hguar, Machine.Cond.last_trivial p _⟩, hk⟩

/-- One round of the loop of `_sync_events`. -/
def syncRound (cfg : Config) (t : TaskId) (c : ConversationId) (after : Nat) :
    Routine (Nat ⊕ Unit) := do
  match ← ofReply (← ext (.conversationEvents t c after 200)) with
  | .notFound => pure (.inr ())
  | .page [] => pure (.inr ())
  | .page (e :: es) =>
    if e.seq ≤ after then
      throw (.valueError "sandbox event page did not advance source cursor")
    else
      let _ ← db (.copyTaskEventPage cfg.eventPayload t c (e :: es))
      if (e :: es).length < 200 then pure (.inr ())
      else pure (.inl ((e :: es).getLast (List.cons_ne_nil e es)).seq)

/-- What is known of the answer to a request for a page after `after`. -/
def Fetched (p : RunId) (after : Nat) (s : Mirror) (h : Hist) : Except Exn EventPage → Prop
  | .ok (.page es) => Piece s p.task p.conversation after es ∧
      (∀ hne, (es.getLast hne).seq = after + es.length) ∧
      (es.length < 200 →
        ∃ e ∈ h, (e.found.log p.task p.conversation).length ≤ after + es.length)
  | .ok .notFound => Missing p h
  | .error _ => True

theorem safe_fetch {after : Nat} {s : Mirror} {h : Hist} {exn : Exn → Mirror × Hist → Prop}
    (hs : after ≤ s.mark p.task p.conversation) :
    Safe (runContract cfg dump p) (ext (.conversationEvents p.task p.conversation after 200))
      (fun r w => Fetched p after w.1 w.2 r) exn (s, h) := by
  apply safe_call
  intro s₁ o r s₂ hinv hgrow ho
  simp only [Mirror.answer] at ho
  split at ho
  · obtain ⟨rfl, rfl⟩ := Prod.mk.inj (Option.some.inj ho)
    exact ⟨hinv, .refl s₁, trivial⟩
  · split at ho
    · obtain ⟨rfl, rfl⟩ := Prod.mk.inj (Option.some.inj ho)
      exact ⟨hinv, .refl s₁, after, 200, s₁, List.mem_cons_self⟩
    · obtain ⟨rfl, rfl⟩ := Prod.mk.inj (Option.some.inj ho)
      have hp : Piece s₁ p.task p.conversation after
          (servedPage (s₁.log p.task p.conversation) after 200) :=
        ⟨hs.trans (hgrow.mark _ _), List.take_prefix _ _⟩
      refine ⟨hinv, .refl s₁, hp, fun hne => hp.last hinv hne, ?_⟩
      · intro hlen
        refine ⟨_, List.mem_cons_self, ?_⟩
        simp only [servedPage, List.length_take, List.length_drop] at hlen ⊢
        omega

theorem safe_copy {after : Nat} {es : List Event} {s : Mirror} {h : Hist} (hne : es ≠ [])
    (hstored : ∀ e bytes, StandsFor dump e (cfg.eventPayload e bytes))
    (hp : Piece s p.task p.conversation after es) :
    Safe (runContract cfg dump p)
      (db (.copyTaskEventPage cfg.eventPayload p.task p.conversation es))
      (fun _ w => after + es.length ≤ w.1.mark p.task p.conversation ∧ h ⊆ w.2)
      (fun _ _ => True) (s, h) := by
  apply safe_call
  intro s₁ o r s₂ hinv hgrow ho
  simp only [Mirror.answer] at ho
  split at ho
  · obtain ⟨rfl, rfl⟩ := Prod.mk.inj (Option.some.inj ho)
    exact ⟨hinv, .refl s₁, trivial⟩
  · obtain ⟨rfl, rfl⟩ := Prod.mk.inj (Option.some.inj ho)
    have hp₁ := hp.grows hgrow
    simp only [LedgerCall.exec]
    rcases hinv.numbered.copyTaskEventPage s₁.clock p.task p.conversation cfg.eventPayload es with
      ⟨x, hx⟩ | ⟨ins, l', hx, -⟩
    · rw [hx]
      exact ⟨hinv, .refl s₁, trivial⟩
    · rw [hx]
      obtain ⟨hinv₂, hgrow₂, hmark⟩ := hinv.copyPage hp₁ hne hstored hx
      exact ⟨hinv₂, hgrow₂, hmark, List.subset_cons_self _ _⟩

/-- A round goes on from a position that is copied, or returns with all copied that the
log held at the last request. -/
theorem safe_round {after : Nat} {s : Mirror} {h : Hist}
    (hstored : ∀ e bytes, StandsFor dump e (cfg.eventPayload e bytes))
    (hs : after ≤ s.mark p.task p.conversation) :
    Safe (runContract cfg dump p) (syncRound cfg p.task p.conversation after)
      (fun r w => match r with
        | .inl after => after ≤ w.1.mark p.task p.conversation
        | .inr () => Missing p w.2 ∨ CaughtUp p w.1 w.2) (fun _ _ => True) (s, h) := by
  refine Safe.seq (safe_fetch hs) fun reply w hw => ?_
  obtain ⟨s₁, h₁⟩ := w
  cases reply with
  | error x => trivial
  | ok page =>
      cases page with
      | notFound => exact .inl hw
      | page es =>
          obtain ⟨hp, hlast, hshort⟩ := hw
          cases es with
          | nil =>
              -- The log ended where the ledger had arrived already.
              obtain ⟨e, he, hle⟩ := hshort (by simp)
              exact .inr ⟨e, he, hle.trans hp.reached⟩
          | cons e es =>
              show Safe _ (ite _ _ _) _ _ _
              split
              · trivial
              · refine Safe.seq (safe_copy (List.cons_ne_nil e es) hstored hp) fun _ w hw => ?_
                obtain ⟨s₂, h₂⟩ := w
                obtain ⟨hmark, hsub⟩ := hw
                dsimp only at hmark hsub
                show Safe _ (ite _ _ _) _ _ _
                split
                next hlt =>
                  obtain ⟨e', he', hle⟩ := hshort hlt
                  exact .inr ⟨e', hsub he', hle.trans hmark⟩
                next => exact (hlast (List.cons_ne_nil e es)).trans_le hmark

/-- The ledger and the logs before anything has happened. -/
def start : Pool RunId Call.Out (Except Exn Unit) Mirror := ⟨.init, fun _ => none⟩

end

/-- A task, three events of conversation 5, and two runs that both ask before either copies;
the first is cut off by a crash, and a third run finishes after an append. -/
def overlapping (cfg : Config) : List (mirror cfg).Act :=
  let first : RunId := ⟨1, 5, 0⟩
  let second : RunId := ⟨1, 5, 1⟩
  let third : RunId := ⟨1, 5, 2⟩
  [.event (.ledger (.store (.submit 1 evidenceRequest))), .event (.append 1 5 "a" []),
   .start first (), .start second (), .call first {}, .call first { rounds := 3 }, .call first {},
   .event (.append 1 5 "b" []), .call second {}, .call second { rounds := 3 }, .call second {},
   .call second {}, .call first {}, .event (.append 1 5 "c" []), .event .crash,
   .start third (), .call third {}, .call third { rounds := 3 }, .call third {}]

/-- A deployment that stores the kind of an event as its text, without a limit. -/
def overlappingConfig : Config where
  deployment := "sample"
  sandboxName := fun _ => "gg-sample"
  capacity := 1
  admissionEnabled := true
  hasVault := false
  hasVerifier := false
  hasAuthorization := false
  eventPayload := storedText Event.kind none
  terminalRetention := 30
  tombstoneRetention := 90

end GgAgent.Events
