import GgAgent.Events.Mirror
import GgAgent.Lib.Json
import Mathlib.Algebra.Order.BigOperators.Group.List

/-!
The bytes of the copied events of a task, under the cap on its log.

A page is copied in one transaction, with a running total that starts at the bytes that are
stored for the task and grows with each copy. An event that is known takes no room. What is
stored for a new event is cut to the room that is left; when nothing helps it is one of two
stubs, which are the only copies that may go over the cap.
-/

namespace GgAgent.Storage

open GgAgent.Lib GgAgent.Backend GgAgent.Records
open GgAgent.Events (copyTaskEventPage_ok truncateEventJson storedText shortenTexts StandsFor standsFor_storedText)

/-! ### The text of a copy -/

section Texts

variable (dump : Event → String)

/-- The text is what is stored when no room is left, or when no shortening helps. -/
def Stub (e : Event) (text : String) : Prop :=
  text = dump { e with payload := [("storage", .text "event omitted; per-task log cap reached")] } ∨
    text = dump { e with
      payload := [("storage", .text "event truncated"),
        ("detail", .text "[truncated by storage policy]")] }

/-- A text that is stored for an event when `total` bytes are stored already: it keeps the
number and the kind of the event, and it is the event itself if there is room for it, or it
fits into the room that is left, or it is a stub. -/
structure Accounted (cap total : Nat) (e : Event) (text : String) : Prop where
  standsFor : StandsFor dump e text
  full : total < cap → (dump e).utf8ByteSize ≤ cap - total → text = dump e
  room : total < cap ∧ text.utf8ByteSize ≤ cap - total ∨ Stub dump e text

variable {dump}

theorem utf8ByteSize_shortenTexts {e : Event} {remaining : Nat} {keys : List String}
    {payload : List (String × PayloadValue)} {text : String}
    (h : shortenTexts dump e remaining keys payload = some text) :
    text.utf8ByteSize ≤ remaining := by
  induction keys generalizing payload with
  | nil => cases h
  | cons key keys ih =>
      simp only [shortenTexts] at h
      split at h
      · split at h
        next hfits =>
          obtain rfl := Option.some.inj h
          exact hfits
        next => exact ih h
      · exact ih h

theorem accounted_storedText (cap total : Nat) (e : Event) :
    Accounted dump cap total e (storedText dump (some cap) e total) := by
  refine ⟨standsFor_storedText (some cap) e total, ?_, ?_⟩
  · intro hroom hfits
    have hpos : cap - total ≠ 0 := by omega
    simp only [storedText, truncateEventJson, hpos, if_false, hfits, if_true]
  · simp only [storedText, truncateEventJson]
    split
    · exact .inr (.inl rfl)
    next hpos =>
      have hroom : total < cap := by omega
      split
      next hfits => exact .inl ⟨hroom, hfits⟩
      next =>
        split
        next text htext => exact .inl ⟨hroom, utf8ByteSize_shortenTexts htext⟩
        next => exact .inr (.inr rfl)

end Texts

/-! ### One copy -/

section Copies

variable {now : Time} {payload : Event → Nat → String} {t : TaskId} {source : ConversationId}
  {l l' : Ledger}

/-- The copies of a task. -/
def copiesOf (t : TaskId) (l : Ledger) : List EventCopy :=
  l.eventCopies.rows.filter fun c => c.taskId = t

theorem logBytes_eq (t : TaskId) (l : Ledger) :
    l.logBytes t = ((copiesOf t l).map fun c => c.eventJson.utf8ByteSize).sum := rfl

/-- A copy that is made stands behind the others. -/
theorem insertTaskEvent_new (hl : Numbered l) {seq cursor : Nat} {text : String}
    (h : l.insertTaskEvent now t source seq text = (.ok (some cursor), l')) :
    ∃ c : EventCopy, l'.eventCopies.rows = l.eventCopies.rows ++ [c] ∧ c.taskId = t ∧
      c.sourceSeq = seq ∧ c.eventJson = text := by
  unfold Ledger.insertTaskEvent at h
  split at h
  · cases (Prod.mk.inj h).1
  next hnone =>
    split at h
    next =>
      obtain ⟨-, rfl⟩ := Prod.mk.inj h
      have hcur : (l.eventCounters.find? t).elim 1 (fun c => c.value + 1) =
          (identitiesOf t l).length + 1 := by
        rw [hl.counter t]
        by_cases he : identitiesOf t l = [] <;> simp [he]
      refine ⟨_, Table.rows_insert ?_, rfl, rfl, rfl⟩
      rw [hcur]
      exact hl.copy_none t
    next => cases (Prod.mk.inj h).1

theorem insertTaskEvent_known {seq : Nat} {text : String}
    (h : l.insertTaskEvent now t source seq text = (.ok none, l')) : l' = l := by
  unfold Ledger.insertTaskEvent at h
  split at h
  · exact (Prod.mk.inj h).2.symm
  · split at h
    · cases (Prod.mk.inj h).1
    · cases (Prod.mk.inj h).1

theorem logBytes_append {c : EventCopy} (hc : c.taskId = t)
    (h : l'.eventCopies.rows = l.eventCopies.rows ++ [c]) :
    l'.logBytes t = l.logBytes t + c.eventJson.utf8ByteSize := by
  simp [Ledger.logBytes, h, hc]

/-! ### A page -/

/-- One round of the loop over a page. -/
structure Round (now : Time) (payload : Event → Nat → String) (t : TaskId) (source : ConversationId)
    (e : Event) (done : List (Nat × String)) (l l₁ : Ledger) (done₁ : List (Nat × String)) : Prop where
  numbered : Numbered l₁
  rest : ∀ es, l.insertTaskEvents now payload t source (e :: es) (l.logBytes t) done =
    l₁.insertTaskEvents now payload t source es (l₁.logBytes t) done₁
  stored : l₁ = l ∨ ∃ c : EventCopy, l₁.eventCopies.rows = l.eventCopies.rows ++ [c] ∧
    c.taskId = t ∧ c.sourceSeq = e.seq ∧ c.eventJson = payload e (l.logBytes t)

theorem round_of_insertTaskEvents (hl : Numbered l) {e : Event} {es : List Event}
    {done ins : List (Nat × String)}
    (h : l.insertTaskEvents now payload t source (e :: es) (l.logBytes t) done = (.ok ins, l')) :
    ∃ l₁ done₁, Round now payload t source e done l l₁ done₁ := by
  simp only [Ledger.insertTaskEvents] at h
  have hinsertion := hl.insertTaskEvent now t source e.seq (payload e (l.logBytes t))
  cases hone : l.insertTaskEvent now t source e.seq (payload e (l.logBytes t)) with
  | mk a l₁ =>
      rw [hone] at h hinsertion
      cases a with
      | error x => cases (Prod.mk.inj h).1
      | ok o =>
          have hnumbered := (hinsertion.copied hl).numbered
          cases o with
          | none =>
              obtain rfl := insertTaskEvent_known hone
              refine ⟨l₁, done, hl, fun es => ?_, .inl rfl⟩
              simp only [Ledger.insertTaskEvents, hone]
          | some cursor =>
              obtain ⟨c, hrows, htask, hseq, hjson⟩ := insertTaskEvent_new hl hone
              have hbytes := logBytes_append htask hrows
              rw [hjson] at hbytes
              refine ⟨l₁, (cursor, payload e (l.logBytes t)) :: done, hnumbered, fun es => ?_,
                .inr ⟨c, hrows, htask, hseq, hjson⟩⟩
              simp only [Ledger.insertTaskEvents, hone, hbytes]

/-- The loop over a page goes on, after its first events, with the bytes that are stored for
the task at that moment. -/
theorem insertTaskEvents_total (hl : Numbered l) {before : List Event} {done ins : List (Nat × String)}
    (h : l.insertTaskEvents now payload t source before (l.logBytes t) done = (.ok ins, l'))
    (rest : List Event) :
    l.insertTaskEvents now payload t source (before ++ rest) (l.logBytes t) done =
      l'.insertTaskEvents now payload t source rest (l'.logBytes t) ins.reverse := by
  induction before generalizing done l with
  | nil =>
      obtain ⟨hins, rfl⟩ := Prod.mk.inj h
      obtain rfl := Except.ok.inj hins
      rw [List.reverse_reverse, List.nil_append]
  | cons e before ih =>
      obtain ⟨l₁, done₁, hround⟩ := round_of_insertTaskEvents hl h
      rw [hround.rest] at h
      rw [List.cons_append, hround.rest]
      exact ih hround.numbered h

/-- A page that is copied has copied its first events. -/
theorem insertTaskEvents_before (hl : Numbered l) {before rest : List Event}
    {done ins : List (Nat × String)}
    (h : l.insertTaskEvents now payload t source (before ++ rest) (l.logBytes t) done =
      (.ok ins, l')) :
    ∃ ins₁ l₁, l.insertTaskEvents now payload t source before (l.logBytes t) done =
      (.ok ins₁, l₁) := by
  induction before generalizing done l with
  | nil => exact ⟨_, l, rfl⟩
  | cons e before ih =>
      obtain ⟨l₁, done₁, hround⟩ := round_of_insertTaskEvents hl h
      rw [List.cons_append, hround.rest] at h
      obtain ⟨ins₁, l₂, hbefore⟩ := ih hround.numbered h
      exact ⟨ins₁, l₂, by rw [hround.rest]; exact hbefore⟩

/-- The copy was stored for an event of the page, with the bytes that were stored for the task
at that moment. -/
def CopyOf (now : Time) (payload : Event → Nat → String) (t : TaskId) (source : ConversationId)
    (events : List Event) (done : List (Nat × String)) (l : Ledger) (c : EventCopy) : Prop :=
  ∃ before e after ins l₁, events = before ++ e :: after ∧
    l.insertTaskEvents now payload t source before (l.logBytes t) done = (.ok ins, l₁) ∧
    c.taskId = t ∧ c.sourceSeq = e.seq ∧ c.eventJson = payload e (l₁.logBytes t)

theorem copyOf_insertTaskEvents (hl : Numbered l) {events : List Event}
    {done ins : List (Nat × String)}
    (h : l.insertTaskEvents now payload t source events (l.logBytes t) done = (.ok ins, l')) :
    ∀ c ∈ l'.eventCopies.rows, c ∈ l.eventCopies.rows ∨
      CopyOf now payload t source events done l c := by
  induction events generalizing done l with
  | nil =>
      obtain ⟨-, rfl⟩ := Prod.mk.inj h
      exact fun c hc => .inl hc
  | cons e events ih =>
      obtain ⟨l₁, done₁, hround⟩ := round_of_insertTaskEvents hl h
      intro c hc
      have hfirst : l.insertTaskEvents now payload t source [] (l.logBytes t) done =
          (.ok done.reverse, l) := rfl
      rcases ih hround.numbered (by rw [← hround.rest]; exact h) c hc with
        hold | ⟨before, e', after, ins', l₂, rfl, hbefore, hc'⟩
      · rcases hround.stored with rfl | ⟨c₁, hrows, htask, hseq, hjson⟩
        · exact .inl hold
        · rw [hrows] at hold
          rcases List.mem_append.mp hold with hold | hnew
          · exact .inl hold
          · obtain rfl := List.mem_singleton.mp hnew
            exact .inr ⟨[], e, events, _, l, rfl, hfirst, htask, hseq, hjson⟩
      · refine .inr ⟨e :: before, e', after, ins', l₂, rfl, ?_, hc'⟩
        rw [hround.rest]
        exact hbefore

end Copies

/-! ### Pages under a cap -/

section Capped

variable {dump : Event → String} {now : Time} {t : TaskId} {source : ConversationId} {cap : Nat}
  {l l' : Ledger}

variable (dump) in
/-- No stubs: the copies whose bytes are bounded. -/
def NoStub (cs : List EventCopy) : Prop := ∀ c ∈ cs, ∀ e, ¬ Stub dump e c.eventJson

variable (dump) in
/-- The copies of a task that are no stubs take at most `cap` bytes. -/
def Within (cap : Nat) (t : TaskId) (l : Ledger) : Prop :=
  ∀ cs, cs.Sublist (copiesOf t l) → NoStub dump cs →
    (cs.map fun c => c.eventJson.utf8ByteSize).sum ≤ cap

/-- One copy more. -/
theorem within_append {c : EventCopy} {e : Event} (hw : Within dump cap t l)
    (hrows : l'.eventCopies.rows = l.eventCopies.rows ++ [c]) (htask : c.taskId = t)
    (hc : Accounted dump cap (l.logBytes t) e c.eventJson) : Within dump cap t l' := by
  intro cs hcs hno
  have hcopies : copiesOf t l' = copiesOf t l ++ [c] := by simp [copiesOf, hrows, htask]
  rw [hcopies] at hcs
  obtain ⟨as, bs, rfl, has, hbs⟩ := List.sublist_append_iff.mp hcs
  have hno' : NoStub dump as := fun x hx => hno x (List.mem_append_left _ hx)
  cases bs with
  | nil =>
      rw [List.append_nil]
      exact hw as has hno'
  | cons b bs =>
      -- The new copy is counted, so it fits behind all that was stored.
      have hb : b :: bs = [c] := by
        rcases List.sublist_singleton.mp hbs with hnil | hone
        · cases hnil
        · exact hone
      rw [hb] at hno ⊢
      rcases hc.room with ⟨hroom, hfits⟩ | hstub
      · have hold : (as.map fun c => c.eventJson.utf8ByteSize).sum ≤ l.logBytes t :=
          (has.map _).sum_le_sum fun _ _ => Nat.zero_le _
        rw [List.map_append, List.sum_append, List.map_cons, List.map_nil, List.sum_singleton]
        omega
      · exact absurd hstub (hno c (by simp) e)

variable (dump) in
/-- What pages under the cap keep: the bound, and that a copy stands for an event of its
number. -/
structure Kept (cap : Nat) (t : TaskId) (l : Ledger) : Prop where
  within : Within dump cap t l
  standing : ∀ c ∈ copiesOf t l, ∃ e : Event, e.seq = c.sourceSeq ∧ StandsFor dump e c.eventJson

theorem Kept.of_copies (h : copiesOf t l' = copiesOf t l) (hk : Kept dump cap t l) :
    Kept dump cap t l' := by
  refine ⟨?_, ?_⟩
  · intro cs hcs
    rw [h] at hcs
    exact hk.within cs hcs
  · rw [h]
    exact hk.standing

theorem Kept.round {u : TaskId} {e : Event} {done done₁ : List (Nat × String)} {l₁ : Ledger}
    (hk : Kept dump cap t l)
    (h : Round now (storedText dump (some cap)) u source e done l l₁ done₁) : Kept dump cap t l₁ := by
  rcases h.stored with rfl | ⟨c, hrows, htask, hseq, hjson⟩
  · exact hk
  · by_cases hu : u = t
    · subst hu
      have hc : Accounted dump cap (l.logBytes u) e c.eventJson :=
        hjson ▸ accounted_storedText cap _ e
      refine ⟨within_append hk.within hrows htask hc, fun c' hc' => ?_⟩
      have hcopies : copiesOf u l₁ = copiesOf u l ++ [c] := by simp [copiesOf, hrows, htask]
      rw [hcopies] at hc'
      rcases List.mem_append.mp hc' with hold | hnew
      · exact hk.standing c' hold
      · obtain rfl := List.mem_singleton.mp hnew
        exact ⟨e, hseq.symm, hc.standsFor⟩
    · apply hk.of_copies
      simp [copiesOf, hrows, htask, hu]

theorem Kept.insertTaskEvents {u : TaskId} (hl : Numbered l) {events : List Event}
    {done ins : List (Nat × String)} (hk : Kept dump cap t l)
    (h : l.insertTaskEvents now (storedText dump (some cap)) u source events (l.logBytes u) done =
      (.ok ins, l')) : Kept dump cap t l' := by
  induction events generalizing done l with
  | nil =>
      obtain ⟨-, rfl⟩ := Prod.mk.inj h
      exact hk
  | cons e events ih =>
      obtain ⟨l₁, done₁, hround⟩ := round_of_insertTaskEvents hl h
      exact ih hround.numbered (hk.round hround) (by rw [← hround.rest]; exact h)

/-- A page under the cap: it is copied, and what is known of the loop holds of it, or nothing
is changed. -/
theorem page_cases (dump : Event → String) (cap : Nat) (now : Time) (t : TaskId)
    (source : ConversationId) (hl : Numbered l) (events : List Event) :
    (l.copyTaskEventPage now (storedText dump (some cap)) t source events).2 = l ∨
      ∃ ins l₁, l.insertTaskEvents now (storedText dump (some cap)) t source events (l.logBytes t) [] =
          (.ok ins, l₁) ∧ Numbered l₁ ∧
        (l.copyTaskEventPage now (storedText dump (some cap)) t source events).2.eventCopies =
          l₁.eventCopies := by
  cases hpage : l.copyTaskEventPage now (storedText dump (some cap)) t source events with
  | mk a l' =>
      by_cases hne : events = []
      · subst hne
        exact .inl (Prod.mk.inj hpage).2.symm
      cases a with
      | error x =>
          rcases hl.copyTaskEventPage now t source (storedText dump (some cap)) events with
            ⟨y, hy⟩ | ⟨ins, l₂, hok, -⟩
          · rw [hpage] at hy
            exact .inl (Prod.mk.inj hy).2
          · rw [hpage] at hok
            cases (Prod.mk.inj hok).1
      | ok ins =>
          obtain ⟨l₁, hins, rfl⟩ := copyTaskEventPage_ok hne hpage
          exact .inr ⟨ins, l₁, hins, (hl.insertTaskEvents now _ t source hins).numbered, rfl⟩

/-- A page of a source, for a task. -/
structure Page where
  now : Time
  task : TaskId
  source : ConversationId
  events : List Event

variable (dump cap) in
/-- Copy one page after the other. -/
def copyPages (l : Ledger) (pages : List Page) : Ledger :=
  pages.foldl (fun l page => (l.copyTaskEventPage page.now (storedText dump (some cap)) page.task
    page.source page.events).2) l

theorem Kept.page (hl : Numbered l) (hk : Kept dump cap t l) (now : Time) (u : TaskId)
    (source : ConversationId) (events : List Event) :
    Numbered (l.copyTaskEventPage now (storedText dump (some cap)) u source events).2 ∧
      Kept dump cap t (l.copyTaskEventPage now (storedText dump (some cap)) u source events).2 := by
  have hnumbered : Numbered (l.copyTaskEventPage now (storedText dump (some cap)) u source events).2 := by
    rcases hl.copyTaskEventPage now u source (storedText dump (some cap)) events with
      ⟨x, hx⟩ | ⟨ins, l', hok, hcopied⟩
    · rw [hx]
      exact hl
    · rw [hok]
      exact hcopied.numbered
  refine ⟨hnumbered, ?_⟩
  rcases page_cases dump cap now u source hl events with
    hsame | ⟨ins, l₁, hins, -, hcopies⟩
  · rw [hsame]
    exact hk
  · apply (hk.insertTaskEvents hl hins).of_copies
    rw [copiesOf, hcopies, copiesOf]

theorem Kept.pages (hl : Numbered l) (hk : Kept dump cap t l) (pages : List Page) :
    Kept dump cap t (copyPages dump cap l pages) := by
  induction pages generalizing l with
  | nil => exact hk
  | cons page pages ih =>
      obtain ⟨hl', hk'⟩ := hk.page hl page.now page.task page.source page.events
      exact ih hl' hk'

end Capped

/-! ### The log of a task -/

/-- The evidence of a log is accounted for. In a page that is copied, the running total is at
every event the number of bytes that are stored for the task, and every new copy keeps the
number and the kind of its event and is the whole event, fits into the room that is left, or is
a stub. After pages on a task that had no copies, those that are no stubs take at most `cap`
bytes, and all can be read back as events. -/
theorem log_accounted {jsonValid : String → Bool} {dump : Event → String}
    {parse : String → Option Event}
    (hparse : ∀ e, ∃ e', parse (dump e) = some e' ∧ e'.seq = e.seq ∧ e'.kind = e.kind)
    {ops : List (Time × LedgerOp)} {s : Store} (hs : runAll jsonValid initialized ops = some s)
    (cap : Nat) (t : TaskId) :
    (∀ now source events ins l', s.ledger.copyTaskEventPage now (storedText dump (some cap)) t source
        events = (.ok ins, l') →
      (∀ before rest, events = before ++ rest → ∃ ins₁ l₁,
        s.ledger.insertTaskEvents now (storedText dump (some cap)) t source before
          (s.ledger.logBytes t) [] = (.ok ins₁, l₁) ∧
        s.ledger.insertTaskEvents now (storedText dump (some cap)) t source events
          (s.ledger.logBytes t) [] =
            l₁.insertTaskEvents now (storedText dump (some cap)) t source rest (l₁.logBytes t)
              ins₁.reverse) ∧
      ∀ c ∈ copiesOf t l', c ∈ copiesOf t s.ledger ∨ ∃ before e after ins₁ l₁,
        events = before ++ e :: after ∧
        s.ledger.insertTaskEvents now (storedText dump (some cap)) t source before
          (s.ledger.logBytes t) [] = (.ok ins₁, l₁) ∧
        c.sourceSeq = e.seq ∧ Accounted dump cap (l₁.logBytes t) e c.eventJson) ∧
    (copiesOf t s.ledger = [] → ∀ pages,
      Within dump cap t (copyPages dump cap s.ledger pages) ∧
      ∀ c ∈ copiesOf t (copyPages dump cap s.ledger pages),
        ∃ e, parse c.eventJson = some e ∧ e.seq = c.sourceSeq) := by
  have hinit : initialized.Numbered := ⟨rfl, numbered_initialized⟩
  have hstore : s.Numbered := runAll_keeps (fun _ _ _ _ hs hop => hs.apply hop) hinit hs
  have hl : Numbered s.ledger := hstore.2
  constructor
  · intro now source events ins l' hpage
    by_cases hne : events = []
    · subst hne
      obtain ⟨-, rfl⟩ := Prod.mk.inj hpage
      refine ⟨?_, fun c hc => .inl hc⟩
      intro before rest hsplit
      obtain ⟨rfl, rfl⟩ := List.append_eq_nil_iff.mp hsplit.symm
      exact ⟨_, _, rfl, rfl⟩
    obtain ⟨l₁, hins, rfl⟩ := copyTaskEventPage_ok hne hpage
    constructor
    · intro before rest hsplit
      subst hsplit
      obtain ⟨ins₁, l₂, hbefore⟩ := insertTaskEvents_before hl hins
      exact ⟨ins₁, l₂, hbefore, insertTaskEvents_total hl hbefore rest⟩
    · intro c hc
      obtain ⟨hrow, htask⟩ := List.mem_filter.mp hc
      rcases copyOf_insertTaskEvents hl hins c hrow with
        hold | ⟨before, e, after, ins₁, l₂, hsplit, hbefore, -, hseq, hjson⟩
      · exact .inl (List.mem_filter.mpr ⟨hold, htask⟩)
      · exact .inr ⟨before, e, after, ins₁, l₂, hsplit, hbefore, hseq,
          hjson ▸ accounted_storedText cap _ e⟩
  · intro hnone pages
    have hkept : Kept dump cap t s.ledger := by
      refine ⟨fun cs hcs _ => ?_, fun c hc => ?_⟩
      · rw [hnone, List.sublist_nil] at hcs
        rw [hcs]
        exact Nat.zero_le _
      · rw [hnone] at hc
        cases hc
    have hpages := hkept.pages hl pages
    refine ⟨hpages.within, fun c hc => ?_⟩
    obtain ⟨e, hseq, e', hseq', -, htext⟩ := hpages.standing c hc
    obtain ⟨e'', hread, hseq'', -⟩ := hparse e'
    exact ⟨e'', by rw [htext]; exact hread, by rw [hseq'', hseq', hseq]⟩

/-! ### One page -/

/-- A value of a payload; a value that is no text is given by its JSON text. -/
def valueJson : PayloadValue → Json
  | .text s => .str s
  | .other s => (Json.read s).getD .null

/-- `model_dump_json` of an event with this identity and time. -/
def dumpEvent (e : Event) : String :=
  String.ofList (Json.print (.obj [("id", .str "5f1c"), ("seq", .num e.seq), ("kind", .str e.kind),
    ("payload", .obj (e.payload.map fun kv => (kv.1, valueJson kv.2))),
    ("created_at", .str "2026-01-01T00:00:00Z")]))

/-- `Event.model_validate_json`. -/
def parseEvent (s : String) : Option Event :=
  match Json.read s with
  | some (.obj fields) =>
    match fields.lookup "seq", fields.lookup "kind", fields.lookup "payload" with
    | some (.num (.ofNat n)), some (.str kind), some (.obj kvs) =>
      some ⟨n, kind, kvs.map fun kv => (kv.1, match kv.2 with
        | .str s => .text s
        | j => .other (String.ofList (Json.print j)))⟩
    | _, _, _ => none
  | _ => none

theorem parseEvent_dumpEvent (e : Event) :
    ∃ e', parseEvent (dumpEvent e) = some e' ∧ e'.seq = e.seq ∧ e'.kind = e.kind := by
  rw [parseEvent, dumpEvent, Json.read_print]
  exact ⟨_, rfl, rfl, rfl⟩

/-- A task has been submitted. -/
def submitted : List (Time × LedgerOp) := [(1, .store (.submit 1 evidenceRequest))]

def greeting : List Event := [⟨1, "message", [("role", .text "user"), ("text", .text "hello")]⟩]

/-- A page of one event is copied for a new task, whose log stays within a cap of 1024 bytes. -/
theorem log_accounted_greeting :
    ∃ s ins l', runAll (fun _ => true) initialized submitted = some s ∧
      copiesOf 1 s.ledger = [] ∧
      s.ledger.copyTaskEventPage 2 (storedText dumpEvent (some 1024)) 1 4 greeting = (.ok ins, l') ∧
      (∀ c ∈ copiesOf 1 l', ∃ e ∈ greeting, c.sourceSeq = e.seq) ∧
      ∀ pages, Within dumpEvent 1024 1 (copyPages dumpEvent 1024 s.ledger pages) := by
  have hrun : (runAll (fun _ => true) initialized submitted).any (fun s =>
      copiesOf 1 s.ledger = [] ∧ (s.ledger.copyTaskEventPage 2 (storedText dumpEvent (some 1024)) 1 4
        greeting).1.isOk) = true := by decide +kernel
  obtain ⟨s, hs, hok⟩ := (Option.any_eq_true _ _).mp hrun
  obtain ⟨hnone, hpage⟩ := of_decide_eq_true hok
  obtain ⟨hfirst, hrest⟩ := log_accounted parseEvent_dumpEvent hs 1024 1
  cases hcopied : s.ledger.copyTaskEventPage 2 (storedText dumpEvent (some 1024)) 1 4 greeting with
  | mk a l' =>
      rw [hcopied] at hpage
      cases a with
      | error x => cases hpage
      | ok ins =>
          refine ⟨s, ins, l', hs, hnone, hcopied, fun c hc => ?_, fun pages => (hrest hnone pages).1⟩
          rcases (hfirst 2 4 greeting ins l' hcopied).2 c hc with
            hold | ⟨before, e, after, ins₁, l₁, hsplit, -, hseq, -⟩
          · rw [hnone] at hold
            cases hold
          · exact ⟨e, by rw [hsplit]; simp, hseq⟩

end GgAgent.Storage
