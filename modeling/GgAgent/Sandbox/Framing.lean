import GgAgent.Sandbox.PiAgent

/-!
`_read_stdout`: the output of the process as records, one a line.

The output comes in chunks of at most 4096 bytes. The buffer is searched for a newline after
each of them, and its size is looked at only when there is none. So the size of a record is not
checked against the limit but the size of what had come of it before the chunk with its newline,
and a record that is longer than the limit by less than a chunk passes or not as the chunks fall.
-/

namespace GgAgent.Sandbox.Pi

abbrev Bytes := List UInt8

def newline : UInt8 := 10

def carriageReturn : UInt8 := 13

/-- `_STDOUT_RECORD_LIMIT`. -/
def stdoutRecordLimit : Nat := 1024 * 1024

/-- The size that `read1` is called with. -/
def chunkSize : Nat := 4096

/-- What `record.decode("utf-8")` and `json.loads` do with a record. -/
inductive Loaded (μ : Type)
  | object (message : μ)
  | nonObject
  /-- A `UnicodeDecodeError` or a `JSONDecodeError`. -/
  | malformed
  /-- Another exception: the nesting is too deep, or a number has too many digits. -/
  | raised

/-- An entry of the queue. -/
inductive Entry (μ : Type)
  | message (m : μ)
  | error (text : String)
  | eof

/-- What ends the reading. -/
inductive Stop
  | protocol (text : String)
  /-- An exception that the thread does not catch. -/
  | other
  deriving DecidableEq

/-- How the output of the process ends. -/
inductive Ending
  | closed
  | unreadable

variable {μ : Type}

def decodeRecord (loads : Bytes → Loaded μ) (record : Bytes) : Except Stop μ :=
  match loads record with
  | .object message => .ok message
  | .nonObject => .error (.protocol nonObject)
  | .malformed => .error (.protocol ReadFault.malformed.message)
  | .raised => .error .other

/-- `record[:-1]` if the record ends with a carriage return. -/
def stripReturn (record : Bytes) : Bytes :=
  if record.getLast? = some carriageReturn then record.dropLast else record

/-- What comes before and after the first newline. -/
def cut : Bytes → Option (Bytes × Bytes)
  | [] => none
  | b :: bs => if b = newline then some ([], bs) else (cut bs).map fun p => (b :: p.1, p.2)

theorem length_cut : ∀ {buffer record rest : Bytes}, cut buffer = some (record, rest) →
    rest.length < buffer.length
  | [], _, _, h => by cases h
  | b :: bs, record, rest, h => by
      rw [cut] at h
      split at h
      · obtain ⟨-, rfl⟩ := Prod.mk.inj (Option.some.inj h)
        exact Nat.lt_succ_self _
      · obtain ⟨⟨record', rest'⟩, hcut, heq⟩ := Option.map_eq_some_iff.mp h
        obtain ⟨-, rfl⟩ := Prod.mk.inj heq
        exact Nat.lt_succ_of_lt (length_cut hcut)

/-- The inner loop: the messages of the records in the buffer, and what is left of it. -/
def drain (loads : Bytes → Loaded μ) (buffer : Bytes) : List μ × Except Stop Bytes :=
  match _hcut : cut buffer with
  | none =>
    if stdoutRecordLimit < buffer.length then
      ([], .error (.protocol ReadFault.tooLarge.message))
    else ([], .ok buffer)
  | some (record, rest) =>
    match decodeRecord loads (stripReturn record) with
    | .error e => ([], .error e)
    | .ok message =>
      let more := drain loads rest
      (message :: more.1, more.2)
  termination_by buffer.length
  decreasing_by exact length_cut _hcut

/-- The end of the output. -/
def finish (ending : Ending) (buffer : Bytes) : Option Stop :=
  match ending with
  | .unreadable => some (.protocol ReadFault.unreadable.message)
  | .closed => if buffer = [] then none else some (.protocol ReadFault.unterminated.message)

/-- The outer loop, from a buffer. -/
def pump (loads : Bytes → Loaded μ) (ending : Ending) :
    Bytes → List Bytes → List μ × Option Stop
  | buffer, [] => ([], finish ending buffer)
  | buffer, chunk :: chunks =>
    match drain loads (buffer ++ chunk) with
    | (messages, .error e) => (messages, some e)
    | (messages, .ok rest) =>
      let more := pump loads ending rest chunks
      (messages ++ more.1, more.2)

/-- The entries for what the loops have found; the end of the file is put in any case. -/
def entries (found : List μ × Option Stop) : List (Entry μ) :=
  found.1.map .message ++
    (match found.2 with
      | some (.protocol text) => [.error text]
      | some .other => []
      | none => []) ++ [.eof]

def readStdout (loads : Bytes → Loaded μ) : Option (List Bytes × Ending) → List (Entry μ)
  | none => [.error ReadFault.noStdout.message, .eof]
  | some (chunks, ending) => entries (pump loads ending [] chunks)

/-! ### Records -/

/-- The records of a stream and what comes after the last newline. -/
def records : Bytes → List Bytes × Bytes
  | [] => ([], [])
  | b :: bs =>
    let more := records bs
    if b = newline then ([] :: more.1, more.2)
    else
      match more.1 with
      | [] => ([], b :: more.2)
      | record :: others => ((b :: record) :: others, more.2)

/-- The object of a record, if it is one. -/
def object? (loads : Bytes → Loaded μ) (record : Bytes) : Option μ :=
  match decodeRecord loads (stripReturn record) with
  | .ok message => some message
  | .error _ => none

/-- The record is an object, and not too long. -/
def good (loads : Bytes → Loaded μ) (record : Bytes) : Bool :=
  decide (record.length ≤ stdoutRecordLimit) && (object? loads record).isSome

/-- The objects of the records before the first one that is no object or too long, one error
for that one or for what comes after the last newline, and the end of the file. -/
def Expected (loads : Bytes → Loaded μ) (stream : Bytes) (queue : List (Entry μ)) : Prop :=
  ∃ errors : List (Entry μ),
    queue = (((records stream).1.takeWhile (good loads)).filterMap (object? loads)).map .message ++
      errors ++ [.eof] ∧
    if (∀ r ∈ (records stream).1, good loads r = true) ∧ (records stream).2 = [] then errors = []
    else ∃ text, errors = [.error text]

/-- The stream in chunks as `read1` returns them. -/
structure Chunking (stream : Bytes) (chunks : List Bytes) : Prop where
  flatten : chunks.flatten = stream
  nonempty : ∀ chunk ∈ chunks, chunk ≠ []
  small : ∀ chunk ∈ chunks, chunk.length ≤ chunkSize

/-- The first record that is no object or too long is too long by a chunk at least, or it is
not too long and the exception is one that the code catches. -/
def Regular (loads : Bytes → Loaded μ) (stream : Bytes) : Prop :=
  ∀ record, (records stream).1.find? (fun r => !good loads r) = some record →
    stdoutRecordLimit + chunkSize ≤ record.length ∨
      record.length ≤ stdoutRecordLimit ∧ decodeRecord loads (stripReturn record) ≠ .error .other

/-! ### The newline in a buffer -/

theorem cut_append {record rest : Bytes} (h : newline ∉ record) :
    cut (record ++ newline :: rest) = some (record, rest) := by
  induction record with
  | nil => rw [List.nil_append, cut, if_pos rfl]
  | cons b record ih =>
      rw [List.mem_cons, not_or] at h
      rw [List.cons_append, cut, if_neg (Ne.symm h.1), ih h.2, Option.map_some]

theorem cut_eq_none {buffer : Bytes} (h : newline ∉ buffer) : cut buffer = none := by
  induction buffer with
  | nil => rfl
  | cons b buffer ih =>
      rw [List.mem_cons, not_or] at h
      rw [cut, if_neg (Ne.symm h.1), ih h.2, Option.map_none]

/-- A buffer at the beginning of a record: it is a part of it, or it has it and the newline. -/
theorem part_or_whole {buffer tail record rest : Bytes} (hrecord : newline ∉ record)
    (h : buffer ++ tail = record ++ newline :: rest) :
    (newline ∉ buffer ∧ tail ≠ [] ∧ buffer.length ≤ record.length) ∨
      ∃ more, buffer = record ++ newline :: more ∧ more ++ tail = rest := by
  rcases List.append_eq_append_iff.mp h with ⟨more, rfl, htail⟩ | ⟨more, rfl, hrest⟩
  · left
    refine ⟨fun hmem => hrecord (List.mem_append_left _ hmem), fun hnil => ?_, ?_⟩
    · rw [hnil] at htail
      exact List.append_ne_nil_of_right_ne_nil more (List.cons_ne_nil _ _) htail.symm
    · rw [List.length_append]
      omega
  · cases more with
    | nil =>
        left
        rw [List.append_nil]
        rw [List.nil_append] at hrest
        exact ⟨hrecord, hrest ▸ List.cons_ne_nil _ _, Nat.le_refl _⟩
    | cons b more =>
        rw [List.cons_append, List.cons.injEq] at hrest
        exact .inr ⟨more, by rw [hrest.1], hrest.2.symm⟩

/-- The first record of a stream. -/
theorem records_cons {stream record rest : Bytes} {others : List Bytes}
    (h : records stream = (record :: others, rest)) :
    ∃ stream', stream = record ++ newline :: stream' ∧ newline ∉ record ∧
      records stream' = (others, rest) := by
  induction stream generalizing record others with
  | nil => cases h
  | cons b bs ih =>
      rw [records] at h
      by_cases hb : b = newline
      · rw [if_pos hb] at h
        obtain ⟨hrecord, rfl⟩ := Prod.mk.inj h
        obtain ⟨rfl, rfl⟩ := List.cons.inj hrecord
        exact ⟨bs, by rw [hb, List.nil_append], List.not_mem_nil, rfl⟩
      · rw [if_neg hb] at h
        cases hmore : records bs with
        | mk found last =>
            rw [hmore] at h
            cases found with
            | nil => cases (Prod.mk.inj h).1
            | cons first found =>
                obtain ⟨hrecord, rfl⟩ := Prod.mk.inj h
                obtain ⟨rfl, rfl⟩ := List.cons.inj hrecord
                obtain ⟨stream', rfl, hfirst, hrest⟩ := ih hmore
                refine ⟨stream', rfl, ?_, hrest⟩
                rw [List.mem_cons, not_or]
                exact ⟨Ne.symm hb, hfirst⟩

theorem records_nil {stream rest : Bytes} (h : records stream = ([], rest)) :
    stream = rest ∧ newline ∉ stream := by
  induction stream generalizing rest with
  | nil =>
      obtain ⟨-, rfl⟩ := Prod.mk.inj h
      exact ⟨rfl, List.not_mem_nil⟩
  | cons b bs ih =>
      rw [records] at h
      by_cases hb : b = newline
      · rw [if_pos hb] at h
        cases (Prod.mk.inj h).1
      · rw [if_neg hb] at h
        cases hmore : records bs with
        | mk found last =>
            rw [hmore] at h
            cases found with
            | nil =>
                obtain ⟨-, rfl⟩ := Prod.mk.inj h
                obtain ⟨rfl, hbs⟩ := ih hmore
                refine ⟨rfl, ?_⟩
                rw [List.mem_cons, not_or]
                exact ⟨Ne.symm hb, hbs⟩
            | cons first found => cases (Prod.mk.inj h).1

/-! ### Feeding the loops -/

section Feed

variable (loads : Bytes → Loaded μ) (ending : Ending)

/-- The inner loop on a buffer, and then the outer one. -/
def feed (buffer : Bytes) (chunks : List Bytes) : List μ × Option Stop :=
  match drain loads buffer with
  | (messages, .error e) => (messages, some e)
  | (messages, .ok rest) =>
    let more := pump loads ending rest chunks
    (messages ++ more.1, more.2)

/-- A record, and what comes after it. -/
def taken (record : Bytes) (more : List μ × Option Stop) : List μ × Option Stop :=
  match decodeRecord loads (stripReturn record) with
  | .error e => ([], some e)
  | .ok message => (message :: more.1, more.2)

def tooLarge : List μ × Option Stop := ([], some (.protocol ReadFault.tooLarge.message))

variable {loads ending}

theorem pump_cons (buffer chunk : Bytes) (chunks : List Bytes) :
    pump loads ending buffer (chunk :: chunks) = feed loads ending (buffer ++ chunk) chunks := rfl

theorem drain_whole {record more : Bytes} (h : newline ∉ record) :
    drain loads (record ++ newline :: more) =
      match decodeRecord loads (stripReturn record) with
      | .error e => ([], .error e)
      | .ok message => (message :: (drain loads more).1, (drain loads more).2) := by
  rw [drain]
  split
  next hcut =>
    rw [cut_append h] at hcut
    cases hcut
  next record' more' hcut =>
    rw [cut_append h] at hcut
    obtain ⟨rfl, rfl⟩ := Prod.mk.inj (Option.some.inj hcut)
    rfl

theorem drain_part {buffer : Bytes} (h : newline ∉ buffer) :
    drain loads buffer =
      if stdoutRecordLimit < buffer.length then
        ([], .error (.protocol ReadFault.tooLarge.message))
      else ([], .ok buffer) := by
  rw [drain]
  split
  next => rfl
  next hcut =>
    rw [cut_eq_none h] at hcut
    cases hcut

theorem feed_whole {record more : Bytes} (h : newline ∉ record) (chunks : List Bytes) :
    feed loads ending (record ++ newline :: more) chunks =
      taken loads record (feed loads ending more chunks) := by
  rw [feed, drain_whole h, taken]
  cases decodeRecord loads (stripReturn record) with
  | error e => rfl
  | ok message =>
      rw [feed]
      cases hmore : drain loads more with
      | mk messages result =>
          cases result with
          | error e => rfl
          | ok rest => rfl

theorem feed_part {buffer : Bytes} (h : newline ∉ buffer) (chunks : List Bytes) :
    feed loads ending buffer chunks =
      if stdoutRecordLimit < buffer.length then tooLarge else pump loads ending buffer chunks := by
  rw [feed, drain_part h]
  by_cases hlong : stdoutRecordLimit < buffer.length
  · rw [if_pos hlong, if_pos hlong]
    rfl
  · rw [if_neg hlong, if_neg hlong]
    rfl

/-- A buffer that is not too long waits for the next chunk. -/
theorem feed_next {buffer chunk : Bytes} {chunks : List Bytes} (h : newline ∉ buffer)
    (hshort : buffer.length ≤ stdoutRecordLimit) :
    feed loads ending buffer (chunk :: chunks) =
      feed loads ending (buffer ++ chunk) chunks := by
  rw [feed_part h, if_neg (Nat.not_lt.mpr hshort), pump_cons]

/-- A record that is not too long is taken as a whole, whatever chunks it comes in. -/
theorem feed_short {record rest : Bytes} (hrecord : newline ∉ record)
    (hshort : record.length ≤ stdoutRecordLimit) {n : Nat} {chunks : List Bytes} :
    ∀ {buffer : Bytes}, buffer ++ chunks.flatten = record ++ newline :: rest →
      buffer.length ≤ stdoutRecordLimit + n → (∀ chunk ∈ chunks, chunk.length ≤ n) →
      ∃ buffer' chunks', buffer' ++ chunks'.flatten = rest ∧
        buffer'.length ≤ stdoutRecordLimit + n ∧ (∀ chunk ∈ chunks', chunk.length ≤ n) ∧
        feed loads ending buffer chunks = taken loads record (feed loads ending buffer' chunks') := by
  induction chunks with
  | nil =>
      intro buffer h hbuffer _
      rcases part_or_whole hrecord h with ⟨-, hne, -⟩ | ⟨more, rfl, hmore⟩
      · exact absurd rfl hne
      · refine ⟨more, [], hmore, ?_, fun _ hc => (by cases hc), feed_whole hrecord []⟩
        rw [List.length_append, List.length_cons] at hbuffer
        omega
  | cons chunk chunks ih =>
      intro buffer h hbuffer hsmall
      rcases part_or_whole hrecord h with ⟨hpart, -, hle⟩ | ⟨more, rfl, hmore⟩
      · rw [feed_next hpart (hle.trans hshort)]
        refine ih ?_ ?_ fun c hc => hsmall c (List.mem_cons_of_mem _ hc)
        · rw [List.append_assoc]
          exact h
        · have hchunk := hsmall chunk List.mem_cons_self
          rw [List.length_append]
          omega
      · refine ⟨more, chunk :: chunks, hmore, ?_, hsmall, feed_whole hrecord _⟩
        rw [List.length_append, List.length_cons] at hbuffer
        omega

/-- A record that is too long by a chunk is refused, whatever chunks it comes in. -/
theorem feed_long {record rest : Bytes} (hrecord : newline ∉ record) {n : Nat}
    (hlong : stdoutRecordLimit + n ≤ record.length) {chunks : List Bytes} :
    ∀ {buffer : Bytes}, buffer ++ chunks.flatten = record ++ newline :: rest →
      buffer.length ≤ stdoutRecordLimit + n → (∀ chunk ∈ chunks, chunk.length ≤ n) →
      feed loads ending buffer chunks = tooLarge := by
  have hwhole : ∀ {more : Bytes}, ¬ (record ++ newline :: more).length ≤ stdoutRecordLimit + n := by
    intro more
    rw [List.length_append, List.length_cons]
    omega
  induction chunks with
  | nil =>
      intro buffer h hbuffer _
      rcases part_or_whole hrecord h with ⟨-, hne, -⟩ | ⟨more, rfl, -⟩
      · exact absurd rfl hne
      · exact absurd hbuffer hwhole
  | cons chunk chunks ih =>
      intro buffer h hbuffer hsmall
      rcases part_or_whole hrecord h with ⟨hpart, -, -⟩ | ⟨more, rfl, -⟩
      · by_cases hover : stdoutRecordLimit < buffer.length
        · rw [feed_part hpart, if_pos hover]
        · rw [feed_next hpart (Nat.not_lt.mp hover)]
          refine ih ?_ ?_ fun c hc => hsmall c (List.mem_cons_of_mem _ hc)
          · rw [List.append_assoc]
            exact h
          · have hchunk := hsmall chunk List.mem_cons_self
            rw [List.length_append]
            omega
      · exact absurd hbuffer hwhole

/-- What comes after the last newline. -/
def last (ending : Ending) (rest : Bytes) : List μ × Option Stop :=
  if stdoutRecordLimit < rest.length then tooLarge else ([], finish ending rest)

theorem feed_last {chunks : List Bytes} :
    ∀ {buffer : Bytes}, newline ∉ buffer ++ chunks.flatten →
      feed loads ending buffer chunks = last ending (buffer ++ chunks.flatten) := by
  induction chunks with
  | nil =>
      intro buffer h
      rw [List.flatten_nil, List.append_nil] at h ⊢
      rw [feed_part h, last, pump]
  | cons chunk chunks ih =>
      intro buffer h
      rw [List.flatten_cons, ← List.append_assoc] at h ⊢
      have hbuffer : newline ∉ buffer := fun hmem =>
        h (List.mem_append_left _ (List.mem_append_left _ hmem))
      by_cases hover : stdoutRecordLimit < buffer.length
      · rw [feed_part hbuffer, if_pos hover, last, if_pos]
        rw [List.length_append, List.length_append]
        omega
      · rw [feed_next hbuffer (Nat.not_lt.mp hover)]
        exact ih h

/-! ### The stream, record by record -/

variable (loads ending) in
/-- What the records give, one after the other. -/
def framed : List Bytes → Bytes → List μ × Option Stop
  | [], rest => last ending rest
  | record :: others, rest =>
    if stdoutRecordLimit < record.length then tooLarge
    else taken loads record (framed others rest)

/-- The first record that is no object or too long is not too long, or it is too long by `n`. -/
def Clear (loads : Bytes → Loaded μ) (n : Nat) (found : List Bytes) : Prop :=
  ∀ record, found.find? (fun r => !good loads r) = some record →
    stdoutRecordLimit + n ≤ record.length ∨ record.length ≤ stdoutRecordLimit

theorem good_iff {record : Bytes} :
    good loads record = true ↔ record.length ≤ stdoutRecordLimit ∧
      ∃ message, decodeRecord loads (stripReturn record) = .ok message := by
  rw [good, Bool.and_eq_true, decide_eq_true_eq, object?]
  cases decodeRecord loads (stripReturn record) <;> simp

theorem feed_framed {n : Nat} {found : List Bytes} :
    ∀ {stream rest buffer : Bytes} {chunks : List Bytes}, records stream = (found, rest) →
      Clear loads n found → buffer ++ chunks.flatten = stream →
      buffer.length ≤ stdoutRecordLimit + n → (∀ chunk ∈ chunks, chunk.length ≤ n) →
      feed loads ending buffer chunks = framed loads ending found rest := by
  induction found with
  | nil =>
      intro stream rest buffer chunks hrecords _ hstream _ _
      obtain ⟨rfl, hnone⟩ := records_nil hrecords
      rw [← hstream] at hnone
      rw [feed_last hnone, hstream, framed]
  | cons record others ih =>
      intro stream rest buffer chunks hrecords hclear hstream hbuffer hsmall
      obtain ⟨stream', rfl, hrecord, hothers⟩ := records_cons hrecords
      rw [framed]
      by_cases hlong : stdoutRecordLimit < record.length
      · have hbad : good loads record = false := by
          rw [Bool.eq_false_iff, ne_eq, good_iff]
          omega
        have hchunk := hclear record (by rw [List.find?_cons, hbad]; rfl)
        rw [if_pos hlong]
        exact feed_long hrecord (hchunk.resolve_right (Nat.not_le.mpr hlong)) hstream hbuffer hsmall
      · obtain ⟨buffer', chunks', hstream', hbuffer', hsmall', heq⟩ :=
          feed_short hrecord (Nat.not_lt.mp hlong) hstream
            hbuffer hsmall
        rw [if_neg hlong, heq, taken, taken]
        cases hdecode : decodeRecord loads (stripReturn record) with
        | error e => rfl
        | ok message =>
            have hgood : good loads record = true :=
              good_iff.mpr ⟨Nat.not_lt.mp hlong, message, hdecode⟩
            have hclear' : Clear loads n others := fun r hr =>
              hclear r (by rw [List.find?_cons, hgood]; exact hr)
            rw [ih hothers hclear' hstream' hbuffer' hsmall']

theorem framed_append {firsts : List Bytes} (h : ∀ r ∈ firsts, good loads r = true)
    (ending : Ending) (more : List Bytes) (rest : Bytes) :
    framed loads ending (firsts ++ more) rest =
      (firsts.filterMap (object? loads) ++ (framed loads ending more rest).1,
        (framed loads ending more rest).2) := by
  induction firsts with
  | nil => rfl
  | cons record firsts ih =>
      obtain ⟨hshort, message, hdecode⟩ := good_iff.mp (h record List.mem_cons_self)
      have hobject : object? loads record = some message := by rw [object?, hdecode]
      rw [List.cons_append, framed, if_neg (Nat.not_lt.mpr hshort), taken, hdecode,
        ih fun r hr => h r (List.mem_cons_of_mem _ hr), List.filterMap_cons_some hobject]
      rfl

/-- A record that is refused stops the loops. -/
theorem framed_bad {record : Bytes} (h : good loads record = false) (ending : Ending)
    (others : List Bytes) (rest : Bytes) :
    ∃ stop, framed loads ending (record :: others) rest = ([], some stop) ∧
      (stop = .other → record.length ≤ stdoutRecordLimit ∧
        decodeRecord loads (stripReturn record) = .error .other) := by
  rw [framed]
  by_cases hlong : stdoutRecordLimit < record.length
  · exact ⟨_, if_pos hlong, fun hother => by cases hother⟩
  · rw [if_neg hlong, taken]
    cases hdecode : decodeRecord loads (stripReturn record) with
    | error e => exact ⟨e, rfl, fun hother => ⟨Nat.not_lt.mp hlong, by rw [hother]⟩⟩
    | ok message =>
        have hgood := good_iff.mpr ⟨Nat.not_lt.mp hlong, message, hdecode⟩
        rw [h] at hgood
        cases hgood

/-! ### One byte a chunk -/

def singles (bs : Bytes) : List Bytes := bs.map fun b => [b]

theorem singles_append (bs bs' : Bytes) : singles (bs ++ bs') = singles bs ++ singles bs' :=
  List.map_append

theorem flatten_singles (bs : Bytes) : (singles bs).flatten = bs := by
  induction bs with
  | nil => rfl
  | cons b bs ih => rw [singles, List.map_cons, List.flatten_cons, ← singles, ih]; rfl

theorem length_of_mem_singles {bs chunk : Bytes} (h : chunk ∈ singles bs) : chunk.length = 1 := by
  obtain ⟨b, -, rfl⟩ := List.mem_map.mp h
  rfl

theorem chunking_singles (stream : Bytes) : Chunking stream (singles stream) where
  flatten := flatten_singles stream
  nonempty chunk hc := List.ne_nil_of_length_eq_add_one (length_of_mem_singles hc)
  small chunk hc := by
    rw [length_of_mem_singles hc]
    decide

theorem feed_singles {record : Bytes} (hrecord : newline ∉ record) {chunks : List Bytes} :
    ∀ {buffer : Bytes}, newline ∉ buffer → (buffer ++ record).length ≤ stdoutRecordLimit →
      feed loads ending buffer (singles record ++ chunks) =
        feed loads ending (buffer ++ record) chunks := by
  induction record with
  | nil =>
      intro buffer _ _
      rw [List.append_nil]
      rfl
  | cons b record ih =>
      intro buffer hbuffer hshort
      rw [List.mem_cons, not_or] at hrecord
      rw [List.append_cons] at hshort ⊢
      have hnext : newline ∉ buffer ++ [b] := by
        rw [List.mem_append, List.mem_singleton, not_or]
        exact ⟨hbuffer, hrecord.1⟩
      have hle : buffer.length ≤ stdoutRecordLimit := by
        rw [List.length_append, List.length_append] at hshort
        omega
      rw [← ih hrecord.2 hnext hshort]
      exact feed_next hbuffer hle

/-- Good records, a byte at a time, before other chunks. -/
theorem feed_good {firsts : List Bytes} (hgood : ∀ r ∈ firsts, good loads r = true)
    (hfree : ∀ r ∈ firsts, newline ∉ r) (chunks : List Bytes) :
    feed loads ending [] (singles (firsts.flatMap fun r => r ++ [newline]) ++ chunks) =
      (firsts.filterMap (object? loads) ++ (feed loads ending [] chunks).1,
        (feed loads ending [] chunks).2) := by
  induction firsts with
  | nil => rfl
  | cons record firsts ih =>
      obtain ⟨hshort, message, hdecode⟩ := good_iff.mp (hgood record List.mem_cons_self)
      have hobject : object? loads record = some message := by rw [object?, hdecode]
      have hrecord := hfree record List.mem_cons_self
      have hrest := ih (fun r hr => hgood r (List.mem_cons_of_mem _ hr))
        fun r hr => hfree r (List.mem_cons_of_mem _ hr)
      rw [List.flatMap_cons, singles_append, singles_append, List.append_assoc, List.append_assoc,
        feed_singles hrecord List.not_mem_nil hshort, List.nil_append, singles, List.map_singleton,
        List.singleton_append, feed_next hrecord hshort, feed_whole hrecord, hrest, taken, hdecode,
        List.filterMap_cons_some hobject]
      rfl

end Feed

/-! ### When the framing does not depend on the chunks -/

section Framing

variable {loads : Bytes → Loaded μ} {stream : Bytes}

theorem readStdout_eq (chunks : List Bytes) (ending : Ending) :
    readStdout loads (some (chunks, ending)) = entries (feed loads ending [] chunks) := by
  have hpump : pump loads ending [] chunks = feed loads ending [] chunks := by
    rw [feed_part List.not_mem_nil, if_neg (by simp)]
  rw [readStdout, hpump]

/-- What every chunking gives that is small enough for the first bad record. -/
theorem readStdout_framed {n : Nat} (hclear : Clear loads n (records stream).1)
    {chunks : List Bytes} (hflatten : chunks.flatten = stream)
    (hsmall : ∀ chunk ∈ chunks, chunk.length ≤ n) :
    readStdout loads (some (chunks, .closed)) =
      entries (framed loads .closed (records stream).1 (records stream).2) := by
  rw [readStdout_eq, feed_framed rfl hclear hflatten (Nat.zero_le _) hsmall]

/-- Every record is too long by one byte or not too long. -/
theorem readStdout_singles (loads : Bytes → Loaded μ) (stream : Bytes) :
    readStdout loads (some (singles stream, .closed)) =
      entries (framed loads .closed (records stream).1 (records stream).2) := by
  refine readStdout_framed (n := 1) (fun record _ => ?_) (flatten_singles stream)
    fun chunk hc => (length_of_mem_singles hc).le
  omega

/-- The records before the first bad one. -/
theorem records_split {record : Bytes}
    (h : (records stream).1.find? (fun r => !good loads r) = some record) :
    ∃ firsts others, (records stream).1 = firsts ++ record :: others ∧
      (∀ r ∈ firsts, good loads r = true) ∧ good loads record = false := by
  obtain ⟨hbad, firsts, others, heq, hfirsts⟩ := List.find?_eq_some_iff_append.mp h
  exact ⟨firsts, others, heq, by simpa using hfirsts, by simpa using hbad⟩

theorem takeWhile_split {record : Bytes} {firsts others : List Bytes}
    (hfirsts : ∀ r ∈ firsts, good loads r = true) (hbad : good loads record = false) :
    (firsts ++ record :: others).takeWhile (good loads) = firsts := by
  rw [List.takeWhile_append_of_pos hfirsts, List.takeWhile_cons, hbad, if_neg (by decide),
    List.append_nil]

theorem expected_framed (h : Regular loads stream) :
    Expected loads stream
      (entries (framed loads .closed (records stream).1 (records stream).2)) := by
  cases hfind : (records stream).1.find? (fun r => !good loads r) with
  | none =>
      have hall : ∀ r ∈ (records stream).1, good loads r = true := by
        simpa using List.find?_eq_none.mp hfind
      have htake : ((records stream).1 ++ []).takeWhile (good loads) = _ ++ [].takeWhile _ :=
        List.takeWhile_append_of_pos hall
      rw [List.append_nil, List.takeWhile_nil, List.append_nil] at htake
      have hframed := framed_append hall .closed [] (records stream).2
      rw [List.append_nil, framed, last] at hframed
      rw [hframed, Expected, htake]
      by_cases hlong : stdoutRecordLimit < (records stream).2.length
      · have hne : (records stream).2 ≠ [] := by
          intro hnil
          rw [hnil] at hlong
          cases hlong
        refine ⟨[.error ReadFault.tooLarge.message], ?_, ?_⟩
        · simp [entries, hlong, tooLarge]
        · rw [if_neg fun hand => hne hand.2]
          exact ⟨_, rfl⟩
      · by_cases hrest : (records stream).2 = []
        · refine ⟨[], ?_, by rw [if_pos ⟨hall, hrest⟩]⟩
          simp [entries, hrest, finish]
        · refine ⟨[.error ReadFault.unterminated.message], ?_, ?_⟩
          · simp [entries, hlong, hrest, finish]
          · rw [if_neg fun hand => hrest hand.2]
            exact ⟨_, rfl⟩
  | some record =>
      obtain ⟨firsts, others, hsplit, hfirsts, hbad⟩ := records_split hfind
      obtain ⟨stop, hstop, hother⟩ := framed_bad hbad .closed others (records stream).2
      have hframed := framed_append hfirsts .closed (record :: others) (records stream).2
      rw [Expected, hsplit, hframed, hstop, takeWhile_split hfirsts hbad, List.append_nil]
      cases stop with
      | other =>
          obtain ⟨hshort, hraised⟩ := hother rfl
          rcases h record hfind with hlong | ⟨-, hcaught⟩
          · have hpos : 0 < chunkSize := by decide
            omega
          · exact absurd hraised hcaught
      | protocol text =>
          refine ⟨[.error text], rfl, ?_⟩
          rw [if_neg fun hand => ?_]
          · exact ⟨text, rfl⟩
          · have hgood := hand.1 record (by simp)
            rw [hbad] at hgood
            cases hgood

/-- The stream up to a record. -/
theorem stream_split {firsts : List Bytes} {record : Bytes} {others : List Bytes} :
    ∀ {stream : Bytes}, (records stream).1 = firsts ++ record :: others →
      ∃ rest, stream = (firsts.flatMap fun r => r ++ [newline]) ++ (record ++ newline :: rest) ∧
        (∀ r ∈ firsts, newline ∉ r) ∧ newline ∉ record := by
  induction firsts with
  | nil =>
      intro stream h
      obtain ⟨rest, rfl, hrecord, -⟩ := records_cons (Prod.ext h rfl)
      exact ⟨rest, rfl, fun _ hr => (by cases hr), hrecord⟩
  | cons first firsts ih =>
      intro stream h
      obtain ⟨stream', rfl, hfirst, hrecords⟩ := records_cons (Prod.ext h rfl)
      have hfound : (records stream').1 = firsts ++ record :: others :=
        congrArg Prod.fst hrecords
      obtain ⟨rest, rfl, hfirsts, hrecord⟩ := ih hfound
      refine ⟨rest, by simp, fun r hr => ?_, hrecord⟩
      rcases List.mem_cons.mp hr with rfl | hr
      · exact hfirst
      · exact hfirsts r hr

/-- A record that is too long by less than a chunk is taken if its last bytes come in one chunk
with the newline. -/
theorem grey_taken {firsts : List Bytes} {record : Bytes} {others : List Bytes}
    (hsplit : (records stream).1 = firsts ++ record :: others)
    (hfirsts : ∀ r ∈ firsts, good loads r = true) (hlong : stdoutRecordLimit < record.length)
    (hgrey : record.length < stdoutRecordLimit + chunkSize) :
    ∃ chunks more, Chunking stream chunks ∧
      readStdout loads (some (chunks, .closed)) =
        entries (firsts.filterMap (object? loads) ++ (taken loads record more).1,
          (taken loads record more).2) := by
  obtain ⟨rest, hstream, hfree, hrecord⟩ := stream_split hsplit
  have hlimit : chunkSize ≤ stdoutRecordLimit := by decide
  have hchunk : chunkSize = 4096 := rfl
  obtain ⟨head, tail, rfl, hhead, htail⟩ : ∃ head tail, record = head ++ tail ∧
      head.length ≤ stdoutRecordLimit ∧ tail.length + 1 = chunkSize := by
    refine ⟨record.take (record.length - 4095), record.drop (record.length - 4095),
      (List.take_append_drop _ _).symm, ?_, ?_⟩
    · rw [List.length_take]
      omega
    · rw [List.length_drop]
      omega
  have hnewline : newline ∉ head := fun hmem => hrecord (List.mem_append_left _ hmem)
  refine ⟨singles (firsts.flatMap fun r => r ++ [newline]) ++
    (singles head ++ (tail ++ [newline]) :: singles rest), feed loads .closed [] (singles rest),
    ?_, ?_⟩
  · constructor
    case flatten =>
      rw [hstream, List.flatten_append, List.flatten_append, List.flatten_cons, flatten_singles,
        flatten_singles, flatten_singles, List.append_assoc, List.append_assoc,
        List.singleton_append]
    case nonempty =>
      intro chunk hc
      simp only [List.mem_append, List.mem_cons] at hc
      rcases hc with hc | hc | rfl | hc
      · exact List.ne_nil_of_length_eq_add_one (length_of_mem_singles hc)
      · exact List.ne_nil_of_length_eq_add_one (length_of_mem_singles hc)
      · exact List.append_ne_nil_of_right_ne_nil _ (List.cons_ne_nil _ _)
      · exact List.ne_nil_of_length_eq_add_one (length_of_mem_singles hc)
    case small =>
      intro chunk hc
      simp only [List.mem_append, List.mem_cons] at hc
      rcases hc with hc | hc | rfl | hc
      · rw [length_of_mem_singles hc]
        omega
      · rw [length_of_mem_singles hc]
        omega
      · rw [List.length_append, List.length_singleton]
        omega
      · rw [length_of_mem_singles hc]
        omega
  · have hwhole : head ++ (tail ++ [newline]) = head ++ tail ++ newline :: [] := by simp
    rw [readStdout_eq, feed_good hfirsts hfree, feed_singles hnewline List.not_mem_nil hhead,
      List.nil_append, feed_next hnewline hhead, hwhole, feed_whole hrecord]

/-- A record is not taken and refused with the same entries. -/
theorem taken_ne_tooLarge (record : Bytes) (more : List μ × Option Stop) (messages : List μ) :
    entries (messages ++ (taken loads record more).1, (taken loads record more).2) ≠
      entries (messages ++ (tooLarge (μ := μ)).1, (tooLarge (μ := μ)).2) := by
  intro heq
  simp only [entries, tooLarge, List.map_append, List.append_assoc, List.append_cancel_left_eq,
    List.map_nil, List.nil_append] at heq
  rw [taken] at heq
  cases hdecode : decodeRecord loads (stripReturn record) with
  | ok message =>
      rw [hdecode] at heq
      cases heq
  | error e =>
      rw [hdecode] at heq
      cases e with
      | other => cases heq
      | protocol text =>
          have htext : text = ReadFault.tooLarge.message := by
            simpa using heq
          rw [decodeRecord] at hdecode
          split at hdecode
          · cases hdecode
          · obtain rfl := Stop.protocol.inj (Except.error.inj hdecode)
            exact absurd htext (by decide)
          · obtain rfl := Stop.protocol.inj (Except.error.inj hdecode)
            exact absurd htext (by decide)
          · cases hdecode

/-- Where all chunkings give the expected entries, the first bad record is too long by a chunk,
or it is not too long and what `json.loads` raises is caught. -/
theorem regular_of_expected {queue : List (Entry μ)} (hexpected : Expected loads stream queue)
    (hall : ∀ chunks, Chunking stream chunks →
      readStdout loads (some (chunks, .closed)) = queue) : Regular loads stream := by
  intro record hfind
  obtain ⟨firsts, others, hsplit, hfirsts, hbad⟩ := records_split hfind
  have hsingles := (readStdout_singles loads stream).symm.trans
    (hall _ (chunking_singles stream))
  have hframed := framed_append hfirsts .closed (record :: others) (records stream).2
  rw [hsplit, hframed] at hsingles
  by_cases hshort : record.length ≤ stdoutRecordLimit
  · right
    refine ⟨hshort, fun hraised => ?_⟩
    -- The thread ends without an error in the queue.
    have hstop : framed loads .closed (record :: others) (records stream).2 = ([], some .other) := by
      rw [framed, if_neg (Nat.not_lt.mpr hshort), taken, hraised]
    obtain ⟨errors, rfl, herrors⟩ := hexpected
    have hnot : ¬ ((∀ r ∈ (records stream).1, good loads r = true) ∧ (records stream).2 = []) := by
      intro hand
      have hgood := hand.1 record (by rw [hsplit]; simp)
      rw [hbad] at hgood
      cases hgood
    rw [if_neg hnot] at herrors
    obtain ⟨text, rfl⟩ := herrors
    rw [hstop, hsplit, takeWhile_split hfirsts hbad] at hsingles
    have hlength := congrArg List.length hsingles
    simp [entries] at hlength
  · left
    by_contra hgrey
    have hlong := Nat.not_le.mp hshort
    have hstop : framed loads .closed (record :: others) (records stream).2 = tooLarge := by
      rw [framed, if_pos hlong]
    obtain ⟨chunks, more, hchunking, hread⟩ :=
      grey_taken hsplit hfirsts hlong (Nat.not_le.mp hgrey)
    rw [hall chunks hchunking, ← hsingles, hstop] at hread
    exact taken_ne_tooLarge record more _ hread.symm

/-- The framing is the expected one for every chunking exactly if the first bad record is too
long by a chunk, or it is not too long and what `json.loads` raises is caught. -/
theorem framing_iff (loads : Bytes → Loaded μ) (stream : Bytes) :
    (∃ queue, Expected loads stream queue ∧ ∀ chunks, Chunking stream chunks →
      readStdout loads (some (chunks, .closed)) = queue) ↔ Regular loads stream := by
  constructor
  · rintro ⟨queue, hexpected, hall⟩
    exact regular_of_expected hexpected hall
  · intro hregular
    refine ⟨_, expected_framed hregular, fun chunks hchunking => ?_⟩
    refine readStdout_framed (fun record hfind => ?_) hchunking.flatten hchunking.small
    exact (hregular record hfind).imp_right And.left

end Framing

/-! ### A record at the limit -/

/-- An object with blanks in it. -/
def blank (n : Nat) : Bytes := 123 :: (List.replicate n 32 ++ [125])

/-- `json.loads` for such objects. -/
def loadsBlank (record : Bytes) : Loaded Unit :=
  if record = blank (record.length - 2) then .object () else .malformed

theorem length_blank (n : Nat) : (blank n).length = n + 2 := by simp [blank]

theorem records_line {record : Bytes} (h : newline ∉ record) :
    records (record ++ [newline]) = ([record], []) := by
  induction record with
  | nil => rfl
  | cons b record ih =>
      rw [List.mem_cons, not_or] at h
      rw [List.cons_append, records, ih h.2, if_neg (Ne.symm h.1)]

theorem blank_depends_on_chunks {n : Nat} (hlong : stdoutRecordLimit < n + 2)
    (hgrey : n + 2 < stdoutRecordLimit + chunkSize) {queue : List (Entry Unit)}
    (hexpected : Expected loadsBlank (blank n ++ [newline]) queue)
    (hall : ∀ chunks, Chunking (blank n ++ [newline]) chunks →
      readStdout loadsBlank (some (chunks, .closed)) = queue) : False := by
  have hnewline : newline ∉ blank n := by simp [blank, newline]
  have hbad : good loadsBlank (blank n) = false := by
    rw [Bool.eq_false_iff, ne_eq, good_iff, length_blank]
    omega
  have hfind : (records (blank n ++ [newline])).1.find? (fun r => !good loadsBlank r) =
      some (blank n) := by
    rw [records_line hnewline]
    exact List.find?_cons_of_pos (by rw [hbad]; rfl)
  have hcase := regular_of_expected hexpected hall (blank n) hfind
  rw [length_blank] at hcase
  omega

/-- A record of one byte more than the limit is taken or refused as the chunks fall. -/
theorem limit_depends_on_chunks :
    ¬ ∃ queue, Expected loadsBlank (blank (stdoutRecordLimit - 1) ++ [newline]) queue ∧
      ∀ chunks, Chunking (blank (stdoutRecordLimit - 1) ++ [newline]) chunks →
        readStdout loadsBlank (some (chunks, .closed)) = queue := by
  rintro ⟨queue, hexpected, hall⟩
  exact blank_depends_on_chunks (by decide) (by decide) hexpected hall

end GgAgent.Sandbox.Pi
