import GgAgent.Sandbox.PiAgent

/-!
Which credentials get into the recorded events of a turn.

What `_sanitize` returns is put together from words of the text it was given, and no word has
white space, so that it contains no credential that the masked text did not contain. After the
key of the provider was masked, neither does a string of a record. But the blocks of an
assistant message are joined after that, and the two halves of a key can come in two blocks.

The GitHub token of the task is masked nowhere. It is recorded wherever the process writes it
into a text that is passed on.
-/

namespace GgAgent.Sandbox.Pi

open GgAgent.Stream (EventKind)
open Value (item? setItem)

/-! ### Sanitized texts -/

section Words

variable {x : List Char}

theorem infix_of_mem_splitOnPPrepend (p : Char → Bool) {w : List Char} (cs acc : List Char)
    (h : w ∈ cs.splitOnPPrepend p acc) : w <:+: acc.reverse ++ cs := by
  induction cs generalizing acc with
  | nil =>
      rw [List.splitOnPPrepend_nil, List.mem_singleton] at h
      rw [h, List.append_nil]
  | cons c cs ih =>
      rw [List.splitOnPPrepend_cons_eq_if] at h
      split at h
      · rcases List.mem_cons.mp h with rfl | h
        · exact (List.prefix_append _ _).isInfix
        · have hrest := ih [] h
          rw [List.reverse_nil, List.nil_append] at hrest
          exact hrest.trans ((List.suffix_cons c cs).trans (List.suffix_append _ _)).isInfix
      · have hnext := ih (c :: acc) h
        rwa [List.reverse_cons, List.append_assoc, List.singleton_append] at hnext

theorem infix_of_mem_words {w cs : List Char} (h : w ∈ words cs) : w <:+: cs := by
  have hsplit := infix_of_mem_splitOnPPrepend isSpace cs [] (List.mem_filter.mp h).1
  rwa [List.reverse_nil, List.nil_append] at hsplit

/-- What has no blank lies in one of the joined words. -/
theorem infix_of_intercalate (hblank : ' ' ∉ x) (hne : x ≠ []) {ws : List (List Char)}
    (h : x <:+: [' '].intercalate ws) : ∃ w ∈ ws, x <:+: w := by
  induction ws with
  | nil =>
      rw [List.intercalate_nil, List.infix_nil] at h
      exact absurd h hne
  | cons w ws ih =>
      cases ws with
      | nil =>
          rw [List.intercalate_singleton] at h
          exact ⟨w, List.mem_singleton_self w, h⟩
      | cons v vs =>
          rw [List.intercalate_cons_cons, List.append_assoc, List.singleton_append] at h
          rcases infix_of_append_cons hblank h with h | h
          · exact ⟨w, List.mem_cons_self, h⟩
          · obtain ⟨u, hu, hx⟩ := ih h
            exact ⟨u, List.mem_cons_of_mem _ hu, hx⟩

theorem infix_of_squeeze (hblank : ' ' ∉ x) (hne : x ≠ []) {cs : List Char}
    (h : x <:+: squeeze cs) : x <:+: cs := by
  obtain ⟨w, hw, hx⟩ := infix_of_intercalate hblank hne h
  exact hx.trans (infix_of_mem_words hw)

/-- The substitution does not put a secret together. `pre` is what has been passed. -/
theorem infix_of_subFrom (hx : Unbracketed x) :
    ∀ (skip : Nat) (cs pre : List Char), x <:+: pre ++ subFrom skip cs → x <:+: pre ++ cs.drop skip
  | skip, [], pre, h => by simpa [subFrom] using h
  | skip + 1, c :: cs, pre, h => infix_of_subFrom hx skip cs pre h
  | 0, c :: cs, pre, h => by
      rw [subFrom] at h
      split at h
      next n m _ =>
        rw [← List.append_assoc] at h
        rcases hx.infix_mask h with h | h
        · have hpre : pre ++ (c :: cs).take n <+: pre ++ (c :: cs) :=
            (List.prefix_append_right_inj pre).mpr (List.take_prefix n _)
          exact h.trans hpre.isInfix
        · have hrest := infix_of_subFrom hx (n + m - 1) cs [] h
          rw [List.nil_append] at hrest
          have hcs : x <:+: c :: cs :=
            hrest.trans ((List.drop_suffix _ _).trans (List.suffix_cons c cs)).isInfix
          exact hcs.trans (List.suffix_append pre _).isInfix
      next =>
        have hnext := infix_of_subFrom hx 0 cs (pre ++ [c]) (by simpa using h)
        simpa using hnext

end Words

/-- The texts that the code writes into an event of its own: the names of the fields, the
names of the failures, and their messages up to the detail. -/
def fixedTexts : List String :=
  ["role", "assistant", "text", "tool_call_id", "tool", "args", "result", "is_error", "type",
    "message", ErrorKind.startup.code, ErrorKind.prompt.code, ErrorKind.protocol.code,
    ErrorKind.process.code, ErrorKind.timeout.code, notOnPath, keyRequired,
    "Pi RPC process could not be started", "Pi stdin is unavailable",
    "Pi exited before accepting the command", ReadFault.noStdout.message,
    ReadFault.tooLarge.message, ReadFault.unterminated.message, ReadFault.unreadable.message,
    ReadFault.malformed.message, nonObject, invalidField "message", invalidField "toolCallId",
    invalidField "toolName", invalidContent, blockNoObject, blockInvalid, invalidIsError,
    differentCommand, settledEarly, authenticationFailed, balanceInsufficient, rateLimitReached,
    assistantFailed ++ ":", promptRejected ++ ":"]

/-- A credential without white space or brackets that is no part of a fixed text. -/
structure Plain (secret : String) : Prop where
  unbracketed : Unbracketed secret.toList
  unspaced : ∀ c ∈ secret.toList, isSpace c = false
  unfixed : ∀ text ∈ fixedTexts, ¬ Occurs secret text

section Plain

variable {x : String} (hx : Plain x)

include hx

theorem Plain.blank : ' ' ∉ x.toList := fun h => by
  have hspace := hx.unspaced _ h
  revert hspace
  decide

theorem Plain.not_occurs_empty : ¬ Occurs x "" := by
  intro h
  rw [Occurs, String.toList_empty, List.infix_nil] at h
  exact hx.unbracketed.ne_nil h

theorem Plain.occurs_of_sanitize {apiKey value : String} (h : Occurs x (sanitize apiKey value)) :
    Occurs x (mask apiKey value) := by
  rw [Occurs, sanitize, String.toList_ofList] at h
  have hsqueezed : x.toList <:+: squeeze (subFrom 0 (mask apiKey value).toList) :=
    h.trans (List.take_prefix _ _).isInfix
  have hsubbed := infix_of_squeeze hx.blank hx.unbracketed.ne_nil hsqueezed
  rw [← List.nil_append (subFrom _ _)] at hsubbed
  have hmasked := infix_of_subFrom hx.unbracketed 0 _ [] hsubbed
  rwa [List.nil_append, List.drop_zero] at hmasked

theorem Plain.not_occurs_sanitize (value : String) : ¬ Occurs x (sanitize x value) := fun h =>
  not_occurs_mask_self hx.unbracketed value (hx.occurs_of_sanitize h)

end Plain

/-! ### The strings of a value -/

mutual

/-- The strings in a value, the keys of dictionaries among them. -/
def strings : Value → List String
  | .str s => [s]
  | .list items => stringsItems items
  | .tuple items => stringsItems items
  | .dict items => stringsEntries items
  | .null => []
  | .bool _ => []
  | .int _ => []
  | .float _ => []
  | .datetime _ => []

def stringsItems : List Value → List String
  | [] => []
  | v :: items => strings v ++ stringsItems items

def stringsEntries : List (String × Value) → List String
  | [] => []
  | (k, v) :: items => k :: (strings v ++ stringsEntries items)

end

theorem mem_stringsEntries_setItem {k s : String} {v : Value} {items : Dict}
    (h : s ∈ stringsEntries (setItem k v items)) :
    s = k ∨ s ∈ strings v ∨ s ∈ stringsEntries items := by
  induction items with
  | nil =>
      simp only [setItem, stringsEntries, List.append_nil, List.mem_cons] at h
      exact h.imp_right Or.inl
  | cons kv items ih =>
      obtain ⟨j, u⟩ := kv
      rw [setItem] at h
      split at h
      next hjk =>
        simp only [stringsEntries, List.mem_cons, List.mem_append] at h ⊢
        rcases h with h | h | h
        · exact .inl (h.trans hjk)
        · exact .inr (.inl h)
        · exact .inr (.inr (.inr (.inr h)))
      next =>
        simp only [stringsEntries, List.mem_cons, List.mem_append] at h ⊢
        rcases h with h | h | h
        · exact .inr (.inr (.inl h))
        · exact .inr (.inr (.inr (.inl h)))
        · rcases ih h with h | h | h
          · exact .inl h
          · exact .inr (.inl h)
          · exact .inr (.inr (.inr (.inr h)))

theorem strings_of_item? {items : Dict} {k : String} {v : Value} (h : item? items k = some v)
    {s : String} (hs : s ∈ strings v) : s ∈ stringsEntries items := by
  induction items with
  | nil => cases h
  | cons kv items ih =>
      obtain ⟨j, u⟩ := kv
      simp only [stringsEntries, List.mem_cons, List.mem_append]
      by_cases hj : j = k
      · have hu : u = v := by simpa [item?, hj] using h
        exact .inr (.inl (hu ▸ hs))
      · have hrest : item? items k = some v := by simpa [item?, hj] using h
        exact .inr (.inr (ih hrest))

mutual

/-- Every string of a redacted value is a masked string of the value. -/
theorem masked_strings (secret : String) :
    ∀ v : Value, loaded v = true →
      ∀ s ∈ strings (redactSecret secret v), ∃ t ∈ strings v, s = mask secret t
  | .str t, _, s, hs => by
      rw [redactSecret, strings, List.mem_singleton] at hs
      exact ⟨t, List.mem_singleton_self t, hs⟩
  | .list items, h, s, hs => masked_stringsItems secret items h s hs
  | .dict items, h, s, hs => by
      rcases masked_stringsEntries secret items [] h s hs with hmade | htold
      · cases hmade
      · exact htold
  | .null, _, s, hs => by cases hs
  | .bool _, _, s, hs => by cases hs
  | .int _, _, s, hs => by cases hs
  | .float _, _, s, hs => by cases hs
  | .datetime _, h, _, _ => by cases h
  | .tuple _, h, _, _ => by cases h

theorem masked_stringsItems (secret : String) :
    ∀ items : List Value, loadedItems items = true →
      ∀ s ∈ stringsItems (redactItems secret items), ∃ t ∈ stringsItems items, s = mask secret t
  | [], _, s, hs => by cases hs
  | v :: items, h, s, hs => by
      rw [loadedItems, Bool.and_eq_true] at h
      rw [redactItems, stringsItems, List.mem_append] at hs
      rcases hs with hs | hs
      · obtain ⟨t, ht, hst⟩ := masked_strings secret v h.1 s hs
        exact ⟨t, List.mem_append_left _ ht, hst⟩
      · obtain ⟨t, ht, hst⟩ := masked_stringsItems secret items h.2 s hs
        exact ⟨t, List.mem_append_right _ ht, hst⟩

theorem masked_stringsEntries (secret : String) :
    ∀ items made : Dict, loadedEntries items = true →
      ∀ s ∈ stringsEntries (redactEntries secret items made),
        s ∈ stringsEntries made ∨ ∃ t ∈ stringsEntries items, s = mask secret t
  | [], made, _, s, hs => .inl hs
  | (k, v) :: items, made, h, s, hs => by
      rw [loadedEntries, Bool.and_eq_true] at h
      rw [redactEntries] at hs
      simp only [stringsEntries, List.mem_cons, List.mem_append]
      rcases masked_stringsEntries secret items _ h.2 s hs with hs | ⟨t, ht, hst⟩
      · rcases mem_stringsEntries_setItem hs with rfl | hs | hs
        · exact .inr ⟨k, .inl rfl, rfl⟩
        · obtain ⟨t, ht, hst⟩ := masked_strings secret v h.1 s hs
          exact .inr ⟨t, .inr (.inl ht), hst⟩
        · exact .inl hs
      · exact .inr ⟨t, .inr (.inr ht), hst⟩

end

/-- No string of a redacted record contains the secret. -/
theorem not_occurs_redactDict {secret : String} (h : Unbracketed secret.toList) {item : Dict}
    (hitem : loadedEntries item = true) :
    ∀ s ∈ stringsEntries (redactDict secret item), ¬ Occurs secret s := by
  intro s hs
  rcases masked_stringsEntries secret item [] hitem s hs with hmade | ⟨t, -, rfl⟩
  · cases hmade
  · exact not_occurs_mask_self h t

/-! ### Leaks -/

def Event.strings (e : Event) : List String := stringsEntries e.payload

/-- A string of one of the events contains the credential. -/
def Leaks (x : String) (events : List Event) : Prop := ∃ e ∈ events, ∃ s ∈ e.strings, Occurs x s

/-- What one input puts into the events besides fixed texts: texts that are put together
after redaction, and texts that are redacted each for itself. -/
structure Told where
  joined : List String
  apart : List String

def Told.nothing : Told := ⟨[], []⟩

/-- One of the texts contains the credential. -/
def Told.Has (t : Told) (x : String) : Prop := ∃ s ∈ t.joined ++ t.apart, Occurs x s

/-- The detail of a failure that is not replaced by the explanation of a provider error. -/
def Agent.toldDetail (a : Agent) (seen : String) (t : Told) : Told :=
  if providerError a.lower seen = none then t else .nothing

def Agent.toldMessage (a : Agent) (apiKey : String) (message : Dict) : Told :=
  match mappingField message "message" with
  | .error _ => .nothing
  | .ok completed =>
    if text? (item? completed "role") ≠ some "assistant" then .nothing
    else if text? (item? completed "stopReason") = some "error" then
      a.toldDetail (a.failureDetail apiKey completed) ⟨[], [a.failureDetail apiKey completed]⟩
    else
      match assistantText completed with
      | .error _ => .nothing
      | .ok text => ⟨[text], []⟩

/-- A tool call, with its arguments or its result. -/
def toldTool (message : Dict) (field : String) : Told :=
  match stringField message "toolCallId", stringField message "toolName" with
  | .ok toolCallId, .ok tool =>
    ⟨[], toolCallId :: tool :: strings ((item? message field).getD .null)⟩
  | _, _ => .nothing

def isFlag : Option Value → Bool
  | some (.bool _) => true
  | _ => false

def Agent.toldEvent (a : Agent) (apiKey : String) (item : Dict) : Told :=
  let message := redactDict apiKey item
  let messageType := text? (item? message "type")
  if messageType = some "message_end" then a.toldMessage apiKey message
  else if messageType = some "tool_execution_start" then toldTool message "args"
  else if messageType = some "tool_execution_end" then
    if isFlag (item? message "isError") then toldTool message "result" else .nothing
  else .nothing

/-- The answer to the prompt: the error that it reports. -/
def Agent.toldResponse (a : Agent) (apiKey : String) (item : Dict) : Told :=
  if text? (item? item "command") ≠ some "prompt" then .nothing
  else if succeeded (item? item "success") then .nothing
  else
    match text? (item? item "error") with
    | none => .nothing
    | some raw => a.toldDetail (responseError apiKey item) ⟨[], [sanitize apiKey raw]⟩

def Agent.toldRecord (a : Agent) (apiKey : String) (pending : List String) : Value → Told
  | .dict item =>
    let messageType := text? (item? item "type")
    if messageType = some "response" ∧ routed pending item = true then .nothing
    else if messageType = some "response" ∧ text? (item? item "id") = some a.requestId then
      a.toldResponse apiKey item
    else if messageType = some "agent_settled" then .nothing
    else a.toldEvent apiKey item
  | _ => .nothing

/-- The text that names the exit code, with the colon before a detail. -/
def exitHead (returnCode : Option Int) (detail : String) : String :=
  if detail = "" then exitText returnCode else exitText returnCode ++ ":"

def Agent.told (a : Agent) (apiKey : String) : Input → Told
  | .record pending _ r => a.toldRecord apiKey pending r.value
  | .fault _ => .nothing
  | .eof cancelled returnCode stderr =>
    let detail := sanitize apiKey stderr
    if cancelled then .nothing
    else a.toldDetail detail ⟨[exitHead returnCode detail], [detail]⟩
  | .timeout => ⟨[a.timeoutText], []⟩

def Step.events : Step → List Event
  | .go _ events => events
  | .settled => []
  | .raised e => e.recorded

theorem leaks_append (x : String) (events later : List Event) :
    Leaks x (events ++ later) ↔ Leaks x events ∨ Leaks x later := by
  constructor
  · rintro ⟨e, he, hs⟩
    rcases List.mem_append.mp he with he | he
    · exact .inl ⟨e, he, hs⟩
    · exact .inr ⟨e, he, hs⟩
  · rintro (⟨e, he, hs⟩ | ⟨e, he, hs⟩)
    · exact ⟨e, List.mem_append_left _ he, hs⟩
    · exact ⟨e, List.mem_append_right _ he, hs⟩

@[simp] theorem leaks_nil (x : String) : ¬ Leaks x [] := fun ⟨_, he, _⟩ => by cases he

@[simp] theorem Told.not_nothing_has (x : String) : ¬ Told.nothing.Has x := fun ⟨_, hs, _⟩ => by cases hs

theorem Told.has_apart (x : String) (texts : List String) :
    Told.Has ⟨[], texts⟩ x ↔ ∃ s ∈ texts, Occurs x s := Iff.rfl

theorem Told.has_joined (x text : String) : Told.Has ⟨[text], []⟩ x ↔ Occurs x text := by
  simp [Told.Has]

theorem ErrorKind.code_fixed {kind : ErrorKind} (h : kind ≠ .cancelled) :
    kind.code ∈ fixedTexts := by
  cases kind with
  | cancelled => exact absurd rfl h
  | startup | prompt | protocol | process | timeout => decide

section Step

variable {x : String} (hx : Plain x) (a : Agent) (apiKey : String)

include hx

theorem Plain.leaks_recorded {e : AgentError} (he : e.kind ≠ .cancelled) :
    Leaks x e.recorded ↔ Occurs x e.message := by
  have hcode := ErrorKind.code_fixed he
  have htype := hx.unfixed "type" (by decide)
  have hmessage := hx.unfixed "message" (by decide)
  have hkind := hx.unfixed _ hcode
  simp [Leaks, AgentError.recorded, he, Event.strings, AgentError.toEventPayload, stringsEntries,
    strings, htype, hmessage, hkind]

theorem Plain.not_leaks_fixed {e : AgentError} (he : e.message ∈ fixedTexts) :
    ¬ Leaks x e.recorded := by
  by_cases hk : e.kind = .cancelled
  · rw [AgentError.recorded, if_pos hk]
    exact leaks_nil x
  · rw [hx.leaks_recorded hk]
    exact hx.unfixed _ he

/-- The blank after the colon separates a detail from what stands before it. -/
theorem Plain.occurs_suffix (head detail : String) :
    Occurs x (head ++ suffix detail) ↔
      Occurs x (if detail = "" then head else head ++ ":") ∨ Occurs x detail := by
  unfold suffix
  split
  next h =>
    subst h
    rw [String.append_empty]
    exact ⟨Or.inl, fun h => h.resolve_right hx.not_occurs_empty⟩
  next =>
    have hlist : (head ++ (": " ++ detail)).toList =
        (head ++ ":").toList ++ ' ' :: detail.toList := by
      simp
    rw [Occurs, hlist]
    constructor
    · exact infix_of_append_cons hx.blank
    · rintro (h | h)
      · exact h.trans (List.prefix_append _ _).isInfix
      · exact h.trans ((List.suffix_cons _ _).trans (List.suffix_append _ _)).isInfix

theorem Plain.occurs_fixed_suffix {head : String} (hhead : head ++ ":" ∈ fixedTexts)
    (detail : String) : Occurs x (head ++ suffix detail) ↔ Occurs x detail := by
  rw [hx.occurs_suffix]
  have hcolon := hx.unfixed _ hhead
  refine ⟨fun h => h.resolve_left ?_, Or.inr⟩
  split
  · intro h
    apply hcolon
    rw [Occurs, String.toList_append]
    exact h.trans (List.prefix_append _ _).isInfix
  · exact hcolon

theorem Plain.not_occurs_providerError {lower : String → String} {seen t : String}
    (h : providerError lower seen = some t) : ¬ Occurs x t := by
  apply hx.unfixed
  unfold providerError at h
  simp only at h
  split at h
  · obtain rfl := Option.some.inj h
    decide
  · split at h
    · obtain rfl := Option.some.inj h
      decide
    · split at h
      · obtain rfl := Option.some.inj h
        decide
      · cases h

/-- The message of a failure, for a body that shows what is told. -/
theorem Plain.occurs_failure {seen body : String} {t : Told} (h : Occurs x body ↔ t.Has x) :
    Occurs x ((providerError a.lower seen).getD body) ↔ (a.toldDetail seen t).Has x := by
  unfold Agent.toldDetail
  cases hprovider : providerError a.lower seen with
  | none =>
      rw [if_pos rfl]
      exact h
  | some explanation =>
      rw [if_neg (by simp)]
      exact ⟨fun h => absurd h (hx.not_occurs_providerError hprovider),
        fun h => absurd h (Told.not_nothing_has x)⟩

omit hx in
theorem mappingField_fixed {message : Dict} {e : AgentError}
    (h : mappingField message "message" = .error e) : e.message ∈ fixedTexts := by
  unfold mappingField at h
  split at h
  · cases h
  · cases h
    decide

omit hx in
theorem stringField_fixed {message : Dict} {name : String} {e : AgentError}
    (hname : invalidField name ∈ fixedTexts) (h : stringField message name = .error e) :
    e.message ∈ fixedTexts := by
  unfold stringField at h
  split at h
  · cases h
  · cases h
    exact hname

omit hx in
theorem blockText_fixed {block : Value} {e : AgentError} (h : blockText block = .error e) :
    e.message ∈ fixedTexts := by
  unfold blockText at h
  split at h
  · split at h
    · split at h
      · cases h
      · cases h
        decide
    · cases h
  · cases h
    decide

omit hx in
theorem blockTexts_fixed {blocks : List Value} {e : AgentError} (h : blockTexts blocks = .error e) :
    e.message ∈ fixedTexts := by
  induction blocks with
  | nil => cases h
  | cons block blocks ih =>
      rw [blockTexts] at h
      cases hblock : blockText block with
      | error e' =>
          rw [hblock] at h
          cases h
          exact blockText_fixed hblock
      | ok s =>
          rw [hblock] at h
          cases hrest : blockTexts blocks with
          | error e' =>
              rw [hrest] at h
              cases h
              exact ih hrest
          | ok parts =>
              rw [hrest] at h
              cases h

omit hx in
theorem assistantText_fixed {message : Dict} {e : AgentError}
    (h : assistantText message = .error e) : e.message ∈ fixedTexts := by
  unfold assistantText at h
  split at h
  · cases h
  next blocks _ =>
    cases hblocks : blockTexts blocks with
    | error e' =>
        rw [hblocks] at h
        cases h
        exact blockTexts_fixed hblocks
    | ok parts =>
        rw [hblocks] at h
        cases h
  · cases h
    decide

theorem Plain.leaks_messageEnd (message : Dict) :
    Leaks x (Step.ofExcept true (a.messageEnd apiKey message)).events ↔
      (a.toldMessage apiKey message).Has x := by
  unfold Agent.messageEnd Agent.toldMessage
  cases hfield : mappingField message "message" with
  | error e =>
      have hfixed := hx.not_leaks_fixed (mappingField_fixed hfield)
      exact ⟨fun h => absurd h hfixed, fun h => absurd h (Told.not_nothing_has x)⟩
  | ok completed =>
      simp only [Except.bind]
      split
      · exact ⟨fun h => absurd h (leaks_nil x), fun h => absurd h (Told.not_nothing_has x)⟩
      · split
        · refine (hx.leaks_recorded (by simp)).trans (hx.occurs_failure a ?_)
          rw [hx.occurs_fixed_suffix (by decide), Told.has_apart]
          simp
        · cases htext : assistantText completed with
          | error e =>
              have hfixed := hx.not_leaks_fixed (assistantText_fixed htext)
              exact ⟨fun h => absurd h hfixed, fun h => absurd h (Told.not_nothing_has x)⟩
          | ok text =>
              have hrole := hx.unfixed "role" (by decide)
              have hassistant := hx.unfixed "assistant" (by decide)
              have hname := hx.unfixed "text" (by decide)
              simp [Except.map, Step.ofExcept, Step.events, Leaks, Event.strings, stringsEntries,
                strings, hrole, hassistant, hname, Told.has_joined]

/-- A tool event, whose last string fields are those of `v`. -/
theorem Plain.leaks_tool {kind : EventKind} {toolCallId tool field : String} {v : Value}
    {rest : Dict} (hfield : field ∈ fixedTexts) (hrest : ∀ s ∈ stringsEntries rest, ¬ Occurs x s) :
    Leaks x [⟨kind, ("tool_call_id", .str toolCallId) :: ("tool", .str tool) :: (field, v) :: rest⟩] ↔
      Told.Has ⟨[], toolCallId :: tool :: strings v⟩ x := by
  have hid := hx.unfixed "tool_call_id" (by decide)
  have htool := hx.unfixed "tool" (by decide)
  have hname := hx.unfixed field hfield
  rw [Told.has_apart]
  simp only [Leaks, Event.strings, stringsEntries, strings, List.mem_cons, List.mem_append,
    List.cons_append, List.nil_append, List.not_mem_nil, or_false,
    exists_eq_or_imp, exists_eq_left, hid, htool, hname, false_or]
  refine or_congr_right (or_congr_right ?_)
  constructor
  · rintro ⟨s, hs | hs, hoccurs⟩
    · exact ⟨s, hs, hoccurs⟩
    · exact absurd hoccurs (hrest s hs)
  · rintro ⟨s, hs, hoccurs⟩
    exact ⟨s, .inl hs, hoccurs⟩

theorem Plain.leaks_toolFields {message : Dict} {field : String}
    {build : String → String → List Event}
    (hbuild : ∀ toolCallId tool, Leaks x (build toolCallId tool) ↔
      Told.Has ⟨[], toolCallId :: tool :: strings ((item? message field).getD .null)⟩ x) :
    Leaks x (Step.ofExcept true ((stringField message "toolCallId").bind fun toolCallId =>
      (stringField message "toolName").map fun tool => build toolCallId tool)).events ↔
      (toldTool message field).Has x := by
  unfold toldTool
  cases hid : stringField message "toolCallId" with
  | error e =>
      have hfixed := hx.not_leaks_fixed (stringField_fixed (by decide) hid)
      exact ⟨fun h => absurd h hfixed, fun h => absurd h (Told.not_nothing_has x)⟩
  | ok toolCallId =>
      cases htool : stringField message "toolName" with
      | error e =>
          have hfixed := hx.not_leaks_fixed (stringField_fixed (by decide) htool)
          exact ⟨fun h => absurd h hfixed, fun h => absurd h (Told.not_nothing_has x)⟩
      | ok tool => exact hbuild toolCallId tool

theorem Plain.leaks_toolStart (message : Dict) :
    Leaks x (Step.ofExcept true (toolStart message)).events ↔ (toldTool message "args").Has x := by
  apply hx.leaks_toolFields
  intro toolCallId tool
  exact hx.leaks_tool (by decide) fun s hs => by cases hs

theorem Plain.leaks_toolEnd (message : Dict) :
    Leaks x (Step.ofExcept true (toolEnd message)).events ↔
      Told.Has (if isFlag (item? message "isError") then toldTool message "result"
        else .nothing) x := by
  unfold toolEnd
  split
  next isError hflag =>
    rw [hflag, if_pos (show isFlag (some (.bool isError)) = true from rfl)]
    apply hx.leaks_toolFields
    intro toolCallId tool
    refine hx.leaks_tool (by decide) fun s hs => ?_
    simp only [stringsEntries, strings, List.append_nil, List.mem_singleton] at hs
    exact hs ▸ hx.unfixed "is_error" (by decide)
  next hflag =>
    have hno : isFlag (item? message "isError") = false := by
      unfold isFlag
      split
      next b hb => exact absurd hb (hflag b)
      · rfl
    rw [hno, if_neg (by decide)]
    have hfixed := hx.not_leaks_fixed (e := ⟨.protocol, invalidIsError⟩) (by decide)
    exact ⟨fun h => absurd h hfixed, fun h => absurd h (Told.not_nothing_has x)⟩

omit hx in
theorem Step.events_ofExcept (accepted : Bool) (r : Except AgentError (List Event)) :
    (Step.ofExcept accepted r).events = (Step.ofExcept true r).events := by
  cases r <;> rfl

theorem Plain.leaks_translateEvent (item : Dict) :
    Leaks x (Step.ofExcept true (a.translateEvent apiKey item)).events ↔
      (a.toldEvent apiKey item).Has x := by
  unfold Agent.translateEvent Agent.toldEvent
  simp only
  split
  · exact hx.leaks_messageEnd a apiKey _
  · split
    · exact hx.leaks_toolStart _
    · split
      · exact hx.leaks_toolEnd _
      · exact ⟨fun h => absurd h (leaks_nil x), fun h => absurd h (Told.not_nothing_has x)⟩

theorem Plain.leaks_promptResponse (item : Dict) :
    Leaks x (a.promptResponse apiKey item).events ↔ (a.toldResponse apiKey item).Has x := by
  unfold Agent.promptResponse Agent.toldResponse
  split
  · have hfixed := hx.not_leaks_fixed (e := ⟨.protocol, differentCommand⟩) (by decide)
    exact ⟨fun h => absurd h hfixed, fun h => absurd h (Told.not_nothing_has x)⟩
  · split
    · exact ⟨fun h => absurd h (leaks_nil x), fun h => absurd h (Told.not_nothing_has x)⟩
    · refine (hx.leaks_recorded (by simp)).trans ?_
      cases herror : text? (item? item "error") with
      | some raw =>
          have hdetail : responseError apiKey item = suffix (sanitize apiKey raw) := by
            rw [responseError, herror]
          rw [hdetail]
          apply hx.occurs_failure
          rw [hx.occurs_fixed_suffix (by decide), Told.has_apart]
          simp
      | none =>
          have hdetail : responseError apiKey item = suffix "" := by
            rw [responseError, herror]
            rfl
          have hnothing : Occurs x (promptRejected ++ suffix "") ↔ Told.nothing.Has x := by
            rw [hx.occurs_fixed_suffix (by decide)]
            exact ⟨fun h => absurd h hx.not_occurs_empty, fun h => absurd h (Told.not_nothing_has x)⟩
          rw [hdetail]
          refine (hx.occurs_failure a hnothing).trans ?_
          unfold Agent.toldDetail
          split <;> exact Iff.rfl

theorem Plain.leaks_onRecord (accepted : Bool) (pending : List String) (cancelled : Bool)
    (v : Value) :
    Leaks x (a.onRecord apiKey accepted pending cancelled v).events ↔
      (a.toldRecord apiKey pending v).Has x := by
  have hnothing : ∀ {events : List Event}, ¬ Leaks x events →
      (Leaks x events ↔ Told.nothing.Has x) := fun h =>
    ⟨fun h' => absurd h' h, fun h' => absurd h' (Told.not_nothing_has x)⟩
  cases v with
  | dict item =>
      unfold Agent.onRecord Agent.toldRecord
      simp only
      split
      · exact hnothing (leaks_nil x)
      · split
        · exact hx.leaks_promptResponse a apiKey item
        · split
          · unfold onSettled
            split
            · exact hnothing (leaks_nil x)
            · split
              · exact hnothing (leaks_nil x)
              · exact hnothing (hx.not_leaks_fixed (e := ⟨.protocol, settledEarly⟩) (by decide))
          · rw [Step.events_ofExcept]
            exact hx.leaks_translateEvent a apiKey item
  | null | bool _ | int _ | float _ | datetime _ | str _ | list _ | tuple _ =>
      exact hnothing (hx.not_leaks_fixed (e := ⟨.protocol, nonObject⟩) (by decide))

/-- What one input puts into the events: a credential is in them when it is in a told text. -/
theorem Plain.leaks_step (accepted : Bool) (input : Input) :
    Leaks x (a.step apiKey accepted input).events ↔ (a.told apiKey input).Has x := by
  cases input with
  | record pending cancelled r =>
      exact hx.leaks_onRecord a apiKey accepted pending cancelled r.value
  | fault f =>
      have hfixed : f.message ∈ fixedTexts := by
        cases f <;> decide
      have hleaks := hx.not_leaks_fixed (e := ⟨.protocol, f.message⟩) hfixed
      exact ⟨fun h => absurd h hleaks, fun h => absurd h (Told.not_nothing_has x)⟩
  | eof cancelled returnCode stderr =>
      show Leaks x (a.onEof apiKey cancelled returnCode stderr).recorded ↔ Told.Has _ x
      unfold Agent.onEof Agent.told
      simp only
      split
      · exact ⟨fun h => absurd h (leaks_nil x), fun h => absurd h (Told.not_nothing_has x)⟩
      · refine (hx.leaks_recorded (by simp)).trans (hx.occurs_failure a ?_)
        rw [hx.occurs_suffix, Told.Has, exitHead]
        simp
  | timeout =>
      refine (hx.leaks_recorded (by simp)).trans ?_
      rw [Agent.told, Told.has_joined]

omit hx in
theorem stringField_mem {message : Dict} {name s : String}
    (h : stringField message name = .ok s) : s ∈ stringsEntries message := by
  unfold stringField text? at h
  split at h
  next t ht =>
    split at ht
    next u hu =>
      obtain rfl := Option.some.inj ht
      obtain rfl := Except.ok.inj h
      exact strings_of_item? hu (by simp [strings])
    · cases ht
  · cases h

omit hx in
theorem toldTool_apart {message : Dict} {field s : String} (hs : s ∈ (toldTool message field).apart) :
    s ∈ stringsEntries message := by
  unfold toldTool at hs
  split at hs
  next toolCallId tool hid htool =>
    simp only [List.mem_cons] at hs
    rcases hs with rfl | rfl | hs
    · exact stringField_mem hid
    · exact stringField_mem htool
    · cases hfield : item? message field with
      | none =>
          rw [hfield] at hs
          cases hs
      | some v =>
          rw [hfield] at hs
          exact strings_of_item? hfield hs
  · cases hs

/-- Every detail is sanitized. -/
theorem Plain.not_toldDetail_apart (seen value : String) (joined : List String) :
    ∀ s ∈ (a.toldDetail seen ⟨joined, [sanitize x value]⟩).apart, ¬ Occurs x s := by
  intro s hs
  unfold Agent.toldDetail at hs
  split at hs
  · rw [List.mem_singleton] at hs
    exact hs ▸ hx.not_occurs_sanitize value
  · cases hs

theorem Plain.not_toldEvent_apart {item : Dict} (hitem : loadedEntries item = true) :
    ∀ s ∈ (a.toldEvent x item).apart, ¬ Occurs x s := by
  have hfree := not_occurs_redactDict hx.unbracketed hitem
  unfold Agent.toldEvent
  simp only
  split
  · unfold Agent.toldMessage
    split
    · exact fun s hs => by cases hs
    · split
      · exact fun s hs => by cases hs
      · split
        · exact hx.not_toldDetail_apart a _ _ _
        · split <;> exact fun s hs => by cases hs
  · split
    · exact fun s hs => hfree s (toldTool_apart hs)
    · split
      · split
        · exact fun s hs => hfree s (toldTool_apart hs)
        · exact fun s hs => by cases hs
      · exact fun s hs => by cases hs

theorem Plain.not_toldResponse_apart (item : Dict) :
    ∀ s ∈ (a.toldResponse x item).apart, ¬ Occurs x s := by
  unfold Agent.toldResponse
  split
  · exact fun s hs => by cases hs
  · split
    · exact fun s hs => by cases hs
    · split
      · exact fun s hs => by cases hs
      · exact hx.not_toldDetail_apart a _ _ _

/-- The key is in no text that is redacted for itself. -/
theorem Plain.not_told_apart (input : Input) :
    ∀ s ∈ (a.told x input).apart, ¬ Occurs x s := by
  cases input with
  | fault f => exact fun s hs => by cases hs
  | timeout => exact fun s hs => by cases hs
  | eof cancelled returnCode stderr =>
      unfold Agent.told
      simp only
      split
      · exact fun s hs => by cases hs
      · exact hx.not_toldDetail_apart a _ _ _
  | record pending cancelled r =>
      obtain ⟨v, hv⟩ := r
      show ∀ s ∈ (a.toldRecord x pending v).apart, ¬ Occurs x s
      cases v with
      | dict item =>
          unfold Agent.toldRecord
          simp only
          split
          · exact fun s hs => by cases hs
          · split
            · exact hx.not_toldResponse_apart a item
            · split
              · exact fun s hs => by cases hs
              · exact hx.not_toldEvent_apart a hv
      | null | bool _ | int _ | float _ | datetime _ | str _ | list _ | tuple _ =>
          exact fun s hs => by cases hs

end Step

/-! ### Turns -/

/-- The GitHub token that the process has. -/
def Agent.ghToken (a : Agent) : Option String :=
  (piProcessEnv a.environ a.githubToken).get? "GH_TOKEN"

/-- No credential is in a text that is put together after redaction, and the GitHub token is in
none of the others either. -/
def Agent.Spares (a : Agent) (t : Told) : Prop :=
  (∀ s ∈ t.joined, ∀ x ∈ a.credentials, ¬ Occurs x s) ∧
    ∀ s ∈ t.apart, ∀ x ∈ a.ghToken, ¬ Occurs x s

/-- The inputs that are processed, up to the one that ends the turn, spare the credentials. -/
def Agent.Spared (a : Agent) (apiKey : String) : Bool → List Input → Prop
  | _, [] => True
  | accepted, input :: inputs =>
    a.Spares (a.told apiKey input) ∧
      match a.step apiKey accepted input with
      | .go accepted _ => a.Spared apiKey accepted inputs
      | .settled => True
      | .raised _ => True

/-- No credential is in the events. -/
def Agent.Clean (a : Agent) (events : List Event) : Prop := ∀ x ∈ a.credentials, ¬ Leaks x events

theorem Agent.clean_append (a : Agent) (events later : List Event) :
    a.Clean (events ++ later) ↔ a.Clean events ∧ a.Clean later := by
  simp only [Agent.Clean, leaks_append, not_or]
  exact ⟨fun h => ⟨fun x hx => (h x hx).1, fun x hx => (h x hx).2⟩,
    fun h x hx => ⟨h.1 x hx, h.2 x hx⟩⟩

/-- The copy of the environment keeps the key. -/
theorem get?_piProcessEnv (environ : Env) (githubToken : Option String) :
    (piProcessEnv environ githubToken).get? "OPENROUTER_API_KEY" =
      environ.get? "OPENROUTER_API_KEY" := by
  have hpop : (ambient.foldl Env.pop environ).get? "OPENROUTER_API_KEY" =
      environ.get? "OPENROUTER_API_KEY" := by
    simp [ambient, Env.get?_pop]
  unfold piProcessEnv
  simp only
  split
  · exact hpop
  · split
    · exact hpop
    · simp [Env.get?_set, hpop]

theorem Agent.credentials_of_start {a : Agent} {launch : Launch} {key : String}
    (h : a.start launch = .ok key) : a.credentials = key :: a.ghToken.toList := by
  have hkey : a.environ.get? "OPENROUTER_API_KEY" = some key := by
    unfold Agent.start at h
    split at h
    · cases h
    next key' hpreflight =>
      split at h
      · cases h
      · obtain rfl := Except.ok.inj h
        unfold Agent.preflight at hpreflight
        split at hpreflight
        · cases hpreflight
        · split at hpreflight
          · cases hpreflight
          next found hfound =>
            split at hpreflight
            · cases hpreflight
            · obtain rfl := Except.ok.inj hpreflight
              exact hfound
  rw [Agent.credentials, get?_piProcessEnv, hkey]
  rfl

section Turn

variable {a : Agent} {key : String} (hcredentials : a.credentials = key :: a.ghToken.toList)
  (hplain : ∀ x ∈ a.credentials, Plain x)

include hcredentials hplain

/-- One round: the key can only be in a text that was put together. -/
theorem clean_step (accepted : Bool) (input : Input) :
    a.Clean (a.step key accepted input).events ↔ a.Spares (a.told key input) := by
  have hkey : Plain key := hplain key (by rw [hcredentials]; exact List.mem_cons_self)
  have hleaks : ∀ x ∈ a.credentials, (Leaks x (a.step key accepted input).events ↔
      (a.told key input).Has x) := fun x hx => (hplain x hx).leaks_step a key accepted input
  constructor
  · intro h
    refine ⟨fun s hs x hx hoccurs => ?_, fun s hs x hx hoccurs => ?_⟩
    · exact h x hx ((hleaks x hx).mpr ⟨s, List.mem_append_left _ hs, hoccurs⟩)
    · have hcred : x ∈ a.credentials := by
        rw [hcredentials]
        exact List.mem_cons_of_mem _ (Option.mem_toList.mpr hx)
      exact h x hcred ((hleaks x hcred).mpr ⟨s, List.mem_append_right _ hs, hoccurs⟩)
  · rintro ⟨hjoined, hapart⟩ x hx hleak
    obtain ⟨s, hs, hoccurs⟩ := (hleaks x hx).mp hleak
    rcases List.mem_append.mp hs with hs | hs
    · exact hjoined s hs x hx hoccurs
    · have hmem := hx
      rw [hcredentials] at hmem
      rcases List.mem_cons.mp hmem with rfl | hmem
      · exact hkey.not_told_apart a input s hs hoccurs
      · exact hapart s hs x (Option.mem_toList.mp hmem) hoccurs

theorem clean_consume (accepted : Bool) (inputs : List Input) :
    a.Clean (a.consume key accepted inputs) ↔ a.Spared key accepted inputs := by
  induction inputs generalizing accepted with
  | nil => exact ⟨fun _ => trivial, fun _ x _ => leaks_nil x⟩
  | cons input inputs ih =>
      have hstep := clean_step hcredentials hplain accepted input
      rw [Agent.consume, Agent.Spared, ← hstep]
      cases a.step key accepted input with
      | go accepted events => exact (a.clean_append _ _).trans (and_congr_right' (ih accepted))
      | settled => exact (and_iff_left trivial).symm
      | raised e => exact (and_iff_left trivial).symm

end Turn

/-- The inputs of a turn that has a process. -/
def Agent.SparedRun (a : Agent) (launch : Launch) (inputs : List Input) : Prop :=
  ∀ key, a.start launch = .ok key → a.Spared key false inputs

/-- The failures of a start are fixed texts. -/
theorem Agent.start_fixed {a : Agent} {launch : Launch} {e : AgentError}
    (h : a.start launch = .error e) : e.message ∈ fixedTexts := by
  unfold Agent.start at h
  split at h
  next e' hpreflight =>
    obtain rfl := Except.error.inj h
    unfold Agent.preflight at hpreflight
    split at hpreflight
    · cases hpreflight
      decide
    · split at hpreflight
      · cases hpreflight
        decide
      · split at hpreflight
        · cases hpreflight
          decide
        · cases hpreflight
  · split at h
    next e' hlaunch =>
      obtain rfl := Except.error.inj h
      cases launch with
      | spawned => cases hlaunch
      | notSpawned | noStdin | pipeBroken =>
          cases hlaunch
          decide
    · cases h

/-- The recorded events of a turn are free of the credentials of its process if and only if the
inputs that are processed spare them: the GitHub token is in no text that is passed on, and
neither credential is in the joined text of an assistant message. -/
theorem recorded_clean_iff (a : Agent) (launch : Launch) (inputs : List Input)
    (hplain : ∀ x ∈ a.credentials, Plain x) :
    a.Clean (a.run launch inputs) ↔ a.SparedRun launch inputs := by
  unfold Agent.run Agent.SparedRun
  cases hstart : a.start launch with
  | error e =>
      have hclean : a.Clean e.recorded := fun x hx =>
        (hplain x hx).not_leaks_fixed (Agent.start_fixed hstart)
      exact ⟨fun _ key hkey => (by cases hkey), fun _ => hclean⟩
  | ok key =>
      have hconsume := clean_consume (Agent.credentials_of_start hstart) hplain false inputs
      refine hconsume.trans ⟨fun h key' hkey => ?_, fun h => h key rfl⟩
      exact Except.ok.inj hkey ▸ h

/-! ### Two turns -/

/-- A process with both credentials. -/
def keyed : Agent where
  environ := [("OPENROUTER_API_KEY", "sk-or-9"), ("GH_TOKEN", "host")]
  githubToken := some "ghs_9"
  onPath := true
  timeoutSeconds := "600"
  requestId := "gg-prompt-1"
  lower := fun s => String.ofList (s.toList.map Char.toLower)
  repr := fun _ => "None"

def promptAccepted : Record where
  value := .dict [("type", .str "response"), ("id", .str "gg-prompt-1"),
    ("command", .str "prompt"), ("success", .bool true)]
  json := rfl

/-- A tool call whose arguments have the text in them. -/
def toolCall (text : String) : Record where
  value := .dict [("type", .str "tool_execution_start"), ("toolCallId", .str "c1"),
    ("toolName", .str "bash"), ("args", .dict [("command", .list [.str text])])]
  json := rfl

/-- The tool call, and then the process exits. -/
def calling (text : String) : List Input :=
  [.record [] false promptAccepted, .record [] false (toolCall text),
    .eof false (some 1) "api key: sk-or-9 was refused"]

/-- The assistant writes the key in two blocks. -/
def splitKey : Record where
  value := .dict [("type", .str "message_end"), ("message", .dict [("role", .str "assistant"),
    ("content", .list [.dict [("type", .str "text"), ("text", .str "sk-or")],
      .dict [("type", .str "text"), ("text", .str "-9")]])])]
  json := rfl

/-- No fixed text has a nine. -/
theorem plain_of_nine {x : String} (hunbracketed : Unbracketed x.toList)
    (hspace : x.toList.any isSpace = false) (hnine : '9' ∈ x.toList) : Plain x where
  unbracketed := hunbracketed
  unspaced c hc := by
    rw [← Bool.not_eq_true]
    exact fun h => Bool.false_ne_true (hspace.symm.trans (List.any_eq_true.mpr ⟨c, hc, h⟩))
  unfixed text htext hoccurs := by
    have hfixed : ∀ text ∈ fixedTexts, '9' ∉ text.toList := by decide +kernel
    exact hfixed text htext (hoccurs.subset hnine)

theorem plain_keyed : ∀ x ∈ keyed.credentials, Plain x := by
  have hcredentials : keyed.credentials = ["sk-or-9", "ghs_9"] := by decide +kernel
  rw [hcredentials]
  intro x hx
  simp only [List.mem_cons, List.not_mem_nil, or_false] at hx
  rcases hx with rfl | rfl
  · exact plain_of_nine ⟨by decide, by decide, by decide⟩ (by decide) (by decide)
  · exact plain_of_nine ⟨by decide, by decide, by decide⟩ (by decide) (by decide)

theorem start_keyed {key : String} (h : keyed.start .spawned = .ok key) : key = "sk-or-9" := by
  have hstart : keyed.start .spawned = .ok "sk-or-9" := by rfl
  rw [hstart] at h
  exact (Except.ok.inj h).symm

instance (x : String) (events : List Event) : Decidable (Leaks x events) :=
  inferInstanceAs (Decidable (∃ e ∈ events, ∃ s ∈ e.strings, Occurs x s))

instance (a : Agent) (t : Told) : Decidable (a.Spares t) :=
  inferInstanceAs (Decidable (_ ∧ _))

/-- The key in the arguments and in `stderr` is masked. -/
theorem recorded_clean_iff_echoed : keyed.Clean (keyed.run .spawned (calling "echo sk-or-9")) := by
  refine (recorded_clean_iff keyed .spawned (calling "echo sk-or-9") plain_keyed).mpr ?_
  intro key h
  obtain rfl := start_keyed h
  exact ⟨by decide +kernel, by decide +kernel, by decide +kernel, trivial⟩

/-- The GitHub token in the arguments is recorded as it is. -/
theorem github_token_leaks :
    ¬ ∀ (a : Agent) (launch : Launch) (inputs : List Input),
      (∀ x ∈ a.credentials, Plain x) → a.Clean (a.run launch inputs) := by
  intro hclaim
  have hclean := hclaim keyed .spawned (calling "echo ghs_9") plain_keyed
  exact hclean "ghs_9" (by decide +kernel) (by decide +kernel)

/-- The key leaks where its halves come in two blocks. -/
theorem split_key_leaks :
    Leaks "sk-or-9" (keyed.run .spawned [.record [] false promptAccepted,
      .record [] false splitKey]) := by
  decide +kernel

end GgAgent.Sandbox.Pi
