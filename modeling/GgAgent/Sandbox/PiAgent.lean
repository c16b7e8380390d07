import GgAgent.Sandbox.Secrets
import GgAgent.Sandbox.Stream

/-!
One turn of the Pi process: what `PiRpcAgent` reads from it, and the events that come out.

The process writes JSON records. Each is routed to a control request that waits for it, taken
for the answer to the prompt, taken for the end of the turn, or translated into an event. Before
it is translated, the key of the model provider is replaced in the whole record. The text of a
failure is replaced and shortened by `_sanitize`. The task's GitHub token, which the process has
in its environment as well, is replaced nowhere.

`lower()` and the `str()` of a value that is no text are left open.
-/

namespace GgAgent.Sandbox.Pi

open GgAgent.Stream (EventKind)
open Value (item?)

/-! ### The environment of the process -/

abbrev Env := List (String × String)

namespace Env

def get? (env : Env) (name : String) : Option String :=
  (env.find? fun kv => kv.1 = name).map fun kv => kv.2

def pop (env : Env) (name : String) : Env := env.filter fun kv => kv.1 ≠ name

def set (env : Env) (name value : String) : Env := env.pop name ++ [(name, value)]

theorem get?_pop (env : Env) (name other : String) :
    (env.pop name).get? other = if name = other then none else env.get? other := by
  induction env with
  | nil => simp [pop, get?]
  | cons kv env ih =>
      simp only [pop, get?] at ih ⊢
      by_cases hkv : kv.1 = name
      · by_cases hname : name = other
        · simp [hkv, hname]
        · simpa [hkv, hname] using ih
      · by_cases hother : kv.1 = other
        · have hname : name ≠ other := fun h => hkv (hother.trans h.symm)
          simp [hother, hname, Ne.symm hname]
        · simpa [hkv, hother] using ih

theorem get?_set (env : Env) (name value other : String) :
    (env.set name value).get? other = if name = other then some value else env.get? other := by
  have hpop := get?_pop env name other
  simp only [get?] at hpop
  simp only [set, get?, List.find?_append]
  by_cases h : name = other
  · subst h
    rw [if_pos rfl] at hpop
    simp [Option.map_eq_none_iff.mp hpop]
  · rw [if_neg h] at hpop
    simp only [List.find?_singleton, h, decide_false, Bool.false_eq_true, if_false, Option.or_none]
    exact hpop

end Env

/-- The names that the copy of the environment does without. -/
def ambient : List String :=
  ["GH_TOKEN", "GITHUB_TOKEN", "GG_GITHUB_CLONE_TOKEN", "LOGFIRE_TOKEN", "LOGFIRE_API_KEY",
    "OTEL_EXPORTER_OTLP_HEADERS"]

def piProcessEnv (environ : Env) (githubToken : Option String) : Env :=
  let env := ambient.foldl Env.pop environ
  match githubToken with
  | none => env
  | some token =>
    if token = "" then env
    else (((env.set "GH_TOKEN" token).set "GIT_CONFIG_COUNT" "1").set "GIT_CONFIG_KEY_0"
      "credential.https://github.com.helper").set "GIT_CONFIG_VALUE_0" "!gh auth git-credential"

/-! ### Texts of failures -/

/-- The white space of `str.isspace`. -/
def isSpace (c : Char) : Bool :=
  let n := c.toNat
  (9 ≤ n && n ≤ 13) || (28 ≤ n && n ≤ 32) || n == 0x85 || n == 0xa0 || n == 0x1680 ||
    (0x2000 ≤ n && n ≤ 0x200a) || n == 0x2028 || n == 0x2029 || n == 0x202f || n == 0x205f ||
    n == 0x3000

/-- `text.split()`. -/
def words (cs : List Char) : List (List Char) := (cs.splitOnP isSpace).filter fun w => !w.isEmpty

/-- `" ".join(text.split())`. -/
def squeeze (cs : List Char) : List Char := [' '].intercalate (words cs)

/-- Case is ignored. Besides the capital letters, the dotted `İ`, the dotless `ı` and the
Kelvin sign are taken for letters of the pattern. -/
def sameLetter (letter c : Char) : Bool :=
  c.toLower == letter || (letter == 'i' && (c.toNat == 0x130 || c.toNat == 0x131)) ||
    (letter == 'k' && c.toNat == 0x212a)

/-- What comes after a word of the pattern. -/
def afterLetters : List Char → List Char → Option (List Char)
  | [], cs => some cs
  | _ :: _, [] => none
  | letter :: letters, c :: cs => if sameLetter letter c then afterLetters letters cs else none

/-- What comes after a match of `[_-]?`. -/
def afterJoint : List Char → List Char
  | [] => []
  | c :: cs => if c = '_' ∨ c = '-' then cs else c :: cs

/-- What comes after a match of `\s*[:=]\s*`. -/
def afterColon (cs : List Char) : Option (List Char) :=
  match cs.dropWhile isSpace with
  | [] => none
  | c :: rest => if c = ':' ∨ c = '=' then some (rest.dropWhile isSpace) else none

/-- A match of `(api[_-]?key\s*[:=]\s*)\S+` at the head of the text: the lengths of the group
and of the rest of the match. -/
@[irreducible] def keyMatch (cs : List Char) : Option (Nat × Nat) :=
  match ((afterLetters ['a', 'p', 'i'] cs).bind fun rest =>
    (afterLetters ['k', 'e', 'y'] (afterJoint rest)).bind afterColon) with
  | none => none
  | some rest =>
    match (rest.takeWhile fun c => !isSpace c).length with
    | 0 => none
    | n + 1 => some (cs.length - rest.length, n + 1)

/-- `re.sub` of the pattern by `\1[REDACTED]`. `skip` counts the characters of the current
match that are still to be passed over. -/
def subFrom : Nat → List Char → List Char
  | _, [] => []
  | skip + 1, _ :: cs => subFrom skip cs
  | 0, c :: cs =>
    match keyMatch (c :: cs) with
    | some (n, m) => (c :: cs).take n ++ (redacted.toList ++ subFrom (n + m - 1) cs)
    | none => c :: subFrom 0 cs

def sanitize (apiKey value : String) : String :=
  String.ofList ((squeeze (subFrom 0 (mask apiKey value).toList)).take 2000)

def authenticationFailed : String :=
  "OpenRouter authentication failed; update the personal key and retry"

def balanceInsufficient : String := "OpenRouter balance is insufficient; add credit and retry"

def rateLimitReached : String := "OpenRouter rate limit reached; retry later"

/-- `any(word in lowered for word in words)`. -/
def anyIn (lowered : String) (ws : List String) : Bool := ws.any fun w => Occurs w lowered

def providerError (lower : String → String) (detail : String) : Option String :=
  let lowered := lower detail
  if anyIn lowered ["unauthorized", "invalid api key", "401"] then some authenticationFailed
  else if anyIn lowered ["insufficient", "credits", "balance", "402"] then some balanceInsufficient
  else if anyIn lowered ["rate limit", "too many requests", "429"] then some rateLimitReached
  else none

/-- `f": {detail}" if detail else ""`. -/
def suffix (detail : String) : String := if detail = "" then "" else ": " ++ detail

/-! ### Failures and events -/

inductive ErrorKind
  | startup | prompt | protocol | process | timeout | cancelled
  deriving DecidableEq, Repr

def ErrorKind.code : ErrorKind → String
  | .startup => "agent_startup_error"
  | .prompt => "agent_prompt_error"
  | .protocol => "agent_protocol_error"
  | .process => "agent_process_error"
  | .timeout => "agent_timeout_error"
  | .cancelled => "agent_cancelled"

/-- An `AgentError`. -/
structure AgentError where
  kind : ErrorKind
  message : String

abbrev Dict := List (String × Value)

def AgentError.toEventPayload (e : AgentError) : Dict :=
  [("type", .str e.kind.code), ("message", .str e.message)]

structure Event where
  kind : EventKind
  payload : Dict

/-! ### Settings and inputs -/

structure Agent where
  environ : Env
  githubToken : Option String
  /-- The `pi` executable is found. -/
  onPath : Bool
  /-- `timeout_seconds` as it is printed. -/
  timeoutSeconds : String
  requestId : String
  lower : String → String
  /-- `str(value)` where the value is no text. -/
  repr : Value → String

/-- The credentials in the environment of the process. -/
def Agent.credentials (a : Agent) : List String :=
  let env := piProcessEnv a.environ a.githubToken
  (env.get? "OPENROUTER_API_KEY").toList ++ (env.get? "GH_TOKEN").toList

mutual

/-- A value that `json.loads` can give. -/
def loaded : Value → Bool
  | .null => true
  | .bool _ => true
  | .int _ => true
  | .float _ => true
  | .datetime _ => false
  | .str _ => true
  | .list items => loadedItems items
  | .tuple _ => false
  | .dict items => loadedEntries items

def loadedItems : List Value → Bool
  | [] => true
  | v :: items => loaded v && loadedItems items

def loadedEntries : List (String × Value) → Bool
  | [] => true
  | (_, v) :: items => loaded v && loadedEntries items

end

/-- A line of the process, decoded. -/
structure Record where
  value : Value
  json : loaded value = true

/-- How the process starts. -/
inductive Launch
  | spawned
  | notSpawned
  | noStdin
  | pipeBroken

/-- What ends the reading of the process's output. -/
inductive ReadFault
  | noStdout | tooLarge | unterminated | unreadable | malformed

def ReadFault.message : ReadFault → String
  | .noStdout => "Pi stdout is unavailable"
  | .tooLarge => "Pi JSONL record is too large"
  | .unterminated => "Pi emitted an unterminated JSONL record"
  | .unreadable => "Pi stdout could not be read"
  | .malformed => "Pi emitted malformed JSONL"

/-- What `_consume` gets from the queue, and what it finds beside it: the identifiers of the
control requests that wait for an answer, and whether cancellation was requested. -/
inductive Input
  | record (pending : List String) (cancelled : Bool) (r : Record)
  | fault (f : ReadFault)
  | eof (cancelled : Bool) (returnCode : Option Int) (stderr : String)
  | timeout

/-! ### Reading a record -/

def text? : Option Value → Option String
  | some (.str s) => some s
  | _ => none

def nonObject : String := "Pi emitted a non-object JSON message"

def invalidContent : String := "Pi assistant message has invalid content"

def blockNoObject : String := "Pi assistant content block is not an object"

def blockInvalid : String := "Pi assistant text block is invalid"

def invalidField (name : String) : String := "Pi message has invalid " ++ name

def mappingField (message : Dict) (name : String) : Except AgentError Dict :=
  match item? message name with
  | some (.dict items) => .ok items
  | _ => .error ⟨.protocol, invalidField name⟩

def stringField (message : Dict) (name : String) : Except AgentError String :=
  match text? (item? message name) with
  | some s => .ok s
  | none => .error ⟨.protocol, invalidField name⟩

/-- The text of a content block, if it is a text block. -/
def blockText : Value → Except AgentError (Option String)
  | .dict block =>
    if text? (item? block "type") = some "text" then
      match text? (item? block "text") with
      | some s => .ok (some s)
      | none => .error ⟨.protocol, blockInvalid⟩
    else .ok none
  | _ => .error ⟨.protocol, blockNoObject⟩

def blockTexts : List Value → Except AgentError (List String)
  | [] => .ok []
  | block :: blocks =>
    (blockText block).bind fun s => (blockTexts blocks).map fun parts => s.toList ++ parts

def assistantText (message : Dict) : Except AgentError String :=
  match item? message "content" with
  | some (.str s) => .ok s
  | some (.list blocks) => (blockTexts blocks).map String.join
  | _ => .error ⟨.protocol, invalidContent⟩

/-- `str(value)`. -/
def Agent.strOf (a : Agent) : Value → String
  | .str s => s
  | v => a.repr v

def assistantFailed : String := "Pi assistant failed"

/-- The text of an assistant message that reports an error. -/
def Agent.failureDetail (a : Agent) (apiKey : String) (completed : Dict) : String :=
  sanitize apiKey (a.strOf ((item? completed "errorMessage").getD (.str "")))

/-- A finished message of the assistant. -/
def Agent.messageEnd (a : Agent) (apiKey : String) (message : Dict) :
    Except AgentError (List Event) :=
  (mappingField message "message").bind fun completed =>
    if text? (item? completed "role") ≠ some "assistant" then .ok []
    else if text? (item? completed "stopReason") = some "error" then
      let detail := a.failureDetail apiKey completed
      .error ⟨.process,
        (providerError a.lower detail).getD (assistantFailed ++ suffix detail)⟩
    else
      (assistantText completed).map fun text =>
        [⟨.message, [("role", .str "assistant"), ("text", .str text)]⟩]

def toolStart (message : Dict) : Except AgentError (List Event) :=
  (stringField message "toolCallId").bind fun toolCallId =>
    (stringField message "toolName").map fun tool =>
      [⟨.action, [("tool_call_id", .str toolCallId), ("tool", .str tool),
        ("args", (item? message "args").getD .null)]⟩]

def invalidIsError : String := "Pi tool result has invalid isError"

def toolEnd (message : Dict) : Except AgentError (List Event) :=
  match item? message "isError" with
  | some (.bool isError) =>
    (stringField message "toolCallId").bind fun toolCallId =>
      (stringField message "toolName").map fun tool =>
        [⟨.observation, [("tool_call_id", .str toolCallId), ("tool", .str tool),
          ("result", (item? message "result").getD .null), ("is_error", .bool isError)]⟩]
  | _ => .error ⟨.protocol, invalidIsError⟩

def Agent.translateEvent (a : Agent) (apiKey : String) (item : Dict) :
    Except AgentError (List Event) :=
  let message := redactDict apiKey item
  let messageType := text? (item? message "type")
  if messageType = some "message_end" then a.messageEnd apiKey message
  else if messageType = some "tool_execution_start" then toolStart message
  else if messageType = some "tool_execution_end" then toolEnd message
  else .ok []

/-! ### The turn -/

/-- What the loop does with one input. -/
inductive Step
  | go (accepted : Bool) (emitted : List Event)
  | settled
  | raised (e : AgentError)

def Step.ofExcept (accepted : Bool) : Except AgentError (List Event) → Step
  | .ok events => .go accepted events
  | .error e => .raised e

/-- A control request waits for this record. -/
def routed (pending : List String) (item : Dict) : Bool :=
  match text? (item? item "id") with
  | some id => pending.contains id
  | none => false

def responseError (apiKey : String) (item : Dict) : String :=
  match text? (item? item "error") with
  | some raw => suffix (sanitize apiKey raw)
  | none => ""

def differentCommand : String := "Pi returned the prompt id for a different command"

def promptRejected : String := "Pi rejected the prompt"

def succeeded : Option Value → Bool
  | some (.bool b) => b
  | _ => false

def Agent.promptResponse (a : Agent) (apiKey : String) (item : Dict) : Step :=
  if text? (item? item "command") ≠ some "prompt" then .raised ⟨.protocol, differentCommand⟩
  else if succeeded (item? item "success") then .go true []
  else
    let detail := responseError apiKey item
    .raised ⟨.prompt, (providerError a.lower detail).getD (promptRejected ++ detail)⟩

def runCancelled : AgentError := ⟨.cancelled, "Pi run was cancelled"⟩

def settledEarly : String := "Pi settled before accepting the correlated prompt"

def onSettled (accepted cancelled : Bool) : Step :=
  if cancelled then .raised runCancelled
  else if accepted then .settled
  else .raised ⟨.protocol, settledEarly⟩

def Agent.onRecord (a : Agent) (apiKey : String) (accepted : Bool) (pending : List String)
    (cancelled : Bool) : Value → Step
  | .dict item =>
    let messageType := text? (item? item "type")
    if messageType = some "response" ∧ routed pending item = true then .go accepted []
    else if messageType = some "response" ∧ text? (item? item "id") = some a.requestId then
      a.promptResponse apiKey item
    else if messageType = some "agent_settled" then onSettled accepted cancelled
    else .ofExcept accepted (a.translateEvent apiKey item)
  | _ => .raised ⟨.protocol, nonObject⟩

/-- `Pi exited before agent_settled (exit code ...)`. -/
def exitText (returnCode : Option Int) : String :=
  "Pi exited before agent_settled (exit code " ++
    (match returnCode with
      | none => "None"
      | some n => toString n) ++ ")"

def Agent.timeoutText (a : Agent) : String :=
  "Pi did not settle within " ++ a.timeoutSeconds ++ " seconds"

def Agent.onEof (a : Agent) (apiKey : String) (cancelled : Bool) (returnCode : Option Int)
    (stderr : String) : AgentError :=
  if cancelled then runCancelled
  else
    let detail := sanitize apiKey stderr
    ⟨.process, (providerError a.lower detail).getD (exitText returnCode ++ suffix detail)⟩

/-- One round of `_consume`. -/
def Agent.step (a : Agent) (apiKey : String) (accepted : Bool) : Input → Step
  | .record pending cancelled r => a.onRecord apiKey accepted pending cancelled r.value
  | .fault f => .raised ⟨.protocol, f.message⟩
  | .eof cancelled returnCode stderr => .raised (a.onEof apiKey cancelled returnCode stderr)
  | .timeout => .raised ⟨.timeout, a.timeoutText⟩

/-- What `LocalConversation.run` records of a failure. A cancelled turn has none. -/
def AgentError.recorded (e : AgentError) : List Event :=
  if e.kind = .cancelled then [] else [⟨.error, e.toEventPayload⟩]

/-- The events of a turn: those passed to `emit`, and the one of the failure. -/
def Agent.consume (a : Agent) (apiKey : String) : Bool → List Input → List Event
  | _, [] => []
  | accepted, input :: inputs =>
    match a.step apiKey accepted input with
    | .go accepted events => events ++ a.consume apiKey accepted inputs
    | .settled => []
    | .raised e => e.recorded

def notOnPath : String := "Pi executable was not found on PATH"

def keyRequired : String := "OPENROUTER_API_KEY is required for Pi"

def Agent.preflight (a : Agent) : Except AgentError String :=
  if a.onPath = false then .error ⟨.startup, notOnPath⟩
  else
    match a.environ.get? "OPENROUTER_API_KEY" with
    | none => .error ⟨.startup, keyRequired⟩
    | some key => if key = "" then .error ⟨.startup, keyRequired⟩ else .ok key

def Launch.failure? : Launch → Option AgentError
  | .spawned => none
  | .notSpawned => some ⟨.startup, "Pi RPC process could not be started"⟩
  | .noStdin => some ⟨.process, "Pi stdin is unavailable"⟩
  | .pipeBroken => some ⟨.process, "Pi exited before accepting the command"⟩

/-- The process is started and gets the prompt: the key, or why not. -/
def Agent.start (a : Agent) (launch : Launch) : Except AgentError String :=
  match a.preflight with
  | .error e => .error e
  | .ok key =>
    match launch.failure? with
    | some e => .error e
    | none => .ok key

/-- A whole turn. -/
def Agent.run (a : Agent) (launch : Launch) (inputs : List Input) : List Event :=
  match a.start launch with
  | .error e => e.recorded
  | .ok key => a.consume key false inputs

end GgAgent.Sandbox.Pi
