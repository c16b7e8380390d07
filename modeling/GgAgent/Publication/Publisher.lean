import GgAgent.Backend.Service
import GgAgent.Lib.Pool
import Mathlib.Data.List.Infix

/-!
`DraftPublisher`: commit, push, and create or recover one draft pull request.

The publisher writes its journal, the publication row of the task, before and after each step
outside, so that an attempt after a crash or a lost answer goes on from there. An attempt is a
program over the calls to the ledger, to GitHub and to git. Between two calls others may change
a pull request or push to a branch, and the process may end; nobody else opens a pull request.
-/

namespace GgAgent.Publication

open GgAgent.Lib GgAgent.Backend

/-! ### Requests -/

/-- Bounded output from one shell command. -/
structure CommandCapture where
  command : String
  exitCode : Option Int
  durationMs : Int
  stdout : String
  stderr : String
  stdoutTruncated : Bool
  stderrTruncated : Bool
  timedOut : Bool

/-- Inputs required to commit, push, and reconcile one draft PR. -/
structure PublicationRequest where
  taskId : TaskId
  repository : String
  taskBranch : String
  baseRef : String
  baseSha : String
  headSha : Option String
  taskMarker : TaskId
  agentOutcome : AgentOutcome
  checkOutcome : CheckOutcome
  check : Option CommandCapture
  changedFiles : List String

/-- Credential-free view of one GitHub pull request. -/
structure RemotePullRequest where
  number : Nat
  htmlUrl : String
  draft : Bool
  state : String
  author : String
  title : String
  body : String
  headRef : String
  baseRef : String
  headSha : String
  deriving DecidableEq

/-- The clone in which the task ran, and the repository that its origin is. -/
structure RepoDir where
  origin : String

/-- `GitHubTimeoutError`, or another `GitHubError`. -/
inductive GitHubFailure
  | timeout (text : String)
  | error (text : String)

def GitHubFailure.text : GitHubFailure → String
  | .timeout s | .error s => s

/-- `PublicationError` and its two subclasses, or what the ledger raises. -/
inductive PublisherExn
  | publication (text : String)
  | conflict (text : String)
  | uncertain (text : String)
  | ledger (e : Exn)

/-! ### Texts -/

def taskMarkerPrefix : String := "gg-task-marker:"

/-- The token, and the text of a task id. -/
structure DraftPublisher where
  githubToken : String
  idText : TaskId → String

namespace DraftPublisher

variable (p : DraftPublisher)

def redact (text : String) : String :=
  if p.githubToken = "" then text else text.replace p.githubToken "[REDACTED]"

def markerToken (marker : TaskId) : String := taskMarkerPrefix ++ " " ++ p.idText marker

/-- The marker is in the body or in the title. -/
def marked (marker : TaskId) (pr : RemotePullRequest) : Bool :=
  decide ((p.markerToken marker).toList <:+: pr.body.toList) ||
    decide ((p.markerToken marker).toList <:+: pr.title.toList)

def prTitle (request : PublicationRequest) : String := "gg-task " ++ p.idText request.taskId

end DraftPublisher

def checkHeading : CheckOutcome → String
  | .passed => "## Measured checks: passed"
  | .failed => "## Measured checks: FAILED"
  | .timeout => "## Measured checks: timed out"
  | .notRun => "## Measured checks: not run"

/-- `str(bool)`. -/
def boolText (b : Bool) : String := if b then "True" else "False"

/-- `str.strip`. -/
def strip (s : String) : String :=
  String.ofList ((s.toList.dropWhile Service.isSpace).reverse.dropWhile Service.isSpace).reverse

def checkOutput (capture : CommandCapture) : String :=
  let output := capture.stdout ++ capture.stderr
  let output := if capture.stdoutTruncated || capture.stderrTruncated then
    output ++ "\n[truncated]" else output
  let output := if strip output = "" then "(no output)" else strip output
  if 4000 < output.length then String.ofList (output.toList.take 4000) ++ "\n[truncated]" else output

def checkBody (outcome : CheckOutcome) : Option CommandCapture → String
  | none => checkHeading outcome
  | some capture =>
    checkHeading outcome ++ "\n\n- command: `" ++ capture.command ++ "`\n- exit_code: `" ++
      (capture.exitCode.elim "None" toString) ++ "`\n- duration_ms: `" ++
      toString capture.durationMs ++ "`\n- timed_out: `" ++ boolText capture.timedOut ++
      "`\n\n```\n" ++ checkOutput capture ++ "\n```"

/-- The visible part of the body. -/
def DraftPublisher.prSummary (p : DraftPublisher) (request : PublicationRequest)
    (commitSha : String) : String :=
  let files := "\n".intercalate (request.changedFiles.map fun name => "- `" ++ name ++ "`")
  "# Task `" ++ p.idText request.taskId ++ "`\n\n- Repository: `" ++ request.repository ++
    "`\n- Branch: `" ++ request.taskBranch ++ "`\n- Base: `" ++ request.baseRef ++ "` (`" ++
    request.baseSha ++ "`)\n- Head: `" ++ commitSha ++ "`\n- Agent outcome: `" ++
    request.agentOutcome.value ++ "`\n- Check outcome: `" ++ request.checkOutcome.value ++
    "`\n\n" ++ checkBody request.checkOutcome request.check ++ "\n\n## Changed files\n\n" ++
    (if files = "" then "- (none)" else files) ++ "\n"

def DraftPublisher.prBody (p : DraftPublisher) (request : PublicationRequest) (commitSha : String) :
    String :=
  "<!-- " ++ p.markerToken request.taskMarker ++ " -->\n\n" ++ p.prSummary request commitSha

def shouldPublish (request : PublicationRequest) : Bool :=
  request.agentOutcome = .succeeded && !request.changedFiles.isEmpty

def skipDetail (request : PublicationRequest) : String :=
  match request.agentOutcome with
  | .noChanges => "no_changes"
  | .cancelled => "cancelled_without_publication"
  | .failed | .timeout | .notRun => "agent_failure_without_publication"
  | .succeeded => "no_changes"

def publishedOutcomeDetail (request : PublicationRequest) : String :=
  match request.checkOutcome with
  | .failed => "checks_failed"
  | .timeout => "checks_timed_out"
  | .passed => "checks_passed"
  | .notRun => "checks_not_run"

def isConflict (detail : Option String) : Bool :=
  detail.any fun s => "conflict:".toList.isPrefixOf s.toList

/-! ### Calls -/

inductive Call
  | getPublication (t : TaskId)
  | beginPublication (t : TaskId) (repository taskBranch baseRef : String) (taskMarker : TaskId)
      (commitSha : Option String) (checkOutcome : CheckOutcome) (agentOutcome : AgentOutcome)
      (state : PublicationState) (detail : Option String)
  | updatePublication (t : TaskId) (patch : Ledger.PublicationPatch)
  | ensureDurable
  | getBranchSha (repository branch : String)
  | listPullRequests (repository head base : String)
  | createDraftPullRequest (repository title body head base : String)
  /-- A git command that concerns the clone only. -/
  | git (repo : RepoDir) (args : List String)
  /-- `git ls-remote`: the first word of its output. -/
  | lsRemote (repo : RepoDir) (branch : String)
  /-- `git push -- origin SHA:refs/heads/BRANCH`. -/
  | push (repo : RepoDir) (sha branch : String)

@[reducible] def Call.Out : Call → Type
  | .getPublication _ => Except Exn (Option PublicationRecord)
  | .beginPublication .. => Except Exn (PublicationRecord × Bool)
  | .updatePublication _ _ => Except Exn PublicationRecord
  | .ensureDurable => Except Exn Unit
  | .getBranchSha _ _ => Except GitHubFailure (Option String)
  | .listPullRequests .. => Except GitHubFailure (List RemotePullRequest)
  | .createDraftPullRequest .. => Except GitHubFailure RemotePullRequest
  | .git _ _ => Except String String
  | .lsRemote _ _ => Except String (Option String)
  | .push .. => Except String String

abbrev Routine (α : Type) := Co Call.Out PublisherExn α

/-- A call whose failure is turned into an exception. -/
def call {ε α : Type} (c : Call) (h : c.Out = Except ε α) (raised : ε → PublisherExn) : Routine α :=
  ExceptT.mk (Prog.call c fun r => .ret ((cast h r).mapError raised))

def getPublication (t : TaskId) : Routine (Option PublicationRecord) :=
  call (.getPublication t) rfl .ledger

def updatePublication (t : TaskId) (patch : Ledger.PublicationPatch) : Routine PublicationRecord :=
  call (.updatePublication t patch) rfl .ledger

def ensureDurable : Routine Unit := call .ensureDurable rfl .ledger

namespace DraftPublisher

variable (p : DraftPublisher)

/-- `_run_git`: the command is named by its first two words. -/
def runGit (repo : RepoDir) (args : List String) : Routine String :=
  if "--force" ∈ args ∨ "-f" ∈ args then throw (.publication "force-push is not allowed")
  else call (.git repo args) rfl fun detail =>
    .publication (" ".intercalate (args.take 2) ++ " failed: " ++ p.redact detail)

end DraftPublisher

/-- `_begin`: another identity or another commit is a conflict. -/
def beginPublication (request : PublicationRequest) (commitSha : Option String)
    (state : PublicationState) (detail : Option String) :
    Routine (PublicationRecord × Bool) :=
  call (.beginPublication request.taskId request.repository request.taskBranch request.baseRef
      request.taskMarker commitSha request.checkOutcome request.agentOutcome state detail) rfl
    fun e =>
      match e with
      | .runtimeError s => .conflict s
      | e => .ledger e

def recordPublished (request : PublicationRequest) (pr : RemotePullRequest) (commitSha : String) :
    Routine PublicationRecord :=
  updatePublication request.taskId
    { state := .published, commitSha := some commitSha, prNumber := some pr.number,
      prUrl := some pr.htmlUrl, prDraft := some pr.draft, prAuthor := some pr.author,
      prState := some pr.state, detail := some (publishedOutcomeDetail request),
      checkStatus := some request.checkOutcome.value,
      outcomeDetail := some (publishedOutcomeDetail request),
      checkOutcome := some request.checkOutcome, agentOutcome := some request.agentOutcome }

def recordSkip (request : PublicationRequest) (existing : Option PublicationRecord) :
    Routine PublicationRecord :=
  match existing.filter fun r => r.prNumber.isSome with
  | some r => pure r
  | none => do
    let detail := skipDetail request
    let (record, created) ← beginPublication request none .skipped (some detail)
    let patch : Ledger.PublicationPatch :=
      { state := .skipped, detail := some detail, outcomeDetail := some detail,
        checkStatus := some request.checkOutcome.value }
    if created then updatePublication request.taskId patch
    else if record.state = .published then pure record
    else if record.state = .skipped then pure record
    else updatePublication request.taskId patch

def assertNotBaseBranch (request : PublicationRequest) : Routine Unit :=
  if request.taskBranch = request.baseRef then
    throw (.publication "refusing to push to the base branch")
  else if "-".toList.isPrefixOf request.taskBranch.toList then
    throw (.publication "task branch must not look like a git flag")
  else if "..".toList <:+: request.taskBranch.toList then
    throw (.publication "task branch must not contain '..'")
  else pure ()

namespace DraftPublisher

variable (p : DraftPublisher)

def headBasePullRequests (request : PublicationRequest) : Routine (List RemotePullRequest) :=
  call (.listPullRequests request.repository request.taskBranch request.baseRef) rfl fun e =>
    match e with
    | .timeout _ => .uncertain "listing pull requests timed out"
    | .error s => .publication (p.redact s)

def matchingPullRequests (request : PublicationRequest) : Routine (List RemotePullRequest) := do
  let found ← p.headBasePullRequests request
  pure (found.filter (p.marked request.taskMarker))

/-- Recover a sandbox-published PR without making a second commit. -/
def adoptExisting (request : PublicationRequest) : Routine (Option PublicationRecord) :=
  match shouldPublish request, request.headSha with
  | true, some headSha => do
    assertNotBaseBranch request
    let remoteSha ← call (.getBranchSha request.repository request.taskBranch) rfl
      fun e => .publication (p.redact e.text)
    if remoteSha ≠ some headSha then pure none
    else
      match ← p.matchingPullRequests request with
      | [] => pure none
      | [pr] =>
        if pr.state ≠ "open" ∨ pr.headSha ≠ headSha then
          throw (.conflict "task pull request does not match the published branch head")
        else do
          let _ ← beginPublication request (some headSha) .pending none
          some <$> recordPublished request pr headSha
      | _ => throw (.conflict "multiple pull requests match repository/head/base/task marker")
  | _, _ => pure none

def commitTaskBranch (request : PublicationRequest) (repo : RepoDir) : Routine String := do
  let branch ← p.runGit repo ["git", "rev-parse", "--abbrev-ref", "HEAD"]
  if branch = request.baseRef then
    let _ ← p.runGit repo ["git", "checkout", "-B", request.taskBranch]
  let _ ← p.runGit repo ["git", "add", "-A"]
  let status ← p.runGit repo ["git", "status", "--porcelain"]
  if status ≠ "" then
    let message := "gg-task " ++ p.idText request.taskId ++ "\n\n" ++
      p.markerToken request.taskMarker ++ "\n"
    let _ ← p.runGit repo ["git", "-c", "commit.gpgsign=false", "commit", "-m", message]
  let sha ← p.runGit repo ["git", "rev-parse", "HEAD"]
  if sha = request.baseSha then throw (.publication "no commit to publish on the task branch")
  else pure sha

/-- `https://github.com/` and what follows the first `github.com/`. -/
def publicUrl (url : String) : String :=
  "https://github.com/" ++ "github.com/".intercalate ((url.splitOn "github.com/").drop 1)

def shownUrl : Except PublisherExn String → String
  | .ok url => url
  | .error _ => ""

def assertOriginHasNoSecret (repo : RepoDir) : Routine Unit := do
  -- The exit codes of the two commands are not looked at.
  let url := shownUrl (← Co.attempt (p.runGit repo ["git", "remote", "get-url", "origin"]))
  if p.githubToken ≠ "" ∧ p.githubToken.toList <:+: url.toList then
    throw (.publication "origin URL contains a credential")
  if "@".toList <:+: url.toList ∧ "https://".toList.isPrefixOf url.toList ∧
      "github.com/".toList <:+: url.toList then
    let _ ← Co.attempt (p.runGit repo ["git", "remote", "set-url", "origin", publicUrl url])

def pushBranch (request : PublicationRequest) (repo : RepoDir) (commitSha : String) :
    Routine Unit := do
  let remoteSha ← call (.lsRemote repo request.taskBranch) rfl
    fun detail => .publication ("git ls-remote failed: " ++ p.redact detail)
  let apiSha ← call (.getBranchSha request.repository request.taskBranch) rfl
    fun e => .publication (p.redact e.text)
  let remoteSha := remoteSha.filter (· ≠ "")
  if remoteSha.isSome ∧ (apiSha.filter (· ≠ "")).isSome ∧ remoteSha ≠ apiSha then
    throw (.conflict ("git remote SHA and GitHub API SHA disagree for " ++ request.taskBranch))
  let existing := remoteSha <|> apiSha
  if (existing.filter (· ≠ "")).isSome ∧ existing ≠ some commitSha then
    throw (.conflict ("remote branch " ++ request.taskBranch ++ " is at " ++ existing.getD "" ++
      ", not intended commit " ++ commitSha))
  if existing = some commitSha then pure ()
  else do
    let _ ← call (.push repo commitSha request.taskBranch) rfl
      fun detail => .publication ("git push failed: " ++ p.redact detail)
    p.assertOriginHasNoSecret repo

def reconcileOrCreate (request : PublicationRequest) (commitSha : String) :
    Routine RemotePullRequest := do
  match ← p.matchingPullRequests request with
  | [pr] => pure pr
  | _ :: _ :: _ => throw (.conflict "multiple pull requests match repository/head/base/task marker")
  | [] =>
    let others ← p.headBasePullRequests request
    if others ≠ [] then
      throw (.conflict "remote pull request exists for this head/base without this task marker")
    let made ← ExceptT.mk (Prog.call (Call.createDraftPullRequest request.repository
      (p.prTitle request) (p.prBody request commitSha) request.taskBranch request.baseRef)
        fun r => .ret (.ok r))
    match made with
    | .error (.timeout _) =>
      match ← p.matchingPullRequests request with
      | [pr] => pure pr
      | _ :: _ :: _ => throw (.conflict "multiple pull requests match after a create timeout")
      | [] => throw (.uncertain "create timed out and no matching pull request was found")
    | .error (.error s) =>
      match ← p.matchingPullRequests request with
      | [pr] => pure pr
      | _ => throw (.publication (p.redact s))
    | .ok created =>
      if created.draft then pure created
      else throw (.publication "GitHub created a non-draft pull request")

/-- The part of an attempt whose conflicts and open questions go into the journal. -/
def publishCommit (request : PublicationRequest) (repo : RepoDir) (commitSha : String)
    (record : PublicationRecord) : Routine PublicationRecord := do
  let record ← if record.state = .pending ∨ record.state = .failed then do
      ensureDurable
      p.pushBranch request repo commitSha
      updatePublication request.taskId { state := .pushed }
    else pure record
  if record.state = .pushed then
    let _ ← updatePublication request.taskId { state := .creating }
  ensureDurable
  let pr ← p.reconcileOrCreate request commitSha
  recordPublished request pr commitSha

/-- A conflict and an open question go into the journal; every exception is raised again. -/
def journalFailure {α : Type} (request : PublicationRequest) : PublisherExn → Routine α
  | .conflict s => do
    let _ ← updatePublication request.taskId
      { state := .failed, detail := some ("conflict: " ++ s) }
    throw (.conflict s)
  | .uncertain s => do
    let _ ← updatePublication request.taskId
      { state := .creating, detail := some ("uncertain: " ++ s) }
    throw (.uncertain s)
  | e => throw e

/-- What an attempt finds in the journal that ends it. -/
def settled (r : PublicationRecord) : Option (Except PublisherExn PublicationRecord) :=
  if r.state = .published ∨ r.state = .skipped then some (.ok r)
  else if r.state = .failed ∧ isConflict r.detail then
    some (.error (.conflict (r.detail.getD "publication conflict")))
  else none

def publish (request : PublicationRequest) (repoDir : Option RepoDir) :
    Routine PublicationRecord := do
  let existing ← getPublication request.taskId
  match existing.bind settled with
  | some (.ok r) => pure r
  | some (.error e) => throw e
  | none =>
    if shouldPublish request = false then recordSkip request existing
    else
      match ← p.adoptExisting request with
      | some adopted => pure adopted
      | none =>
        match repoDir with
        | none => throw (.publication "repo_dir is required to publish changes")
        | some repo => do
          assertNotBaseBranch request
          let commitSha ← p.commitTaskBranch request repo
          let (record, _) ← beginPublication request (some commitSha) .pending none
          if record.state = .published then pure record
          else
            tryCatch (p.publishCommit request repo commitSha record) (journalFailure request)

end DraftPublisher

/-! ### GitHub -/

/-- The pull requests from the branches of the task, each with its repository, and where the
branches are. -/
structure GitHub where
  login : String
  /-- GitHub makes a draft when it is asked for one. -/
  supportsDrafts : Bool
  branches : String → String → Option String
  pulls : List (String × RemotePullRequest)

namespace GitHub

/-- `list_pull_requests` with `state=all`. -/
def listed (repository head base : String) (g : GitHub) : List RemotePullRequest :=
  (g.pulls.filter fun x => x.1 = repository ∧ x.2.headRef = head ∧ x.2.baseRef = base).map Prod.snd

/-- A branch moves, and with it the open pull requests from it. -/
def moved (repository branch sha : String) (g : GitHub) : GitHub :=
  { g with
    branches := fun r b => if r = repository ∧ b = branch then some sha else g.branches r b
    pulls := g.pulls.map fun x =>
      if x.1 = repository ∧ x.2.headRef = branch ∧ x.2.state = "open" then
        (x.1, { x.2 with headSha := sha })
      else x }

/-- A new pull request from a branch that exists. -/
def opened (repository title body head base : String) (g : GitHub) :
    Option (RemotePullRequest × GitHub) :=
  (g.branches repository head).map fun sha =>
    let number := g.pulls.length + 1
    let pr : RemotePullRequest :=
      { number, htmlUrl := "https://github.com/" ++ repository ++ "/pull/" ++ toString number,
        draft := g.supportsDrafts, state := "open", author := g.login, title, body,
        headRef := head, baseRef := base, headSha := sha }
    (pr, { g with pulls := g.pulls ++ [(repository, pr)] })

/-- Somebody else changes a pull request, but not where it comes from and goes to. -/
def edited (repository : String) (number : Nat) (draft : Bool) (state title body : String)
    (g : GitHub) : GitHub :=
  { g with
    pulls := g.pulls.map fun x =>
      if x.1 = repository ∧ x.2.number = number then
        (x.1, { x.2 with draft, state, title, body })
      else x }

end GitHub

/-! ### Runs -/

/-- What the attempt has got to know from GitHub and from `ensure_durable`. -/
inductive Exchange
  | branch (repository branch : String) (sha : Option String)
  | durable
  | listed (repository head base : String) (prs : List RemotePullRequest)
  | made (repository : String) (pr : RemotePullRequest)

structure World where
  ledger : Ledger
  github : GitHub
  /-- The exchanges of the attempt, the last first. -/
  asked : List Exchange
  /-- The exchanges at the last time that `PUBLISHED` was recorded. -/
  evidence : List Exchange
  /-- Somebody else has changed a pull request or pushed to a branch. -/
  touched : Bool

/-- How a call ends. A call that fails may have had its effect. -/
inductive Outcome
  | done (output : String)
  | timedOut (text : String) (effect : Bool)
  | failed (text : String) (effect : Bool)

structure Oracle where
  clock : Time
  outcome : Outcome

namespace World

variable (w : World)

def ask (e : Exchange) : World := { w with asked := e :: w.asked }

def begins (now : Time) (t : TaskId) (repository taskBranch baseRef : String) (taskMarker : TaskId)
    (commitSha : Option String) (checkOutcome : CheckOutcome) (agentOutcome : AgentOutcome)
    (state : PublicationState) (detail : Option String) :
    Except Exn (PublicationRecord × Bool) × World :=
  let x := w.ledger.beginPublication now t repository taskBranch baseRef taskMarker commitSha
    checkOutcome agentOutcome state detail
  (x.1.map fun r => (r, (w.ledger.publications.find? t).isNone), { w with ledger := x.2 })

def updates (now : Time) (t : TaskId) (patch : Ledger.PublicationPatch) :
    Except Exn PublicationRecord × World :=
  let x := w.ledger.updatePublication now t patch
  (x.1, { w with
    ledger := x.2, evidence := if patch.state = .published then w.asked else w.evidence })

def pushes (repository sha branch : String) : World :=
  { w with github := w.github.moved repository branch sha }

/-- The request to open a pull request arrives; without the branch there is none. -/
def creates (repository title body head base : String) : World :=
  match w.github.opened repository title body head base with
  | some x => { w with github := x.2 }
  | none => w

/-- The call and the outcome it has. -/
def answer (o : Oracle) : (c : Call) → World → Option (c.Out × World)
  | .getPublication t, w =>
    match o.outcome with
    | .done _ => some (.ok (w.ledger.publications.find? t), w)
    | _ => some (.error .sqliteError, w)
  | .beginPublication t r b f m s c a st d, w =>
    match o.outcome with
    | .done _ => some (w.begins o.clock t r b f m s c a st d)
    | _ => some (.error .sqliteError, w)
  | .updatePublication t patch, w =>
    match o.outcome with
    | .done _ => some (w.updates o.clock t patch)
    | _ => some (.error .sqliteError, w)
  | .ensureDurable, w =>
    match o.outcome with
    | .done _ => some (.ok (), w.ask .durable)
    | .timedOut s _ | .failed s _ => some (.error (.runtimeError s), w)
  | .getBranchSha r b, w =>
    match o.outcome with
    | .done _ => some (.ok (w.github.branches r b), w.ask (.branch r b (w.github.branches r b)))
    | .timedOut s _ => some (.error (.timeout s), w)
    | .failed s _ => some (.error (.error s), w)
  | .listPullRequests r h b, w =>
    match o.outcome with
    | .done _ => some (.ok (w.github.listed r h b), w.ask (.listed r h b (w.github.listed r h b)))
    | .timedOut s _ => some (.error (.timeout s), w)
    | .failed s _ => some (.error (.error s), w)
  | .createDraftPullRequest r title body h b, w =>
    match o.outcome with
    | .done _ =>
      match w.github.opened r title body h b with
      | some x => some (.ok x.1, { w with github := x.2, asked := .made r x.1 :: w.asked })
      | none => some (.error (.error "create draft pull request failed"), w)
    | .timedOut s effect =>
      some (.error (.timeout s), if effect then w.creates r title body h b else w)
    | .failed s effect =>
      some (.error (.error s), if effect then w.creates r title body h b else w)
  | .git _ _, w =>
    match o.outcome with
    | .done output => some (.ok output, w)
    | .timedOut s _ | .failed s _ => some (.error s, w)
  | .lsRemote repo branch, w =>
    match o.outcome with
    | .done _ => some (.ok (w.github.branches repo.origin branch), w)
    | .timedOut s _ | .failed s _ => some (.error s, w)
  | .push repo sha branch, w =>
    match o.outcome with
    | .done output => some (.ok output, w.pushes repo.origin sha branch)
    | .timedOut s effect | .failed s effect =>
      some (.error s, if effect then w.pushes repo.origin sha branch else w)

end World

/-- What happens beside the attempts: the process ends, or others change a pull request or push. -/
inductive Event
  | crash
  | edit (repository : String) (number : Nat) (draft : Bool) (state title body : String)
  | push (repository branch sha : String)

def Event.apply : Event → World → World
  | .crash, w => w
  | .edit r n d st title body, w =>
    { w with github := w.github.edited r n d st title body, touched := true }
  | .push r b sha, w => { w with github := w.github.moved r b sha, touched := true }

/-- An attempt for the task `t`, in a clone of the repository of the request. -/
structure Attempt (t : TaskId) where
  request : PublicationRequest
  repoDir : Option RepoDir
  task : request.taskId = t
  origin : ∀ repo, repoDir = some repo → repo.origin = request.repository

/-- The attempts to publish the task `t`, one at a time. -/
def publisher (p : DraftPublisher) (t : TaskId) :
    Machine Unit Call.Out (Except PublisherExn PublicationRecord) World where
  Oracle := Oracle
  Job := Attempt t
  Event := Event
  answer := fun _ o c w => World.answer o c w
  job := fun _ j w => some ((p.publish j.request j.repoDir).run, { w with asked := [] })
  event := fun e w => some (e.apply w)
  kills := fun e => e matches .crash

/-- No attempt has been made, and the branches of the task have no pull request. -/
structure Fresh (t : TaskId) (w : World) : Prop where
  journal : w.ledger.publications.find? t = none
  pulls : w.github.pulls = []
  untouched : w.touched = false

end GgAgent.Publication
