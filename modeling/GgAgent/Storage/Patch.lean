import GgAgent.Publication.Publisher
import GgAgent.Sandbox.Secrets
import GgAgent.Storage.Artifact

/-!
A patch on its way from the checkout to the archive, and the flag that tells whether it is whole.

`collect_git_evidence` cuts a diff that is too long and sets the flag, the redaction of the
result masks the secrets in what is left, and `truncate_manifest` cuts once more by a limit of
its own. The second cut writes the flag anew, from itself alone: what the first one had to
say is lost where the second finds nothing to do.
-/

namespace GgAgent.Storage

open GgAgent.Lib
open GgAgent.Lib.Json (bytes)
open GgAgent.Backend (Time TaskId ExecutionId AgentOutcome)
open GgAgent.Backend.Service (isSpace)
open GgAgent.Publication (strip)
open GgAgent.Events (takeBytes truncateText truncationSuffix)
open GgAgent.Sandbox (Value TaskResultManifest Settings StartTaskExecutionRequest Locals GitEvidence
  Exn TaskExecutionRecord Pid Oracle State Store mask maskAll Untouched Free Occurs Marked redactAll
  redactManifest resultManifest unmarked_field field_redactAll validated truthy repoDir conclude
  gatherEvidence within ask ofReply saveManifest updatePhase)

/-! ### The evidence of git -/

/-- A git command that has ended. -/
structure Completed where
  returncode : Int := 0
  stdout : String := ""
  stderr : String := ""
  deriving Repr

inductive GitCommand
  /-- `git rev-parse HEAD`. -/
  | revParseHead
  /-- `git diff --name-only <base_sha>`. -/
  | diffNameOnly (baseSha : String)
  /-- `git status --porcelain --untracked-files=all`. -/
  | statusPorcelain
  /-- `git diff <base_sha>`. -/
  | diff (baseSha : String)
  deriving DecidableEq, Repr

/-- A character that ends a line for `str.splitlines`. -/
def isLineEnd (c : Char) : Bool :=
  let n := c.toNat
  (10 ≤ n ∧ n ≤ 13) ∨ (28 ≤ n ∧ n ≤ 30) ∨ n = 0x85 ∨ n = 0x2028 ∨ n = 0x2029

/-- `str.splitlines`; `line` is what has been read of the current line, backwards. -/
def splitLinesFrom (line : List Char) : List Char → List (List Char)
  | [] => if line = [] then [] else [line.reverse]
  | '\r' :: '\n' :: cs => line.reverse :: splitLinesFrom [] cs
  | c :: cs =>
    if isLineEnd c then line.reverse :: splitLinesFrom [] cs else splitLinesFrom (c :: line) cs

def splitLines (text : String) : List (List Char) := splitLinesFrom [] text.toList

/-- `strip(stderr) or text`. -/
def gitError (stderr text : String) : Exn :=
  .gitPrep (if strip stderr = "" then text else strip stderr)

/-- The names of `git diff` and of `git status`, each once, in the order of the first time. -/
def changedFiles (names status : String) : List String :=
  ((splitLines names).filter (fun line => !line.all isSpace) ++
    ((splitLines status).filter fun line => 3 < line.length).map fun line => line.drop 3).map
      String.ofList |>.eraseDups

/-- The patch that is kept of a diff, and whether the diff was cut. -/
def collectPatch (diff : String) (maxPatchBytes : Nat) : String × Bool :=
  if maxPatchBytes < diff.utf8ByteSize then
    (String.ofList (takeBytes maxPatchBytes diff.toList), true)
  else (diff, false)

/-- `collect_git_evidence`; `run` is what each command comes to in the checkout. -/
def collectGitEvidence (run : GitCommand → Completed) (baseSha : String) (maxPatchBytes : Nat) :
    Except Exn GitEvidence := do
  let head := run .revParseHead
  if head.returncode ≠ 0 then throw (gitError head.stderr "git rev-parse HEAD failed")
  let headSha := strip head.stdout
  let names := run (.diffNameOnly baseSha)
  if names.returncode ≠ 0 then throw (gitError names.stderr "git diff --name-only failed")
  let status := run .statusPorcelain
  if status.returncode ≠ 0 then throw (gitError status.stderr "git status failed")
  let changed := changedFiles names.stdout status.stdout
  let patch := run (.diff baseSha)
  if patch.returncode ≠ 0 then throw (gitError patch.stderr "git diff failed")
  let kept := collectPatch patch.stdout maxPatchBytes
  return ⟨some headSha, changed, some kept.1, kept.2⟩

/-! ### The archive -/

/-- A row of `task_results`, with the manifest as it was sent. -/
structure ArchivedResult where
  taskId : TaskId
  executionId : Option ExecutionId
  manifest : Option TaskResultManifest
  evidenceComplete : Bool
  evidenceDetail : Option String
  archivedAt : Time

instance : Keyed ArchivedResult TaskId := ⟨ArchivedResult.taskId⟩

/-- `archive_task_result`, for a task that has its payload. -/
def archiveTaskResult (now : Time) (t : TaskId) (executionId : Option ExecutionId)
    (manifest : Option TaskResultManifest) (evidenceComplete : Bool)
    (evidenceDetail : Option String) (results : Table ArchivedResult) : Table ArchivedResult :=
  results.put
    { taskId := t, executionId, manifest, evidenceComplete, evidenceDetail, archivedAt := now }

/-- The archival of `_finalize_locked`. There are storage limits when the manager was made with
runtime settings. -/
def archiveFetched (now : Time) (t : TaskId) (executionId : Option ExecutionId)
    (maxArtifactBytes : Option Nat) (fetched : Option TaskResultManifest)
    (results : Table ArchivedResult) : Table ArchivedResult :=
  let manifest := match fetched, maxArtifactBytes with
    | some m, some maxBytes => some (truncateManifest m maxBytes).1
    | _, _ => fetched
  archiveTaskResult now t executionId manifest manifest.isSome
    (if manifest.isSome then none else some "manifest archival incomplete") results

/-! ### The way of a patch -/

/-- A turn in a repository, from the end of the agent to the archive. -/
structure Delivery where
  cfg : Settings
  request : StartTaskExecutionRequest
  locals : Locals
  /-- The token of the turn. -/
  githubToken : Option String
  agentOutcome : AgentOutcome
  completedAt : Time
  run : GitCommand → Completed
  maxPatchBytes : Nat
  taskId : TaskId
  executionId : Option ExecutionId
  maxArtifactBytes : Option Nat
  archivedAt : Time
  results : Table ArchivedResult

namespace Delivery

variable (d : Delivery)

def secrets : List String := d.cfg.secrets d.githubToken

def baseSha : String := d.locals.baseSha.getD ""

/-- The text of the diff. -/
def diff : String := (d.run (.diff d.baseSha)).stdout

/-- The whole diff, redacted. -/
def complete : String := maskAll d.secrets d.diff

/-- The manifest that the sandbox saves and serves, if it gets to save one. -/
def saved : Option TaskResultManifest :=
  match collectGitEvidence d.run d.baseSha d.maxPatchBytes with
  | .ok evidence => redactManifest d.cfg d.githubToken
      (resultManifest d.request d.locals evidence d.agentOutcome d.completedAt)
  | .error _ => none

/-- The archive after the manifest was fetched. -/
def archive : Option (Table ArchivedResult) :=
  d.saved.map fun m =>
    archiveFetched d.archivedAt d.taskId d.executionId d.maxArtifactBytes (some m) d.results

/-- The archived manifest. -/
def archived : Option TaskResultManifest := do
  let results ← d.archive
  let row ← results.find? d.taskId
  row.manifest

/-- The flag of an archived manifest tells whether its patch is the whole diff. -/
def Visible (m : TaskResultManifest) : Prop :=
  m.patchTruncated = true ↔ m.patch ≠ some d.complete

end Delivery

/-! ### The two cuts -/

theorem takeBytes_initial (n : Nat) (cs : List Char) : takeBytes n cs <+: cs := by
  induction cs generalizing n with
  | nil => exact List.nil_prefix
  | cons c cs ih =>
      rw [takeBytes]
      split
      · exact List.cons_prefix_cons.mpr ⟨rfl, ih _⟩
      · exact List.nil_prefix

theorem bytes_takeBytes (n : Nat) (cs : List Char) : bytes (takeBytes n cs) ≤ n := by
  induction cs generalizing n with
  | nil => exact Nat.zero_le n
  | cons c cs ih =>
      rw [takeBytes]
      split
      next hc =>
        have hrest := ih (n - c.utf8Size)
        rw [Json.bytes_cons]
        omega
      next => exact Nat.zero_le n

/-- What is kept of a text of which at most so many bytes may be kept. -/
def beginning (maxBytes : Nat) (text : String) : String := (collectPatch text maxBytes).1

theorem beginning_of_fits {maxBytes : Nat} {text : String} (h : text.utf8ByteSize ≤ maxBytes) :
    beginning maxBytes text = text := by
  rw [beginning, collectPatch, if_neg (by omega)]

theorem utf8ByteSize_beginning {maxBytes : Nat} {text : String}
    (h : maxBytes < text.utf8ByteSize) : (beginning maxBytes text).utf8ByteSize ≤ maxBytes := by
  rw [beginning, collectPatch, if_pos h, Json.utf8ByteSize_ofList]
  exact bytes_takeBytes maxBytes text.toList

/-- A text that is cut has lost something. -/
theorem beginning_ne {maxBytes : Nat} {text : String} (h : maxBytes < text.utf8ByteSize) :
    beginning maxBytes text ≠ text := by
  intro heq
  have hkept := utf8ByteSize_beginning h
  rw [heq] at hkept
  omega

theorem occurs_of_beginning {x text : String} {maxBytes : Nat}
    (h : Occurs x (beginning maxBytes text)) : Occurs x text := by
  rw [beginning, collectPatch] at h
  split at h
  · rw [Occurs, String.toList_ofList] at h
    exact h.trans (takeBytes_initial maxBytes text.toList).isInfix
  · exact h

/-- The limit of the second cut. -/
def patchLimit (maxArtifactBytes : Nat) : Nat := max 4096 (maxArtifactBytes / 2)

/-- A text that is cut gets shorter, the remark at its end included. -/
theorem utf8ByteSize_truncateText {text : String} {maxBytes : Nat}
    (h : patchLimit maxBytes < text.utf8ByteSize) :
    (truncateText text (patchLimit maxBytes)).1.utf8ByteSize < patchLimit maxBytes := by
  have hfloor : 4096 ≤ patchLimit maxBytes := Nat.le_max_left _ _
  have hkept := bytes_takeBytes (patchLimit maxBytes - 64) text.toList
  have hsuffix : truncationSuffix.utf8ByteSize = 30 := by decide
  rw [truncateText, if_neg (by omega), String.utf8ByteSize_append, Json.utf8ByteSize_ofList,
    hsuffix]
  omega

theorem truncateText_flag (text : String) (limit : Nat) :
    (truncateText text limit).2 = decide (limit < text.utf8ByteSize) := by
  rw [truncateText]
  split
  next h => simp [h]
  next h => simp [Nat.lt_of_not_le h]

theorem truncateText_of_fits {text : String} {limit : Nat} (h : text.utf8ByteSize ≤ limit) :
    (truncateText text limit).1 = text := by
  rw [truncateText, if_pos h]

/-! ### The patch on its way -/

theorem collected {run : GitCommand → Completed} {baseSha : String} {maxPatchBytes : Nat}
    {evidence : GitEvidence} (h : collectGitEvidence run baseSha maxPatchBytes = .ok evidence) :
    evidence.patch = some (beginning maxPatchBytes (run (.diff baseSha)).stdout) ∧
      evidence.patchTruncated =
        decide (maxPatchBytes < (run (.diff baseSha)).stdout.utf8ByteSize) := by
  have hflag : ∀ text, (collectPatch text maxPatchBytes).2 =
      decide (maxPatchBytes < text.utf8ByteSize) := by
    intro text
    rw [collectPatch]
    split
    next h => simp [h]
    next h => simp [h]
  unfold collectGitEvidence at h
  simp only [throw, throwThe, MonadExceptOf.throw, pure, bind, Except.bind, Except.pure] at h
  -- A command that fails raises.
  iterate 4
    split at h
    · cases h
  obtain rfl := Except.ok.inj h
  exact ⟨rfl, hflag _⟩

theorem flag_of_validate {fields : List (String × Value)} {m : TaskResultManifest}
    (h : TaskResultManifest.validate fields = some m) :
    Sandbox.Field.flag (Value.item? fields "patch_truncated") = some m.patchTruncated := by
  unfold TaskResultManifest.validate at h
  iterate 9 obtain ⟨_, -, h⟩ := Option.bind_eq_some_iff.mp h
  obtain ⟨_, hflag, h⟩ := Option.bind_eq_some_iff.mp h
  iterate 7 obtain ⟨_, -, h⟩ := Option.bind_eq_some_iff.mp h
  obtain rfl := Option.some.inj h
  exact hflag

/-- Redaction masks the patch and keeps the flag, as long as it leaves their names alone. -/
theorem patch_redactManifest {cfg : Settings} {token : Option String} {m m' : TaskResultManifest}
    (h : redactManifest cfg token m = some m') :
    m'.patch = (if Untouched (cfg.secrets token) "patch" then
      m.patch.map (maskAll (cfg.secrets token)) else none) ∧
    m'.patchTruncated = (if Untouched (cfg.secrets token) "patch_truncated" then
      m.patchTruncated else false) := by
  unfold redactManifest at h
  simp only at h
  split at h
  next hnil =>
    obtain rfl := Option.some.inj h
    have hid : maskAll [] = id := rfl
    simp [hnil, Untouched, hid]
  next =>
    have hpatch := (validated h).patch
    have hflag := flag_of_validate h
    rw [field_redactAll _ m (v := .ofStr? m.patch) unmarked_field rfl] at hpatch
    rw [field_redactAll _ m (v := .bool m.patchTruncated) unmarked_field rfl] at hflag
    constructor
    · split at hpatch
      next hun =>
        rw [if_pos hun]
        cases hm : m.patch with
        | none =>
            rw [hm, Value.ofStr?, Sandbox.redactValue_null] at hpatch
            exact (Option.some.inj hpatch).symm
        | some patch =>
            rw [hm, Value.ofStr?, Sandbox.redactValue_str] at hpatch
            exact (Option.some.inj hpatch).symm
      next hun =>
        rw [if_neg hun]
        exact (Option.some.inj hpatch).symm
    · split at hflag
      next hun =>
        rw [Sandbox.redactValue_of_fixed fun _ => by rw [Sandbox.redactSecret]] at hflag
        rw [if_pos hun]
        exact (Option.some.inj hflag).symm
      next hun =>
        rw [if_neg hun]
        exact (Option.some.inj hflag).symm

/-- Where the secret is, the text gets a bracket. -/
theorem bracket_mem_of_infix {old cs : List Char} (hcs : cs ≠ []) (h : old <:+: cs) :
    '[' ∈ Sandbox.replaceFrom old Sandbox.redacted.toList 0 cs := by
  induction cs with
  | nil => exact absurd rfl hcs
  | cons c cs ih =>
      rw [Sandbox.replaceFrom]
      split
      · exact List.mem_append_left _ Sandbox.bracket_mem_redacted
      next hp =>
        have hhere : ¬ old <+: c :: cs := by simpa using hp
        have hlater := (List.infix_cons_iff.mp h).resolve_left hhere
        refine List.mem_cons_of_mem _ (ih ?_ hlater)
        rintro rfl
        rw [List.infix_nil.mp hlater] at hhere
        exact hhere List.nil_prefix

/-- A secret in the name of the patch is in the name of the flag as well. -/
theorem untouched_patch {secrets : List String} (h : Untouched secrets "patch_truncated") :
    Untouched secrets "patch" := by
  intro x hx
  by_contra hmask
  have hoccurs : Occurs x "patch" := by
    by_contra hnot
    exact hmask (Sandbox.mask_of_not_occurs hnot)
  have hflag : Occurs x "patch_truncated" :=
    hoccurs.trans ⟨[], "_truncated".toList, by decide⟩
  have hmarked : Marked (mask x "patch_truncated") := by
    rw [Marked, mask, String.toList_ofList]
    exact bracket_mem_of_infix (by decide) hflag
  rw [h x hx] at hmarked
  exact absurd hmarked unmarked_field

theorem manifests_saveExecution (r : TaskExecutionRecord) (s : State) :
    (s.saveExecution r).2.store.manifests = s.store.manifests := by
  simp only [State.saveExecution, Store.saveExecution]
  split
  · rfl
  · split <;> rfl

namespace Delivery

variable {d : Delivery} {m : TaskResultManifest}

variable (d) in
/-- What the first cut has left of the diff, redacted. -/
def shown : String := maskAll d.secrets (beginning d.maxPatchBytes d.diff)

theorem shown_of_fits (h : d.diff.utf8ByteSize ≤ d.maxPatchBytes) : d.shown = d.complete := by
  rw [shown, complete, beginning_of_fits h]

theorem patch_saved (h : d.saved = some m) :
    m.patch = (if Untouched d.secrets "patch" then some d.shown else none) ∧
    m.patchTruncated = (if Untouched d.secrets "patch_truncated" then
      decide (d.maxPatchBytes < d.diff.utf8ByteSize) else false) := by
  unfold saved at h
  split at h
  next evidence hev =>
    obtain ⟨hpatch, hflag⟩ := collected hev
    have hred := patch_redactManifest h
    rw [resultManifest, hpatch, hflag] at hred
    exact hred
  next => cases h

/-- The saved manifest is what a pipeline leaves in the store that comes from the end of its agent
to the end of its `try` block. -/
theorem stored_of_conclude {p : Pid} {o : Oracle} {s s' : State}
    (hrepo : truthy d.request.repository = true)
    (hgit : o.git (.collectGitEvidence (repoDir d.cfg d.request.taskId) d.baseSha
      Sandbox.maxPatchBytes) = collectGitEvidence d.run d.baseSha d.maxPatchBytes)
    (hnow : o.now = d.completedAt)
    (hrun : (conclude d.cfg d.request d.githubToken d.agentOutcome d.locals).run.alone
      (State.answer d.cfg p o) s = some (.ok (), s')) :
    ∃ m, d.saved = some m ∧ s'.store.loadManifest m.executionId = .ok m := by
  have hbase : d.locals.baseSha.getD "" = d.baseSha := rfl
  unfold conclude gatherEvidence at hrun
  rw [if_pos hrepo, hbase] at hrun
  simp only [within, Sandbox.git, ask, ofReply, saveManifest, updatePhase, ExceptT.run, ExceptT.mk,
    bind, ExceptT.bind, ExceptT.lift, Prog.perform, Prog.bind, Prog.alone, Functor.map,
    State.answer, Option.bind_some, pure, ExceptT.pure, throw, throwThe, MonadExceptOf.throw,
    Function.comp] at hrun
  rw [hgit] at hrun
  unfold saved
  cases hev : collectGitEvidence d.run d.baseSha d.maxPatchBytes with
  | error e =>
      rw [hev] at hrun
      cases hrun
  | ok evidence =>
      rw [hev] at hrun
      simp only [Prog.bind, ExceptT.bindCont, Prog.alone, State.answer, Option.bind_some, hnow]
        at hrun
      unfold State.saveManifest Store.saveManifest at hrun
      cases hred : redactManifest d.cfg d.githubToken
          (resultManifest d.request d.locals evidence d.agentOutcome d.completedAt) with
      | none =>
          rw [hred] at hrun
          cases hrun
      | some m =>
          rw [hred] at hrun
          refine ⟨m, hred, ?_⟩
          by_cases hrow : (s.store.executions.find? m.executionId).isNone = true
          · simp only [hrow, if_true] at hrun
            cases hrun
          · simp only [hrow, Bool.false_eq_true, if_false] at hrun
            obtain ⟨⟨_, s₁⟩, hput, hrest⟩ := Option.bind_eq_some_iff.mp hrun
            obtain ⟨rfl, rfl⟩ := Prod.mk.inj (Option.some.inj hput)
            -- The terminal phase is written last.
            obtain ⟨⟨reply, s₂⟩, hphase, hlast⟩ := Option.bind_eq_some_iff.mp hrest
            have hs : s₂.store.manifests = s.store.manifests.put m := by
              obtain ⟨-, rfl⟩ := Prod.mk.inj (Option.some.inj hphase)
              exact manifests_saveExecution _ _
            cases reply with
            | error e => cases hlast
            | ok =>
                obtain ⟨-, rfl⟩ := Prod.mk.inj (Option.some.inj hlast)
                have hkey : m.executionId = key m := rfl
                rw [Store.loadManifest, hs, Table.find?_put, if_pos hkey]
theorem archived_of_saved (h : d.saved = some m) :
    d.archived = some (match d.maxArtifactBytes with
      | some maxBytes => (truncateManifest m maxBytes).1
      | none => m) := by
  unfold archived archive
  rw [h]
  simp only [Option.map_some, archiveFetched, archiveTaskResult, Option.bind_eq_bind,
    Option.bind_some, Table.find?_put]
  cases d.maxArtifactBytes <;> simp [key]

theorem saved_of_archived (h : d.archived = some m) : ∃ m', d.saved = some m' := by
  cases hs : d.saved with
  | none =>
      unfold archived archive at h
      rw [hs] at h
      cases h
  | some m' => exact ⟨m', rfl⟩

variable (d) in
/-- When the flag of the archived patch is right: the diff was not cut by the sandbox, or it
was and the archive can tell. Without storage limits nobody overwrites the flag. With them the
flag is that of the second cut: it has to cut as well, and if it does not, what is left of the
diff has to be as good as the whole. No credential is in the name of the patch. -/
def Told : Prop :=
  Untouched d.secrets "patch" ∧
    (d.diff.utf8ByteSize ≤ d.maxPatchBytes ∨
      match d.maxArtifactBytes with
      | none => Untouched d.secrets "patch_truncated" ↔ d.shown ≠ d.complete
      | some maxBytes =>
        if d.shown.utf8ByteSize ≤ patchLimit maxBytes then d.shown = d.complete
        else (truncateText d.shown (patchLimit maxBytes)).1 ≠ d.complete)

/-- Without limits the flag is that of the first cut. -/
theorem visible_unlimited (hpatch : m.patch = some d.shown)
    (hflag : m.patchTruncated = (if Untouched d.secrets "patch_truncated" then
      decide (d.maxPatchBytes < d.diff.utf8ByteSize) else false)) :
    d.Visible m ↔ d.diff.utf8ByteSize ≤ d.maxPatchBytes ∨
      (Untouched d.secrets "patch_truncated" ↔ d.shown ≠ d.complete) := by
  rw [Visible, hpatch, hflag, ne_eq, Option.some.injEq]
  by_cases hfits : d.diff.utf8ByteSize ≤ d.maxPatchBytes
  · have hnot : ¬ d.maxPatchBytes < d.diff.utf8ByteSize := by omega
    simp [hfits, hnot, shown_of_fits hfits]
  · have hcut : d.maxPatchBytes < d.diff.utf8ByteSize := by omega
    simp only [hfits, false_or, hcut, decide_true, Bool.ite_eq_true_distrib, Bool.false_eq_true,
      if_true_left, imp_false, not_not, ne_eq]

/-- With limits the flag is that of the second cut. -/
theorem visible_limited {maxBytes : Nat} (hpatch : m.patch = some d.shown) :
    d.Visible (truncateManifest m maxBytes).1 ↔ d.diff.utf8ByteSize ≤ d.maxPatchBytes ∨
      if d.shown.utf8ByteSize ≤ patchLimit maxBytes then d.shown = d.complete
      else (truncateText d.shown (patchLimit maxBytes)).1 ≠ d.complete := by
  have hshort : truncateManifest m maxBytes =
      ({ m with
          patch := some (truncateText d.shown (patchLimit maxBytes)).1
          patchTruncated := (truncateText d.shown (patchLimit maxBytes)).2 },
        (truncateText d.shown (patchLimit maxBytes)).2) := by
    rw [truncateManifest, hpatch]
    rfl
  rw [hshort, Visible, truncateText_flag, ne_eq, Option.some.injEq, decide_eq_true_iff]
  by_cases hlow : d.shown.utf8ByteSize ≤ patchLimit maxBytes
  · have hnot : ¬ patchLimit maxBytes < d.shown.utf8ByteSize := by omega
    rw [truncateText_of_fits hlow, if_pos hlow]
    constructor
    · intro hvisible
      right
      by_contra hne
      exact hnot (hvisible.mpr hne)
    · intro htold
      have hsame : d.shown = d.complete := htold.elim shown_of_fits id
      exact ⟨fun h => absurd h hnot, fun h => absurd hsame h⟩
  · have hhigh : patchLimit maxBytes < d.shown.utf8ByteSize := by omega
    rw [if_neg hlow]
    constructor
    · exact fun hvisible => .inr (hvisible.mp hhigh)
    · intro htold
      refine ⟨fun _ => ?_, fun _ => hhigh⟩
      rcases htold with hfits | hne
      · -- The whole diff is longer than what the second cut leaves.
        intro heq
        have hless := utf8ByteSize_truncateText hhigh
        rw [heq, ← shown_of_fits hfits] at hless
        omega
      · exact hne

/-- The flag is right in exactly these cases. -/
theorem visible_iff_told (h : d.archived = some m) : d.Visible m ↔ d.Told := by
  obtain ⟨m', hsaved⟩ := saved_of_archived h
  obtain ⟨hpatch, hflag⟩ := patch_saved hsaved
  have hm := archived_of_saved hsaved
  rw [h, Option.some.injEq] at hm
  by_cases hun : Untouched d.secrets "patch"
  · rw [if_pos hun] at hpatch
    rw [Told, and_iff_right hun]
    cases hmax : d.maxArtifactBytes with
    | none =>
        rw [hmax] at hm
        obtain rfl : m = m' := hm
        exact visible_unlimited hpatch hflag
    | some maxBytes =>
        rw [hmax] at hm
        obtain rfl : m = (truncateManifest m' maxBytes).1 := hm
        exact visible_limited hpatch
  · -- The name of the patch is lost, and with it the name of the flag.
    have hname : ¬ Untouched d.secrets "patch_truncated" := fun h => hun (untouched_patch h)
    rw [if_neg hun] at hpatch
    rw [if_neg hname] at hflag
    have hsame : m = m' := by
      rw [hm]
      cases d.maxArtifactBytes with
      | none => rfl
      | some maxBytes =>
          show (truncateManifest m' maxBytes).1 = m'
          rw [truncateManifest, hpatch]
    constructor
    · intro hvisible
      rw [Visible, hsame, hpatch, hflag] at hvisible
      exact absurd (hvisible.mpr (by simp)) (by decide)
    · exact fun htold => absurd htold.1 hun

/-- For a diff that has no credential in it: the sandbox did not cut it, or there are no limits,
or the archive cuts the rest once more. -/
theorem told_of_free_iff (hfree : Free d.secrets d.diff)
    (hflag : Untouched d.secrets "patch_truncated") :
    d.Told ↔ d.diff.utf8ByteSize ≤ d.maxPatchBytes ∨
      ∀ maxBytes ∈ d.maxArtifactBytes,
        patchLimit maxBytes < (beginning d.maxPatchBytes d.diff).utf8ByteSize := by
  have hcomplete : d.complete = d.diff := Sandbox.maskAll_of_free hfree
  have hshown : d.shown = beginning d.maxPatchBytes d.diff :=
    Sandbox.maskAll_of_free fun x hx h => hfree x hx (occurs_of_beginning h)
  rw [Told, and_iff_right (untouched_patch hflag)]
  refine or_congr_right' fun hlong => ?_
  have hne : d.shown ≠ d.complete := by
    rw [hshown, hcomplete]
    exact beginning_ne (by omega)
  cases d.maxArtifactBytes with
  | none => simp [hflag, hne]
  | some maxBytes =>
      have hkept := utf8ByteSize_beginning (Nat.lt_of_not_le hlong)
      simp only [Option.mem_def, Option.some.injEq, forall_eq', ← hshown]
      rw [← hshown] at hkept
      by_cases hlow : d.shown.utf8ByteSize ≤ patchLimit maxBytes
      · rw [if_pos hlow]
        exact iff_of_false hne (by omega)
      · have hhigh : patchLimit maxBytes < d.shown.utf8ByteSize := by omega
        have hless := utf8ByteSize_truncateText hhigh
        rw [if_neg hlow]
        refine iff_of_true (fun heq => ?_) hhigh
        rw [heq, hcomplete] at hless
        omega

end Delivery

/-! ### A long diff -/

def unkeyed : Settings where
  workspaceDir := "/workspace"
  databasePath := "/workspace/state.db"
  githubToken := none
  openrouterApiKey := none
  sha256 _ := []

def turn : StartTaskExecutionRequest where
  taskId := "t1"
  repository := some "octo/notes"
  prompt := "Fill the notes."
  baseRef := some "main"
  baseSha := none
  taskBranch := some "gg/t1"
  startKey := "k1"
  deadlineAt := 60
  model := "pi"

/-- The record of the turn while its agent works. -/
def working : Sandbox.TaskExecutionRecord where
  executionId := "73"
  taskId := "t1"
  model := "pi"
  repository := some "octo/notes"
  startKey := "k1"
  phase := .runningAgent
  taskBranch := some "gg/t1"
  baseRef := some "main"
  deadlineAt := 60
  conversationId := some "c1"
  manifestPath := none
  outcomeDetail := none
  createdAt := 1
  updatedAt := 2

def lineHeader : String :=
  "diff --git a/notes.txt b/notes.txt\nindex 8b13789..2c5b1b4 100644\n--- a/notes.txt\n" ++
    "+++ b/notes.txt\n@@ -1 +1 @@\n-\n+"

/-- An empty line of a file becomes a line of so many letters. -/
def lineDiff (n : Nat) : String := lineHeader ++ letters n ++ "\n"

def noted (n : Nat) : GitCommand → Completed
  | .revParseHead => { stdout := "9f2c\n" }
  | .diffNameOnly _ => { stdout := "notes.txt\n" }
  | .statusPorcelain => { stdout := " M notes.txt\n" }
  | .diff _ => { stdout := lineDiff n }

/-- `DEFAULT_MAX_ARTIFACT_BYTES`. -/
def defaultMaxArtifactBytes : Nat := 25 * 1024 * 1024

/-- The turn with the limits that the sandbox and the settings have by default. -/
def noting (n : Nat) : Delivery where
  cfg := unkeyed
  request := turn
  locals := ⟨working, some "4b1d", some "c1"⟩
  githubToken := none
  agentOutcome := .succeeded
  completedAt := 9
  run := noted n
  maxPatchBytes := Sandbox.maxPatchBytes
  taskId := 1
  executionId := none
  maxArtifactBytes := some defaultMaxArtifactBytes
  archivedAt := 10
  results := .empty

def notedManifest (n : Nat) : TaskResultManifest :=
  resultManifest turn ⟨working, some "4b1d", some "c1"⟩
    ⟨some "9f2c", ["notes.txt"], some (beginning Sandbox.maxPatchBytes (lineDiff n)),
      (collectPatch (lineDiff n) Sandbox.maxPatchBytes).2⟩ .succeeded 9

theorem saved_noting (n : Nat) : (noting n).saved = some (notedManifest n) := by
  have hhead : strip "9f2c\n" = "9f2c" := by decide
  have hfiles : changedFiles "notes.txt\n" " M notes.txt\n" = ["notes.txt"] := by decide
  have hcollect : collectGitEvidence (noted n) "4b1d" Sandbox.maxPatchBytes =
      .ok ⟨some "9f2c", ["notes.txt"], some (beginning Sandbox.maxPatchBytes (lineDiff n)),
        (collectPatch (lineDiff n) Sandbox.maxPatchBytes).2⟩ := by
    unfold collectGitEvidence
    simp only [noted, hhead, hfiles]
    rfl
  have hbase : (noting n).baseSha = "4b1d" := rfl
  rw [Delivery.saved, hbase]
  simp only [noting, hcollect]
  rfl

theorem archived_noting (n : Nat) :
    (noting n).archived = some (truncateManifest (notedManifest n) defaultMaxArtifactBytes).1 :=
  Delivery.archived_of_saved (saved_noting n)

theorem Delivery.visible_iff_told_noting :
    (noting 3).Visible (truncateManifest (notedManifest 3) defaultMaxArtifactBytes).1 ↔
      (noting 3).Told :=
  Delivery.visible_iff_told (archived_noting 3)

theorem shown_noting (n : Nat) :
    (noting n).shown = beginning Sandbox.maxPatchBytes (lineDiff n) := rfl

theorem complete_noting (n : Nat) : (noting n).complete = lineDiff n := rfl

/-- What the sandbox leaves of a long diff is far below the limit of the archive. -/
theorem not_visible_noting {n : Nat} (hlong : Sandbox.maxPatchBytes < (lineDiff n).utf8ByteSize) :
    ¬ (noting n).Visible (truncateManifest (notedManifest n) defaultMaxArtifactBytes).1 := by
  intro hvisible
  have hpatch := (Delivery.patch_saved (saved_noting n)).1
  have hnone : (noting n).secrets = [] := rfl
  rw [hnone, if_pos (by decide)] at hpatch
  rw [Delivery.visible_limited hpatch] at hvisible
  have hlow : (noting n).shown.utf8ByteSize ≤ patchLimit defaultMaxArtifactBytes := by
    have hkept := utf8ByteSize_beginning hlong
    have hroom : Sandbox.maxPatchBytes ≤ patchLimit defaultMaxArtifactBytes := by decide
    rw [shown_noting]
    omega
  rw [if_pos hlow, shown_noting, complete_noting] at hvisible
  rcases hvisible with hfits | hsame
  · exact absurd hfits (Nat.not_le_of_lt hlong)
  · exact beginning_ne hlong hsame

theorem utf8ByteSize_lineDiff (n : Nat) : n < (lineDiff n).utf8ByteSize := by
  have hletters : (letters n).utf8ByteSize = n := by
    rw [letters, Json.utf8ByteSize_ofList, bytes_letters]
  have hend : "\n".utf8ByteSize = 1 := by decide
  rw [lineDiff, String.utf8ByteSize_append, String.utf8ByteSize_append, hletters, hend]
  exact Nat.lt_succ_of_le (Nat.le_add_left n lineHeader.utf8ByteSize)

/-- A diff with a line of 512000 letters is cut by the sandbox, and the archive says that it is
whole. -/
theorem cut_unseen : ¬ ∀ (d : Delivery) (m : TaskResultManifest), d.archived = some m →
    d.Visible m := by
  intro hclaim
  obtain ⟨n, hlong⟩ : ∃ n, Sandbox.maxPatchBytes < (lineDiff n).utf8ByteSize :=
    ⟨Sandbox.maxPatchBytes, utf8ByteSize_lineDiff Sandbox.maxPatchBytes⟩
  exact not_visible_noting hlong (hclaim _ _ (archived_noting n))

end GgAgent.Storage
