import GgAgent.Sandbox.Pipeline

/-!
Which pipelines end settled.

When a pipeline ends, by its own end or by an exception, the execution is over and has a
manifest exactly if every call of the pipeline met `settling`. A run of the agent that
exceeds its time meets everything up to the wait for the run that the timeout itself has
cancelled; there the `CancelledError` passes all handlers.
-/

namespace GgAgent.Sandbox

open GgAgent.Lib

/-- A sandbox without credentials. -/
def plain : Settings where
  workspaceDir := "/workspace"
  databasePath := "/state/sandbox.db"
  githubToken := none
  openrouterApiKey := none
  sha256 := fun _ => [7, 3]

/-- A task without a repository. -/
def errand : StartTaskExecutionRequest where
  taskId := "t"
  repository := none
  prompt := "write"
  baseRef := none
  baseSha := none
  taskBranch := none
  startKey := "t"
  deadlineAt := 100
  model := "m"

/-- Git has nothing to complain about, and nothing changed. -/
def quietGit : (c : GitCall) → Except Exn c.Out
  | .isGitDir _ | .headIsFile _ => .ok true
  | .cloneRepository _ _ _ | .checkoutTaskBranch _ _ _ | .makeDirectory _ => .ok ()
  | .resolveBaseSha _ _ | .showCurrentBranch _ => .ok "main"
  | .collectGitEvidence _ _ _ => .ok ⟨some "main", [], some "", false⟩

def usual : Oracle := ⟨1, quietGit, "c", false, .ok ()⟩

def late : Oracle := { usual with timesOut := true }

def calls {cfg : Settings} (p : Pid) (n : Nat) (o : Oracle) : List (Act cfg) :=
  List.replicate n (.call p o)

/-- The pipeline of the only execution. -/
def only : Pid := .pipeline "73"

/-- The process starts, and a request starts its pipeline. -/
def started {cfg : Settings} (request : StartTaskExecutionRequest) : List (Act cfg) :=
  [.start .startup .startup] ++ calls .startup 2 usual ++
    [.start only (.start request none 1)]

/-- Up to the agent's run, which its thread has entered. -/
def entered : List (Act plain) :=
  started errand ++ calls only 9 usual ++ [.event (.talk (.enter 0))]

/-- The agent finishes; all but the last call. -/
def finished : List (Act plain) :=
  entered ++ [.event (.talk (.leave 0 .settled))] ++ calls only 4 usual

/-- Whether a pipeline has ended. -/
def endedIn (p : Pid) (w : System) : Bool :=
  match w.threads p with
  | some ⟨.ret _, _⟩ => true
  | _ => false

theorem of_endedIn {p : Pid} {w : System} (h : endedIn p w = true) :
    ∃ e h, w.threads p = some ⟨.ret e, h⟩ := by
  unfold endedIn at h
  split at h
  next e h₀ hth => exact ⟨e, h₀, hth⟩
  next => cases h

instance (id : String) (s : State) : Decidable (Over id s) :=
  decidable_of_iff ((s.store.executions.find? id).any fun r => r.phase.over) (by
    simp [Over, Option.any_eq_true])

instance (id : String) (s : State) : Decidable (Settled id s) :=
  inferInstanceAs (Decidable (_ ∧ _))

/-- A run whose last act ends a pipeline: its parts. -/
theorem last_act {cfg : Settings} {p : Pid} {o : Oracle} {as : List (Act cfg)}
    (h : ((supervisor cfg).run System.init (as ++ [.call p o])).map (endedIn p) = some true) :
    ∃ w w' e h, (supervisor cfg).run System.init as = some w ∧
      (supervisor cfg).step w (.call p o) = some w' ∧ w'.threads p = some ⟨.ret e, h⟩ ∧
      (supervisor cfg).run System.init (as ++ [.call p o]) = some w' := by
  obtain ⟨w', hw', hend⟩ := Option.map_eq_some_iff.mp h
  obtain ⟨e, h₀, hth⟩ := of_endedIn hend
  obtain ⟨w, hw, hstep⟩ := Machine.run_last _ hw'
  exact ⟨w, w', e, h₀, hw, hstep, hth, hw'⟩

end GgAgent.Sandbox
