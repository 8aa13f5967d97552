import Uncworks.Durable.Semantics
import Uncworks.Temporal.SingleAgent
import Uncworks.Temporal.SpecDriven

/-!
# The agent run workflow

`AgentRunWorkflow` with its mode switch, manual orchestration, and the runs of the workflow as
configurations of `Durable`.
-/

namespace Uncworks

open Durable

/-! ## Manual orchestration -/

def maxOrchestrationTasks : ℕ := 7

/-- The part of a junior's name that says which task it runs. -/
def taskSuffix (env : Env) (task : OrchestrationTask) : String :=
  if task.name = "" then toString (env.nowMilli % 100000) else task.name

def juniorInput (env : Env) (input : WorkflowInput) (task : OrchestrationTask) : WorkflowInput where
  agentRunName := s!"{input.agentRunName}-junior-{taskSuffix env task}"
  namespace_ := input.namespace_
  repos := if task.repoURLs.isEmpty then input.repos else task.repoURLs.map fun u => { url := u }
  prompt := task.prompt
  devboxConfig := input.devboxConfig
  ttlSeconds := input.ttlSeconds
  image := input.image
  envVars := input.envVars
  modelTier := input.modelTier
  maxBudget := input.maxBudget
  liteLLMBaseURL := input.liteLLMBaseURL
  parentRunID := input.agentRunName
  specRunID := if input.specRunID = "" then input.agentRunName else input.specRunID
  gitHubTokenSecretName := input.gitHubTokenSecretName
  orchestrationMode := .single

/-- `JuniorApprovalMode`: only an explicit mode of the parent carries down to its junior. -/
def juniorApprovalMode (env : Env) (parent : String) : String :=
  let mode := env.toLower (Go.trimSpace parent)
  if mode ≠ "" then mode else "none"

structure SpawnJuniorInput where
  parentRunName : String
  namespace_ : String
  task : String
  taskName : String
  repos : List Repository
  devboxConfig : String
  ttlSeconds : ℤ
  image : String
  envVars : List (String × String)
  blocking : Bool
  modelTier : String
  maxBudget : ℚ
  liteLLMBaseURL : String
  specRunID : String
  gitHubTokenSecretName : String
  approvalMode : String

def spawnedInput (env : Env) (input : SpawnJuniorInput) : WorkflowInput :=
  let taskSuffix :=
    if input.taskName = "" then toString (env.nowMilli % 100000) else input.taskName
  { agentRunName := s!"{input.parentRunName}-junior-{taskSuffix}"
    namespace_ := input.namespace_
    repos := input.repos
    prompt := input.task
    devboxConfig := input.devboxConfig
    ttlSeconds := input.ttlSeconds
    image := input.image
    envVars := input.envVars
    modelTier := input.modelTier
    maxBudget := input.maxBudget
    liteLLMBaseURL := input.liteLLMBaseURL
    parentRunID := input.parentRunName
    specRunID := input.specRunID
    gitHubTokenSecretName := input.gitHubTokenSecretName
    orchestrationMode := .single
    approvalMode := juniorApprovalMode env input.approvalMode }

def spawnJuniors (env : Env) (input : WorkflowInput) : List OrchestrationTask → Workflow Unit
  | [] => pure ()
  | task :: tasks => do
    Flow.issue (I := temporal) (.childWorkflow (juniorInput env input task))
    spawnJuniors env input tasks

/-- Wait for every child workflow and collect the names of the tasks that failed.  The wait is not
tied to the context: a child that is done keeps its result. -/
def awaitJuniors : List OrchestrationTask → ℕ → List String → Workflow (List String)
  | [], _, failedTasks => return failedTasks
  | task :: tasks, i, failedTasks => do
    let reply ← Flow.execDetached (I := temporal) (.awaitChild i)
    match reply with
    | .ok _ => awaitJuniors tasks (i + 1) failedTasks
    | .error _ =>
      let name := if task.name = "" then s!"task-{i}" else task.name
      awaitJuniors tasks (i + 1) (failedTasks ++ [name])

section

variable (env : Env) (input : WorkflowInput)

def runManualOrchestration : Workflow (Option WorkflowError) := do
  Flow.update fun _ =>
    { state := { phase := .running, message := "Manual orchestration: spawning junior tasks" } }
  let tasks := input.orchestration.take maxOrchestrationTasks
  spawnJuniors env input tasks
  let failedTasks ← awaitJuniors tasks 0 []
  let names := ", ".intercalate failedTasks
  if failedTasks.isEmpty then do
    setPhase .succeeded s!"Manual orchestration: all {tasks.length} tasks completed"
    return none
  else do
    setPhase .failed
      s!"Manual orchestration: {failedTasks.length}/{tasks.length} tasks failed: {names}"
    return some (.failed s!"failed: orchestration failed: {names}")

/-! ## The mode switch -/

def codespeakPrompt : String :=
  "Run `codespeak build` in the workspace directory. The spec file has been placed at " ++
  "spec/main.cs.md with a codespeak.json config. Execute the build and verify the output " ++
  "compiles/passes tests."

/-- The input after the preamble: a prompt for runs that only have a spec, and the spec-driven mode
for runs with a spec and no mode. -/
def preamble : WorkflowInput :=
  { input with
    prompt :=
      if input.specContent ≠ "" ∧ input.prompt = "" then codespeakPrompt else input.prompt
    orchestrationMode :=
      if input.specContent ≠ "" ∧ input.orchestrationMode = .unspecified then .specDriven
      else input.orchestrationMode }

/-- `runAutoOrchestration`: decomposition is not wired up, so the run is a single-agent one. -/
def runAutoOrchestration : Workflow (Option WorkflowError) := do
  Flow.update fun _ => { state :=
    { phase := .running
      message := "Auto orchestration: executing as single run (decomposition pending)" } }
  runSingleAgent env (preamble { input with orchestrationMode := .single })

def agentRunWorkflow : Workflow (Option WorkflowError) :=
  let input := preamble input
  match input.orchestrationMode with
  | .manual => runManualOrchestration env input
  | .auto => runAutoOrchestration env input
  | .specDriven => runSpecDrivenPipeline env input
  | .single => runSingleAgent env input
  | .unspecified => runSingleAgent env input

/-! ## Runs -/

abbrev Run := Config temporal Vars (Except (Option WorkflowError) (Option WorkflowError))

def noVars : Vars where
  state := { phase := .pending, message := "" }

def Run.of (p : Workflow (Option WorkflowError)) : Run := Config.initial p.prog noVars

def Run.start : Run := .of (agentRunWorkflow env input)

end

def Run.returned? (c : Run) : Option (Option WorkflowError) :=
  c.control.result?.map fun
    | .ok err => err
    | .error err => err

abbrev History := List (Entry temporal Vars)

/-! ## Sample runs -/

def sampleEnv : Env where
  toLowerRune := Char.toLower
  urlPath := some
  quote := id
  nowMilli := 0

def smooth : (c : Command) → Except Failure c.Reply
  | .provisionLLMKey _ => .ok "key"
  | .createAgentDeployment i => .ok i.name
  | .checkPodStatus _ _ => .ok {}
  | .waitForHydration _ _ _ => .ok "10.0.0.1"
  | .getAgentStatus _ => .ok { state := .completed }
  | .llmJudgeChanges _ => .ok { approved := true }
  | .pushChanges _ => .ok { hasChanges := true }
  | .createPR _ => .ok "pull/1"
  | .planRun _ => .ok { changeName := "change", specsValid := true }
  | .verifyRun _ => .ok { pass := true }
  | .hydrateContext _ => .ok ()
  | .startAgent _ => .ok ()
  | .forwardHumanInput _ _ _ => .ok ()
  | .stopAgent _ => .ok ()
  | .enrichRunTags _ => .ok ()
  | .writeTraceSpan _ _ _ => .ok ()
  | .persistRunData _ _ _ _ => .ok ()
  | .embedRunData _ _ => .ok ()
  | .revokeLLMKey _ => .ok ()
  | .collectAgentLogs _ _ _ => .ok ()
  | .scaleDownDeployment _ _ => .ok ()
  | .sleep _ => .ok ()
  | .archiveAndCleanup _ _ _ => .ok ()
  | .childWorkflow _ => .ok ()
  | .awaitChild _ => .ok ()

def smoothly (n : ℕ) : List (Event temporal) := List.replicate n (.settle smooth)

def Run.after (input : WorkflowInput) (events : List (Event temporal)) : Run :=
  Config.after 60 (Run.start sampleEnv input) events

theorem Run.reaches_after (input : WorkflowInput) (events : List (Event temporal)) :
    (Run.start sampleEnv input).Reaches (Run.after input events) :=
  Config.reaches_after _ _ _

end Uncworks
