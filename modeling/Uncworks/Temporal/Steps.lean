import Uncworks.Temporal.Types

/-!
# Steps shared by the pipelines

The helper functions of the workflow package, and the steps that the single-agent workflow and the
spec-driven pipeline have in common: provisioning, deployment, hydration, the parts of the polling
loop that do not differ, and the deferred cleanup.
-/

namespace Uncworks

open Durable Flow

/-! ## Helper functions -/

def repoNameFromURL (env : Env) (repoURL : String) : String :=
  match env.urlPath repoURL with
  | some path => Go.trimSuffix (Go.base (if path = "" then repoURL else path)) ".git"
  | none => Go.trimSuffix (Go.base repoURL) ".git"

/-- `parseGitHubOwnerRepo`: owner and repository of an SSH or HTTPS URL. -/
def parseGitHubOwnerRepo (env : Env) (repoURL : String) : Option (String × String) :=
  if Go.hasPrefix repoURL "git@" then
    match Go.splitN ':' 2 repoURL.toList with
    | [_, path] =>
      match Go.splitN '/' 2 (Go.trimSuffix path ".git").toList with
      | [owner, repo] => some (owner, repo)
      | _ => none
    | _ => none
  else
    match env.urlPath repoURL with
    | none => none
    | some path =>
      match Go.splitN '/' 3 (Go.trimPrefix (Go.trimSuffix path ".git") "/").toList with
      | owner :: repo :: _ => some (owner, repo)
      | _ => none

def modelIDFromTier (tier : String) : String :=
  if tier = "" then "litellm/default" else "litellm/" ++ tier

def firstRepoURL (input : WorkflowInput) : String :=
  match input.repos with
  | r :: _ => r.url
  | [] => ""

def repoPath (env : Env) (input : WorkflowInput) : String :=
  match input.repos with
  | r :: _ => "/workspace/" ++ (if r.path = "" then repoNameFromURL env r.url else r.path)
  | [] => "/workspace"

def wrapError (context : String) : Failure → WorkflowError
  | .canceled => .canceled s!"{context}: canceled"
  | .other text => .failed s!"{context}: {text}"

def errorText : Failure → String
  | .canceled => "canceled"
  | .other text => text

def setPhase (phase : Phase) (message : String) : Workflow Unit :=
  update fun v => { v with state := { v.state with phase, message } }

def setMessage (message : String) : Workflow Unit :=
  update fun v => { v with state := { v.state with message } }

def execute (c : Command) : Workflow (Except Failure c.Reply) := exec (I := temporal) c

def cleanUp (c : Command) : Workflow Unit := do
  let _ ← execDetached (I := temporal) c

def sidecarOf (input : WorkflowInput) (v : Vars) : SidecarRPCInput where
  podName := v.podName
  namespace_ := input.namespace_
  podIP := v.podIP

/-- The reply of a step the run cannot go on without: its failure ends the run, `Cancelled` when it
is a cancellation and `Failed` otherwise. -/
def required {α : Type} (context cancelMessage failMessage : String) : Except Failure α → Workflow α
  | .ok a => pure a
  | .error .canceled => do
    setPhase .cancelled cancelMessage
    exit (some (wrapError context .canceled))
  | .error (.other text) => do
    setPhase .failed s!"{failMessage}: {text}"
    exit (some (wrapError context (.other text)))

/-! ## Preparing the workspace -/

def provisionLLMKey (context : String) (input : WorkflowInput) : Workflow Unit := do
  let reply ← execute (.provisionLLMKey
    { agentRunName := input.agentRunName, namespace_ := input.namespace_
      modelTier := input.modelTier, maxBudget := input.maxBudget })
  let key ← required context "Cancelled during LLM key provisioning"
    "Failed to provision LLM key" reply
  update fun v => { v with llmKey := key }

def createAgentDeployment (context : String) (input : WorkflowInput) : Workflow Unit := do
  setMessage "Creating agent deployment"
  let v ← read
  let reply ← execute (.createAgentDeployment
    { name := s!"agentrun-{input.agentRunName}", namespace_ := input.namespace_
      agentRunName := input.agentRunName, repos := input.repos, prompt := input.prompt
      devboxConfig := input.devboxConfig, image := input.image, envVars := input.envVars
      llmKey := v.llmKey, liteLLMBaseURL := input.liteLLMBaseURL
      modelID := modelIDFromTier input.modelTier, specContent := input.specContent
      gitHubTokenSecretName := input.gitHubTokenSecretName })
  let name ← required context "Cancelled during deployment creation"
    "Failed to create deployment" reply
  update fun v => { v with
    deploymentName := name
    podName := name
    state := { v.state with podName := name, deploymentName := name } }

/-- Fail the run if its pod was evicted; a failing check is ignored. -/
def checkEviction (input : WorkflowInput) : Workflow Unit := do
  setMessage "Checking pod status"
  let v ← read
  let reply ← execute (.checkPodStatus v.podName input.namespace_)
  match reply with
  | .error _ => pure ()
  | .ok status =>
    when (status.reason = "Evicted") do
      setPhase .failed s!"Pod was evicted immediately after creation: {status.message}"
      exit (some (.failed s!"failed: pod evicted: {status.message}"))

def waitForHydration (context : String) (input : WorkflowInput) : Workflow Unit := do
  let v ← read
  let reply ← execute (.waitForHydration v.podName input.namespace_ input.agentRunName)
  let podIP ← required context "Cancelled during hydration" "Hydration failed" reply
  update fun v => { v with podIP := podIP }

/-! ## Polling -/

def statusPollInterval : ℤ := 5

def maxConsecutiveStatusErrors : ℕ := 5

def ttlDuration (input : WorkflowInput) : ℤ :=
  if 0 < input.ttlSeconds then input.ttlSeconds else 3600

def startPolling (input : WorkflowInput) : Workflow Unit := do
  start (I := temporal) (.ttl (ttlDuration input))
  start (I := temporal) (.poll statusPollInterval)

def pollGuards (input : WorkflowInput) : List (Guard temporal) :=
  [.receive Channel.cancel, .receive Channel.humanInput, .timer (Timer.ttl (ttlDuration input)),
    .timer (Timer.poll statusPollInterval)]

def stopAgent (input : WorkflowInput) : Workflow Unit := do
  let v ← read
  let _ ← execute (.stopAgent (sidecarOf input v))

def forwardHumanInput (input : WorkflowInput) (text : String) : Workflow Unit := do
  let v ← read
  let _ ← execute (.forwardHumanInput input.agentRunName (sidecarOf input v) text)
  setPhase .running "Human input forwarded"

def exceedTTL (input : WorkflowInput) : Workflow Unit := do
  setPhase .failed "Exceeded TTL"
  stopAgent input

def getAgentStatus (input : WorkflowInput) : Workflow (Except Failure GetAgentStatusOutput) := do
  let v ← read
  execute (.getAgentStatus (sidecarOf input v))

/-! ## After the agent is done -/

def enrichRunTags (env : Env) (input : WorkflowInput) : Workflow Unit := do
  let v ← read
  let _ ← execute (.enrichRunTags
    { agentRunName := input.agentRunName, namespace_ := input.namespace_, podIP := v.podIP
      repoPath := repoPath env input })

def branchName (input : WorkflowInput) : String := s!"aot/{input.agentRunName}"

def prBaseBranch (input : WorkflowInput) : String :=
  if input.prBaseBranch = "" then "main" else input.prBaseBranch

def revokeLLMKey : Workflow Unit := do
  let v ← read
  when (v.llmKey ≠ "") (cleanUp (.revokeLLMKey v.llmKey))

def retireDeployment (input : WorkflowInput) (retention : ℤ) : Workflow Unit := do
  let v ← read
  when (v.deploymentName ≠ "") do
    cleanUp (.collectAgentLogs input.agentRunName input.namespace_ v.podIP)
    cleanUp (.scaleDownDeployment v.deploymentName input.namespace_)
    cleanUp (.sleep (if 0 < input.ttlSeconds ∧ input.ttlSeconds < retention then input.ttlSeconds
      else retention))
    cleanUp (.archiveAndCleanup v.deploymentName s!"aot-ws-{input.agentRunName}" input.namespace_)

/-- Run a function body and then its deferred cleanup, whatever the body returned. -/
def withDeferred (cleanup : Workflow Unit) (body : Workflow (Option WorkflowError)) :
    Workflow (Option WorkflowError) := do
  let err ← call body
  mark (I := temporal) .bodyReturned
  cleanup
  return err

end Uncworks
