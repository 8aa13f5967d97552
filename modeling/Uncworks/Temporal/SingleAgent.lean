import Uncworks.Temporal.Gate

/-!
# The single-agent workflow

The body of `AgentRunWorkflow` below its mode switch: prepare the workspace, start the agent, poll it
until it completes, fails, is cancelled or exceeds its time to live, then pass the approval gate and
push.
-/

namespace Uncworks

open Durable

def singleAgentCleanup (input : WorkflowInput) : Workflow Unit := do
  let v ← Flow.read
  Flow.when (v.deploymentName ≠ "") do
    cleanUp (.persistRunData input.agentRunName "/workspace" (firstRepoURL input) v.podIP)
    cleanUp (.embedRunData input.agentRunName (firstRepoURL input))
  revokeLLMKey
  retireDeployment input (2 * 3600)

/-- Steps 1 to 3: key, deployment, eviction check, hydration and context. -/
def prepareSingleAgent (input : WorkflowInput) : Workflow Unit := do
  setPhase .creating "Provisioning LLM key"
  provisionLLMKey "agent run workflow" input
  createAgentDeployment "agent run workflow" input
  checkEviction input
  setPhase .hydrating "Waiting for workspace hydration"
  waitForHydration "agent run workflow" input
  let v ← Flow.read
  let _ ← execute (.hydrateContext
    { agentRunID := input.agentRunName, workspacePath := "/workspace", prompt := input.prompt
      repoURL := firstRepoURL input
      agentType := if input.orchestrationMode = .auto then "senior" else ""
      podIP := v.podIP })

def startSingleAgent (input : WorkflowInput) : Workflow Unit := do
  setPhase .running "Starting agent"
  let v ← Flow.read
  let reply ← execute (.startAgent
    { sidecarOf input v with prompt := input.prompt, repoPath := "/workspace" })
  let _ ← required "agent run workflow" "Cancelled during agent start" "Failed to start agent" reply
  setMessage "Agent running"

def applyStatus (status : GetAgentStatusOutput) : Workflow Unit :=
  match status.state with
  | .completed => setPhase .succeeded "Agent completed successfully"
  | .failed => setPhase .failed s!"Agent failed: {status.error}"
  | .waitingForInput =>
    setPhase .waitingForInput
      (if status.error ≠ "" then status.error else "Agent waiting for human input")
  | _ => pure ()

def noteStatus (errors : ℕ) : Except Failure GetAgentStatusOutput → Workflow ℕ
  | .error err => do
    Flow.when (maxConsecutiveStatusErrors ≤ errors + 1) (setPhase .failed
      s!"Sidecar unreachable after {errors + 1} consecutive errors: {errorText err}")
    return errors + 1
  | .ok status => do
    applyStatus status
    return 0

def handlePolled (input : WorkflowInput) (errors : ℕ) : Picked temporal → Workflow ℕ
  | .received Channel.cancel _ => do
    setPhase .cancelling "Cancel signal received"
    stopAgent input
    setPhase .cancelled "Cancelled by user"
    return errors
  | .received Channel.humanInput text => do
    forwardHumanInput input text
    return errors
  | .fired (Timer.ttl _) => do
    exceedTTL input
    return errors
  | .fired (Timer.poll _) => do
    let reply ← getAgentStatus input
    let errors ← noteStatus errors reply
    Flow.start (I := temporal) (.poll statusPollInterval)
    return errors
  | _ => return errors

section

variable (env : Env) (input : WorkflowInput)

def openPullRequest (repoURL : String) : Workflow Unit :=
  match parseGitHubOwnerRepo env repoURL with
  | none => pure ()
  | some (owner, repo) => do
    let reply ← execute (.createPR
      { repoOwner := owner, repoName := repo, branchName := branchName input
        baseBranch := prBaseBranch input, agentRunName := input.agentRunName })
    match reply with
    | .error _ => pure ()
    | .ok url => Flow.update fun v => { v with state := { v.state with
        prUrl := url
        message := s!"Agent completed: PR created at {url}" } }

def pushAndPR : Workflow Unit := do
  let v ← Flow.read
  let reply ← execute (.pushChanges
    { agentRunName := input.agentRunName, podIP := v.podIP, repoPath := repoPath env input
      branchName := branchName input
      baseBranch :=
        if input.prBaseBranch = "" then (input.repos.head?.map (·.branch)).getD ""
        else input.prBaseBranch
      repoURL := firstRepoURL input })
  match reply with
  | .error _ => pure ()
  | .ok pushed =>
    if !pushed.hasChanges then setMessage "Agent completed: no changes committed"
    else match input.autoPR, input.repos with
      | true, r :: _ => openPullRequest env input r.url
      | _, _ => setMessage s!"Agent completed: changes pushed to {pushed.branchName}"

/-- What follows the completion of the agent: the gate, the tags, and the push. -/
def finishSingleAgent : Workflow (Option WorkflowError) := do
  let err ← Flow.call (runApprovalGate env input)
  match err with
  | some err => return some err
  | none => do
    enrichRunTags env input
    Flow.when (input.autoPush ∨ input.autoPR) (pushAndPR env input)
    return none

def pollRound (errors : ℕ) : Workflow (ℕ ⊕ Option WorkflowError) := do
  let picked ← Flow.select (pollGuards input)
  let errors ← handlePolled input errors picked
  let v ← Flow.read
  match v.state.phase with
  | .succeeded => do
    let err ← finishSingleAgent env input
    return .inr err
  | .failed => return .inr none
  | .cancelled => return .inr none
  | _ => return .inl errors

def singleAgentBody : Workflow (Option WorkflowError) := do
  prepareSingleAgent input
  startSingleAgent input
  startPolling input
  Flow.loop (pollRound env input) 0

def singleAgentVars : Vars where
  state := { phase := .pending, message := "Workflow started" }

def runSingleAgent : Workflow (Option WorkflowError) := do
  Flow.update fun _ => singleAgentVars
  withDeferred (singleAgentCleanup input) (singleAgentBody env input)

end

end Uncworks
