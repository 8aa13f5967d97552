import Uncworks.Temporal.Gate

/-!
# The spec-driven pipeline

`runSpecDrivenPipeline`: plan an OpenSpec change, then execute and verify it, with a retry after each
failed verification; a run whose verification passes is pushed and goes through the approval gate.
-/

namespace Uncworks

open Durable Flow

inductive PipelineStage where
  | plan
  | execute
  | verify
  deriving DecidableEq, Repr

def PipelineStage.defaults : PipelineStage → StageConfigInput
  | .plan =>
    { model := "default-cloud", timeoutSeconds := 300, maxRetries := 2, onFailure := "fail" }
  | .execute =>
    { model := "default-cloud", timeoutSeconds := 900, maxRetries := 3, onFailure := "retry" }
  | .verify =>
    { model := "default-cloud", timeoutSeconds := 180, maxRetries := 1, onFailure := "fail" }

/-- `resolveStageConfig`: the stage's configuration with defaults for its zero values. -/
def resolveStageConfig (cfg : Option PipelineConfigInput) (stage : PipelineStage) :
    StageConfigInput :=
  let given : StageConfigInput := match cfg, stage with
    | none, _ => {}
    | some c, .plan => c.plan
    | some c, .execute => c.execute
    | some c, .verify => c.verify
  { model := if given.model = "" then stage.defaults.model else given.model
    timeoutSeconds :=
      if given.timeoutSeconds = 0 then stage.defaults.timeoutSeconds else given.timeoutSeconds
    maxRetries := if given.maxRetries = 0 then stage.defaults.maxRetries else given.maxRetries
    onFailure := if given.onFailure = "" then stage.defaults.onFailure else given.onFailure }

def manageModel (input : WorkflowInput) : String :=
  if input.manageModelTier = "" then input.modelTier else input.manageModelTier

def implementModel (input : WorkflowInput) : String :=
  if input.implementModelTier = "" then manageModel input else input.implementModelTier

def stageModel (input : WorkflowInput) (stage : PipelineStage) : String :=
  let tier := match stage with
    | .execute => implementModel input
    | _ => manageModel input
  if tier = "" then (resolveStageConfig input.pipelineConfig stage).model else tier

def maxRetries (input : WorkflowInput) : ℤ :=
  (resolveStageConfig input.pipelineConfig .execute).maxRetries

section

variable (input : WorkflowInput)

def writeStageSpan (name : String) (status : String := "") : Workflow Unit := do
  let v ← read
  let _ ← execute (.writeTraceSpan input.agentRunName v.podIP { name, status })

def checkCancel : Workflow Bool := do
  let sig ← poll (I := temporal) Channel.cancel
  match sig with
  | some _ => do
    setPhase .cancelled "Cancelled by user"
    return true
  | none => return false

def specDrivenCleanup : Workflow Unit := do
  revokeLLMKey
  retireDeployment input (24 * 3600)

def cancelledByUser : WorkflowError := .failed "failed: cancelled by user"

/-! ## Planning -/

/-- Key, deployment, eviction check and hydration; the phase is `Running` throughout. -/
def prepareSpecDriven : Workflow Unit := do
  setPhase .running "Provisioning LLM key"
  provisionLLMKey "spec driven pipeline" input
  createAgentDeployment "spec driven pipeline" input
  checkEviction input
  setMessage "Waiting for workspace hydration"
  waitForHydration "spec driven pipeline" input

/-- The plan of a run; one that fixes a CI failure reuses the specs of its branch. -/
def obtainPlan : Workflow PlanRunOutput :=
  if Go.hasPrefix input.specSource "ci-autofix:" then do
    writeStageSpan input "PLAN" "ok"
    return { changeName := "ci-autofix", taskCount := 1, specsValid := true }
  else do
    let v ← read
    let reply ← execute (.planRun
      { sidecarOf input v with
        agentRunName := input.agentRunName, prompt := input.prompt
        specContent := input.specContent, model := stageModel input .plan
        repoPath := "/workspace" })
    match reply with
    | .ok plan => return plan
    | .error err => do
      writeStageSpan input "PLAN" "error"
      required "spec driven pipeline" "Cancelled during planning" "Planning failed" (.error err)

def invalidPlan (plan : PlanRunOutput) : String :=
  if plan.validationErrors.isEmpty then "Planning produced invalid OpenSpec change"
  else "Planning produced invalid OpenSpec change: " ++ "; ".intercalate plan.validationErrors

def planStage : Workflow PlanRunOutput := do
  setMessage "Planning: generating spec from prompt"
  writeStageSpan input "PLAN"
  let plan ← obtainPlan input
  if plan.specsValid then do
    writeStageSpan input "PLAN" "ok"
    return plan
  else do
    writeStageSpan input "PLAN" "error"
    setPhase .failed (invalidPlan plan)
    exit (some (.failed s!"failed: {invalidPlan plan}"))

end

/-! ## Polling the implement agent -/

def applyAttemptStatus (status : GetAgentStatusOutput) : Workflow Unit :=
  match status.state with
  | .completed => setPhase .agentCompleted "Agent completed, proceeding to verification"
  | .failed => setPhase .failed s!"Agent failed: {status.error}"
  | .waitingForInput => setPhase .waitingForInput "Agent waiting for human input"
  | _ => pure ()

/-- What a status reply does to the run; the result counts the errors in a row. -/
def noteAttemptStatus (errors : ℕ) : Except Failure GetAgentStatusOutput → Workflow ℕ
  | .error err => do
    when (maxConsecutiveStatusErrors ≤ errors + 1) (setPhase .failed
      s!"Sidecar unreachable after {errors + 1} errors: {errorText err}")
    return errors + 1
  | .ok status => do
    applyAttemptStatus status
    return 0

section

variable (input : WorkflowInput) (errors : ℕ)

def handleAttemptPolled : Picked temporal → Workflow ℕ
  | .received Channel.cancel _ => do
    setPhase .cancelled "Cancel signal received"
    stopAgent input
    return errors
  | .received Channel.humanInput text => do
    forwardHumanInput input text
    return errors
  | .fired (Timer.ttl _) => do
    exceedTTL input
    return errors
  | .fired (Timer.poll _) => do
    let reply ← getAgentStatus input
    let errors ← noteAttemptStatus errors reply
    start (I := temporal) (.poll statusPollInterval)
    return errors
  | _ => return errors

/-- One round of the polling loop.  The phase of an earlier attempt is still there in the first
round. -/
def pollAttemptRound : Workflow (ℕ ⊕ Unit) := do
  let picked ← select (pollGuards input)
  let errors ← handleAttemptPolled input errors picked
  let v ← read
  match v.state.phase with
  | .agentCompleted => do
    update fun v => { v with state := { v.state with phase := .running } }
    return .inr ()
  | .failed => return .inr ()
  | .cancelled => return .inr ()
  | _ => return .inl errors

def pollAgentStatus : Workflow Unit := do
  startPolling input
  loop (pollAttemptRound input) 0

end

/-! ## Push -/

section

variable (env : Env) (input : WorkflowInput)

/-- `postVerifyPushAndPR`: push the changes and open a pull request if the run asks for it; errors
are ignored. -/
def postVerifyPushAndPR (changeName : String) : Workflow Unit :=
  when (input.autoPush ∨ input.autoPR) do
    setMessage "Pushing changes to feature branch"
    let v ← read
    let reply ← execute (.pushChanges
      { agentRunName := input.agentRunName, podIP := v.podIP, repoPath := repoPath env input
        branchName := branchName input
        baseBranch := (input.repos.head?.map (·.branch)).getD ""
        repoURL := firstRepoURL input, changeName := changeName })
    match reply with
    | .error _ => pure ()
    | .ok pushed =>
      when (pushed.hasChanges ∧ input.autoPR) do
        match input.repos.head?.bind fun r => parseGitHubOwnerRepo env r.url with
        | none => pure ()
        | some (owner, repo) => do
          setMessage "Creating GitHub PR"
          let reply ← execute (.createPR
            { repoOwner := owner, repoName := repo, branchName := branchName input
              baseBranch := prBaseBranch input, agentRunName := input.agentRunName })
          match reply with
          | .error _ => pure ()
          | .ok url => update fun v => { v with state := { v.state with prUrl := url } }

/-! ## Execute, verify, retry -/

structure Retry where
  attempt : ℤ := 1
  lastFailureReport : String := ""
  lastReviewFeedback : String := ""
  lastSalvageGuidance : String := ""

def retryInstructions (changeName originalPrompt : String) : String :=
  s!"\nRead specs at /workspace/openspec/changes/{changeName}/" ++
  s!"\nMark ALL tasks [x] in tasks.md when complete.\n\nOriginal task: {originalPrompt}"

def buildRetryPrompt (r : Retry) (changeName originalPrompt : String) : String :=
  if r.lastSalvageGuidance ≠ "" then
    s!"SALVAGE RETRY (attempt {r.attempt}) — The previous attempt was partially correct but " ++
    s!"needs targeted fixes:\n\n{r.lastSalvageGuidance}\n\n" ++
    s!"Complete the OpenSpec change '{changeName}'." ++ retryInstructions changeName originalPrompt
  else if r.lastReviewFeedback ≠ "" then
    s!"MANAGE AGENT REVIEW FAILED (attempt {r.attempt - 1}):\n\n{r.lastReviewFeedback}\n\n" ++
    s!"Fix the issues identified above and complete the OpenSpec change '{changeName}'." ++
    retryInstructions changeName originalPrompt
  else if r.lastFailureReport ≠ "" then
    s!"PREVIOUS ATTEMPT FAILED (structural checks):\n{r.lastFailureReport}\n\n" ++
    s!"Fix the issues and complete the OpenSpec change '{changeName}'." ++
    retryInstructions changeName originalPrompt
  else
    s!"Implement the OpenSpec change '{changeName}'.\n\n" ++
    s!"Read specs at /workspace/openspec/changes/{changeName}/ for requirements.\n" ++
    s!"Read tasks.md for your checklist. Mark each task [x] as you complete it.\n\n" ++
    s!"Original task: {originalPrompt}"

def Retry.afterFailure (r : Retry) (result : VerificationResult) : Retry where
  attempt := r.attempt + 1
  lastFailureReport := result.failureReport
  lastReviewFeedback :=
    if result.salvageGuidance = "" ∧ result.reviewFeedback ≠ "" then result.reviewFeedback
    else r.lastReviewFeedback
  lastSalvageGuidance :=
    if result.salvageGuidance ≠ "" then result.salvageGuidance
    else if result.reviewFeedback ≠ "" then ""
    else r.lastSalvageGuidance

section

variable (changeName : String) (r : Retry)

def executeStage : Workflow Unit := do
  setMessage s!"Executing: attempt {r.attempt}/{maxRetries input}"
  writeStageSpan input s!"EXECUTE (attempt {r.attempt})"
  let v ← read
  let reply ← execute (.startAgent
    { sidecarOf input v with
      prompt := buildRetryPrompt r changeName input.prompt, repoPath := "/workspace"
      model := stageModel input .execute, stage := "execute" })
  match reply with
  | .error err => do
    writeStageSpan input s!"EXECUTE (attempt {r.attempt})" "error"
    required "spec driven pipeline" "Cancelled during execution" "Execution failed" (.error err)
  | .ok _ => do
    pollAgentStatus input
    let v ← read
    let failed := v.state.phase = .failed ∨ v.state.phase = .cancelled
    writeStageSpan input s!"EXECUTE (attempt {r.attempt})" (if failed then "error" else "ok")
    when (v.state.phase = .cancelled) (exit (some cancelledByUser))

def finishSpecDriven (attempt : ℤ) : Workflow (Option WorkflowError) := do
  writeStageSpan input s!"VERIFY (attempt {attempt})" "ok"
  enrichRunTags env input
  postVerifyPushAndPR env input changeName
  writeStageSpan input "pipeline" "ok"
  let err ← call (runApprovalGate env input)
  match err with
  | some err => return some err
  | none => do
    update fun v =>
      let verified := s!"Spec-driven pipeline: verified and archived (attempt {attempt})"
      { v with state := { v.state with
        phase := .succeeded
        message :=
          if v.state.prUrl ≠ "" then verified ++ s!", PR: {v.state.prUrl}" else verified } }
    return none

/-- Verify the attempt: a failure hands over to the next attempt, a pass ends the run. -/
def verifyStage : Workflow Retry := do
  setMessage s!"manage: verifying against spec (attempt {r.attempt}/{maxRetries input})"
  writeStageSpan input s!"VERIFY (attempt {r.attempt})"
  let v ← read
  let reply ← execute (.verifyRun
    { sidecarOf input v with
      agentRunName := input.agentRunName, changeName := changeName, repoPath := "/workspace"
      manageModel := stageModel input .verify
      previousReviewFeedback := r.lastReviewFeedback })
  match reply with
  | .error err => do
    writeStageSpan input s!"VERIFY (attempt {r.attempt})" "error"
    match err with
    | .canceled => do
      setPhase .cancelled "Cancelled during verification"
      exit (some (wrapError "spec driven pipeline" .canceled))
    | .other text =>
      return { r with
        attempt := r.attempt + 1
        lastFailureReport := s!"Verification activity error: {text}" }
  | .ok result =>
    if result.pass then do
      let err ← finishSpecDriven env input changeName r.attempt
      exit err
    else do
      writeStageSpan input s!"VERIFY (attempt {r.attempt})" "error"
      return r.afterFailure result

def attemptRound : Workflow (Retry ⊕ Retry) :=
  if r.attempt ≤ maxRetries input then do
    let cancelled ← checkCancel
    let v ← read
    when (cancelled ∨ v.state.phase = .cancelled) (exit (some cancelledByUser))
    executeStage input changeName r
    let next ← verifyStage env input changeName r
    return .inl next
  else return .inr r

end

def specDrivenBody : Workflow (Option WorkflowError) := do
  prepareSpecDriven input
  writeStageSpan input "pipeline"
  let cancelled ← checkCancel
  when cancelled (exit none)
  let plan ← planStage input
  let last ← loop (attemptRound env input plan.changeName) {}
  mark (I := temporal) .retriesExhausted
  writeStageSpan input "pipeline" "error"
  setPhase .failed (s!"Spec-driven pipeline: failed verification after {maxRetries input} " ++
    s!"attempts. {last.lastFailureReport}")
  return none

def specDrivenVars : Vars where
  state := { phase := .running, message := "Spec-driven pipeline: starting" }

def runSpecDrivenPipeline : Workflow (Option WorkflowError) := do
  update fun _ => specDrivenVars
  withDeferred (specDrivenCleanup input) (specDrivenBody env input)

end

end Uncworks
