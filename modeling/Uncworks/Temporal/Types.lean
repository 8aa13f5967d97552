import Mathlib.Data.Rat.Defs
import Uncworks.Durable.Program
import Uncworks.Go.Strings

/-!
# Types of the agent run workflow

The input, the state and the signals of `AgentRunWorkflow`, and the activities it schedules with
the replies the workflow reads.  The interface `temporal` puts them together for `Durable.Prog`.
-/

namespace Uncworks

inductive Phase where
  | pending
  | creating
  | hydrating
  | running
  | waitingForInput
  | agentCompleted
  | succeeded
  | failed
  | cancelling
  | cancelled
  deriving DecidableEq, Repr

/-- The workflow's view of the sidecar's process state. -/
inductive AgentProcessState where
  | unspecified
  | starting
  | running
  | waitingForInput
  | completed
  | failed
  deriving DecidableEq, Repr

/-- How a run handles decomposition; `unspecified` is the empty string. -/
inductive OrchestrationMode where
  | unspecified
  | single
  | auto
  | manual
  | specDriven
  deriving DecidableEq, Repr

structure Repository where
  url : String
  branch : String := ""
  path : String := ""

structure OrchestrationTask where
  name : String
  prompt : String
  repoURLs : List String := []

/-- Configuration of one pipeline stage; zero values stand for the defaults. -/
structure StageConfigInput where
  model : String := ""
  timeoutSeconds : ℤ := 0
  maxRetries : ℤ := 0
  onFailure : String := ""

structure PipelineConfigInput where
  plan : StageConfigInput := {}
  execute : StageConfigInput := {}
  verify : StageConfigInput := {}

structure WorkflowInput where
  agentRunName : String := ""
  namespace_ : String := ""
  repos : List Repository := []
  prompt : String := ""
  devboxConfig : String := ""
  ttlSeconds : ℤ := 0
  image : String := ""
  envVars : List (String × String) := []
  modelTier : String := ""
  manageModelTier : String := ""
  implementModelTier : String := ""
  maxBudget : ℚ := 0
  liteLLMBaseURL : String := ""
  specContent : String := ""
  orchestrationMode : OrchestrationMode := .unspecified
  orchestration : List OrchestrationTask := []
  parentRunID : String := ""
  specRunID : String := ""
  pipelineConfig : Option PipelineConfigInput := none
  autoPush : Bool := false
  autoPR : Bool := false
  gitHubTokenSecretName : String := ""
  prBaseBranch : String := ""
  specSource : String := ""
  approvalMode : String := ""

structure WorkflowState where
  phase : Phase
  message : String
  podName : String := ""
  deploymentName : String := ""
  prUrl : String := ""
  verificationResult : String := ""

structure ApprovalDecisionSignal where
  approved : Bool
  reason : String := ""

/-- The error a workflow function returns: one that wraps a cancellation, or any other. -/
inductive WorkflowError where
  | canceled (text : String)
  | failed (text : String)

/-! ## Activities -/

structure ProvisionLLMKeyInput where
  agentRunName : String
  namespace_ : String
  modelTier : String
  maxBudget : ℚ

structure CreateAgentDeploymentInput where
  name : String
  namespace_ : String
  agentRunName : String
  repos : List Repository
  prompt : String
  devboxConfig : String
  image : String
  envVars : List (String × String)
  llmKey : String
  liteLLMBaseURL : String
  modelID : String
  specContent : String
  gitHubTokenSecretName : String

structure CheckPodStatusOutput where
  reason : String := ""
  message : String := ""

structure HydrateContextInput where
  agentRunID : String
  workspacePath : String
  prompt : String
  repoURL : String
  agentType : String
  podIP : String

structure SidecarRPCInput where
  podName : String
  namespace_ : String
  podIP : String

structure StartAgentInput extends SidecarRPCInput where
  prompt : String
  repoPath : String
  model : String := ""
  stage : String := ""

structure GetAgentStatusOutput where
  state : AgentProcessState
  error : String := ""

structure LLMJudgeInput where
  agentRunName : String
  podIP : String
  repoPath : String
  prompt : String
  liteLLMBaseURL : String
  llmKey : String
  modelTier : String

structure LLMJudgeOutput where
  approved : Bool
  reason : String := ""

structure EnrichRunTagsInput where
  agentRunName : String
  namespace_ : String
  podIP : String
  repoPath : String

structure PushChangesInput where
  agentRunName : String
  podIP : String
  repoPath : String
  branchName : String
  baseBranch : String
  repoURL : String
  changeName : String := ""

structure PushChangesOutput where
  branchName : String := ""
  hasChanges : Bool

structure CreatePRInput where
  repoOwner : String
  repoName : String
  branchName : String
  baseBranch : String
  agentRunName : String

structure PlanRunInput extends SidecarRPCInput where
  agentRunName : String
  prompt : String
  specContent : String
  model : String
  repoPath : String

structure PlanRunOutput where
  changeName : String
  taskCount : ℤ := 0
  specsValid : Bool
  validationErrors : List String := []

structure VerifyRunInput extends SidecarRPCInput where
  agentRunName : String
  changeName : String
  repoPath : String
  manageModel : String
  previousReviewFeedback : String

structure VerificationResult where
  pass : Bool
  salvageGuidance : String := ""
  reviewFeedback : String := ""
  failureReport : String := ""

structure TraceSpanData where
  name : String
  status : String := ""

/-- The commands the workflow schedules: activities, child workflows and sleeps. -/
inductive Command where
  | provisionLLMKey (input : ProvisionLLMKeyInput)
  | createAgentDeployment (input : CreateAgentDeploymentInput)
  | checkPodStatus (podName namespace_ : String)
  | waitForHydration (podName namespace_ agentRunName : String)
  | hydrateContext (input : HydrateContextInput)
  | startAgent (input : StartAgentInput)
  | getAgentStatus (input : SidecarRPCInput)
  | forwardHumanInput (agentRunID : String) (pod : SidecarRPCInput) (text : String)
  | stopAgent (input : SidecarRPCInput)
  | llmJudgeChanges (input : LLMJudgeInput)
  | enrichRunTags (input : EnrichRunTagsInput)
  | pushChanges (input : PushChangesInput)
  | createPR (input : CreatePRInput)
  | planRun (input : PlanRunInput)
  | verifyRun (input : VerifyRunInput)
  | writeTraceSpan (agentRunName podIP : String) (span : TraceSpanData)
  | persistRunData (agentRunID workspacePath repoURL podIP : String)
  | embedRunData (agentRunID repoURL : String)
  | revokeLLMKey (key : String)
  | collectAgentLogs (agentRunName namespace_ podIP : String)
  | scaleDownDeployment (deploymentName namespace_ : String)
  | sleep (seconds : ℤ)
  | archiveAndCleanup (deploymentName pvcName namespace_ : String)
  | childWorkflow (input : WorkflowInput)
  | awaitChild (index : ℕ)

@[reducible] def Command.Reply : Command → Type
  | .provisionLLMKey _ => String
  | .createAgentDeployment _ => String
  | .checkPodStatus _ _ => CheckPodStatusOutput
  | .waitForHydration _ _ _ => String
  | .getAgentStatus _ => GetAgentStatusOutput
  | .llmJudgeChanges _ => LLMJudgeOutput
  | .pushChanges _ => PushChangesOutput
  | .createPR _ => String
  | .planRun _ => PlanRunOutput
  | .verifyRun _ => VerificationResult
  | _ => Unit

def Command.isPush : Command → Bool
  | .pushChanges _ => true
  | .createPR _ => true
  | _ => false

inductive Channel where
  | cancel
  | humanInput
  | approvalDecision
  deriving DecidableEq, Repr

@[reducible] def Channel.Message : Channel → Type
  | .cancel => Unit
  | .humanInput => String
  | .approvalDecision => ApprovalDecisionSignal

inductive Timer where
  | ttl (seconds : ℤ)
  | poll (seconds : ℤ)
  deriving DecidableEq, Repr

/-- Trace points of the workflow that leave no entry of their own in the history. -/
inductive Mark where
  | gateWait
  | gatePassed
  | gateRejected
  | retriesExhausted
  | bodyReturned
  deriving DecidableEq, Repr

abbrev temporal : Durable.Interface where
  Command := Command
  Reply := Command.Reply
  Channel := Channel
  Message := Channel.Message
  Timer := Timer
  Mark := Mark

instance : DecidableEq temporal.Channel := inferInstanceAs (DecidableEq Channel)

instance : DecidableEq temporal.Timer := inferInstanceAs (DecidableEq Timer)

/-- The variables of a workflow function that its closures and its deferred cleanup share. -/
structure Vars where
  state : WorkflowState
  podName : String := ""
  deploymentName : String := ""
  llmKey : String := ""
  podIP : String := ""

abbrev Workflow := Durable.Flow temporal Vars (Option WorkflowError)

/-- What the workflow code reads from its surroundings: the Go library, and the clock of its first
workflow task in milliseconds. -/
structure Env extends Go.Lib where
  nowMilli : ℕ

end Uncworks
