import Uncworks.Temporal.Types

/-!
# From an AgentRun to its workflow

The spec of an AgentRun resource and `BuildWorkflowInput`, which maps it to the input of the workflow.
Fields that the workflow only hands to labels and tags (feature, tags, workspace name) are left out.
-/

namespace Uncworks

inductive BackendType where
  | unset
  | pod
  deriving DecidableEq

structure AgentRunSpec where
  backend : BackendType := .unset
  repos : List Repository := []
  prompt : String := ""
  devboxConfig : String := ""
  ttlSeconds : ℤ := 0
  envVars : List (String × String) := []
  image : String := ""
  modelTier : String := ""
  manageModelTier : String := ""
  implementModelTier : String := ""
  specContent : String := ""
  specSource : String := ""
  projectRef : String := ""
  specRef : String := ""
  parentRunID : String := ""
  orchestrationMode : OrchestrationMode := .unspecified
  orchestration : Option (List OrchestrationTask) := none
  specRunID : String := ""
  displayName : String := ""
  pipelineConfig : Option PipelineConfigInput := none
  maxBudget : ℚ := 0
  autoPush : Bool := false
  autoPR : Bool := false
  prBaseBranch : String := ""
  project : String := ""
  approvalMode : String := ""

structure AgentRunCRD where
  name : String := ""
  namespace_ : String := ""
  annotations : List (String × String) := []
  spec : AgentRunSpec := {}

def AgentRunCRD.annotation (run : AgentRunCRD) (key : String) : String :=
  (run.annotations.lookup key).getD ""

def buildWorkflowInput (agentRun : AgentRunCRD) (liteLLMBaseURL gitHubTokenSecretName : String) :
    WorkflowInput where
  agentRunName := agentRun.name
  namespace_ := agentRun.namespace_
  repos := agentRun.spec.repos
  prompt := agentRun.spec.prompt
  devboxConfig := agentRun.spec.devboxConfig
  ttlSeconds := agentRun.spec.ttlSeconds
  image := agentRun.spec.image
  envVars := agentRun.spec.envVars
  modelTier := agentRun.spec.modelTier
  manageModelTier := agentRun.spec.manageModelTier
  implementModelTier := agentRun.spec.implementModelTier
  liteLLMBaseURL := liteLLMBaseURL
  specContent := agentRun.spec.specContent
  orchestrationMode := agentRun.spec.orchestrationMode
  orchestration := agentRun.spec.orchestration.getD []
  parentRunID := agentRun.spec.parentRunID
  specRunID := agentRun.spec.specRunID
  pipelineConfig := agentRun.spec.pipelineConfig
  maxBudget := agentRun.spec.maxBudget
  autoPush := agentRun.spec.autoPush
  autoPR := agentRun.spec.autoPR
  prBaseBranch := agentRun.spec.prBaseBranch
  specSource := agentRun.spec.specSource
  gitHubTokenSecretName := gitHubTokenSecretName
  approvalMode := agentRun.spec.approvalMode

end Uncworks
