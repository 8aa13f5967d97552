import Uncworks.Temporal.Steps

/-!
# The approval gate

`runApprovalGate`: the policy both pipelines apply to a completed run.  An empty mode is `hybrid`,
`none` opts out, `llm-judge` asks an LLM judge, `hitl` a human, and `hybrid` the judge first and then
a human.
-/

namespace Uncworks

open Durable

/-- The approval mode of a run: lower-cased and trimmed, `hybrid` when empty. -/
def approvalMode (env : Env) (input : WorkflowInput) : String :=
  let mode := env.toLower (Go.trimSpace input.approvalMode)
  if mode = "" then "hybrid" else mode

def asksJudge (mode : String) : Prop := mode = "llm-judge" ∨ mode = "hybrid"

def asksHuman (mode : String) : Prop := mode = "hitl" ∨ mode = "hybrid"

instance (mode : String) : Decidable (asksJudge mode) := inferInstanceAs (Decidable (_ ∨ _))

instance (mode : String) : Decidable (asksHuman mode) := inferInstanceAs (Decidable (_ ∨ _))

section

variable (env : Env)

def rejects (text : String) : Bool :=
  let lower := env.toLower (Go.trimSpace text)
  Go.hasPrefix lower "reject" || Go.hasPrefix lower "deny" || Go.hasPrefix lower "no"

/-- The decision a signal carries: `none` for an approval, the reason for a rejection. -/
def decisionOf : Picked temporal → Option String
  | .received Channel.approvalDecision sig => if sig.approved then none else some sig.reason
  | .received Channel.humanInput text => if rejects env text then some text else none
  | _ => some ""

def gateGuards : List (Guard temporal) :=
  [.receive Channel.approvalDecision, .receive Channel.humanInput]

def judgeReview (input : WorkflowInput) : Workflow Unit := do
  setMessage "Agent completed — running LLM judge review"
  let v ← Flow.read
  let reply ← execute (.llmJudgeChanges
    { agentRunName := input.agentRunName, podIP := v.podIP, repoPath := repoPath env input
      prompt := input.prompt, liteLLMBaseURL := input.liteLLMBaseURL, llmKey := v.llmKey
      modelTier := "deepseek-v3.1" })
  match reply with
  | .error err => setMessage s!"LLM judge error (skipped): {errorText err}"
  | .ok verdict => do
    Flow.update fun v => { v with state := { v.state with
      verificationResult :=
        s!"\x7b\"pass\":{verdict.approved},\"failureReport\":{env.quote verdict.reason}\x7d" } }
    if verdict.approved then setMessage ("LLM judge approved: " ++ verdict.reason)
    else do
      setPhase .failed ("Rejected by LLM judge: " ++ verdict.reason)
      Flow.exit (some (.failed s!"invalid input: run rejected by LLM judge: {verdict.reason}"))

def applyDecision : Option String → Workflow Unit
  | some given => do
    let reason := if given = "" then "rejected by human reviewer" else given
    setPhase .failed ("Rejected: " ++ reason)
    Flow.exit (some (.failed s!"invalid input: run rejected by human reviewer: {reason}"))
  | none => setPhase .succeeded "Approved by human reviewer"

def humanReview : Workflow Unit := do
  setPhase .waitingForInput
    "Agent completed — awaiting human approval. Use: uncworks input <id> <approve|reject>"
  Flow.mark (I := temporal) .gateWait
  let picked ← Flow.select gateGuards
  applyDecision (decisionOf env picked)

def reviews (input : WorkflowInput) : Workflow (Option WorkflowError) := do
  let mode := approvalMode env input
  if mode = "none" then return none
  else do
    Flow.when (asksJudge mode) (judgeReview env input)
    Flow.when (asksHuman mode) (humanReview env)
    return none

def runApprovalGate (input : WorkflowInput) : Workflow (Option WorkflowError) := do
  let err ← Flow.call (reviews env input)
  Flow.mark (I := temporal) (if err.isNone then .gatePassed else .gateRejected)
  return err

end

end Uncworks
