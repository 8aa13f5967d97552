import Uncworks.Temporal.Workflow

/-!
# The AgentRun reconciler

`AgentRunReconciler.Reconcile`: it starts the workflow of a new AgentRun and copies the state of a
running one into the AgentRun's status, by a query or, if the query fails, from the execution status.
What the Kubernetes and Temporal calls of one reconcile return is given by `Calls`; the result is the
AgentRun as it is stored afterwards.
-/

namespace Uncworks

inductive AgentRunPhase where
  | unset
  | pending
  | running
  | waitingForInput
  | succeeded
  | failed
  | cancelled
  deriving DecidableEq, Repr

def isTerminal (p : AgentRunPhase) : Bool := p = .succeeded || p = .failed || p = .cancelled

theorem isTerminal_iff {p} : isTerminal p ↔ p = .succeeded ∨ p = .failed ∨ p = .cancelled := by
  simp [isTerminal, or_assoc]

def mapPhase : Phase → AgentRunPhase
  | .pending => .pending
  | .creating => .pending
  | .hydrating => .pending
  | .running => .running
  | .waitingForInput => .waitingForInput
  | .succeeded => .succeeded
  | .failed => .failed
  | .cancelled => .cancelled
  | .cancelling => .cancelled
  | .agentCompleted => .pending

structure Condition where
  status : Bool
  reason : String
  message : String

/-- The status of an AgentRun; times are in seconds. -/
structure AgentRunStatus where
  phase : AgentRunPhase := .unset
  message : String := ""
  podName : String := ""
  deploymentName : String := ""
  prUrl : String := ""
  verificationResult : String := ""
  startedAt : Option ℕ := none
  completedAt : Option ℕ := none
  workflowStarted : Option Condition := none
  completed : Option Condition := none
  archived : Bool := false

structure AgentRun where
  name : String := ""
  deleting : Bool := false
  finalizer : Bool := false
  workflowID : String := ""
  cleanedUp : Bool := false
  status : AgentRunStatus := {}

inductive ExecutionStatus where
  | running
  | completed
  | failed
  | canceled
  | terminated
  | timedOut
  | continuedAsNew
  deriving DecidableEq, Repr

inductive QueryResult where
  | failed
  | undecodable
  | state (s : WorkflowState)

inductive StartResult where
  | started
  | alreadyStarted
  | failed (text : String)
  deriving DecidableEq

structure Description where
  status : ExecutionStatus
  closeTime : Option ℕ := none

structure Calls where
  query : QueryResult := .failed
  describe : Except String Description := .error ""
  start : StartResult := .started
  update : Bool := true
  statusUpdate : Bool := true
  now : ℕ := 0

def completedCondition (p : AgentRunPhase) (message : String) : Condition :=
  match p with
  | .failed => { status := false, reason := "Failed", message }
  | .cancelled => { status := false, reason := "Cancelled", message }
  | _ => { status := true, reason := "Succeeded", message }

def orKeep (reported old : String) : String := if reported ≠ "" then reported else old

def syncState (now : ℕ) (s : WorkflowState) (old : AgentRunStatus) : AgentRunStatus :=
  let phase := mapPhase s.phase
  { old with
    phase
    message := s.message
    podName := orKeep s.podName old.podName
    deploymentName := orKeep s.deploymentName old.deploymentName
    prUrl := orKeep s.prUrl old.prUrl
    verificationResult := orKeep s.verificationResult old.verificationResult
    startedAt :=
      if old.startedAt.isNone ∧ (phase = .running ∨ isTerminal phase) then some now
      else old.startedAt
    completedAt :=
      if isTerminal phase ∧ old.completedAt.isNone then some now else old.completedAt
    completed :=
      if isTerminal phase then some (completedCondition phase s.message) else old.completed }

def closedPhase : ExecutionStatus → Option (AgentRunPhase × String)
  | .completed => some (.succeeded, "Workflow completed")
  | .failed => some (.failed, "Workflow failed")
  | .canceled => some (.cancelled, "Workflow cancelled")
  | .terminated => some (.failed, "Workflow terminated")
  | .timedOut => some (.failed, "Workflow timed out")
  | .running => none
  | .continuedAsNew => none

def syncFromDescription (now : ℕ) (desc : Description) (old : AgentRunStatus) : AgentRunStatus :=
  match closedPhase desc.status with
  | none => old
  | some (phase, message) =>
    { old with
      phase
      message
      completedAt := if old.completedAt.isNone then some (desc.closeTime.getD now)
        else old.completedAt
      completed := some (completedCondition phase message) }

/-- `syncWorkflowState`: the status a reconcile of a running AgentRun wants to store. -/
def syncWorkflowState (calls : Calls) (old : AgentRunStatus) : AgentRunStatus :=
  match calls.query with
  | .state s => syncState calls.now s old
  | .undecodable => old
  | .failed => match calls.describe with
    | .ok desc => syncFromDescription calls.now desc old
    | .error text =>
      if isTerminal old.phase then old
      else { old with message := s!"Temporal unreachable: {text}" }

def startWorkflow (calls : Calls) (run : AgentRun) : AgentRun :=
  match calls.start with
  | .failed text =>
    if calls.statusUpdate then
      { run with status := { run.status with
        message := s!"Retrying workflow start: {text}"
        workflowStarted :=
          some { status := false, reason := "WorkflowStartFailed", message := text } } }
    else run
  | _ =>
    if !calls.update then run
    else
      let workflowID := s!"agentrun-{run.name}"
      let annotated := { run with workflowID }
      if calls.statusUpdate then
        { annotated with status := { run.status with
          phase := .running
          podName := s!"agentrun-{run.name}"
          startedAt := some calls.now
          message := "Temporal workflow started"
          workflowStarted := some
            { status := true, reason := "WorkflowStarted"
              message := s!"Temporal workflow {workflowID} started" } } }
      else annotated

def reconcile (calls : Calls) (run : AgentRun) : AgentRun :=
  if run.deleting then
    if run.finalizer ∧ calls.update then { run with finalizer := false } else run
  else if !run.finalizer then
    if calls.update then { run with finalizer := true } else run
  else if run.status.archived then
    if !run.cleanedUp ∧ calls.update then { run with cleanedUp := true } else run
  else if run.workflowID = "" then startWorkflow calls run
  else if isTerminal run.status.phase then run
  else if calls.statusUpdate then { run with status := syncWorkflowState calls run.status }
  else run

def AgentRun.syncs (run : AgentRun) : Bool :=
  !run.deleting && run.finalizer && !run.status.archived && run.workflowID != "" &&
    !isTerminal run.status.phase

theorem reconcile_of_syncs {calls run} (h : run.syncs) (hu : calls.statusUpdate) :
    reconcile calls run = { run with status := syncWorkflowState calls run.status } := by
  simp only [AgentRun.syncs, Bool.and_eq_true, Bool.not_eq_true', bne_iff_ne] at h
  obtain ⟨⟨⟨⟨hd, hf⟩, ha⟩, hw⟩, ht⟩ := h
  simp [reconcile, hd, hf, ha, hw, ht, hu]

theorem reconcile_terminal {calls run} (h : isTerminal run.status.phase)
    (hw : run.workflowID ≠ "") : (reconcile calls run).status = run.status := by
  unfold reconcile
  split_ifs <;> simp_all

@[simp] theorem syncState_phase {now s old} : (syncState now s old).phase = mapPhase s.phase := rfl

theorem syncFromDescription_phase {now desc old} :
    (syncFromDescription now desc old).phase =
      ((closedPhase desc.status).map Prod.fst).getD old.phase := by
  unfold syncFromDescription
  rcases closedPhase desc.status with _ | ⟨phase, message⟩ <;> rfl

end Uncworks
