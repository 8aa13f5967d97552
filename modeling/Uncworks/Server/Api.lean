import Uncworks.Controller.Reconciler

/-!
# Reading a run

The read path of the API server (`GetAgentRun`, `ListAgentRuns`), `SendHumanInput`, and the end of
the CLI's `runs wait`.  `GetAgentRun` overlays the stored status with a live query of the workflow;
`ListAgentRuns` reports the stored phase.
-/

namespace Uncworks

inductive ProtoPhase where
  | unspecified
  | pending
  | running
  | waitingForInput
  | succeeded
  | failed
  | cancelled
  deriving DecidableEq, Repr

/-- The parts of a reported status that the live query can overwrite. -/
structure ProtoStatus where
  phase : ProtoPhase
  message : String
  podName : String
  prUrl : String

inductive ApiCode where
  | invalidArgument
  | notFound
  | resourceExhausted
  | failedPrecondition
  | unavailable
  | internal
  deriving DecidableEq, Repr

structure ApiError where
  code : ApiCode
  text : String

/-- The run ids that `runIDPattern` matches: `ar-` and four to ten lower-case letters or digits. -/
def validRunID (id : String) : Bool :=
  match id.toList with
  | 'a' :: 'r' :: '-' :: rest =>
    4 ≤ rest.length && rest.length ≤ 10 && rest.all fun c => c.isLower || c.isDigit
  | _ => false

def lookUp (lib : Go.Lib) (id : String) (crd : Option AgentRun) : Except ApiError AgentRun :=
  if !validRunID id then
    .error ⟨.invalidArgument, s!"invalid input: invalid run ID format: {lib.quote id}"⟩
  else match crd with
    | none => .error ⟨.notFound, s!"not found: agent run {lib.quote id} not found"⟩
    | some run => .ok run

def crdPhaseToProto : AgentRunPhase → ProtoPhase
  | .pending => .pending
  | .running => .running
  | .waitingForInput => .waitingForInput
  | .succeeded => .succeeded
  | .failed => .failed
  | .cancelled => .cancelled
  | .unset => .unspecified

def isTerminalPhase : ProtoPhase → Bool
  | .succeeded => true
  | .failed => true
  | .cancelled => true
  | _ => false

theorem isTerminalPhase_crdPhaseToProto (p : AgentRunPhase) :
    isTerminalPhase (crdPhaseToProto p) = isTerminal p := by
  cases p <;> rfl

def mapWorkflowStateToProto (s : WorkflowState) : ProtoStatus where
  phase := match s.phase with
    | .creating => .pending
    | .hydrating => .running
    | .running => .running
    | .waitingForInput => .waitingForInput
    | .succeeded => .succeeded
    | .failed => .failed
    | .cancelled => .cancelled
    | .cancelling => .cancelled
    | _ => .pending
  message := s.message
  podName := s.podName
  prUrl := s.prUrl

def crdToProto (run : AgentRun) : ProtoStatus where
  phase := crdPhaseToProto run.status.phase
  message := run.status.message
  podName := run.status.podName
  prUrl := run.status.prUrl

def enrich (query : QueryResult) (stored : ProtoStatus) : ProtoStatus :=
  match query with
  | .state s =>
    let enriched := mapWorkflowStateToProto s
    { phase := enriched.phase
      message := enriched.message
      podName := orKeep enriched.podName stored.podName
      prUrl := orKeep enriched.prUrl stored.prUrl }
  | _ => stored

/-- `GetAgentRun`; without a Temporal client the query counts as failed. -/
def getAgentRun (lib : Go.Lib) (id : String) (crd : Option AgentRun) (query : QueryResult) :
    Except ApiError ProtoStatus :=
  (lookUp lib id crd).map fun run => enrich query (crdToProto run)

def listedPhase (run : AgentRun) : ProtoPhase := (crdToProto run).phase

/-- `SendHumanInput`: the workflow and the text of the signal it sends.  `client`: there is a
Temporal client; `signal`: the error of the call. -/
def sendHumanInput (lib : Go.Lib) (client : Bool) (signal : Option String) (id input : String)
    (crd : Option AgentRun) : Except ApiError (String × String) := do
  let run ← lookUp lib id crd
  if run.status.phase ≠ .waitingForInput then
    .error ⟨.failedPrecondition, "failed: agent is not waiting for input"⟩
  else if !client then .error ⟨.unavailable, "not found: temporal not configured"⟩
  else match signal with
    | some text => .error ⟨.internal, s!"signal workflow: {text}"⟩
    | none => .ok (s!"agentrun-{id}", input)

/-! ## `runs wait` -/

inductive WaitError where
  | failed (text : String)
  | invalidInput (text : String)

def phaseLabel : ProtoPhase → String
  | .pending => "PENDING"
  | .running => "RUNNING"
  | .waitingForInput => "WAITING"
  | .succeeded => "DONE"
  | .failed => "FAILED"
  | .cancelled => "CANCELLED"
  | .unspecified => "UNKNOWN"

/-- The end of `runRunsWait`, for the status that `GetAgentRun` reports once the watch stream has
ended; `payload` is that of the stream's last completion event. -/
def runRunsWait (id payload : String) (status : ProtoStatus) : Option WaitError :=
  let finalPayload := if payload = "" then status.message else payload
  match status.phase with
  | .succeeded => none
  | .failed =>
    if finalPayload ≠ "" then some (.failed s!"failed: run {id} failed: {finalPayload}")
    else some (.failed s!"failed: run {id} failed")
  | .cancelled => some (.failed s!"failed: run {id} was cancelled")
  | p => some (.invalidInput s!"invalid input: run {id} ended in unexpected phase: {phaseLabel p}")

theorem runRunsWait_eq_none {id payload status} :
    runRunsWait id payload status = none ↔ status.phase = .succeeded := by
  unfold runRunsWait
  rcases status.phase <;> simp
  split_ifs <;> simp

theorem runRunsWait_ne_invalidInput {id payload text status}
    (h : status.phase = .succeeded ∨ status.phase = .failed ∨ status.phase = .cancelled) :
    runRunsWait id payload status ≠ some (.invalidInput text) := by
  unfold runRunsWait
  rcases h with h | h | h <;> simp only [h]
  · simp
  · split_ifs <;> simp
  · simp

end Uncworks
