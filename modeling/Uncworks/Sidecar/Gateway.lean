import Uncworks.Sidecar.Mailbox
import Uncworks.Temporal.Types

/-!
# The sidecar gateway

The calls of `Gateway` that the activities and the agent make: `StartAgent`, `SendInput`,
`GetStatus` and `NotifyEvent`.  A gateway has at most one agent process; its state is what
`GetStatus` reports.
-/

namespace Uncworks

/-- The roles of an agent, from which the extension takes its tool policy. -/
inductive Role where
  | manage
  | implement
  deriving DecidableEq, Repr

def stageToRole (stage : String) : Role :=
  if stage = "plan" ∨ stage = "verify" then .manage else .implement

def Role.mayAskUser : Role → Bool
  | .manage => true
  | .implement => false

structure AgentProcess where
  state : AgentProcessState := .running
  exitError : String := ""
  pendingQuestion : String := ""

/-- A gateway; `runOutputTokens` counts the output of its current process. -/
structure Gateway where
  process : Option AgentProcess := none
  debugMode : Bool := false
  runOutputTokens : ℕ := 0
  maxOutputTokens : ℕ := 32000
  response : Option Bytes := none

structure StartAgentResponse where
  started : Bool
  error : String := ""

inductive EventType where
  | waitingForInput
  | started
  | toolCall
  | log
  | unspecified
  deriving DecidableEq, Repr

namespace Gateway

section

variable (g : Gateway)

def checkOutputTokenBudget : Option String :=
  if g.maxOutputTokens ≤ g.runOutputTokens then
    some (s!"failed: agent run exceeded output token budget " ++
      s!"({g.runOutputTokens} >= {g.maxOutputTokens})")
  else none

/-- A running process is stopped before another is started; one that waits for input is not. -/
def stopPrevious : Gateway :=
  match g.process with
  | some p => if p.state = .running then { g with process := none } else g
  | none => g

def startAgent (spawn : Option String) : StartAgentResponse × Gateway :=
  if g.debugMode then ({ started := true }, g)
  else match g.checkOutputTokenBudget with
    | some err => ({ started := false, error := err }, g)
    | none => match spawn with
      | some err => ({ started := false, error := err }, g.stopPrevious)
      | none => ({ started := true }, { g with process := some {}, runOutputTokens := 0 })

def sendInput (data : Bytes) (io : Option String) : Except String Gateway :=
  match g.process with
  | none => .error "failed: no agent process running"
  | some p => match io with
    | some err => .error s!"write response file: {err}"
    | none => .ok { g with
        process := some { p with state := .running, pendingQuestion := "" }
        response := some data }

/-- `GetStatus`: a pending question is reported in the error field. -/
def getStatus : GetAgentStatusOutput :=
  match g.process with
  | none => { state := .unspecified }
  | some p =>
    { state := p.state
      error :=
        if p.state = .waitingForInput ∧ p.pendingQuestion ≠ "" then p.pendingQuestion
        else p.exitError }

def notifyEvent (event : EventType) (payload : String) : Except String Gateway :=
  match g.process with
  | none => .error "failed: no agent process running"
  | some p => match event with
    | .waitingForInput => .ok { g with
        process := some { p with state := .waitingForInput, pendingQuestion := payload } }
    | .started => .ok { g with process := some { p with state := .running } }
    | _ => .ok g

end

end Gateway

end Uncworks
