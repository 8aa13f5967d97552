import Uncworks.Sidecar.Gateway

/-!
# Commands of the OpenSpec CLI

`PlanRun` and `VerifyRun` let the sidecar of the pod run commands of the OpenSpec CLI, and read the
JSON these print.  What `json.Unmarshal` makes of a text is a parameter (`Unmarshal`).
-/

namespace Uncworks

/-! ## Polling inside an activity

An agent that waits for input is polled on like one that runs: unlike the polling loops of the
workflow, this one does not report that state to anybody. -/

/-- Polls without a process after which the activity gives up. -/
def maxUnspecified : ℕ := 10

/-- What a status makes of the polling: it goes on with a count of polls without a process, or it
ends with an error or without one. -/
def pollStatus (unspecifiedCount : ℕ) (status : GetAgentStatusOutput) : ℕ ⊕ Option String :=
  match status.state with
  | .completed => .inr none
  | .failed => .inr (some s!"failed: agent failed: {status.error}")
  | .running => .inl 0
  | .waitingForInput => .inl 0
  | _ =>
    if maxUnspecified ≤ unspecifiedCount + 1 then
      .inr (some (s!"failed: agent never started " ++
        s!"(UNSPECIFIED state after {unspecifiedCount + 1} polls)"))
    else .inl (unspecifiedCount + 1)

/-- `pollUntilAgentDone` from its `i`-th poll on.  The context of the activity ends after so many
more polls. -/
def pollUntilAgentDone (status : ℕ → Except String GetAgentStatusOutput) :
    (polls i unspecifiedCount : ℕ) → Option String
  | 0, _, _ => some "poll until agent done: context done"
  | polls + 1, i, unspecifiedCount =>
    match status i with
    | .error err => some s!"get status: {err}"
    | .ok s => match pollStatus unspecifiedCount s with
      | .inl count => pollUntilAgentDone status polls (i + 1) count
      | .inr result => result

/-! ## Commands in the pod -/

structure ExecResponse where
  stdout : String := ""
  stderr : String := ""
  exitCode : ℤ := 0

/-- What the caller of `ExecCommand` gets: the error of the call, or a response. -/
abbrev ExecAnswer := Except String ExecResponse

def execInSidecar : ExecAnswer → String × Option String
  | .error err => ("", some s!"exec command: {err}")
  | .ok resp =>
    (resp.stdout, if resp.exitCode ≠ 0 then
      some s!"failed: command exited with code {resp.exitCode}: {resp.stderr}" else none)

def truncate (s : String) (max : ℕ) : String :=
  if s.utf8ByteSize ≤ max then s else String.ofList (Go.takeBytes max s.toList) ++ "..."

/-- What the pod answers in the course of an activity: to commands, told apart by what they are for,
and to the calls that concern the agent. -/
structure AgentPod (Call : Type) where
  exec : Call → (workingDir command : String) → ExecAnswer
  startAgent : Except String StartAgentResponse
  agentStatus : ℕ → Except String GetAgentStatusOutput
  /-- How often the status can be asked for before the context of the activity ends. -/
  polls : ℕ

def AgentPod.pollError? {Call : Type} (pod : AgentPod Call) : Option String :=
  pollUntilAgentDone pod.agentStatus pod.polls 0 0

/-! ## Responses -/

structure OpenSpecChangeInfo where
  name : String
  completedTasks : ℤ := 0
  totalTasks : ℤ := 0

structure OpenSpecListResponse where
  changes : List OpenSpecChangeInfo

def OpenSpecListResponse.findChange (r : OpenSpecListResponse) (name : String) :
    Option OpenSpecChangeInfo :=
  r.changes.find? (·.name == name)

/-- An item in the output of `openspec validate --json`, with the messages of its issues. -/
structure OpenSpecValidateItem where
  valid : Bool
  issues : List String := []

structure OpenSpecValidateResponse where
  items : List OpenSpecValidateItem

/-- The issues of the first item, if that is not valid; the callers look at no other item. -/
def OpenSpecValidateResponse.firstIssues? (r : OpenSpecValidateResponse) : Option (List String) :=
  match r.items with
  | item :: _ => if item.valid then none else some item.issues
  | [] => none

structure OpenSpecStatusArtifact where
  id : String
  status : String

structure OpenSpecStatusResponse where
  applyRequires : List String
  artifacts : List OpenSpecStatusArtifact

namespace OpenSpecStatusResponse

section

variable (r : OpenSpecStatusResponse)

def isMissing (a : OpenSpecStatusArtifact) : Bool :=
  r.applyRequires.contains a.id && a.status != "done"

def allArtifactsDone : Bool := !r.artifacts.any r.isMissing

def missingArtifacts : List String :=
  (r.artifacts.filter r.isMissing).map (·.id)

end

end OpenSpecStatusResponse

/-! ## Events of an agent log -/

structure ContentBlock where
  type : String
  text : String

structure AgentMessage where
  role : String
  content : String

structure AgentEvent where
  type : String
  message : Option AgentMessage

structure CriterionResult where
  scenario : String
  pass : Bool
  explanation : String := ""

structure LLMVerdict where
  pass : Bool
  criteria : List CriterionResult
  salvageable : Bool := false
  salvageGuidance : String := ""
  confidenceScore : ℚ := 0

/-! ## Parsing -/

structure Unmarshal where
  /-- The error for a text that is not JSON. -/
  error? : String → Option String
  list : String → Except String OpenSpecListResponse
  validate : String → Except String OpenSpecValidateResponse
  status : String → Except String OpenSpecStatusResponse
  event : String → Except String AgentEvent
  content : String → Except String (List ContentBlock)
  verdict : String → Except String LLMVerdict

variable (lib : Go.Lib) (json : Unmarshal)

/-- `parseOpenSpecJSON`: the text from the first brace on, which has to be JSON. -/
def parseOpenSpecJSON (raw : String) : Except String String :=
  let jsonStr := String.ofList (raw.toList.dropWhile (· != '\x7b'))
  if jsonStr = "" then
    .error s!"failed: no JSON found in output: {lib.quote (truncate raw 200)}"
  else match json.error? jsonStr with
    | some err =>
      .error s!"invalid JSON in output: {err} (raw: {lib.quote (truncate jsonStr 200)})"
    | none => .ok jsonStr

def parseResponse {α : Type} (what : String) (unmarshal : String → Except String α)
    (raw : String) : Except String α :=
  match parseOpenSpecJSON lib json raw with
  | .error err => .error s!"parse {what} response: {err}"
  | .ok jsonBytes => match unmarshal jsonBytes with
    | .error err => .error s!"unmarshal {what} response: {err}"
    | .ok resp => .ok resp

def parseOpenSpecListResponse : String → Except String OpenSpecListResponse :=
  parseResponse lib json "list" json.list

def parseOpenSpecValidateResponse : String → Except String OpenSpecValidateResponse :=
  parseResponse lib json "validate" json.validate

def parseOpenSpecStatusResponse : String → Except String OpenSpecStatusResponse :=
  parseResponse lib json "status" json.status

/-! ## Sample texts -/

def sampleList : String :=
  "\x7b\"changes\":[\x7b\"name\":\"run\",\"completedTasks\":1,\"totalTasks\":1\x7d]\x7d"

def sampleEmptyList : String := "\x7b\"changes\":[]\x7d"

def sampleValidation : String := "\x7b\"items\":[\x7b\"valid\":true\x7d]\x7d"

def sampleStatus : String :=
  "\x7b\"applyRequires\":[\"tasks\"],\"artifacts\":[\x7b\"id\":\"tasks\",\"status\":\"done\"\x7d]\x7d"

def sampleVerdict : String := "\x7b\"pass\":true,\"criteria\":[\x7b\"pass\":true\x7d]\x7d"

def sampleContent : String :=
  "[\x7b\"type\":\"text\",\"text\":\"\x7b\\\"pass\\\":true,\\\"criteria\\\":[\x7b\\\"pass\\\":true\x7d]\x7d\"\x7d]"

def sampleLine : String :=
  "\x7b\"type\":\"message_end\",\"message\":\x7b\"role\":\"assistant\",\"content\":" ++ sampleContent ++
    "\x7d\x7d"

def sampleUnmarshal : Unmarshal where
  error? _ := none
  list text :=
    if text = sampleList then
      .ok { changes := [{ name := "run", completedTasks := 1, totalTasks := 1 }] }
    else if text = sampleEmptyList then .ok { changes := [] }
    else .error "unexpected text"
  validate text :=
    if text = sampleValidation then .ok { items := [{ valid := true }] }
    else .error "unexpected text"
  status text :=
    if text = sampleStatus then
      .ok { applyRequires := ["tasks"], artifacts := [{ id := "tasks", status := "done" }] }
    else .error "unexpected text"
  event text :=
    if text = sampleLine then
      .ok { type := "message_end", message := some { role := "assistant", content := sampleContent } }
    else .error "unexpected text"
  content text :=
    if text = sampleContent then .ok [{ type := "text", text := sampleVerdict }]
    else .error "unexpected text"
  verdict text :=
    if text = sampleVerdict then .ok { pass := true, criteria := [{ scenario := "", pass := true }] }
    else .error "unexpected text"

end Uncworks
