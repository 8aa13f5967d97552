import Uncworks.Temporal.OpenSpec

/-!
# Planning

`PlanRun` scaffolds an OpenSpec change that bears the name of the run, lets a manage agent fill it in,
and has the OpenSpec CLI validate the outcome.
-/

namespace Uncworks

open Durable

inductive PlanCall where
  | check
  | newChange
  | scaffoldStatus
  | validate
  | status
  deriving DecidableEq, Repr

section PlanRun

variable (lib : Go.Lib) (json : Unmarshal) (pod : AgentPod PlanCall) (input : PlanRunInput)

def changeExists : Bool :=
  Go.trimSpace (execInSidecar (pod.exec .check "/workspace"
    s!"test -d openspec/changes/{lib.quote input.agentRunName} && echo exists || echo missing")).1
      = "exists"

def scaffold : Except Failure Unit :=
  if changeExists lib pod input then .ok ()
  else match execInSidecar (pod.exec .newChange "/workspace"
      s!"openspec new change {lib.quote input.agentRunName}") with
    | (out, some err) => .error (.other s!"scaffold openspec change: {err} (output: {out})")
    | (_, none) => .ok ()

def scaffoldStatus : Except Failure OpenSpecStatusResponse :=
  match execInSidecar (pod.exec .scaffoldStatus "/workspace"
      s!"openspec status --change {lib.quote input.agentRunName} --json") with
  | (out, some err) => .error (.other s!"verify scaffolded change: {err} (output: {out})")
  | (out, none) => match parseOpenSpecStatusResponse lib json out with
    | .error err => .error (.other s!"parse scaffolded change status: {err}")
    | .ok resp => .ok resp

def planAgent : Except Failure Unit :=
  match pod.startAgent with
  | .error err => .error (.other s!"start plan agent: {err}")
  | .ok _ => match pod.pollError? with
    | some err => .error (.other s!"plan agent: {err}")
    | none => .ok ()

/-- The errors of a validation that refuses the plan; an item may be invalid without an issue. -/
def validatePlan : Option (List String) :=
  match execInSidecar (pod.exec .validate "/workspace"
      s!"openspec validate {lib.quote input.agentRunName} --json") with
  | (out, some err) => some [s!"openspec validate failed: {err} (stderr: {out})"]
  | (out, none) => match parseOpenSpecValidateResponse lib json out with
    | .error err => some [s!"failed to parse validate response: {err}"]
    | .ok resp => resp.firstIssues?

def planArtifacts : Except String ℤ :=
  match execInSidecar (pod.exec .status "/workspace"
      s!"openspec status --change {lib.quote input.agentRunName} --json") with
  | (_, some err) => .error s!"openspec status failed: {err}"
  | (out, none) => match parseOpenSpecStatusResponse lib json out with
    | .error err => .error s!"failed to parse status response: {err}"
    | .ok resp =>
      if resp.allArtifactsDone then .ok resp.artifacts.length
      else .error ("incomplete artifacts: [" ++ " ".intercalate resp.missingArtifacts ++ "]")

def planOutput : PlanRunOutput :=
  match validatePlan lib json pod input with
  | some validationErrors =>
    { changeName := input.agentRunName, specsValid := false, validationErrors }
  | none => match planArtifacts lib json pod input with
    | .error err =>
      { changeName := input.agentRunName, specsValid := false, validationErrors := [err] }
    | .ok taskCount => { changeName := input.agentRunName, specsValid := true, taskCount }

def Activities.planRun : Except Failure PlanRunOutput := do
  scaffold lib pod input
  let _ ← scaffoldStatus lib json pod input
  planAgent pod
  return planOutput lib json pod input

end PlanRun

section Scaffold

variable {lib : Go.Lib} {json : Unmarshal} {pod : AgentPod PlanCall} {input : PlanRunInput}
  {output : PlanRunOutput}

theorem planOutput_changeName : (planOutput lib json pod input).changeName = input.agentRunName := by
  unfold planOutput
  split
  · rfl
  · split <;> rfl

theorem Activities.planRun_ok (h : Activities.planRun lib json pod input = .ok output) :
    scaffold lib pod input = .ok () ∧ output = planOutput lib json pod input := by
  unfold planRun at h
  rcases hscaffold : scaffold lib pod input with err | _
  · rw [hscaffold] at h; cases h
  rcases hstatus : scaffoldStatus lib json pod input with err | _
  · rw [hscaffold, hstatus] at h; cases h
  rcases hagent : planAgent pod with err | _
  · rw [hscaffold, hstatus, hagent] at h; cases h
  rw [hscaffold, hstatus, hagent] at h
  cases h
  exact ⟨rfl, rfl⟩

end Scaffold

end Uncworks
