import Uncworks.Lifecycle.Closing

/-!
# An AgentRun and its execution

The execution of the workflow, which closes by returning or is stopped by the service, runs beside
the AgentRun, which the reconciler and the API change.  A reconcile asks the service about the execution: a query is answered while the
workflow is at rest, and by a replay of its history once the execution is closed.
-/

namespace Uncworks

open Durable

/-! ## Executions -/

inductive StandsAs (run : Run) : ExecutionStatus → Prop
  | running : StandsAs run .running
  | returned {err : Option WorkflowError} (h : run.returned? = some err) :
      StandsAs run (closeStatus err)
  | stopped {status : ExecutionStatus} (hrest : run.control.atRest)
      (h : status = .terminated ∨ status = .timedOut) : StandsAs run status

structure Execution where
  env : Env
  input : WorkflowInput
  run : Run
  status : ExecutionStatus
  reaches : (Run.start env input).Reaches run
  stands : StandsAs run status

namespace Execution

def start (env : Env) (input : WorkflowInput) : Execution where
  env
  input
  run := Run.start env input
  status := .running
  reaches := .refl
  stands := .running

def advance (x : Execution) {run : Run} (h : x.run.Step run) : Execution where
  env := x.env
  input := x.input
  run
  status := .running
  reaches := x.reaches.tail h
  stands := .running

def close (x : Execution) {err : Option WorkflowError} (h : x.run.returned? = some err) :
    Execution where
  env := x.env
  input := x.input
  run := x.run
  status := closeStatus err
  reaches := x.reaches
  stands := .returned h

def stop (x : Execution) (hrest : x.run.control.atRest) {status : ExecutionStatus}
    (h : status = .terminated ∨ status = .timedOut) : Execution where
  env := x.env
  input := x.input
  run := x.run
  status
  reaches := x.reaches
  stands := .stopped hrest h

def Queryable (x : Execution) : Prop := x.run.control.atRest ∨ x.status ≠ .running

def state (x : Execution) : WorkflowState := x.run.world.st.state

end Execution

/-! ## Clusters -/

@[ext] structure Cluster where
  execution : Option Execution
  object : AgentRun

def AgentRun.starts (run : AgentRun) : Bool :=
  !run.deleting && run.finalizer && !run.status.archived && run.workflowID == ""

namespace Cluster

def AnswersQuery (s : Cluster) (query : QueryResult) : Prop :=
  ∀ w, query = .state w → ∃ x, s.execution = some x ∧ x.Queryable ∧ w = x.state

structure Answers (s : Cluster) (calls : Calls) : Prop where
  query : s.AnswersQuery calls.query
  describe : ∀ d, calls.describe = .ok d → ∃ x, s.execution = some x ∧ d.status = x.status
  start : calls.start = .started → ∀ x, s.execution = some x → x.status ≠ .running

/-- The cluster after a reconcile; `env` and `input` are those of a workflow it starts. -/
def reconcile (env : Env) (input : WorkflowInput) (calls : Calls) (s : Cluster) : Cluster where
  execution :=
    if s.object.starts ∧ calls.start = .started then some (.start env input) else s.execution
  object := Uncworks.reconcile calls s.object

inductive Step (allowed : Cluster → Calls → Prop) : Cluster → Cluster → Prop
  | workflow {s x run} (hx : s.execution = some x) (hr : x.status = .running)
      (h : x.run.Step run) : Step allowed s { s with execution := some (x.advance h) }
  | close {s x err} (hx : s.execution = some x) (hr : x.status = .running)
      (h : x.run.returned? = some err) : Step allowed s { s with execution := some (x.close h) }
  | stop {s x} {status : ExecutionStatus} (hx : s.execution = some x) (hr : x.status = .running)
      (hrest : x.run.control.atRest) (h : status = .terminated ∨ status = .timedOut) :
      Step allowed s { s with execution := some (x.stop hrest h) }
  | reconcile {s} (env : Env) (input : WorkflowInput) (calls : Calls) (hc : s.Answers calls)
      (ha : allowed s calls) : Step allowed s (s.reconcile env input calls)
  | delete {s} : Step allowed s { s with object := { s.object with deleting := true } }
  | archive {s} (archived : Bool) :
      Step allowed s { s with object := { s.object with status := { s.object.status with archived } } }

def Reaches (allowed : Cluster → Calls → Prop) : Cluster → Cluster → Prop :=
  Relation.ReflTransGen (Step allowed)

def anyCalls : Cluster → Calls → Prop := fun _ _ => True

def created (name : String) : Cluster where
  execution := none
  object := { name, status := { phase := .pending } }

end Cluster

/-! ## What reconciles keep -/

theorem starts_iff {run : AgentRun} : run.starts ↔
    run.deleting = false ∧ run.finalizer ∧ run.status.archived = false ∧ run.workflowID = "" := by
  simp [AgentRun.starts, and_assoc]

theorem reconcile_workflowID {calls run} (h : run.workflowID ≠ "") :
    (reconcile calls run).workflowID = run.workflowID := by
  unfold reconcile
  split_ifs <;> rfl

theorem syncs_of_terminal {calls run} (hold : ¬ isTerminal run.status.phase)
    (hnew : isTerminal (reconcile calls run).status.phase) :
    run.syncs ∧ calls.statusUpdate ∧ (reconcile calls run).status = syncWorkflowState calls run.status := by
  have hstart : (startWorkflow calls run).status.phase = run.status.phase ∨
      (startWorkflow calls run).status.phase = .running := by
    unfold startWorkflow
    split <;> split_ifs <;> simp
  unfold reconcile at hnew ⊢
  split_ifs at hnew ⊢ <;> first
    | exact absurd hnew hold
    | skip
  · rcases hstart with h | h <;> rw [h] at hnew
    · exact absurd hnew hold
    · cases hnew
  · simp_all [AgentRun.syncs]

theorem reconcile_started {run} (h : isTerminal run.status.phase → run.workflowID ≠ "")
    (calls : Calls) :
    (isTerminal run.status.phase → isTerminal (reconcile calls run).status.phase) ∧
      (isTerminal (reconcile calls run).status.phase → (reconcile calls run).workflowID ≠ "") := by
  refine ⟨fun hterm => ?_, fun hterm => ?_⟩
  · rw [reconcile_terminal hterm (h hterm)]
    exact hterm
  · have hid : run.workflowID ≠ "" := by
      by_cases hold : isTerminal run.status.phase
      · exact h hold
      · have hsyncs := (syncs_of_terminal hold hterm).1
        simp only [AgentRun.syncs, Bool.and_eq_true, bne_iff_ne] at hsyncs
        exact hsyncs.1.2
    rw [reconcile_workflowID hid]
    exact hid

/-! ## The course of a cluster -/

namespace Cluster

variable {allowed : Cluster → Calls → Prop} {env : Env} {input : WorkflowInput} {run run' : Run}

def during (object : AgentRun) (h : (Run.start env input).Reaches run) : Cluster where
  execution := some ⟨env, input, run, .running, h, .running⟩
  object

theorem reaches_during (object : AgentRun) (h : (Run.start env input).Reaches run)
    (h' : run.Reaches run') :
    Reaches allowed (during object h) (during object (h.trans h')) := by
  induction h' with
  | refl => exact .refl
  | @tail run₁ run₂ hr hs ih =>
    have hstep : Step allowed (during object (h.trans hr)) (during object ((h.trans hr).tail hs)) :=
      .workflow (x := ⟨env, input, run₁, .running, h.trans hr, .running⟩) rfl rfl hs
    exact ih.tail hstep

theorem reconcile_execution {s : Cluster} {calls} (hw : s.object.workflowID ≠ "") :
    (s.reconcile env input calls).execution = s.execution := by
  have hno : ¬ (s.object.starts ∧ calls.start = .started) := fun h =>
    hw (starts_iff.1 h.1).2.2.2
  exact if_neg hno

def startedObject (name : String) : AgentRun :=
  Uncworks.reconcile {} (Uncworks.reconcile {} (created name).object)

theorem reaches_started (name : String) (h : (Run.start env input).Reaches run)
    (ha : ∀ s calls, s.object.syncs = false → allowed s calls) :
    Reaches allowed (created name) (during (startedObject name) h) := by
  have hanswers : ∀ object, (Cluster.mk none object).Answers {} := by
    intro object
    refine ⟨fun w hw => ?_, fun d hd => ?_, fun _ x hx => ?_⟩
    · cases hw
    · cases hd
    · cases hx
  have hfirst : Step allowed (created name) ((created name).reconcile env input {}) :=
    .reconcile env input {} (hanswers _) (ha _ _ rfl)
  have hsecond : Step allowed ((created name).reconcile env input {})
      (during (startedObject name) (.refl : (Run.start env input).Reaches _)) :=
    .reconcile env input {} (hanswers _) (ha _ _ rfl)
  exact (Relation.ReflTransGen.single hfirst |>.tail hsecond).trans
    (reaches_during _ (.refl) h)

end Cluster

end Uncworks
