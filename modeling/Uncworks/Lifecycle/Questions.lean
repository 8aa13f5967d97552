import Uncworks.Controller.Cluster
import Uncworks.Server.Api
import Uncworks.Temporal.OpenSpec

/-!
# Questions of the manage agent

An agent may call `ask_user` in the stages whose role is `manage`, and these agents only run inside
the activities `PlanRun` and `VerifyRun`.

An `Asking` puts together what a question would have to pass: the gateway, the polling of the
activity, the AgentRun and its execution.
-/

namespace Uncworks

open Durable

def Command.agentStage? : Command → Option String
  | .planRun _ => some "plan"
  | .verifyRun _ => some "verify"
  | .startAgent input => some input.stage
  | _ => none

/-- The activities in which an agent with the role `manage` runs to its end. -/
def Command.managed : Command → Bool
  | .planRun _ => true
  | .verifyRun _ => true
  | _ => false

theorem Command.managed_mayAskUser {c : Command} (h : c.managed) :
    ∃ stage, c.agentStage? = some stage ∧ (stageToRole stage).mayAskUser := by
  cases c with
  | planRun input => exact ⟨"plan", rfl, rfl⟩
  | verifyRun input => exact ⟨"verify", rfl, rfl⟩
  | _ => cases h

def Run.Managed (run : Run) : Prop := ∃ sc c k, run.control = .awaiting sc c k ∧ c.managed

/-- The parts a question has to pass.  The flags say who has taken a step since it was written: the
gateway, the polling of the stage, and a reconcile that copied the state of the workflow. -/
structure Asking where
  cluster : Cluster
  gateway : Gateway
  unspecifiedCount : ℕ := 0
  noted : Bool := false
  polled : Bool := false
  copied : Bool := false

namespace Asking

def Managed (s : Asking) : Prop := ∃ x, s.cluster.execution = some x ∧ x.run.Managed

def Copies (s : Asking) (calls : Calls) : Prop :=
  s.cluster.object.syncs ∧ calls.statusUpdate ∧ ∃ w, calls.query = .state w

/-- The activity `ForwardHumanInput` hands a text to the gateway. -/
inductive Forwards (text : String) : Asking → Asking → Prop
  | mk {s x sc id pod k g} (hx : s.cluster.execution = some x)
      (hc : x.run.control = .awaiting sc (.forwardHumanInput id pod text) k)
      (hg : s.gateway.sendInput text.toUTF8.toList none = .ok g) :
      Forwards text s { s with gateway := g }

inductive Step : Asking → Asking → Prop
  | cluster {s c'} (h : Cluster.Step Cluster.anyCalls s.cluster c') : Step s { s with cluster := c' }
  | copy {s} (env : Env) (input : WorkflowInput) (calls : Calls) (hc : s.cluster.Answers calls)
      (h : s.Copies calls) :
      Step s { s with cluster := s.cluster.reconcile env input calls, copied := true }
  | notify {s g} (event : EventType) (payload : String)
      (h : s.gateway.notifyEvent event payload = .ok g) :
      Step s { s with gateway := g, noted := true }
  | poll {s n} (h : pollStatus s.unspecifiedCount s.gateway.getStatus = .inl n) :
      Step s { s with unspecifiedCount := n, polled := true }
  | forward {s s'} (text : String) (h : Forwards text s s') : Step s s'

def Reaches : Asking → Asking → Prop := Relation.ReflTransGen fun s s' => Step s s' ∧ s'.Managed

end Asking

/-! ## What a query sees -/

section

variable {env : Env} {input : WorkflowInput} {P : Pipeline} {run : Run}

theorem Run.Managed.stage (hP : pipeline? env input = some P)
    (h : (Run.start env input).Reaches run) (hm : run.Managed) :
    P.stage run.world.log = .idle ∨ P.stage run.world.log = .verifying := by
  obtain ⟨sc, c, k, hc, hmanaged⟩ := hm
  have hok := Prog.wp_sound shows_noVars (agentRunWorkflow_prog_wp hP) h
  have hparked := Config.Reaches.parked h
  obtain ⟨control, world⟩ := run
  obtain rfl : control = .awaiting sc c k := hc
  obtain ⟨pre, hlog⟩ := hparked
  -- a reply at another point of the course would leave it
  have hreply : ∀ r, Stage.step P (P.stage world.log) (.completed c r) ≠ .stray := fun r =>
    Stage.ne_stray_of_shows (hok.2.2 r).1
  cases c with
  | planRun i =>
    have hne := hreply (.error .canceled)
    generalize P.stage world.log = st at hne ⊢
    cases st <;> first
      | exact .inl rfl
      | exact absurd rfl hne
  | verifyRun i =>
    have hne := Run.stage_ne_stray hP h
    have hstep : P.stage world.log =
        Stage.step P (P.stage pre) (.scheduled (.verifyRun i) world.st) := by
      rw [show world.log = pre ++ [.scheduled (.verifyRun i) world.st] from hlog]
      exact Monitor.observe_append ..
    rw [show P.stage world.log = _ from hstep] at hne ⊢
    generalize P.stage pre = st at hne ⊢
    cases st <;> first
      | exact absurd rfl hne
      | skip
    cases hs : P.specDriven <;>
      simp [Stage.step, Stage.unlessAwaiting, Stage.onScheduled, hs] at hne ⊢
  | _ => cases hmanaged

theorem Run.Managed.phase_ne (h : (Run.start env input).Reaches run) (hm : run.Managed) :
    mapPhase run.world.st.state.phase ≠ .waitingForInput := by
  have hrest : run.control.atRest := by
    obtain ⟨sc, c, k, hc, -⟩ := hm
    rw [hc]
    rfl
  cases hP : pipeline? env input with
  | none =>
    rcases Run.manual_phase hP h hrest with hp | hp <;> rw [hp] <;> decide
  | some P =>
    have hshows := Run.shows hP h hrest
    rcases hm.stage hP h with hst | hst <;> rw [hst] at hshows
    · cases hs : P.specDriven <;> simp [Stage.Shows, hs] at hshows
      · rcases hshows with hp | hp | hp | hp <;> rw [hp] <;> decide
      · rcases hshows with hp | hp <;> rw [hp] <;> decide
    · cases hs : P.specDriven <;> simp [Stage.Shows, hs] at hshows
      rcases hshows with hp | hp <;> rw [hp] <;> decide

end

theorem reconcile_phase_ne {calls object}
    (hq : ∀ w, calls.query = .state w → mapPhase w.phase ≠ .waitingForInput)
    (h : object.status.phase ≠ .waitingForInput) :
    (reconcile calls object).status.phase ≠ .waitingForInput := by
  have hstart : (startWorkflow calls object).status.phase ≠ .waitingForInput := by
    unfold startWorkflow
    split <;> split_ifs <;> first
      | exact h
      | simp
  have hsync : (syncWorkflowState calls object.status).phase ≠ .waitingForInput := by
    unfold syncWorkflowState
    split
    · rename_i w hw
      exact hq w hw
    · exact h
    · split
      · rw [syncFromDescription_phase]
        rename_i d _
        cases d.status <;> simp [closedPhase, h]
      · split_ifs <;> exact h
  unfold reconcile
  split_ifs <;> first
    | exact h
    | exact hstart
    | exact hsync

theorem sendHumanInput_refused {object} (h : object.status.phase ≠ .waitingForInput)
    {lib client signal id text} :
    ∃ err, sendHumanInput lib client signal id text (some object) = .error err := by
  unfold sendHumanInput
  cases hl : lookUp lib id (some object) with
  | error err => exact ⟨err, rfl⟩
  | ok run =>
    have hrun : run = object := by
      unfold lookUp at hl
      split_ifs at hl
      exact (Except.ok.inj hl).symm
    subst hrun
    exact ⟨_, if_pos h⟩

namespace Asking

variable {s s' : Asking}

theorem Managed.query_ne (hm : s.Managed) {calls} (hc : s.cluster.Answers calls) :
    ∀ w, calls.query = .state w → mapPhase w.phase ≠ .waitingForInput := by
  intro w hw
  obtain ⟨x, hx, hrun⟩ := hm
  obtain ⟨x', hx', -, rfl⟩ := hc.query w hw
  obtain rfl : x' = x := Option.some.inj (hx'.symm.trans hx)
  exact hrun.phase_ne x'.reaches

/-- While the agent is at work, a step of the AgentRun or its execution does not bring
`WaitingForInput`. -/
theorem Managed.cluster_step (hm : s.Managed) {c'}
    (hstep : Cluster.Step Cluster.anyCalls s.cluster c')
    (h : s.cluster.object.status.phase ≠ .waitingForInput) :
    c'.object.status.phase ≠ .waitingForInput := by
  cases hstep with
  | workflow | close | stop | delete | archive => exact h
  | reconcile env input calls hc _ => exact reconcile_phase_ne (hm.query_ne hc) h

theorem Managed.not_forwards (hm : s.Managed) (text : String) : ¬ Forwards text s s' := by
  rintro ⟨hx, hc, -⟩
  obtain ⟨x, hx', sc, c, k, hc', hmanaged⟩ := hm
  obtain rfl := Option.some.inj (hx.symm.trans hx')
  rw [hc] at hc'
  cases hc'
  cases hmanaged

theorem Managed.reaches (hm : s.Managed) (hnew : s.copied = false) (hr : s.Reaches s') :
    s'.Managed ∧ (s'.copied → s'.cluster.object.status.phase ≠ .waitingForInput) := by
  induction hr with
  | refl => exact ⟨hm, fun h => by rw [hnew] at h; cases h⟩
  | tail _ hstep ih =>
    obtain ⟨hold, hphase⟩ := ih
    refine ⟨hstep.2, ?_⟩
    cases hstep.1 with
    | cluster hc => exact fun hcopied => hold.cluster_step hc (hphase hcopied)
    | copy env input calls hc hcopies =>
      obtain ⟨hsyncs, hupdate, w, hw⟩ := hcopies
      intro _
      show (Uncworks.reconcile calls _).status.phase ≠ .waitingForInput
      rw [reconcile_of_syncs hsyncs hupdate]
      simp only [syncWorkflowState, hw]
      exact hold.query_ne hc w hw
    | notify | poll => exact hphase
    | forward text h => exact absurd h (hold.not_forwards text)

/-- A question can be answered: the AgentRun shows it, `SendHumanInput` accepts a text, and the text
is written while the agent is at work. -/
def Answerable (s : Asking) : Prop :=
  s.cluster.object.status.phase = .waitingForInput ∧
    (∀ lib id text, validRunID id →
      ∃ sent, sendHumanInput lib true none id text (some s.cluster.object) = .ok sent) ∧
    ∀ text, ∃ t t', s.Reaches t ∧ Forwards text t t'

end Asking

/-- A question of a manage agent cannot be answered; and once a reconcile has copied the state of
the workflow, the AgentRun does not show it and `SendHumanInput` is refused. -/
theorem manage_question_unanswered {s s' : Asking} (hm : s.Managed) (hnew : s.copied = false)
    (hr : s.Reaches s') :
    ¬ s'.Answerable ∧
      (s'.copied → s'.cluster.object.status.phase ≠ .waitingForInput ∧
        ∀ lib client signal id text, ∃ err,
          sendHumanInput lib client signal id text (some s'.cluster.object) = .error err) := by
  obtain ⟨hm', hphase⟩ := hm.reaches hnew hr
  refine ⟨?_, fun hcopied => ⟨hphase hcopied, ?_⟩⟩
  · rintro ⟨-, -, hwritten⟩
    obtain ⟨t, t', ht, hf⟩ := hwritten ""
    have hmt : t.Managed := by
      rcases Relation.ReflTransGen.cases_tail ht with rfl | ⟨_, -, hlast⟩
      · exact hm'
      · exact hlast.2
    exact hmt.not_forwards "" hf
  · intro lib client signal id text
    exact sendHumanInput_refused (hphase hcopied)

/-! ## A question of the planning agent -/

def askingInput : WorkflowInput := { agentRunName := "ar-abcd", orchestrationMode := .specDriven }

def planning : Asking where
  cluster := .during (Cluster.startedObject "ar-abcd") (Run.reaches_after askingInput (smoothly 6))
  gateway := (Gateway.startAgent {} none).2

theorem planning_managed : planning.Managed := ⟨_, rfl, _, _, _, rfl, rfl⟩

def planningCalls : Calls where
  query := .state (Run.after askingInput (smoothly 6)).world.st.state
  start := .alreadyStarted

theorem planning_answers : planning.cluster.Answers planningCalls where
  query w hw := by
    cases hw
    exact ⟨_, rfl, .inl rfl, rfl⟩
  describe _ hd := by cases hd
  start hs := by cases hs

def planningAsked : Asking where
  cluster := planning.cluster.reconcile sampleEnv askingInput planningCalls
  gateway :=
    { planning.gateway with
      process := some { state := .waitingForInput, pendingQuestion := "Which database?" } }
  noted := true
  polled := true
  copied := true

theorem planningAsked_managed : planningAsked.Managed := ⟨_, rfl, _, _, _, rfl, rfl⟩

theorem planning_reaches : planning.Reaches planningAsked := by
  have hnotify : Asking.Step planning { planning with gateway := planningAsked.gateway, noted := true } :=
    .notify .waitingForInput "Which database?" rfl
  have hpoll : Asking.Step { planning with gateway := planningAsked.gateway, noted := true }
      { planning with gateway := planningAsked.gateway, noted := true, polled := true } :=
    .poll rfl
  have hcopy : Asking.Step
      { planning with gateway := planningAsked.gateway, noted := true, polled := true }
      planningAsked :=
    .copy sampleEnv askingInput planningCalls planning_answers ⟨rfl, rfl, _, rfl⟩
  exact .tail (.tail (.single ⟨hnotify, planning_managed⟩) ⟨hpoll, planning_managed⟩)
    ⟨hcopy, planningAsked_managed⟩

theorem manage_question_unanswered_planning :
    planning.Reaches planningAsked ∧ ¬ planningAsked.Answerable ∧
      planningAsked.cluster.object.status.phase ≠ .waitingForInput := by
  obtain ⟨hno, hphase⟩ := manage_question_unanswered planning_managed rfl planning_reaches
  exact ⟨planning_reaches, hno, (hphase rfl).1⟩

/-- The planning agent asks, everybody has taken a step, and the human's answer is refused. -/
theorem planning_question_refused :
    Cluster.Reaches Cluster.anyCalls (.created "ar-abcd") planning.cluster ∧ planning.Managed ∧
      planning.Reaches planningAsked ∧ planningAsked.noted ∧ planningAsked.polled ∧
      planningAsked.copied ∧ planningAsked.gateway.getStatus.state = .waitingForInput ∧
      planningAsked.cluster.object.status.phase = .running ∧
      sendHumanInput sampleEnv.toLib true none "ar-abcd" "Postgres"
        (some planningAsked.cluster.object) =
        .error ⟨.failedPrecondition, "failed: agent is not waiting for input"⟩ :=
  ⟨Cluster.reaches_started "ar-abcd" _ fun _ _ _ => trivial, planning_managed, planning_reaches,
    rfl, rfl, rfl, rfl, rfl, rfl⟩

end Uncworks
