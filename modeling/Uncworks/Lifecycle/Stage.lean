import Uncworks.Durable.Logic
import Uncworks.Temporal.Workflow

/-!
# The course of a run

The stage a run is in, as a function of its history alone.  `Stage.Shows` says which phases a query
can see in a stage, and `Stage.Ends` how a run that closes in a stage returns.  `stray` is the
stage of a history that no run has.
-/

namespace Uncworks

open Durable

structure Pipeline where
  specDriven : Bool
  env : Env
  input : WorkflowInput

def Pipeline.mode (P : Pipeline) : String := approvalMode P.env P.input

def Pipeline.publishes (P : Pipeline) : Prop := P.input.autoPush ∨ P.input.autoPR

instance (P : Pipeline) : Decidable P.publishes := inferInstanceAs (Decidable (_ ∨ _))

inductive Ending where
  | aborted (canceled : Bool)
  /-- A cancel signal was received. -/
  | quit
  /-- The agent failed, could not be reached or exceeded its time to live. -/
  | failed
  | passed
  | rejected
  | exhausted
  deriving DecidableEq, Repr

namespace Ending

def phase : Ending → Phase
  | .aborted true => .cancelled
  | .aborted false => .failed
  | .quit => .cancelled
  | .failed => .failed
  | .passed => .succeeded
  | .rejected => .failed
  | .exhausted => .failed

def Returns : Ending → Option WorkflowError → Prop
  | .aborted true, err => ∃ text, err = some (.canceled text)
  | .aborted false, err => ∃ text, err = some (.failed text)
  | .quit, err => err = none ∨ ∃ text, err = some (.failed text)
  | .failed, err => err = none
  | .passed, err => err = none
  | .rejected, err => ∃ text, err = some (.failed text)
  | .exhausted, err => err = none

end Ending

inductive Stage where
  /-- No agent has been started: preparation and planning. -/
  | idle
  /-- Between two attempts of a spec-driven run. -/
  | retrying
  /-- A step the run needs failed, by a cancellation or otherwise. -/
  | aborted (canceled : Bool)
  /-- The agent has been started. -/
  | launched
  /-- The agent is polled, after so many status errors in a row. -/
  | polling (errors : ℕ)
  | quit
  | failed
  /-- A single agent exceeded its time to live. -/
  | overdue
  /-- The verification is running. -/
  | verifying
  /-- The work is done: the agent completed, or the verification passed. -/
  | done
  | judged (verdict : Bool)
  | denied
  /-- The gate waits for a human. -/
  | awaiting
  | approved
  | declined
  /-- The gate let the run pass. -/
  | passed
  /-- The gate rejected the run. -/
  | rejected
  /-- The attempts are used up. -/
  | exhausted
  /-- The body has returned and the deferred cleanup runs. -/
  | closing (e : Ending)
  /-- Not the course of a run. -/
  | stray

namespace Stage

def ending? : Stage → Option Ending
  | .aborted canceled => some (.aborted canceled)
  | .quit => some .quit
  | .failed => some .failed
  | .overdue => some .failed
  | .passed => some .passed
  | .rejected => some .rejected
  | .exhausted => some .exhausted
  | .closing e => some e
  | _ => none

variable (P : Pipeline)

def need {α : Type} (next : Stage) : Except Failure α → Stage
  | .ok _ => next
  | .error .canceled => .aborted true
  | .error (.other _) => .aborted false

def afterStatus (errors : ℕ) : Except Failure GetAgentStatusOutput → Stage
  | .error _ =>
    if P.specDriven then .polling 0
    else if maxConsecutiveStatusErrors ≤ errors + 1 then .failed else .polling (errors + 1)
  | .ok status =>
    if P.specDriven then .polling 0
    else match status.state with
      | .completed => .done
      | .failed => .failed
      | _ => .polling 0

def afterVerify : Except Failure VerificationResult → Stage
  | .error .canceled => .aborted true
  | .error (.other _) => .retrying
  | .ok result => if result.pass then .done else .retrying

def afterJudge : Except Failure LLMJudgeOutput → Stage
  | .error _ => .judged false
  | .ok verdict => if verdict.approved then .judged true else .denied

def afterPlan : Except Failure PlanRunOutput → Stage
  | .ok plan => if plan.specsValid then .idle else .aborted false
  | .error .canceled => .aborted true
  | .error (.other _) => .aborted false

def onReply (st : Stage) : (c : Command) → Except Failure c.Reply → Stage
  | .provisionLLMKey _, r => match st with
    | .idle => need .idle r
    | _ => .stray
  | .createAgentDeployment _, r => match st with
    | .idle => need .idle r
    | _ => .stray
  | .waitForHydration _ _ _, r => match st with
    | .idle => need .idle r
    | _ => .stray
  | .checkPodStatus _ _, r => match st, r with
    | .idle, .ok status => if status.reason = "Evicted" then .aborted false else .idle
    | .idle, .error _ => .idle
    | _, _ => .stray
  | .planRun _, r => match st with
    | .idle => afterPlan r
    | _ => .stray
  | .startAgent _, r => match st with
    | .idle => need .launched r
    | .retrying => need .launched r
    | _ => .stray
  | .getAgentStatus _, r => match st with
    | .polling errors => afterStatus P errors r
    | _ => .stray
  | .verifyRun _, r => match st with
    | .verifying => afterVerify r
    | .polling _ => if P.specDriven then afterVerify r else .stray
    | _ => .stray
  | .llmJudgeChanges _, r => match st with
    | .done => afterJudge r
    | _ => .stray
  | _, _ => st

/-- The stage after a push or a pull request is scheduled: a single-agent run pushes when it has
passed the gate, a spec-driven run when its verification has passed. -/
def onPush : Stage → Stage
  | .passed => if P.publishes ∧ ¬ P.specDriven then .passed else .stray
  | .done => if P.publishes ∧ P.specDriven then .done else .stray
  | _ => .stray

def onScheduled (st : Stage) : Command → Stage
  | .verifyRun _ => match st with
    | .polling _ => if P.specDriven then .verifying else .stray
    | _ => .stray
  | .pushChanges _ => st.onPush P
  | .createPR _ => st.onPush P
  | _ => st

section

variable (st : Stage) (gs : List (Guard temporal))

def onWaiting : Stage :=
  match st with
  | .polling errors => if gs = pollGuards P.input then .polling errors else .stray
  | .awaiting => if gs = gateGuards then .awaiting else .stray
  | _ => .stray

def afterDecision : Option String → Stage
  | none => .approved
  | some _ => .declined

def onReceived (picked : Picked temporal) : Stage :=
  match st, picked with
  | .idle, .received Channel.cancel _ => if P.specDriven then .quit else .stray
  | .retrying, .received Channel.cancel _ => .quit
  | .polling _, .received Channel.cancel _ => .quit
  | .polling errors, .received Channel.humanInput _ => .polling errors
  | .awaiting, .received Channel.cancel _ => .stray
  | .awaiting, picked =>
    if gs = gateGuards then afterDecision (decisionOf P.env picked) else .stray
  | _, _ => .stray

def onFired (t : Timer) : Stage :=
  match st, t with
  | .polling errors, .ttl _ =>
    if gs = pollGuards P.input then if P.specDriven then .polling errors else .overdue else .stray
  | .polling errors, .poll _ => .polling errors
  | _, _ => .stray

def onStarted (t : Timer) : Stage :=
  match st with
  | .launched => if t = .ttl (ttlDuration P.input) then .polling 0 else .stray
  | st => st

/-- The stage after a trace point: the gate passes a run whose mode asks for no review, whose judge
has answered, or that a human has approved. -/
def onMark (x : Mark) : Stage :=
  match x, st with
  | .gateWait, .done => if asksHuman P.mode ∧ ¬ asksJudge P.mode then .awaiting else .stray
  | .gateWait, .judged _ => if asksHuman P.mode then .awaiting else .stray
  | .gatePassed, .done => if asksHuman P.mode ∨ asksJudge P.mode then .stray else .passed
  | .gatePassed, .judged _ => if asksHuman P.mode then .stray else .passed
  | .gatePassed, .approved => .passed
  | .gateRejected, .denied => .rejected
  | .gateRejected, .declined => .rejected
  | .retriesExhausted, .idle => if P.specDriven then .exhausted else .stray
  | .retriesExhausted, .retrying => .exhausted
  | .bodyReturned, .closing _ => .stray
  | .bodyReturned, st => match st.ending? with
    | some e => .closing e
    | none => .stray
  | _, _ => .stray

end

def unlessAwaiting (st next : Stage) : Stage :=
  match st with
  | .awaiting => .stray
  | _ => next

/-- The stage after an entry of the history; a command refused on a cancelled context has failed. -/
def step (st : Stage) : Entry temporal Vars → Stage
  | .scheduled c _ => st.unlessAwaiting (onScheduled P st c)
  | .refused c => st.unlessAwaiting (onReply P st c (.error .canceled))
  | .completed c r => st.unlessAwaiting (onReply P st c r)
  | .waiting gs _ => onWaiting P st gs
  | .received gs ch _ x => onReceived P st gs (.received ch x)
  | .fired gs t => onFired P st gs t
  | .started t => st.unlessAwaiting (onStarted P st t)
  | .issued _ => st.unlessAwaiting st
  | .marked x => onMark P st x

/-- The phases a query can see in a stage.  A reply is there before the workflow has acted on it,
and a failure in an attempt of a spec-driven run stays until a later one sets the phase. -/
def Shows (st : Stage) (p : Phase) : Prop :=
  match st, P.specDriven with
  | .idle, false => p = .pending ∨ p = .creating ∨ p = .hydrating ∨ p = .running
  | .idle, true => p = .pending ∨ p = .running
  | .retrying, false => False
  | .retrying, true => p = .running ∨ p = .failed
  | .aborted _, false => p = .pending ∨ p = .creating ∨ p = .hydrating ∨ p = .running
  | .aborted _, true => p = .pending ∨ p = .running ∨ p = .failed
  | .launched, false => p = .running
  | .launched, true => p = .running ∨ p = .failed
  | .polling _, false => p = .running ∨ p = .waitingForInput
  | .polling _, true => p = .running ∨ p = .waitingForInput ∨ p = .failed
  | .quit, _ => p = .cancelling ∨ p = .cancelled
  | .failed, _ => p = .running ∨ p = .waitingForInput
  | .overdue, _ => p = .failed
  | .verifying, false => False
  | .verifying, true => p = .running ∨ p = .failed
  | .done, false => p = .running ∨ p = .waitingForInput ∨ p = .succeeded
  | .done, true => p = .running ∨ p = .failed
  | .judged _, false => p = .succeeded
  | .judged _, true => p = .running ∨ p = .failed
  | .denied, false => p = .succeeded
  | .denied, true => p = .running ∨ p = .failed
  | .awaiting, _ => p = .waitingForInput
  | .passed, _ => p = .succeeded
  | .rejected, _ => p = .failed
  | .exhausted, false => False
  | .exhausted, true => p = .running ∨ p = .failed
  | .closing e, _ => p = e.phase
  | .approved, _ => False
  | .declined, _ => False
  | .stray, _ => False

def Ends (st : Stage) (p : Phase) (err : Option WorkflowError) : Prop :=
  match st with
  | .closing _ => False
  | st => match st.ending? with
    | some e => p = e.phase ∧ e.Returns err
    | none => False

variable {P}

theorem ne_stray_of_shows {st : Stage} {p} (h : st.Shows P p) : st ≠ .stray := by
  rintro rfl
  exact h

theorem unlessAwaiting_of_ne {st next : Stage} (h : st ≠ .awaiting) :
    st.unlessAwaiting next = next := by
  cases st <;> first
    | rfl
    | exact absurd rfl h

theorem onReceived_awaiting {gs} {ch : Channel} {m : ch.Message} (hch : ch ≠ .cancel) :
    onReceived P .awaiting gs (.received ch m) =
      if gs = gateGuards then afterDecision (decisionOf P.env (.received ch m)) else .stray := by
  cases ch
  case cancel => exact absurd rfl hch
  all_goals simp [onReceived]

theorem Ends.returned {st p err} (h : st.Ends p err) :
    ∃ e, step P st (.marked .bodyReturned) = .closing e ∧ p = e.phase ∧ e.Returns err := by
  cases st <;> first
    | exact h.elim
    | exact ⟨_, rfl, h⟩

end Stage

abbrev course (P : Pipeline) : Monitor temporal Vars where
  State := Stage
  init := .idle
  step := Stage.step P
  safe st := st ≠ .stray
  rest v st := st.Shows P v.state.phase
  safe_of_rest _ _ h := Stage.ne_stray_of_shows h

def Pipeline.stage (P : Pipeline) (log : History) : Stage := (course P).observe log

end Uncworks
