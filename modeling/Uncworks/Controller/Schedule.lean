import Uncworks.Controller.Chain
import Uncworks.Cron.Expression

/-!
# Schedules

The `Reconcile` of a Schedule, which creates a ChainRun or an AgentRun when an activation of its
cron expression has passed.

Times are nanoseconds since the zero time.  A time in the status is stored in whole seconds.
-/

namespace Uncworks

open Kube

/-! ## Types -/

/-- What to do when a run is due while another one is active.  `allow` is also any other text. -/
inductive ConcurrencyPolicy where
  | allow
  | forbid
  | replace
  deriving DecidableEq

structure ScheduleSpec where
  cron : String
  suspend : Bool := false
  concurrencyPolicy : ConcurrencyPolicy := .forbid
  chainRef : String := ""
  templateRef : String := ""

inductive ScheduleLastResult where
  | unset
  | running
  | succeeded
  | failed

structure ScheduleStatus where
  lastScheduledTime : Option ℕ := none
  lastRunID : String := ""
  lastResult : ScheduleLastResult := .unset
  nextScheduleTime : Option ℕ := none
  active : List String := []

structure Schedule where
  name : String
  creationTimestamp : ℕ
  spec : ScheduleSpec
  status : ScheduleStatus := {}

inductive ScheduledRun where
  | chainRun (name chainRef triggeredBy : String)
  | agentRun (name template schedule : String) (spec : AgentRunSpec)

def ScheduledRun.name : ScheduledRun → String
  | chainRun name .. => name
  | agentRun name .. => name

/-- What the API calls of a reconcile return, those about an active run by its position.  `now` is
the time at which the Schedule is checked, `stamp` the one that is recorded after a run was created.
-/
structure ScheduleReplies where
  now : ℕ
  stamp : ℕ
  chainRun : ℕ → Except Error ChainRunPhase
  agentRun : ℕ → Except Error AgentRunPhase
  oldChainRun : ℕ → Except Error Unit
  deleteChainRun : ℕ → Reply
  oldAgentRun : ℕ → Except Error Unit
  deleteAgentRun : ℕ → Reply
  template : Except Error RunTemplateSpec
  create : CreateReply
  pruneUpdate : Reply := .ok
  update : Reply := .ok

/-! ## `pruneActiveList` -/

def keepActive (chainRun : Except Error ChainRunPhase)
    (agentRun : Except Error AgentRunPhase) : Bool :=
  match chainRun with
  | .ok phase => !phase.isTerminal
  | .error _ => match agentRun with
    | .ok phase => !isTerminal phase
    | .error e => !e.isNotFound

def pruneActiveList (r : ScheduleReplies) (active : List String) : List String :=
  (active.zipIdx.filter fun e => keepActive (r.chainRun e.2) (r.agentRun e.2)).map Prod.fst

/-! ## Creating a run -/

/-- The error of a creation, with the run if it was created all the same. -/
structure CreateError where
  text : String
  lost : Option ScheduledRun := none

def createScheduled (text : String) (run : String → ScheduledRun) :
    CreateReply → Except CreateError ScheduledRun
  | .created suffix => .ok (run suffix)
  | .refused e => .error { text := text ++ e.text }
  | .lost suffix e => .error { text := text ++ e.text, lost := some (run suffix) }

def templateSpec (tmpl : RunTemplateSpec) : AgentRunSpec where
  backend := .pod
  repos := tmpl.repos
  prompt := tmpl.prompt
  modelTier := tmpl.modelTier
  manageModelTier := tmpl.manageModelTier
  implementModelTier := tmpl.implementModelTier
  orchestrationMode := tmpl.orchestrationMode
  ttlSeconds := tmpl.ttlSeconds
  autoPush := tmpl.autoPush
  autoPR := tmpl.autoPR
  prBaseBranch := tmpl.prBaseBranch
  projectRef := tmpl.projectRef
  specRef := tmpl.specRef

def createRun (r : ScheduleReplies) (sched : Schedule) : Except CreateError ScheduledRun :=
  if sched.spec.chainRef ≠ "" then
    createScheduled "create chain run: "
      (fun suffix => .chainRun ("cr-" ++ suffix) sched.spec.chainRef ("schedule:" ++ sched.name))
      r.create
  else match r.template with
    | .error e => .error { text := s!"get template {sched.spec.templateRef}: {e.text}" }
    | .ok tmpl =>
      createScheduled "create agent run: "
        (fun suffix => .agentRun ("ar-" ++ suffix) sched.spec.templateRef sched.name
          (templateSpec tmpl))
        r.create

/-! ## `Reconcile` -/

/-- The versions of the Schedule that a reconcile leaves, the run it has created, the active runs it
has tried to delete for the Replace policy, and its result. -/
structure ScheduleOutcome where
  object : Object Schedule
  created : Option ScheduledRun := none
  replaced : List String := []
  result : Result := .done

namespace Schedule

section

variable (sched : Schedule)

def lastScheduled : ℕ := sched.status.lastScheduledTime.getD sched.creationTimestamp

def withActive (active : List String) : Schedule :=
  { sched with status := { sched.status with active := active } }

def withNext (next : ℕ) : Schedule :=
  { sched with status := { sched.status with nextScheduleTime := some next } }

def fired (stamp : ℕ) (runID : String) (active : List String) : Schedule :=
  { sched with status := { sched.status with
    lastScheduledTime := some (Cron.truncate stamp)
    lastRunID := runID
    lastResult := .running
    active := active ++ [runID] } }

def hasTarget : Bool := sched.spec.chainRef ≠ "" || sched.spec.templateRef ≠ ""

end

end Schedule

def updateResult (o : Object Schedule) (i : ℕ) (r : ScheduleReplies) (next : ℕ) : Result :=
  match o.writeError i r.update with
  | some e => .error ("reconcile: " ++ e.text)
  | none => .requeueAfter (next - r.stamp + second)

/-- Fire the Schedule: the active runs are given up under the Replace policy, then a run is created
and recorded. -/
def fireSchedule (r : ScheduleReplies) (o : Object Schedule) (i : ℕ) (sched : Schedule)
    (next : ℕ) : ScheduleOutcome :=
  let replaces := sched.spec.concurrencyPolicy = .replace
  let replaced := if replaces then sched.status.active else []
  let active := if replaces then [] else sched.status.active
  match createRun r sched with
  | .error e => { object := o, created := e.lost, replaced := replaced, result := .error e.text }
  | .ok run =>
    { object := o.write i (sched.fired r.stamp run.name active) r.update
      created := some run
      replaced := replaced
      result := updateResult o i r next }

section

variable (parse : String → Option Cron) (r : ScheduleReplies) (o : Object Schedule) (i : ℕ)

def checkSchedule (sched : Schedule) : ScheduleOutcome :=
  match parse sched.spec.cron with
  | none => { object := o }
  | some cron =>
    let next := cron.next r.now
    let missedRun := cron.next sched.lastScheduled
    if r.now < missedRun then
      { object := o.write i (sched.withNext next) r.update, result := updateResult o i r next }
    else if sched.spec.concurrencyPolicy = .forbid ∧ sched.status.active ≠ [] then
      { object := o, result := .requeueAfter (next - r.stamp + second) }
    else fireSchedule r o i (sched.withNext next) next

structure PrunedSchedule where
  object : Object Schedule
  index : ℕ
  sched : Schedule

/-- Clean up finished entries of the active list; if there are any, the status is written. -/
def pruneSchedule (sched : Schedule) : Except ScheduleOutcome PrunedSchedule :=
  let remaining := pruneActiveList r sched.status.active
  if remaining = sched.status.active then .ok { object := o, index := i, sched := sched }
  else
    let pruned := sched.withActive remaining
    match o.writeError i r.pruneUpdate with
    | some e =>
      .error { object := o.write i pruned r.pruneUpdate
               result := .error ("updating schedule status: " ++ e.text) }
    -- the update returns the version it has stored
    | none => .ok { object := o.write i pruned r.pruneUpdate, index := i + 1, sched := pruned }

def reconcileSchedule (sched : Schedule) : ScheduleOutcome :=
  if sched.spec.suspend then { object := o }
  else if !sched.hasTarget then { object := o }
  else match pruneSchedule r o i sched with
    | .error outcome => outcome
    | .ok p => checkSchedule parse r p.object p.index p.sched

end

end Uncworks
