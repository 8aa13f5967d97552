import Uncworks.Controller.Cluster
import Uncworks.Eventbus.Subscription
import Uncworks.Server.Api

/-!
# Watching a run

`WatchAgentRun`: the stream reads the AgentRun, sends its phase, and then subscribes to the events
of the run and sends them on until one of type COMPLETED.  The controller writes a phase and publishes
an event about it afterwards; `Publish` neither waits for a watcher nor repeats what it has sent.
-/

namespace Uncworks

open List Option

inductive AgentRunEventType where
  | unspecified
  | phaseChanged
  | log
  | toolCall
  | waitingForInput
  | completed
  deriving DecidableEq, Repr

structure AgentRunEvent where
  agentRunId : String
  type : AgentRunEventType
  payload : String
  deriving DecidableEq

def AgentRunPhase.text : AgentRunPhase → String
  | .unset => ""
  | .pending => "Pending"
  | .running => "Running"
  | .waitingForInput => "WaitingForInput"
  | .succeeded => "Succeeded"
  | .failed => "Failed"
  | .cancelled => "Cancelled"

def ProtoPhase.text : ProtoPhase → String
  | .unspecified => "AGENT_RUN_PHASE_UNSPECIFIED"
  | .pending => "AGENT_RUN_PHASE_PENDING"
  | .running => "AGENT_RUN_PHASE_RUNNING"
  | .waitingForInput => "AGENT_RUN_PHASE_WAITING_FOR_INPUT"
  | .succeeded => "AGENT_RUN_PHASE_SUCCEEDED"
  | .failed => "AGENT_RUN_PHASE_FAILED"
  | .cancelled => "AGENT_RUN_PHASE_CANCELLED"

namespace AgentRunEvent

variable (e : AgentRunEvent)

def isCompleted : Bool := e.type = .completed

def showsTerminal : Bool :=
  [AgentRunPhase.succeeded, .failed, .cancelled].any fun phase =>
    e.payload = phase.text || e.payload = (crdPhaseToProto phase).text

end AgentRunEvent

/-! ## What the controller publishes -/

def updated (s : WorkflowState) (old : AgentRunStatus) : Bool :=
  old.phase ≠ mapPhase s.phase || old.message ≠ s.message ||
    (s.podName ≠ "" && old.podName ≠ s.podName) ||
    (s.deploymentName ≠ "" && old.deploymentName ≠ s.deploymentName) ||
    (s.prUrl ≠ "" && old.prUrl ≠ s.prUrl) ||
    (s.verificationResult ≠ "" && old.verificationResult ≠ s.verificationResult) ||
    (old.startedAt.isNone && (mapPhase s.phase = .running || isTerminal (mapPhase s.phase))) ||
    isTerminal (mapPhase s.phase)

def syncEvent (calls : Calls) (old : AgentRunStatus) : Option AgentRunEventType :=
  match calls.query with
  | .state s =>
    if updated s old then some (if isTerminal (mapPhase s.phase) then .completed else .phaseChanged)
    else none
  | .undecodable => none
  | .failed => match calls.describe with
    | .ok desc => (closedPhase desc.status).map fun _ => .completed
    | .error _ => none

def startEvent (calls : Calls) : Option AgentRunEventType :=
  match calls.start with
  | .failed _ => none
  | _ => if calls.update && calls.statusUpdate then some .phaseChanged else none

def reconcileEvent (calls : Calls) (run : AgentRun) : Option AgentRunEventType :=
  if run.deleting || !run.finalizer || run.status.archived then none
  else if run.workflowID = "" then startEvent calls
  else if isTerminal run.status.phase then none
  else if calls.statusUpdate then syncEvent calls run.status
  else none

def emitPhaseEvent (calls : Calls) (run : AgentRun) : Option AgentRunEvent :=
  (reconcileEvent calls run).map fun type =>
    ⟨run.name, type, (reconcile calls run).status.phase.text⟩

theorem syncEvent_eq_completed {calls old} (h : syncEvent calls old = some .completed) :
    isTerminal (syncWorkflowState calls old).phase := by
  unfold syncEvent at h
  unfold syncWorkflowState
  cases hq : calls.query with
  | state s =>
    simp only [hq, ite_none_right_eq_some] at h
    obtain ⟨-, htype⟩ := h
    rw [syncState_phase]
    by_contra hnot
    rw [if_neg hnot] at htype
    cases htype
  | undecodable => simp [hq] at h
  | failed =>
    cases hd : calls.describe with
    | error text => simp [hq, hd] at h
    | ok desc =>
      simp only [hq, hd, map_eq_some_iff] at h
      obtain ⟨⟨phase, message⟩, hclosed, -⟩ := h
      rw [syncFromDescription_phase]
      cases hs : desc.status <;> rw [hs] at hclosed <;> cases hclosed <;> rfl

theorem reconcileEvent_eq_completed {calls run} (h : reconcileEvent calls run = some .completed) :
    run.workflowID ≠ "" ∧ isTerminal (reconcile calls run).status.phase := by
  have hstart : startEvent calls ≠ some .completed := by
    unfold startEvent
    split
    · nofun
    · split_ifs <;> nofun
  unfold reconcileEvent at h
  split_ifs at h with hcond hid hterm hupdate
  · exact absurd h hstart
  · simp only [Bool.or_eq_true, Bool.not_eq_true', not_or, Bool.not_eq_true] at hcond
    obtain ⟨⟨hdel, hfin⟩, harch⟩ := hcond
    have hsyncs : run.syncs := by simp [AgentRun.syncs, hdel, hfin, harch, hid, hterm]
    refine ⟨hid, ?_⟩
    rw [reconcile_of_syncs hsyncs hupdate]
    exact syncEvent_eq_completed h

theorem reconcile_name (calls : Calls) (run : AgentRun) : (reconcile calls run).name = run.name := by
  have hstart : (startWorkflow calls run).name = run.name := by
    unfold startWorkflow
    split
    all_goals split_ifs <;> rfl
  unfold reconcile
  split_ifs <;> first | rfl | exact hstart

/-! ## The stream -/

inductive WatchError where
  | api (err : ApiError)
  | send (text : String)

inductive Watcher where
  | start
  /-- The phase is read and is to be sent. -/
  | fetched (phase : ProtoPhase)
  | announced
  /-- It waits for an event. -/
  | waiting (sub : Subscriber)
  | sending (sub : Subscriber) (event : AgentRunEvent)
  /-- It is about to unsubscribe. -/
  | leaving (sub : Subscriber) (err : Option WatchError)
  | done (err : Option WatchError)

namespace Watcher

def sub? : Watcher → Option Subscriber
  | .waiting sub => some sub
  | .sending sub _ => some sub
  | .leaving sub _ => some sub
  | _ => none

/-- The subscription of a stream that has still to hear of the end of the run. -/
def listener? : Watcher → Option Subscriber
  | .waiting sub => some sub
  | .sending sub event => if event.isCompleted then none else some sub
  | _ => none

theorem sub?_of_listener? {w : Watcher} {sub} (h : sub ∈ w.listener?) : w.sub? = some sub := by
  cases w with
  | waiting s => exact h
  | sending s event =>
    simp only [listener?] at h
    split_ifs at h
    · cases h
    · exact h
  | _ => cases h

def unaware : Watcher → Bool
  | .fetched phase => !isTerminalPhase phase
  | .announced => true
  | _ => false

end Watcher

structure WatchSystem where
  object : AgentRun
  bus : ChannelBus AgentRunEvent := {}
  /-- The event that the controller has still to publish. -/
  toEmit : Option AgentRunEvent := none
  watcher : Watcher := .start
  sent : List AgentRunEvent := []

/-- What can happen.  `bus` are the steps of `Publish`, what is done to the bus for other runs, and
what other streams do for this one. -/
inductive WatchEvent where
  | reconcile (calls : Calls)
  | edit (object : AgentRun)
  | emit
  | get (found : Bool)
  | sendInitial (err : Option String)
  | subscribe (spare : ℕ)
  | receive
  | send (err : Option String)
  | cancel
  | unsubscribe
  | bus (e : BusEvent AgentRunEvent)

namespace WatchSystem

variable (lib : Go.Lib) (id : String) (s : WatchSystem)

def created : WatchSystem := { object := { name := id, status := { phase := .pending } } }

def publishesElse : BusEvent AgentRunEvent → Bool
  | .publish topic _ => topic ≠ id
  | _ => true

/-- The steps of the bus that are not the controller's or the stream's own. -/
def foreign (e : BusEvent AgentRunEvent) : Bool :=
  publishesElse id e && s.watcher.sub?.all fun sub => ChannelBus.byOthers sub e

def get (found : Bool) : Watcher :=
  match lookUp lib id (if found then some s.object else none) with
  | .error err => .done (some (.api err))
  | .ok run => .fetched (crdToProto run).phase

def initialEvent (phase : ProtoPhase) : AgentRunEvent := ⟨id, .phaseChanged, phase.text⟩

def afterSend (sub : Subscriber) (event : AgentRunEvent) (err : Option String) : Watcher :=
  match err with
  | some text => .leaving sub (some (.send s!"watch agent run: {text}"))
  | none => if event.isCompleted then .leaving sub none else .waiting sub

def step : WatchEvent → Option WatchSystem
  | .reconcile calls =>
    if s.toEmit.isSome then none
    else some { s with
      object := Uncworks.reconcile calls s.object, toEmit := emitPhaseEvent calls s.object }
  | .edit object =>
    if object.name = s.object.name ∧ object.workflowID = s.object.workflowID ∧
        object.status.phase = s.object.status.phase then some { s with object }
    else none
  | .emit => s.toEmit.map fun event =>
    { s with bus := s.bus.publish event.agentRunId event, toEmit := none }
  | .get found => match s.watcher with
    | .start => some { s with watcher := s.get lib id found }
    | _ => none
  | .sendInitial err => match s.watcher, err with
    | .fetched _, some text =>
      some { s with watcher := .done (some (.send s!"watch agent run: {text}")) }
    | .fetched phase, none => some { s with
        watcher := if isTerminalPhase phase then .done none else .announced
        sent := s.sent ++ [initialEvent id phase] }
    | _, _ => none
  | .subscribe spare => match s.watcher with
    | .announced => some { s with
        bus := s.bus.subscribe id spare
        watcher := .waiting ⟨s.bus.nextID, s.bus.channels.length⟩ }
    | _ => none
  | .receive => match s.watcher with
    | .waiting sub => s.bus.channels[sub.ch]?.bind fun c => match c.buffer with
      | event :: rest => some { s with
          bus := { s.bus with channels := s.bus.channels.set sub.ch { c with buffer := rest } }
          watcher := .sending sub event }
      | [] => if c.closed then some { s with watcher := .leaving sub none } else none
    | _ => none
  | .send err => match s.watcher with
    | .sending sub event => some { s with
        watcher := afterSend sub event err
        sent := if err.isNone then s.sent ++ [event] else s.sent }
    | _ => none
  | .cancel => match s.watcher with
    | .waiting sub => some { s with watcher := .leaving sub none }
    | _ => none
  | .unsubscribe => match s.watcher with
    | .leaving sub err => some { s with
        bus := s.bus.unsubscribe id sub.id
        watcher := .done err }
    | _ => none
  | .bus e => if s.foreign id e then (s.bus.step e).map fun bus => { s with bus } else none

/-- No COMPLETED event is published between the read of a run that goes on and the subscription, and
later ones are not lost on the way to the stream. -/
def attentive (s : WatchSystem) : WatchEvent → Bool
  | .emit => !(s.watcher.unaware && s.toEmit.any (·.isCompleted))
  | .bus e => s.watcher.listener?.all fun sub =>
    s.bus.considerate id AgentRunEvent.isCompleted sub e
  | _ => true

def Completed : Prop :=
  ∃ p ∈ s.bus.publishers, p.announces id AgentRunEvent.isCompleted ∧ p.finished

/-- The stream is blocked on an empty channel after the COMPLETED event, and was not sent a terminal
phase. -/
def Hangs : Prop :=
  s.Completed id ∧ (∀ e ∈ s.sent, e.showsTerminal = false) ∧
    ∃ sub c, s.watcher = .waiting sub ∧ s.bus.channels[sub.ch]? = some c ∧ c.buffer = [] ∧
      c.closed = false

/-! ## The invariant -/

def Silent : Prop := ∀ p ∈ s.bus.publishers, p.announces id AgentRunEvent.isCompleted = false

/-- A COMPLETED event comes after a terminal phase, which stays; a stream that has seen an earlier
phase hears the event. -/
structure Informed : Prop where
  name : s.object.name = id
  bus : s.bus.WellFormed
  started : isTerminal s.object.status.phase → s.object.workflowID ≠ ""
  emits : ∀ event ∈ s.toEmit, event.agentRunId = id ∧
    (event.isCompleted → isTerminal s.object.status.phase)
  announced : isTerminal s.object.status.phase = false → s.Silent id
  unaware : s.watcher.unaware → s.Silent id
  hears : ∀ sub ∈ s.watcher.listener?, s.bus.Hears id AgentRunEvent.isCompleted sub

namespace Informed

variable {lib id s} {s' : WatchSystem}

theorem start : (created id).Informed id where
  name := rfl
  bus := .start
  started := nofun
  emits := nofun
  announced _ := nofun
  unaware := nofun
  hears := nofun

theorem setWatcher (h : s.Informed id) {watcher sent}
    (hunaware : watcher.unaware = true → s.Silent id)
    (hhears : ∀ sub ∈ watcher.listener?, s.bus.Hears id AgentRunEvent.isCompleted sub) :
    ({ s with watcher, sent } : WatchSystem).Informed id :=
  { h with unaware := hunaware, hears := hhears }

theorem setObject (h : s.Informed id) {object toEmit}
    (hname : object.name = id)
    (hphase : isTerminal s.object.status.phase → isTerminal object.status.phase)
    (hstarted : isTerminal object.status.phase → object.workflowID ≠ "")
    (hemits : ∀ event ∈ toEmit, event.agentRunId = id ∧
      (event.isCompleted → isTerminal object.status.phase)) :
    ({ s with object, toEmit } : WatchSystem).Informed id :=
  { h with
    name := hname
    started := hstarted
    emits := hemits
    announced := fun hgoes => h.announced (Bool.eq_false_iff.2 fun hterm =>
      Bool.false_ne_true (hgoes.symm.trans (hphase hterm))) }

theorem reconcile (h : s.Informed id) (calls : Calls) :
    ({ s with
      object := Uncworks.reconcile calls s.object
      toEmit := emitPhaseEvent calls s.object } : WatchSystem).Informed id := by
  apply h.setObject
  · rw [reconcile_name]
    exact h.name
  · exact (reconcile_started h.started calls).1
  · exact (reconcile_started h.started calls).2
  · intro event hevent
    obtain ⟨type, htype, rfl⟩ := map_eq_some_iff.1 hevent
    refine ⟨h.name, fun hcompleted => ?_⟩
    obtain rfl : type = .completed := of_decide_eq_true hcompleted
    exact (reconcileEvent_eq_completed htype).2

theorem emit (h : s.Informed id) {event} (hevent : s.toEmit = some event)
    (hcond : s.attentive id .emit) :
    ({ s with bus := s.bus.publish event.agentRunId event, toEmit := none } :
      WatchSystem).Informed id := by
  obtain ⟨hid, hphase⟩ := h.emits event hevent
  -- what is silent stays silent unless the event is a COMPLETED one
  have hsilent : event.isCompleted = false → s.Silent id →
      ({ s with bus := s.bus.publish event.agentRunId event, toEmit := none } :
        WatchSystem).Silent id := by
    intro hnot hold
    refine forall_mem_append.2 ⟨hold, forall_mem_singleton.2 ?_⟩
    simp [Publisher.announces, hnot]
  exact {
    name := h.name
    bus := h.bus.publish _ _
    started := h.started
    emits := (by simp)
    announced := fun hgoes => hsilent
      (Bool.eq_false_iff.2 fun hc => Bool.false_ne_true (hgoes.symm.trans (hphase hc)))
      (h.announced hgoes)
    unaware := fun hun => by
      refine hsilent ?_ (h.unaware hun)
      simpa [attentive, hun, hevent] using hcond
    hears := fun sub hsub => (h.hears sub hsub).publish h.bus _ _ }

theorem get (h : s.Informed id) (found : Bool) :
    ({ s with watcher := s.get lib id found } : WatchSystem).Informed id := by
  have hcases : (∃ err, s.get lib id found = .done err) ∨
      s.get lib id found = .fetched (crdPhaseToProto s.object.status.phase) := by
    unfold WatchSystem.get lookUp
    by_cases hvalid : validRunID id
    · cases found with
      | true => exact .inr (by simp [hvalid, crdToProto])
      | false => exact .inl (by simp [hvalid])
    · exact .inl (by simp [hvalid])
  obtain ⟨err, hdone⟩ | hfetched := hcases
  · rw [hdone]
    exact h.setWatcher nofun nofun
  · rw [hfetched]
    refine h.setWatcher (fun hun => h.announced ?_) nofun
    simpa [Watcher.unaware, isTerminalPhase_crdPhaseToProto] using hun

theorem subscribe (h : s.Informed id) (hw : s.watcher = .announced) (spare : ℕ) :
    ({ s with
      bus := s.bus.subscribe id spare
      watcher := .waiting ⟨s.bus.nextID, s.bus.channels.length⟩ } : WatchSystem).Informed id where
  name := h.name
  bus := h.bus.subscribe id spare
  started := h.started
  emits := h.emits
  announced := h.announced
  unaware := nofun
  hears := by
    rintro _ ⟨⟩
    apply ChannelBus.hears_subscribe h.bus
    apply h.unaware
    rw [hw]
    rfl

theorem receive (h : s.Informed id) {sub c event rest} (hw : s.watcher = .waiting sub)
    (hc : s.bus.channels[sub.ch]? = some c) (hbuf : c.buffer = event :: rest) :
    ({ s with
      bus := { s.bus with channels := s.bus.channels.set sub.ch { c with buffer := rest } }
      watcher := .sending sub event } : WatchSystem).Informed id where
  name := h.name
  bus := h.bus.setBuffer hc rest
  started := h.started
  emits := h.emits
  announced := h.announced
  unaware := nofun
  hears := by
    intro sub' hsub'
    simp only [Watcher.listener?, mem_def, ite_none_left_eq_some, Bool.not_eq_true,
      some.injEq] at hsub'
    obtain ⟨hnot, rfl⟩ := hsub'
    refine (h.hears sub ?_).receive hc hbuf fun _ => hnot
    rw [hw]
    rfl

theorem send (h : s.Informed id) {sub event err} (hw : s.watcher = .sending sub event) {sent} :
    ({ s with watcher := afterSend sub event err, sent } : WatchSystem).Informed id := by
  unfold afterSend
  cases err with
  | some text => exact h.setWatcher nofun nofun
  | none =>
    split_ifs with hcompleted
    · exact h.setWatcher nofun nofun
    · refine h.setWatcher nofun ?_
      rintro _ ⟨⟩
      apply h.hears
      rw [hw, Watcher.listener?, if_neg hcompleted]
      rfl

theorem silent_bus (hbus : s.Silent id) {e bus} (helse : publishesElse id e)
    (hstep : s.bus.step e = some bus) : ({ s with bus } : WatchSystem).Silent id := by
  have hset : ∀ {k : ℕ} {p p' : Publisher AgentRunEvent}, s.bus.publishers[k]? = some p →
      p'.topic = p.topic → p'.event = p.event → ∀ q ∈ s.bus.publishers.set k p',
        q.announces id AgentRunEvent.isCompleted = false := by
    intro k p p' hp htopic hevent q hq
    obtain hq | rfl := mem_or_eq_of_mem_set hq
    · exact hbus q hq
    · rw [Publisher.announces, htopic, hevent]
      exact hbus p (mem_of_getElem? hp)
  cases ChannelBus.effect_of_step hstep with
  | publish topic event =>
    have htopic := of_decide_eq_true helse
    refine forall_mem_append.2 ⟨hbus, forall_mem_singleton.2 ?_⟩
    simp [Publisher.announces, htopic]
  | load hp => exact hset hp rfl rfl
  | send hp =>
    intro q hq
    simp only [ChannelBus.offer] at hq
    split_ifs at hq
    · exact hbus q hq
    all_goals exact hset hp (by rfl) (by rfl) q hq
  | drop =>
    intro q' hq'
    obtain ⟨q, hq, rfl⟩ := mem_map.1 hq'
    have hold := hbus q hq
    unfold Publisher.unsubscribed
    split_ifs <;> exact hold
  | _ => exact hbus

theorem others (h : s.Informed id) {e : BusEvent AgentRunEvent} {bus} (hforeign : s.foreign id e)
    (hcond : s.attentive id (.bus e)) (hstep : s.bus.step e = some bus) :
    ({ s with bus } : WatchSystem).Informed id where
  name := h.name
  bus := h.bus.step hstep
  started := h.started
  emits := h.emits
  announced hgoes := silent_bus (h.announced hgoes) (Bool.and_eq_true_iff.1 hforeign).1 hstep
  unaware hun := silent_bus (h.unaware hun) (Bool.and_eq_true_iff.1 hforeign).1 hstep
  hears sub hsub := by
    have hsub? := Watcher.sub?_of_listener? hsub
    simp only [foreign, hsub?, Bool.and_eq_true] at hforeign
    simp only [attentive, mem_def.1 hsub] at hcond
    exact (h.hears sub hsub).step h.bus hforeign.2 hcond hstep

theorem step {s s' : WatchSystem} {e} (h : s.Informed id) (hcond : s.attentive id e)
    (hstep : s.step lib id e = some s') : s'.Informed id := by
  cases e with
  | reconcile calls =>
    simp only [WatchSystem.step] at hstep
    split_ifs at hstep
    cases hstep
    exact h.reconcile calls
  | edit object =>
    simp only [WatchSystem.step] at hstep
    split_ifs at hstep with hsame
    cases hstep
    obtain ⟨hname, hid, hphase⟩ := hsame
    refine h.setObject (hname.trans h.name) ?_ ?_ ?_
    · rw [hphase]
      exact fun hterm => hterm
    · rw [hphase, hid]
      exact h.started
    · rw [hphase]
      exact h.emits
  | emit =>
    obtain ⟨event, hevent, rfl⟩ := map_eq_some_iff.1 hstep
    exact h.emit hevent hcond
  | get found =>
    simp only [WatchSystem.step] at hstep
    split at hstep <;> cases hstep
    exact h.get found
  | sendInitial err =>
    simp only [WatchSystem.step] at hstep
    split at hstep <;> cases hstep
    · exact h.setWatcher nofun nofun
    · rename_i phase hw
      split_ifs with hterm
      · exact h.setWatcher nofun nofun
      · refine h.setWatcher (fun _ => h.unaware ?_) nofun
        simp [hw, Watcher.unaware, hterm]
  | subscribe spare =>
    simp only [WatchSystem.step] at hstep
    split at hstep <;> cases hstep
    exact h.subscribe ‹_› spare
  | receive =>
    simp only [WatchSystem.step] at hstep
    split at hstep
    · rename_i sub hw
      obtain ⟨c, hc, hstep⟩ := bind_eq_some_iff.1 hstep
      split at hstep
      · cases hstep
        exact h.receive hw hc ‹_›
      · split_ifs at hstep
        cases hstep
        exact h.setWatcher nofun nofun
    · cases hstep
  | send err =>
    simp only [WatchSystem.step] at hstep
    split at hstep <;> cases hstep
    exact h.send ‹_›
  | cancel =>
    simp only [WatchSystem.step] at hstep
    split at hstep <;> cases hstep
    exact h.setWatcher nofun nofun
  | unsubscribe =>
    simp only [WatchSystem.step] at hstep
    split at hstep <;> cases hstep
    rename_i sub err _
    have hleave : s.bus.step (.unsubscribe id sub.id) = some (s.bus.unsubscribe id sub.id) := rfl
    exact {
      name := h.name
      bus := h.bus.step hleave
      started := h.started
      emits := h.emits
      announced := fun hgoes => silent_bus (h.announced hgoes) rfl hleave
      unaware := nofun
      hears := nofun }
  | bus e =>
    simp only [WatchSystem.step] at hstep
    split_ifs at hstep with hforeign
    obtain ⟨bus, hbus, rfl⟩ := map_eq_some_iff.1 hstep
    exact h.others hforeign hcond hbus

end Informed

/-- If no COMPLETED event is published between the read of a run that goes on and the subscription,
and none is lost on the way, the stream is never blocked on an empty channel after the COMPLETED
event of the run. -/
theorem watch_never_hangs {lib : Go.Lib} {id : String} {s : WatchSystem}
    (h : Machine.Reaches (step lib id) (attentive id) (created id) s) : ¬ s.Hangs id := by
  have hs := h.keeps (I := (·.Informed id)) .start Informed.step
  rintro ⟨⟨p, hp, hann, hfin⟩, -, sub, c, hw, hc, hbuf, -⟩
  obtain ⟨k, hk⟩ := mem_iff_getElem?.1 hp
  have hhears := hs.hears sub (by rw [hw]; rfl)
  obtain ⟨c', hc', event, hevent, -⟩ := hhears.holds_of_finished hs.bus hk hann hfin
  obtain rfl := some.inj (hc.symm.trans hc')
  rw [hbuf] at hevent
  cases hevent

def startingCalls : Calls := {}

def closedCalls : Calls := { describe := .ok { status := .completed } }

def heardEnd : List WatchEvent :=
  [.reconcile startingCalls, .reconcile startingCalls, .emit, .get true, .sendInitial none, .subscribe 0,
    .reconcile closedCalls, .emit, .bus (.load 1), .bus (.send 1)]

/-- The run is completed between the read and the subscription. -/
def missedEnd : List WatchEvent :=
  [.reconcile startingCalls, .reconcile startingCalls, .emit, .get true, .sendInitial none,
    .reconcile closedCalls, .emit, .subscribe 0]

def runId : String := "ar-7f3k"

def afterHeardEnd : WatchSystem :=
  (Machine.replay (step sampleEnv.toLib runId) (attentive runId) heardEnd (created runId)).getD
    (created runId)

def afterMissedEnd : WatchSystem :=
  (Machine.replay (step sampleEnv.toLib runId) Machine.always missedEnd (created runId)).getD
    (created runId)

theorem watch_never_hangs_heard :
    Machine.Reaches (step sampleEnv.toLib runId) (attentive runId) (created runId) afterHeardEnd ∧
      afterHeardEnd.Completed runId ∧ ¬ afterHeardEnd.Hangs runId := by
  have hreach : Machine.Reaches (step sampleEnv.toLib runId) (attentive runId) (created runId)
      afterHeardEnd :=
    Machine.reaches_replay heardEnd rfl
  exact ⟨hreach, ⟨_, mem_of_getLast? rfl, rfl, rfl⟩, watch_never_hangs hreach⟩

/-- A stream that reads a run that goes on and subscribes after the COMPLETED event is out waits for
it forever. -/
theorem watch_hangs :
    Machine.Reaches (step sampleEnv.toLib runId) Machine.always (created runId) afterMissedEnd ∧
      afterMissedEnd.Hangs runId := by
  refine ⟨Machine.reaches_replay missedEnd rfl, ⟨_, mem_of_getLast? rfl, rfl, rfl⟩, ?_,
    ⟨0, 0⟩, {}, rfl, rfl, rfl, rfl⟩
  decide

end WatchSystem

end Uncworks
