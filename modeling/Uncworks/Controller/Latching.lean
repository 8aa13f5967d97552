import Uncworks.Controller.Cluster
import Uncworks.Lifecycle.Cancellation

/-!
# The phase that stays

The reconciler never copies the state of an execution into an AgentRun whose phase is terminal, so the
first terminal phase it writes stays.  A queried phase is the one the run ends with if the run is
settled: `Stage.Holds` lists the stages in which only one phase can still be seen.
-/

namespace Uncworks

open Durable

variable {env : Env} {input : WorkflowInput} {P : Pipeline} {c c' : Run} {log : History}
  {st : Stage} {p : AgentRunPhase} {q : Phase} {err : Option WorkflowError}

/-! ## Stages in which one phase is left -/

/-- The phase of the AgentRun that is the only one left in a stage. -/
def Stage.Holds (p : AgentRunPhase) : Stage → Prop
  | .quit => p = .cancelled
  | .overdue => p = .failed
  | .passed => p = .succeeded
  | .rejected => p = .failed
  | .closing e => p = mapPhase e.phase
  | .stray => True
  | _ => False

theorem Stage.Holds.step (h : st.Holds p) (x : Entry temporal Vars) :
    (Stage.step P st x).Holds p := by
  have hend : ∀ e, st.ending? = some e → p = mapPhase e.phase → (Stage.step P st x).Holds p := by
    intro e he hp
    rcases Stage.step_cases P st x with heq | heq | hc
    · rwa [heq]
    · rw [heq]; trivial
    · rw [hc.of_ending he]; exact hp
  cases st <;> first
    | exact hend _ rfl h
    | exact h.elim
    | (rw [Stage.step_stray]; trivial)

theorem Stage.Holds.shows (h : st.Holds p) (hq : st.Shows P q) : mapPhase q = p := by
  cases st <;> try exact h.elim
  case quit => rcases hq with rfl | rfl <;> exact h.symm
  case stray => exact hq.elim
  all_goals
    obtain rfl : q = _ := hq
    exact h.symm

/-- A single-agent run that shows `Succeeded` has passed the gate, and a spec-driven run that shows
`Failed` was rejected by it or has returned. -/
def Settled (P : Pipeline) (run : Run) : Prop :=
  if P.specDriven then
    run.world.st.state.phase = .failed →
      .marked .gateRejected ∈ run.world.log ∨ .marked .bodyReturned ∈ run.world.log
  else run.world.st.state.phase = .succeeded → .marked .gatePassed ∈ run.world.log

theorem Pipeline.holds_of_marked (hns : P.stage log ≠ .stray)
    (h : .marked .gatePassed ∈ log ∨ .marked .gateRejected ∈ log ∨ .marked .bodyReturned ∈ log) :
    ∃ p, (P.stage log).Holds p := by
  have hleads : ∀ e, e = .passed ∨ e = .rejected → (P.stage log).LeadsTo e →
      ∃ p, (P.stage log).Holds p := by
    rintro e he (hstray | hend)
    · exact absurd hstray hns
    · cases hst : P.stage log <;> rw [hst] at hend <;> first
        | exact ⟨_, rfl⟩
        | (rcases he with rfl | rfl <;> cases hend)
  rcases h with h | h | h
  · exact hleads _ (.inl rfl) (Pipeline.leadsTo_passed h)
  · exact hleads _ (.inr rfl) (Pipeline.leadsTo_rejected h)
  · rcases Pipeline.isClosing_of_returned h with hstray | ⟨e, he⟩
    · exact absurd hstray hns
    · rw [he]; exact ⟨_, rfl⟩

/-- A terminal phase that does not await the outcome of the gate or of another attempt is the only
one left. -/
theorem Stage.holds_of_terminal (hq : st.Shows P q) (ht : isTerminal (mapPhase q))
    (hwait : q ≠ if P.specDriven then .failed else .succeeded) : ∃ p, st.Holds p := by
  have hcases : q = .succeeded ∨ q = .failed ∨ q = .cancelled ∨ q = .cancelling := by
    cases q <;> simp [isTerminal, mapPhase] at ht ⊢
  cases st
  case quit => exact ⟨_, rfl⟩
  case overdue => exact ⟨_, rfl⟩
  case passed => exact ⟨_, rfl⟩
  case rejected => exact ⟨_, rfl⟩
  case closing e => exact ⟨_, rfl⟩
  -- in the other stages every terminal phase awaits an outcome
  all_goals
    rcases hs : P.specDriven <;> rcases hcases with rfl | rfl | rfl | rfl <;>
      simp [Stage.Shows, hs] at hq hwait

/-! ## Executions -/

namespace Execution

variable {x : Execution}

section

variable (x : Execution)

theorem closed_cases (h : x.status ≠ .running) :
    (∃ err, x.run.returned? = some err ∧ x.status = closeStatus err) ∨
      x.run.control.atRest ∧ (x.status = .terminated ∨ x.status = .timedOut) := by
  obtain ⟨env, input, run, status, reaches, stands⟩ := x
  cases stands with
  | running => exact absurd rfl h
  | returned hret => exact .inl ⟨_, hret, rfl⟩
  | stopped hrest hst => exact .inr ⟨hrest, hst⟩

theorem shows (hP : pipeline? x.env x.input = some P) (hq : x.Queryable) :
    (P.stage x.run.world.log).Shows P x.state.phase := by
  rcases hq with hrest | hclosed
  · exact Run.shows hP x.reaches hrest
  · rcases x.closed_cases hclosed with ⟨err, hret, -⟩ | ⟨hrest, -⟩
    · obtain ⟨e, hst, hv, -⟩ := Run.ends hP x.reaches hret
      rw [hst]
      exact hv
    · exact Run.shows hP x.reaches hrest

theorem manual_returned (hP : pipeline? x.env x.input = none) (hq : x.Queryable)
    (ht : isTerminal (mapPhase x.state.phase)) :
    ∃ err, x.run.returned? = some err ∧ x.status = closeStatus err := by
  have hrest : ¬ x.run.control.atRest := by
    intro hrest
    have hno := Run.manual_rest hP x.reaches hrest
    rw [state, hno] at ht
    cases ht
  rcases x.closed_cases (hq.resolve_left hrest) with h | ⟨h, -⟩
  · exact h
  · exact absurd h hrest

theorem terminal_of_returned (hret : x.run.returned? = some err) :
    isTerminal (mapPhase x.state.phase) := by
  rcases hP : pipeline? x.env x.input with _ | P
  · rcases Run.manual_ends hP x.reaches hret with ⟨hv, -⟩ | ⟨hv, -⟩ <;> rw [state, hv] <;> rfl
  · obtain ⟨e, -, hv, -⟩ := Run.ends hP x.reaches hret
    rw [state, hv]
    rcases e with (_ | _) | _ | _ | _ | _ | _ <;> rfl

/-- The execution can show no other phase than the given one from now on. -/
def Fixes (p : AgentRunPhase) : Prop :=
  (x.status ≠ .running ∧ mapPhase x.state.phase = p) ∨
    ∃ P, pipeline? x.env x.input = some P ∧ (P.stage x.run.world.log).Holds p

end

theorem Fixes.shows (h : x.Fixes p) (hq : x.Queryable) : mapPhase x.state.phase = p := by
  rcases h with ⟨-, h⟩ | ⟨P, hP, h⟩
  · exact h
  · exact h.shows (x.shows hP hq)

theorem fixes_of_settled (hq : x.Queryable) (ht : isTerminal (mapPhase x.state.phase))
    (hset : ∀ P, pipeline? x.env x.input = some P → Settled P x.run) :
    x.Fixes (mapPhase x.state.phase) := by
  rcases hP : pipeline? x.env x.input with _ | P
  · obtain ⟨err, -, hst⟩ := x.manual_returned hP hq ht
    refine .inl ⟨?_, rfl⟩
    rw [hst]
    rcases err with _ | (_ | _) <;> nofun
  · have hshows := x.shows hP hq
    have hholds : ∃ p, (P.stage x.run.world.log).Holds p := by
      by_cases hwait : x.state.phase = if P.specDriven then .failed else .succeeded
      · refine Pipeline.holds_of_marked (Run.stage_ne_stray hP x.reaches) ?_
        have hset := hset P hP
        unfold Settled at hset
        split_ifs at hset hwait
        · exact .inr (hset hwait)
        · exact .inl (hset hwait)
      · exact Stage.holds_of_terminal hshows ht hwait
    obtain ⟨p, hp⟩ := hholds
    rw [hp.shows hshows]
    exact .inr ⟨P, hP, hp⟩

theorem Fixes.returned (h : x.Fixes p) (hret : x.run.returned? = some err) :
    mapPhase x.state.phase = p := by
  rcases h with ⟨-, h⟩ | ⟨P, hP, h⟩
  · exact h
  · obtain ⟨e, hst, hv, -⟩ := Run.ends hP x.reaches hret
    rw [hst] at h
    rw [state, hv]
    exact h.symm

theorem Fixes.advance (h : x.Fixes p) (hr : x.status = .running) {run : Run}
    (hs : x.run.Step run) : (x.advance hs).Fixes p := by
  rcases h with ⟨hne, -⟩ | ⟨P, hP, h⟩
  · exact absurd hr hne
  · have hlog := Config.Reaches.log_grows (.single hs)
    exact .inr ⟨P, hP, Pipeline.stage_of_longer (fun h e => h.step e) hlog h⟩

end Execution

/-! ## Latching -/

namespace Cluster

variable {allowed : Cluster → Calls → Prop} {s s' : Cluster} {calls : Calls}

def Fixed (p : AgentRunPhase) (s : Cluster) : Prop :=
  s.object.workflowID ≠ "" ∧ ∃ x, s.execution = some x ∧ x.Fixes p

theorem Fixed.step (h : Fixed p s) (hs : Step allowed s s') : Fixed p s' := by
  obtain ⟨hw, x, hx, hfix⟩ := h
  cases hs with
  | @workflow y run hy hr hstep =>
    obtain rfl : x = y := Option.some.inj (hx.symm.trans hy)
    exact ⟨hw, _, rfl, hfix.advance hr hstep⟩
  | @close y err hy hr hret | @stop y status hy hr hrest hst =>
    obtain rfl : x = y := Option.some.inj (hx.symm.trans hy)
    exact ⟨hw, _, rfl, hfix.imp_left fun h => absurd hr h.1⟩
  | reconcile env input calls hc ha =>
    refine ⟨?_, x, ?_, hfix⟩
    · have hkeep : (s.reconcile env input calls).object.workflowID = s.object.workflowID :=
        reconcile_workflowID hw
      rwa [hkeep]
    · rw [reconcile_execution hw, hx]
  | delete | archive => exact ⟨hw, x, hx, hfix⟩

theorem Fixed.reaches (h : Fixed p s) (hs : Reaches allowed s s') : Fixed p s' := by
  induction hs with
  | refl => exact h
  | tail _ hstep ih => exact ih.step hstep

theorem fixed_of_reconcile (hsync : s.object.syncs) {x} (hx : s.execution = some x)
    (hfix : x.Fixes p) : Fixed p (s.reconcile env input calls) := by
  have hw : s.object.workflowID ≠ "" := by
    simp only [AgentRun.syncs, Bool.and_eq_true, bne_iff_ne] at hsync
    exact hsync.1.2
  have hkeep : (s.reconcile env input calls).object.workflowID = s.object.workflowID :=
    reconcile_workflowID hw
  refine ⟨?_, x, ?_, hfix⟩
  · rwa [hkeep]
  · rw [reconcile_execution hw, hx]

theorem fixed_of_query (hc : s.Answers calls) {w} (hq : calls.query = .state w)
    (hold : ¬ isTerminal s.object.status.phase)
    (hnew : isTerminal (Uncworks.reconcile calls s.object).status.phase)
    (hset : ∀ x, s.execution = some x → ∀ P, pipeline? x.env x.input = some P → Settled P x.run) :
    Fixed (Uncworks.reconcile calls s.object).status.phase (s.reconcile env input calls) := by
  obtain ⟨hsync, -, hstatus⟩ := syncs_of_terminal hold hnew
  obtain ⟨x, hx, hquery, rfl⟩ := hc.query w hq
  have hphase : (Uncworks.reconcile calls s.object).status.phase = mapPhase x.state.phase := by
    rw [hstatus, syncWorkflowState, hq, syncState_phase]
  rw [hphase] at hnew ⊢
  exact fixed_of_reconcile hsync hx (Execution.fixes_of_settled hquery hnew (hset x hx))

end Cluster

/-- The terminal phase that a reconcile copies from a settled run is the one the run ends with. -/
theorem queried_phase_is_final {s s' : Cluster} {calls : Calls} {w : WorkflowState}
    (hc : s.Answers calls) (hq : calls.query = .state w)
    (hold : ¬ isTerminal s.object.status.phase)
    (hnew : isTerminal (reconcile calls s.object).status.phase)
    (hset : ∀ x, s.execution = some x → ∀ P, pipeline? x.env x.input = some P → Settled P x.run)
    (h : Cluster.Reaches Cluster.anyCalls (s.reconcile env input calls) s') {x : Execution}
    (hx : s'.execution = some x) (hret : x.run.returned? = some err) :
    mapPhase x.state.phase = (reconcile calls s.object).status.phase := by
  have hfixed := (Cluster.fixed_of_query hc hq hold hnew hset).reaches h
  obtain ⟨-, y, hy, hfix⟩ := hfixed
  obtain rfl : x = y := Option.some.inj (hx.symm.trans hy)
  exact hfix.returned hret

/-- A reconcile of an annotated AgentRun whose execution has closed leaves it in a terminal phase if
it was in one, or if it copies the state of a workflow that returned or had set a terminal phase
before the service stopped it. -/
theorem reconcile_closed_iff (x : Execution) (hclosed : x.status ≠ .running) {calls : Calls}
    (hq : calls.query = .state x.state) (hu : calls.statusUpdate) {run : AgentRun}
    (hw : run.workflowID ≠ "") :
    isTerminal (reconcile calls run).status.phase ↔
      isTerminal run.status.phase ∨
        run.deleting = false ∧ run.finalizer ∧ run.status.archived = false ∧
          ((∃ err, x.run.returned? = some err) ∨
            (x.status = .terminated ∨ x.status = .timedOut) ∧
              isTerminal (mapPhase x.state.phase)) := by
  have hcopied : run.syncs → (reconcile calls run).status.phase = mapPhase x.state.phase := by
    intro hsync
    rw [reconcile_of_syncs hsync hu]
    rw [syncWorkflowState, hq, syncState_phase]
  by_cases hold : isTerminal run.status.phase
  · rw [reconcile_terminal hold hw]
    exact iff_of_true hold (.inl hold)
  have hsyncs : run.syncs ↔ run.deleting = false ∧ run.finalizer ∧ run.status.archived = false := by
    simp [AgentRun.syncs, hw, hold, and_assoc]
  constructor
  · intro hnew
    have hsync := (syncs_of_terminal hold hnew).1
    obtain ⟨hdel, hfin, harch⟩ := hsyncs.1 hsync
    refine .inr ⟨hdel, hfin, harch, ?_⟩
    rw [hcopied hsync] at hnew
    rcases x.closed_cases hclosed with ⟨err, hret, -⟩ | ⟨-, hst⟩
    · exact .inl ⟨err, hret⟩
    · exact .inr ⟨hst, hnew⟩
  · rintro (h | ⟨hdel, hfin, harch, hstate⟩)
    · exact absurd h hold
    · rw [hcopied (hsyncs.2 ⟨hdel, hfin, harch⟩)]
      rcases hstate with ⟨err, hret⟩ | ⟨-, ht⟩
      · exact x.terminal_of_returned hret
      · exact ht

/-! ### Sample clusters -/

def sampleObject : AgentRun := Cluster.startedObject "ar-7f3k"

def queryCalls (run : Run) : Calls :=
  { query := .state run.world.st.state, start := .alreadyStarted }

theorem Cluster.answers_query {object} (h : (Run.start env input).Reaches c)
    (hrest : c.control.atRest) : (Cluster.during object h).Answers (queryCalls c) := by
  refine ⟨fun w hw => ?_, fun d hd => ?_, fun hs => ?_⟩
  · cases hw
    exact ⟨_, rfl, .inl hrest, rfl⟩
  · cases hd
  · cases hs

def cancellingRun : Run := polledCancelled.settleDown 60

def cancellingEnd : Run := Config.after 60 cancellingRun (smoothly 8)

theorem reaches_cancellingRun : (Run.start sampleEnv {}).Reaches cancellingRun := by
  have hpolled : (Run.start sampleEnv {}).Reaches polledRun := Run.reaches_after _ _
  have hsignal : polledRun.Step polledCancelled := .deliver (.signal Channel.cancel ()) rfl
  exact (hpolled.tail hsignal).trans (Config.reaches_settleDown 60 polledCancelled)

theorem queried_phase_is_final_cancellingRun :
    (reconcile (queryCalls cancellingRun) sampleObject).status.phase = .cancelled ∧
      cancellingEnd.returned? = some none ∧
      mapPhase cancellingEnd.world.st.state.phase =
        (reconcile (queryCalls cancellingRun) sampleObject).status.phase := by
  have hrest : cancellingRun.control.atRest := rfl
  have hphase : (reconcile (queryCalls cancellingRun) sampleObject).status.phase = .cancelled := rfl
  have hterm : isTerminal (reconcile (queryCalls cancellingRun) sampleObject).status.phase := by
    rfl
  have hend : cancellingRun.Reaches cancellingEnd := Config.reaches_after _ _ _
  have hret : cancellingEnd.returned? = some none := rfl
  have hrun : Cluster.Reaches Cluster.anyCalls
      ((Cluster.during sampleObject reaches_cancellingRun).reconcile sampleEnv {}
        (queryCalls cancellingRun))
      (Cluster.during (reconcile (queryCalls cancellingRun) sampleObject)
        (reaches_cancellingRun.trans hend)) := by
    exact Cluster.reaches_during _ _ hend
  refine ⟨hphase, hret, queried_phase_is_final (Cluster.answers_query _ hrest) rfl (by decide) hterm
    ?_ hrun rfl hret⟩
  rintro x hx P hP
  cases hx
  cases hP
  exact fun h => nomatch (h : Phase.cancelling = .succeeded)

def judging : Run := Run.after unjudgedInput (smoothly 6 ++ [.fire (Timer.poll 5)] ++ smoothly 1)

def judgeRejects : (c : Command) → Except Failure c.Reply
  | .llmJudgeChanges _ => .ok { approved := false }
  | c => smooth c

def judgeRejected : Run := Config.after 60 judging (.settle judgeRejects :: smoothly 7)

theorem reaches_judging : (Run.start sampleEnv unjudgedInput).Reaches judging :=
  Run.reaches_after _ _

/-- A reconcile latches `Succeeded` while the judge is asked, and the judge rejects the run. -/
theorem rejected_run_latched :
    Cluster.Reaches Cluster.anyCalls (Cluster.created "ar-7f3k")
        (Cluster.during sampleObject reaches_judging) ∧
      (Cluster.during sampleObject reaches_judging).Answers (queryCalls judging) ∧
      isTerminal sampleObject.status.phase = false ∧
      (reconcile (queryCalls judging) sampleObject).status.phase = .succeeded ∧
      ∃ (h : (Run.start sampleEnv unjudgedInput).Reaches judgeRejected) (object : AgentRun),
        Cluster.Reaches Cluster.anyCalls
          ((Cluster.during sampleObject reaches_judging).reconcile sampleEnv unjudgedInput
            (queryCalls judging)) (Cluster.during object h) ∧
        object.status.phase = .succeeded ∧ judgeRejected.returned?.isSome ∧
        mapPhase judgeRejected.world.st.state.phase = .failed := by
  have hend : judging.Reaches judgeRejected := Config.reaches_after _ _ _
  refine ⟨Cluster.reaches_started _ _ fun _ _ _ => trivial, Cluster.answers_query _ rfl, rfl, rfl,
    reaches_judging.trans hend, reconcile (queryCalls judging) sampleObject, ?_, rfl, rfl, rfl⟩
  exact Cluster.reaches_during _ _ hend

def cancelledExecution : Execution :=
  ⟨sampleEnv, {}, cancellingEnd, closeStatus none,
    reaches_cancellingRun.trans (Config.reaches_after _ _ _), .returned rfl⟩

theorem reconcile_closed_iff_cancelledExecution :
    isTerminal (reconcile (queryCalls cancellingEnd) sampleObject).status.phase :=
  (reconcile_closed_iff cancelledExecution nofun rfl rfl (by decide)).2
    (.inr ⟨rfl, rfl, rfl, .inl ⟨none, rfl⟩⟩)

def terminatedExecution : Execution :=
  ⟨sampleEnv, {}, polledRun, .terminated, Run.reaches_after _ _, .stopped rfl (.inl rfl)⟩

/-- The AgentRun of a terminated execution keeps the phase `Running`. -/
theorem terminated_run_stays_running :
    Cluster.Reaches Cluster.anyCalls (Cluster.created "ar-7f3k")
        ⟨some terminatedExecution, sampleObject⟩ ∧
      sampleObject.workflowID = "agentrun-ar-7f3k" ∧
      (queryCalls polledRun).query = .state terminatedExecution.state ∧
      (queryCalls polledRun).update ∧ (queryCalls polledRun).statusUpdate ∧
      (reconcile (queryCalls polledRun) sampleObject).status.phase = .running := by
  have hrun : (Run.start sampleEnv {}).Reaches polledRun := Run.reaches_after _ _
  have hstarted : Cluster.Reaches Cluster.anyCalls (Cluster.created "ar-7f3k")
      (Cluster.during sampleObject hrun) := Cluster.reaches_started _ _ fun _ _ _ => trivial
  have hstop : Cluster.Step Cluster.anyCalls (Cluster.during sampleObject hrun)
      ⟨some terminatedExecution, sampleObject⟩ :=
    .stop (x := ⟨sampleEnv, {}, polledRun, .running, hrun, .running⟩) rfl rfl rfl (.inl rfl)
  exact ⟨hstarted.tail hstop, by decide, rfl, rfl, rfl, rfl⟩

end Uncworks
