import Uncworks.Controller.Latching
import Uncworks.Server.Api

/-!
# Reading a finished run

`GetAgentRun` lays a live query over the stored phase, and the stored phase may come from an earlier
query or from the close status of the execution.  If the reconciler only ever copies phases that stand
(`Cluster.Reliable`), the two agree on every finished run, and so do `ListAgentRuns` and `runs wait`.
-/

namespace Uncworks

open Durable

variable {env : Env} {input : WorkflowInput} {s s' : Cluster} {calls : Calls}

def Execution.Tells (x : Execution) : Prop :=
  (∀ err P, x.run.returned? = some err → pipeline? x.env x.input = some P →
      ¬ Silent P x.run.world.log) ∧
    (x.status = .terminated ∨ x.status = .timedOut → x.state.phase = .failed)

namespace Cluster

/-- What a reconcile copies stands: it queries a settled run, or takes the phase from a close status
that tells it. -/
def Reliable (s : Cluster) (calls : Calls) : Prop :=
  s.object.syncs → ∀ x, s.execution = some x →
    match calls.query with
    | .state _ => ∀ P, pipeline? x.env x.input = some P → Settled P x.run
    | .undecodable => True
    | .failed => (∃ d, calls.describe = .ok d) → x.status ≠ .running → x.Tells

theorem closedPhase_of_tells {x : Execution} (hclosed : x.status ≠ .running) (h : x.Tells) :
    (closedPhase x.status).map Prod.fst = some (mapPhase x.state.phase) := by
  rcases x.closed_cases hclosed with ⟨err, hret, hst⟩ | ⟨-, hst⟩
  · rw [hst]
    exact (Run.closedPhase_iff x.reaches hret).2 fun P hP => h.1 err P hret hP
  · rw [h.2 hst]
    rcases hst with hst | hst <;> rw [hst] <;> rfl

theorem fixed_of_describe (hc : s.Answers calls) (hq : calls.query = .failed)
    (hold : ¬ isTerminal s.object.status.phase)
    (hnew : isTerminal (Uncworks.reconcile calls s.object).status.phase)
    (htells : ∀ x, s.execution = some x → (∃ d, calls.describe = .ok d) → x.status ≠ .running →
      x.Tells) :
    Fixed (Uncworks.reconcile calls s.object).status.phase (s.reconcile env input calls) := by
  obtain ⟨hsync, -, hstatus⟩ := syncs_of_terminal hold hnew
  rcases hd : calls.describe with text | d
  · rw [hstatus, syncWorkflowState, hq, hd] at hnew
    simp only [if_neg hold] at hnew
    exact absurd hnew hold
  obtain ⟨x, hx, hdx⟩ := hc.describe d hd
  have hphase : (Uncworks.reconcile calls s.object).status.phase =
      ((closedPhase x.status).map Prod.fst).getD s.object.status.phase := by
    rw [hstatus, syncWorkflowState, hq, hd, ← hdx]
    exact syncFromDescription_phase
  have hclosed : x.status ≠ .running := by
    intro hr
    rw [hphase, hr] at hnew
    exact hold hnew
  rw [closedPhase_of_tells hclosed (htells x hx ⟨d, hd⟩ hclosed)] at hphase
  rw [hphase]
  exact fixed_of_reconcile hsync hx (.inl ⟨hclosed, rfl⟩)

def Latched (s : Cluster) : Prop := isTerminal s.object.status.phase → Fixed s.object.status.phase s

theorem Latched.step (h : Latched s) (hs : Step Reliable s s') : Latched s' := by
  intro ht
  by_cases hold : isTerminal s.object.status.phase
  · -- a terminal phase is not written over
    have hfixed := (h hold).step hs
    have hkeep : s'.object.status.phase = s.object.status.phase := by
      cases hs with
      | reconcile env input calls hc ha =>
        exact congrArg AgentRunStatus.phase (reconcile_terminal hold (h hold).1)
      | _ => rfl
    rwa [hkeep]
  · cases hs with
    | reconcile env input calls hc ha =>
      change isTerminal (Uncworks.reconcile calls s.object).status.phase at ht
      have hsync := (syncs_of_terminal hold ht).1
      have hrel := ha hsync
      rcases hq : calls.query with _ | _ | w <;> simp only [hq] at hrel
      · exact fixed_of_describe hc hq hold ht hrel
      · have hstatus := (syncs_of_terminal hold ht).2.2
        rw [syncWorkflowState, hq] at hstatus
        rw [hstatus] at ht
        exact absurd ht hold
      · exact fixed_of_query hc hq hold ht hrel
    | _ => exact absurd ht hold

theorem latched_of_reaches {name} (h : Reaches Reliable (created name) s) : Latched s := by
  induction h with
  | refl => exact nofun
  | tail _ hs ih => exact ih.step hs

end Cluster

/-! ## Reads -/

theorem mapWorkflowStateToProto_phase {w} (h : isTerminal (mapPhase w.phase)) :
    (mapWorkflowStateToProto w).phase = crdPhaseToProto (mapPhase w.phase) := by
  unfold mapWorkflowStateToProto
  rcases hp : w.phase <;> rw [hp] at h <;> first
    | rfl
    | cases h

theorem enrich_phase {query} (hs : s.Latched) (hq : s.AnswersQuery query)
    (ht : isTerminal s.object.status.phase) :
    (enrich query (crdToProto s.object)).phase = crdPhaseToProto s.object.status.phase := by
  rcases query with _ | _ | w
  · rfl
  · rfl
  · obtain ⟨x, hx, hquery, rfl⟩ := hq w rfl
    obtain ⟨-, y, hy, hfix⟩ := hs ht
    obtain rfl : x = y := Option.some.inj (hx.symm.trans hy)
    have hphase := hfix.shows hquery
    rw [← hphase] at ht ⊢
    exact mapWorkflowStateToProto_phase ht

/-- If reconciles copy what stands, `GetAgentRun` reports the stored phase of a finished AgentRun,
as `ListAgentRuns` does, and `runs wait` succeeds if that phase is `Succeeded` and never complains
about it. -/
theorem finished_run_reads {name : String} (h : Cluster.Reaches Cluster.Reliable (.created name) s)
    (ht : isTerminal s.object.status.phase) {query : QueryResult} (hq : s.AnswersQuery query)
    (lib : Go.Lib) (hid : validRunID name) :
    ∃ status, getAgentRun lib name (some s.object) query = .ok status ∧
      status.phase = crdPhaseToProto s.object.status.phase ∧
      status.phase = listedPhase s.object ∧
      ∀ payload, (runRunsWait name payload status = none ↔ s.object.status.phase = .succeeded) ∧
        ∀ text, runRunsWait name payload status ≠ some (.invalidInput text) := by
  have hphase := enrich_phase (Cluster.latched_of_reaches h) hq ht
  refine ⟨enrich query (crdToProto s.object), ?_, hphase, hphase, fun payload => ⟨?_, fun text => ?_⟩⟩
  · simp [getAgentRun, lookUp, hid, Except.map]
  · rw [runRunsWait_eq_none, hphase]
    rcases s.object.status.phase <;> simp [crdPhaseToProto]
  · refine runRunsWait_ne_invalidInput ?_
    rw [hphase]
    rcases isTerminal_iff.1 ht with hp | hp | hp <;> rw [hp] <;> decide

/-! ### Sample clusters -/

def cancelledCluster : Cluster :=
  .during (reconcile (queryCalls cancellingRun) sampleObject) reaches_cancellingRun

theorem reaches_cancelledCluster :
    Cluster.Reaches Cluster.Reliable (.created "ar-7f3k") cancelledCluster := by
  have hstarted : Cluster.Reaches Cluster.Reliable (.created "ar-7f3k")
      (Cluster.during sampleObject reaches_cancellingRun) := by
    refine Cluster.reaches_started _ _ fun s calls hs hsync => ?_
    rw [hs] at hsync
    cases hsync
  have hstep : Cluster.Step Cluster.Reliable (Cluster.during sampleObject reaches_cancellingRun)
      ((Cluster.during sampleObject reaches_cancellingRun).reconcile sampleEnv {}
        (queryCalls cancellingRun)) := by
    refine .reconcile _ _ _ (Cluster.answers_query _ rfl) ?_
    rintro - x hx P hP
    cases hx
    cases hP
    exact fun h => nomatch (h : Phase.cancelling = .succeeded)
  exact hstarted.tail hstep

theorem finished_run_reads_cancelledCluster :
    ∃ status, getAgentRun sampleEnv.toLib "ar-7f3k" (some cancelledCluster.object)
        (.state cancellingRun.world.st.state) = .ok status ∧
      status.phase = crdPhaseToProto .cancelled := by
  have hquery : cancelledCluster.AnswersQuery (.state cancellingRun.world.st.state) := by
    rintro w hw
    cases hw
    exact ⟨_, rfl, .inl rfl, rfl⟩
  obtain ⟨status, hget, hphase, -⟩ :=
    finished_run_reads reaches_cancelledCluster rfl hquery sampleEnv.toLib (by decide)
  exact ⟨status, hget, hphase⟩

def describeCalls (status : ExecutionStatus) : Calls :=
  { describe := .ok { status }, start := .failed "" }

theorem reaches_overdueRun : (Run.start sampleEnv {}).Reaches overdueRun := Run.reaches_after _ _

def overdueExecution : Execution :=
  ⟨sampleEnv, {}, overdueRun, closeStatus none, reaches_overdueRun, .returned rfl⟩

def overdueCluster : Cluster where
  execution := some overdueExecution
  object := reconcile (describeCalls .completed) sampleObject

theorem reaches_overdueCluster :
    Cluster.Reaches Cluster.anyCalls (.created "ar-7f3k") overdueCluster := by
  have hstarted : Cluster.Reaches Cluster.anyCalls (.created "ar-7f3k")
      (Cluster.during sampleObject reaches_overdueRun) :=
    Cluster.reaches_started _ _ fun _ _ _ => trivial
  have hclose : Cluster.Step Cluster.anyCalls (Cluster.during sampleObject reaches_overdueRun)
      ⟨some overdueExecution, sampleObject⟩ :=
    .close (x := ⟨sampleEnv, {}, overdueRun, .running, reaches_overdueRun, .running⟩) rfl rfl rfl
  have hanswers : (Cluster.mk (some overdueExecution) sampleObject).Answers
      (describeCalls .completed) := by
    refine ⟨fun w hw => ?_, fun d hd => ?_, fun hs => ?_⟩
    · cases hw
    · cases hd
      exact ⟨_, rfl, rfl⟩
    · cases hs
  have hcopy : Cluster.Step Cluster.anyCalls ⟨some overdueExecution, sampleObject⟩
      ((Cluster.mk (some overdueExecution) sampleObject).reconcile sampleEnv {}
        (describeCalls .completed)) := .reconcile _ _ _ hanswers trivial
  have hsame : (Cluster.mk (some overdueExecution) sampleObject).reconcile sampleEnv {}
      (describeCalls .completed) = overdueCluster :=
    Cluster.ext (Cluster.reconcile_execution (by decide)) rfl
  exact (hstarted.tail hclose).tail hcopy

/-- A failed run is stored as `Succeeded`, read as `Failed`, and `runs wait` reports an error. -/
theorem overdueCluster_reads_failed :
    Cluster.Reaches Cluster.anyCalls (.created "ar-7f3k") overdueCluster ∧
      overdueCluster.object.status.phase = .succeeded ∧
      overdueCluster.AnswersQuery (.state overdueRun.world.st.state) ∧
      ∃ status, getAgentRun sampleEnv.toLib "ar-7f3k" (some overdueCluster.object)
          (.state overdueRun.world.st.state) = .ok status ∧
        status.phase = .failed ∧ runRunsWait "ar-7f3k" "" status ≠ none := by
  refine ⟨reaches_overdueCluster, rfl, ?_, enrich (.state overdueRun.world.st.state)
    (crdToProto overdueCluster.object), ?_, rfl, ?_⟩
  · rintro w hw
    cases hw
    exact ⟨_, rfl, .inr nofun, rfl⟩
  · have hid : validRunID "ar-7f3k" := by decide
    simp [getAgentRun, lookUp, hid, Except.map]
  · exact nofun

end Uncworks
