import Uncworks.Controller.Reconciler
import Uncworks.Lifecycle.Approval

/-!
# What a closed execution tells

When the state of a workflow cannot be queried, the reconciler takes the phase of a run from the
status with which its execution closed.
-/

namespace Uncworks

open Durable

variable {env : Env} {input : WorkflowInput} {P : Pipeline} {c : Run} {log : History} {e : Ending}
  {err : Option WorkflowError}

def closeStatus : Option WorkflowError → ExecutionStatus
  | none => .completed
  | some (.canceled _) => .canceled
  | some (.failed _) => .failed

/-! ## Manual orchestration -/

def ManualEnds (err : Option WorkflowError) (v : Vars) : Prop :=
  (v.state.phase = .succeeded ∧ err = none) ∨
    (v.state.phase = .failed ∧ ∃ text, err = some (.failed text))

abbrev atRest (R : Vars → Prop) : Monitor temporal Vars where
  State := Unit
  init := ()
  step _ _ := ()
  safe _ := True
  rest v _ := R v
  safe_of_rest _ _ _ := trivial

/-- The monitor for runs that set a terminal phase only when they return. -/
abbrev unfinished : Monitor temporal Vars where
  State := Unit
  init := ()
  step _ _ := ()
  safe _ := True
  rest v _ := isTerminal (mapPhase v.state.phase) = false
  safe_of_rest _ _ _ := trivial

section Manual

variable {R : Vars → Prop} {E : Option WorkflowError → Vars → Unit → Prop} {v : Vars}

theorem spawnJuniors_wp {Q : Unit → Vars → Unit → Prop} {tasks} (hQ : Q () v ()) :
    (spawnJuniors env input tasks).wp (atRest R) Q E v () := by
  induction tasks with
  | nil => exact (Flow.wp_pure _).2 hQ
  | cons task tasks ih =>
    simp only [spawnJuniors, Flow.wp_bind, Flow.wp_issue]
    exact ⟨⟨trivial, ih⟩, trivial, ih⟩

theorem awaitJuniors_wp {Q : List String → Vars → Unit → Prop} {tasks i failedTasks} (hrest : R v)
    (hQ : ∀ names, Q names v ()) : (awaitJuniors tasks i failedTasks).wp (atRest R) Q E v () := by
  induction tasks generalizing i failedTasks with
  | nil => exact (Flow.wp_pure _).2 (hQ _)
  | cons task tasks ih =>
    simp only [awaitJuniors, Flow.wp_bind]
    refine Flow.wp_execDetached.2 ⟨hrest, fun r => ⟨hrest, ?_⟩⟩
    rcases r with err | u
    all_goals exact ih

theorem runManualOrchestration_wp (hR : ∀ v : Vars, v.state.phase = .running → R v) :
    (runManualOrchestration env input).wp (atRest R) (fun err v _ => ManualEnds err v) E v () := by
  simp only [runManualOrchestration, Flow.wp_bind, Flow.wp_update]
  refine spawnJuniors_wp (awaitJuniors_wp (hR _ rfl) fun names => ?_)
  split_ifs <;> simp [setPhase]
  · exact .inl ⟨rfl, rfl⟩
  · exact .inr ⟨rfl, _, rfl⟩

theorem agentRunWorkflow_manual (hP : pipeline? env input = none) :
    agentRunWorkflow env input = runManualOrchestration env (preamble input) := by
  simp only [agentRunWorkflow]
  unfold pipeline? at hP
  rcases hm : (preamble input).orchestrationMode <;> simp [hm] at hP ⊢

theorem manual_prog_wp (hP : pipeline? env input = none)
    (hR : ∀ v : Vars, v.state.phase = .running → R v) :
    (agentRunWorkflow env input).prog.wp (atRest R)
      (fun r v _ => ∀ err, r = .ok err ∨ r = .error err → ManualEnds err v) noVars () := by
  rw [agentRunWorkflow_manual hP]
  refine Flow.wp_prog.2 (Flow.wp_mono
    (runManualOrchestration_wp (E := fun _ _ _ => False) hR) ?_ fun _ _ _ hf => hf.elim)
  rintro err v _ hend err' (h | h) <;> cases h
  exact hend

end Manual

theorem Run.manual_phase (hP : pipeline? env input = none) (h : (Run.start env input).Reaches c)
    (hr : c.control.atRest) :
    c.world.st.state.phase = .pending ∨ c.world.st.state.phase = .running :=
  (Prog.wp_sound (O := atRest fun v => v.state.phase = .pending ∨ v.state.phase = .running)
    (.inl rfl) (manual_prog_wp hP fun _ hv => .inr hv) h).rest hr

theorem Run.manual_rest (hP : pipeline? env input = none) (h : (Run.start env input).Reaches c)
    (hr : c.control.atRest) : isTerminal (mapPhase c.world.st.state.phase) = false :=
  (Prog.wp_sound (O := unfinished) rfl (manual_prog_wp hP fun v hv => by rw [hv]; rfl) h).rest hr

theorem Run.manual_ends (hP : pipeline? env input = none) (h : (Run.start env input).Reaches c)
    (hret : c.returned? = some err) : ManualEnds err c.world.st := by
  simp only [Run.returned?, Option.map_eq_some_iff] at hret
  obtain ⟨r, hr, he⟩ := hret
  refine (Prog.wp_sound (O := atRest fun _ => True) trivial
    (manual_prog_wp hP fun _ _ => trivial) h).result hr err ?_
  rcases r with r | r <;> simp_all

/-! ## Endings and close status -/

def Ending.isSilent : Ending → Bool
  | .quit => true
  | .failed => true
  | .exhausted => true
  | _ => false

/-- The run ends without an error that tells its phase: it received a cancel signal, used up its
attempts, or its polling failed. -/
def Silent (P : Pipeline) (log : History) : Prop :=
  CancelReceived log ∨ .marked .retriesExhausted ∈ log ∨ P.specDriven = false ∧ PollingFailed log

theorem Pipeline.silent_iff (h : P.stage log = .closing e) : Silent P log ↔ e.isSilent := by
  have hend : (P.stage log).ending? = some e := by rw [h]; rfl
  have hleads : ∀ e', (P.stage log).LeadsTo e' → e' = e := by
    rintro e' (hstray | he')
    · cases h.symm.trans hstray
    · exact Option.some.inj (he'.symm.trans hend)
  constructor
  · rintro (hc | hx | ⟨hs, hf⟩)
    · rw [← hleads _ (leadsTo_quit hc)]; rfl
    · rw [← hleads _ (leadsTo_exhausted hx)]; rfl
    · rw [← hleads _ (leadsTo_failed hs hf)]; rfl
  · intro he
    cases e <;> cases he
    · exact .inl (cancelReceived_of_ending hend)
    · exact .inr (.inr (pollingFailed_of_ending hend))
    · exact .inr (.inl (retriesExhausted_of_ending hend))

theorem Ending.closedPhase_iff (h : e.Returns err) :
    (closedPhase (closeStatus err)).map Prod.fst = some (mapPhase e.phase) ↔ ¬ e.isSilent := by
  have htell : ∀ text : String,
      (closedPhase (closeStatus (some (.failed text)))).map Prod.fst = some .failed ∧
      (closedPhase (closeStatus (some (.canceled text)))).map Prod.fst = some .cancelled :=
    fun _ => ⟨rfl, rfl⟩
  rcases e with (_ | _) | _ | _ | _ | _ | _
  case aborted.false => obtain ⟨text, rfl⟩ := h; rw [(htell text).1]; decide
  case aborted.true => obtain ⟨text, rfl⟩ := h; rw [(htell text).2]; decide
  case quit =>
    rcases h with rfl | ⟨text, rfl⟩
    · decide
    · rw [(htell text).1]; decide
  case rejected => obtain ⟨text, rfl⟩ := h; rw [(htell text).1]; decide
  all_goals cases h; decide

theorem ManualEnds.closedPhase {v} (h : ManualEnds err v) :
    (Uncworks.closedPhase (closeStatus err)).map Prod.fst = some (mapPhase v.state.phase) := by
  rcases h with ⟨hv, rfl⟩ | ⟨hv, text, rfl⟩ <;> rw [hv] <;> rfl

theorem closeStatus_phase {now desc old p} (hdesc : desc.status = closeStatus err) :
    (syncFromDescription now desc old).phase = p ↔
      (closedPhase (closeStatus err)).map Prod.fst = some p := by
  rw [syncFromDescription_phase, hdesc]
  rcases err with _ | (_ | _) <;> simp [closeStatus, closedPhase]

/-- The close status of a run tells the phase it ended with, unless it ended without an error that
tells it. -/
theorem Run.closedPhase_iff (h : (Run.start env input).Reaches c) (hret : c.returned? = some err) :
    (closedPhase (closeStatus err)).map Prod.fst = some (mapPhase c.world.st.state.phase) ↔
      ∀ P, pipeline? env input = some P → ¬ Silent P c.world.log := by
  rcases hP : pipeline? env input with _ | P
  · simp [(Run.manual_ends hP h hret).closedPhase]
  · obtain ⟨e, hst, hv, he⟩ := Run.ends hP h hret
    rw [hv, Ending.closedPhase_iff he, ← Pipeline.silent_iff hst]
    simp

/-- The phase that the reconciler takes from the close status of a run is the one the run ended
with, unless the run ended without an error that tells it. -/
theorem syncFromDescription_phase_iff (h : (Run.start env input).Reaches c)
    (hret : c.returned? = some err) (now : ℕ) (desc : Description) (old : AgentRunStatus)
    (hdesc : desc.status = closeStatus err) :
    (syncFromDescription now desc old).phase = mapPhase c.world.st.state.phase ↔
      ∀ P, pipeline? env input = some P → ¬ Silent P c.world.log := by
  rw [closeStatus_phase hdesc]
  exact Run.closedPhase_iff h hret

theorem syncFromDescription_phase_iff_approvedRun :
    ¬ Silent ⟨false, sampleEnv, preamble {}⟩ approvedRun.world.log :=
  (syncFromDescription_phase_iff (c := approvedRun) (Run.reaches_after _ _) rfl 0
    { status := .completed } {} rfl).1 rfl _ rfl

def overdueRun : Run := Run.after {} (smoothly 6 ++ [.fire (Timer.ttl 3600)] ++ smoothly 8)

/-- It fails, but its execution is completed, and the reconciler takes that for a success. -/
theorem overdueRun_completes :
    (Run.start sampleEnv {}).Reaches overdueRun ∧ overdueRun.returned? = some none ∧
      overdueRun.world.st.state.phase = .failed ∧
      (syncFromDescription 0 { status := closeStatus none } {}).phase ≠
        mapPhase overdueRun.world.st.state.phase :=
  ⟨Run.reaches_after _ _, rfl, rfl, by decide⟩

end Uncworks
