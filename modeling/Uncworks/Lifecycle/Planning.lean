import Uncworks.Lifecycle.Approval
import Uncworks.Lifecycle.Footprint
import Uncworks.Durable.Worker
import Uncworks.Temporal.Plan

/-!
# The change that is verified

`VerifyRun` first looks for the change whose name the workflow gives it.  For a run that was
planned, that is the change `PlanRun` has scaffolded.
-/

namespace Uncworks

open Durable Footprint Flow List

/-! ## Planning and verification in the history -/

inductive PlanEvent where
  | asked
  | planned (changeName : String)
  | verified (changeName : String)

def planEvent? : Entry temporal Vars → Option PlanEvent
  | .scheduled (.planRun _) _ => some .asked
  | .completed (.planRun _) (.ok plan) => some (.planned plan.changeName)
  | .scheduled (.verifyRun i) _ => some (.verified i.changeName)
  | _ => none

def WorkflowInput.isCIAutofix (input : WorkflowInput) : Bool :=
  Go.hasPrefix input.specSource "ci-autofix:"

def Known (input : WorkflowInput) (m : List PlanEvent) (changeName : String) : Prop :=
  if input.isCIAutofix then changeName = "ci-autofix" else .planned changeName ∈ m

structure Planned (input : WorkflowInput) (m : List PlanEvent) : Prop where
  verified : ∀ name, .verified name ∈ m → Known input m name
  asked : input.isCIAutofix → .asked ∉ m

variable {env : Env} {input : WorkflowInput}

theorem Known.mono {m m' name} (h : Known input m name) (hm : m ⊆ m') : Known input m' name := by
  unfold Known at h ⊢
  split_ifs at h ⊢
  · exact h
  · exact hm h

abbrev planEvents (input : WorkflowInput) : Monitor temporal Vars :=
  .recordAlways planEvent? (Planned input)

def unplanned : Footprint where
  commands c := ∀ i j, c ≠ .planRun i ∧ c ≠ .verifyRun j
  keeps _ := True
  plain c hc i j := by constructor <;> rintro rfl <;> cases hc
  state _ _ _ := trivial
  podIP _ _ _ := trivial

/-- Code that does not plan, and verifies no change but the given one. -/
def verifies (changeName : String) : Footprint where
  commands c := (∀ i, c ≠ .planRun i) ∧ ∀ i, c = .verifyRun i → i.changeName = changeName
  keeps _ := True
  plain c hc := by constructor <;> rintro i rfl <;> cases hc
  state _ _ _ := trivial
  podIP _ _ _ := trivial

theorem unplanned_of_isStage {c} (hc : c.isStage = false) : unplanned.commands c := by
  intro i j
  constructor <;> rintro rfl <;> cases hc

theorem planEvent?_of_unplanned {e} (he : unplanned.Allows e) : planEvent? e = none := by
  unfold planEvent?
  split
  · rename_i i v; exact absurd rfl (he i ⟨⟨"", "", ""⟩, "", "", "", "", ""⟩).1
  · rename_i i plan; exact absurd rfl (he i ⟨⟨"", "", ""⟩, "", "", "", "", ""⟩).1
  · rename_i i v; exact absurd rfl (he ⟨⟨"", "", ""⟩, "", "", "", "", ""⟩ i).2
  · rfl

theorem planEvent?_of_verifies {changeName e} (he : (verifies changeName).Allows e) :
    planEvent? e = none ∨ planEvent? e = some (.verified changeName) := by
  unfold planEvent?
  split
  · rename_i i v; exact absurd rfl (he.1 i)
  · rename_i i plan; exact absurd rfl (he.1 i)
  · rename_i i v; exact .inr (by rw [he.2 i rfl])
  · exact .inl rfl

theorem planned_nil : Planned input [] := ⟨nofun, fun _ => not_mem_nil⟩

section Code

variable {α : Type} {p : Workflow α} {v : Vars} {m : List PlanEvent} {Q : α → Prop}

theorem unplanned_wp (hp : unplanned.Covers p Q) (hm : Planned input m) :
    p.wp (planEvents input) (fun a _ m' => Q a ∧ m' = m) (fun _ _ m' => m' = m) v m := by
  refine wp_mono (wp_of_within (J := fun m' => m' = m) hp ?_ ?_ trivial rfl) ?_ ?_
  · rintro _ e rfl he
    simp [planEvent?_of_unplanned he]
  · rintro _ _ - rfl
    exact hm
  · exact fun a _ _ h => ⟨h.1, h.2.2⟩
  · exact fun _ _ _ h => h.2.2

theorem unplanned_bind {β : Type} {f} {Q : β → Vars → List PlanEvent → Prop}
    {E : Option WorkflowError → Vars → List PlanEvent → Prop}
    (hp : unplanned.Covers p fun _ => True) (hm : Planned input m) (hE : ∀ e v, E e v m)
    (hf : ∀ a v, (f a).wp (planEvents input) Q E v m) : (p >>= f).wp (planEvents input) Q E v m := by
  rw [wp_bind]
  refine wp_mono (unplanned_wp hp hm) ?_ ?_
  · rintro a v _ ⟨-, rfl⟩
    exact hf a v
  · rintro e v _ rfl
    exact hE e v

theorem verifies_wp {changeName} (hp : (verifies changeName).Covers p Q) (hm : Planned input m)
    (hname : Known input m changeName) :
    p.wp (planEvents input) (fun a _ m' => Q a ∧ Planned input m') (fun _ _ m' => Planned input m')
      v m := by
  have hplanned : ∀ m', m ⊆ m' → (∀ ev ∈ m', ev ∈ m ∨ ev = .verified changeName) →
      Planned input m' := by
    refine fun m' hsub hev => ⟨fun name hn => ?_, fun hci ha => ?_⟩
    · rcases hev _ hn with hold | hnew
      · exact (hm.verified name hold).mono hsub
      · cases hnew; exact hname.mono hsub
    · rcases hev _ ha with hold | hnew
      · exact hm.asked hci hold
      · cases hnew
  refine wp_mono (wp_of_within (J := fun m' : List PlanEvent => m ⊆ m' ∧
    ∀ ev ∈ m', ev ∈ m ∨ ev = .verified changeName) hp ?_ ?_ trivial
      ⟨Subset.refl _, fun _ => .inl⟩) ?_ ?_
  · rintro m' e ⟨hsub, hev⟩ he
    refine ⟨fun ev h => mem_append_left _ (hsub h), fun ev h => ?_⟩
    rcases mem_append.1 h with h | h
    · exact hev ev h
    · rcases planEvent?_of_verifies he with hnone | hsome
      · simp [hnone] at h
      · exact .inr (by simpa [hsome] using h)
  · exact fun _ m' _ hm' => hplanned m' hm'.1 hm'.2
  · exact fun a _ m' h => ⟨h.1, hplanned m' h.2.2.1 h.2.2.2⟩
  · exact fun _ _ m' h => hplanned m' h.2.2.1 h.2.2.2

/-! ## The pipeline -/

theorem covers_checkPlan {plan : PlanRunOutput} : unplanned.Covers (if plan.specsValid then do
      writeStageSpan input "PLAN" "ok"
      return plan
    else do
      writeStageSpan input "PLAN" "error"
      setPhase .failed (invalidPlan plan)
      exit (some (.failed s!"failed: {invalidPlan plan}"))) fun plan' => plan' = plan := by
  split_ifs
  · exact Covers.bind (unplanned.walk.writeStageSpan _ _) fun _ => (within_pure _).2 rfl
  · refine Covers.bind (unplanned.walk.writeStageSpan _ _) fun _ => ?_
    exact Covers.bind (unplanned.walk.setPhase _ _) fun _ => (within_exit _).2 trivial

theorem planningFailed_wp {err} (hm : Planned input m) : (do
    writeStageSpan input "PLAN" "error"
    required "spec driven pipeline" "Cancelled during planning" "Planning failed" (.error err) :
      Workflow PlanRunOutput).wp (planEvents input)
    (fun plan _ m' => Planned input m' ∧ Known input m' plan.changeName)
    (fun _ _ m' => Planned input m') v m := by
  refine unplanned_bind (unplanned.walk.writeStageSpan _ _) hm (fun _ _ => hm) fun _ v => ?_
  cases err with
  | canceled | other text =>
    refine unplanned_bind (unplanned.walk.setPhase _ _) hm (fun _ _ => hm) fun _ v => ?_
    exact (wp_exit _).2 hm

theorem obtainPlan_wp (hm : m = []) : (obtainPlan input).wp (planEvents input)
    (fun plan _ m' => Planned input m' ∧ Known input m' plan.changeName)
    (fun _ _ m' => Planned input m') v m := by
  subst hm
  unfold obtainPlan
  split_ifs with hci
  · refine wp_mono (unplanned_wp (Q := fun plan => plan.changeName = "ci-autofix")
      (Covers.bind (unplanned.walk.writeStageSpan _ _) fun _ => (within_pure _).2 rfl) planned_nil)
      ?_ ?_
    · rintro plan _ _ ⟨hname, rfl⟩
      exact ⟨planned_nil, by rw [Known, if_pos (show input.isCIAutofix from hci)]; exact hname⟩
    · rintro _ _ _ rfl
      exact planned_nil
  · have hfalse : ¬ input.isCIAutofix := hci
    have hasked : Planned input [.asked] := ⟨by simp, fun h => absurd h hfalse⟩
    simp only [wp_bind, wp_read]
    refine wp_exec.2 ⟨⟨planned_nil, planningFailed_wp planned_nil⟩, hasked, fun r => ?_⟩
    rcases r with err | plan
    · exact ⟨hasked, planningFailed_wp hasked⟩
    · have hplanned : Planned input [.asked, .planned plan.changeName] :=
        ⟨by simp, fun h => absurd h hfalse⟩
      refine ⟨hplanned, (wp_pure _).2 ⟨hplanned, ?_⟩⟩
      rw [Known, if_neg hfalse]
      exact mem_cons_of_mem _ (mem_singleton_self _)

theorem planStage_wp (hm : m = []) : (planStage input).wp (planEvents input)
    (fun plan _ m' => Planned input m' ∧ Known input m' plan.changeName)
    (fun _ _ m' => Planned input m') v m := by
  subst hm
  refine unplanned_bind (unplanned.walk.setMessage _) planned_nil (fun _ _ => planned_nil) fun _ v => ?_
  refine unplanned_bind (unplanned.walk.writeStageSpan _ _) planned_nil (fun _ _ => planned_nil) fun _ v => ?_
  rw [wp_bind]
  refine wp_mono (obtainPlan_wp rfl) ?_ fun _ _ _ h => h
  rintro plan v m ⟨hm, hknown⟩
  refine wp_mono (unplanned_wp covers_checkPlan hm) ?_ ?_
  · rintro _ _ _ ⟨rfl, rfl⟩
    exact ⟨hm, hknown⟩
  · rintro _ _ _ rfl
    exact hm

theorem specDrivenBody_wp (hm : m = []) : (specDrivenBody env input).wp (planEvents input)
    (fun _ _ m' => Planned input m') (fun _ _ m' => Planned input m') v m := by
  subst hm
  refine unplanned_bind (unplanned.walk.prepareSpecDriven (covers_update fun _ => trivial)
    fun _ => unplanned_of_isStage) planned_nil (fun _ _ => planned_nil) fun _ v => ?_
  refine unplanned_bind (unplanned.walk.writeStageSpan _ _) planned_nil (fun _ _ => planned_nil) fun _ v => ?_
  refine unplanned_bind unplanned.walk.checkCancel planned_nil (fun _ _ => planned_nil)
    fun cancelled v => ?_
  refine unplanned_bind (unplanned.walk.when (unplanned.walk.exit _)) planned_nil
    (fun _ _ => planned_nil) fun _ v => ?_
  rw [wp_bind]
  refine wp_mono (planStage_wp rfl) ?_ fun _ _ _ h => h
  rintro plan v m ⟨hm, hknown⟩
  have hloop : (verifies plan.changeName).Covers
      (loop (attemptRound env input plan.changeName) {}) fun _ => True := by
    refine (walk _).attemptRounds ?_ ?_ ?_
    · exact fun _ _ => ⟨nofun, nofun⟩
    · exact fun _ => ⟨nofun, nofun⟩
    · rintro i hi
      exact ⟨nofun, fun _ h => by cases h; exact hi⟩
  rw [wp_bind]
  refine wp_mono (verifies_wp hloop hm hknown) ?_ fun _ _ _ h => h
  rintro last v m ⟨-, hm⟩
  refine unplanned_bind (unplanned.walk.mark _) hm (fun _ _ => hm) fun _ v => ?_
  refine unplanned_bind (unplanned.walk.writeStageSpan _ _) hm (fun _ _ => hm) fun _ v => ?_
  refine unplanned_bind (unplanned.walk.setPhase _ _) hm (fun _ _ => hm) fun _ v => ?_
  exact (wp_pure _).2 hm

theorem runSpecDrivenPipeline_wp : (runSpecDrivenPipeline env input).wp (planEvents input)
    (fun _ _ m' => Planned input m') (fun _ _ m' => Planned input m') v [] := by
  have hcleanup : ∀ (err : Option WorkflowError) v m, Planned input m → (do
      mark (I := temporal) .bodyReturned
      specDrivenCleanup input
      return err : Workflow _).wp (planEvents input)
      (fun _ _ m' => Planned input m') (fun _ _ m' => Planned input m') v m := by
    intro err v m hm
    refine unplanned_bind (unplanned.walk.mark _) hm (fun _ _ => hm) fun _ v => ?_
    refine unplanned_bind (unplanned.walk.specDrivenCleanup
      (covers_cleanUp fun _ => unplanned_of_isStage)) hm (fun _ _ => hm) fun _ v => ?_
    exact (wp_pure _).2 hm
  unfold runSpecDrivenPipeline withDeferred
  rw [wp_bind, wp_update, wp_bind, wp_call]
  exact wp_mono (specDrivenBody_wp rfl) hcleanup hcleanup

end Code

/-! ## Runs -/

section Runs

variable {P : Pipeline} {c : Run}

theorem Run.planned (hP : pipeline? env input = some P) (hs : P.specDriven)
    (h : (Run.start env input).Reaches c) :
    Planned P.input (c.world.log.filterMap planEvent?) := by
  have hwp : (agentRunWorkflow env input).prog.wp (planEvents P.input) (fun _ _ _ => True) noVars [] := by
    refine wp_prog.2 (wp_mono (Q := fun _ _ m => Planned P.input m)
      (E := fun _ _ m => Planned P.input m) ?_ (fun _ _ _ _ => trivial) fun _ _ _ _ => trivial)
    unfold agentRunWorkflow
    dsimp only
    unfold pipeline? at hP
    rcases hm : (preamble input).orchestrationMode <;> simp [hm] at hP <;> cases hP <;>
      first | exact runSpecDrivenPipeline_wp | cases hs
  rw [← Monitor.observe_record]
  exact (Prog.wp_sound (O := planEvents P.input) planned_nil hwp h).safe

theorem verified_mem {log : History} {i v} (h : .scheduled (.verifyRun i) v ∈ log) :
    .verified i.changeName ∈ log.filterMap planEvent? :=
  mem_filterMap.2 ⟨_, h, rfl⟩

theorem asked_mem {log : History} {i v} (h : .scheduled (.planRun i) v ∈ log) :
    .asked ∈ log.filterMap planEvent? :=
  mem_filterMap.2 ⟨_, h, rfl⟩

theorem exists_plan_of_planned {log : History} {name}
    (h : .planned name ∈ log.filterMap planEvent?) :
    ∃ i plan, .completed (.planRun i) (.ok plan) ∈ log ∧ plan.changeName = name := by
  obtain ⟨e, he, heq⟩ := mem_filterMap.1 h
  unfold planEvent? at heq
  split at heq <;> cases heq
  exact ⟨_, _, he, rfl⟩

end Runs

/-! ## Workspaces -/

/-- The changes in the workspace of a run, and those that its activities have made or found, none of
which is removed. -/
structure Workspace where
  changes : List String
  scaffolded : List String
  kept : scaffolded ⊆ changes

/-- What an attempt does to the workspace: one at `PlanRun` whose scaffolding succeeds leaves the
change of its run there; agents may make other changes. -/
def Scaffolds (lib : Go.Lib) (json : Unmarshal) :
    (c : Command) → Workspace → Workspace → Option (Except Failure c.Reply) → Prop
  | .planRun i, w, w', r => ∃ pod, (r = none ∨ r = some (Activities.planRun lib json pod i)) ∧
    ((scaffold lib pod i = .ok () ∧ w'.scaffolded = w.scaffolded ++ [i.agentRunName]) ∨
      (scaffold lib pod i ≠ .ok () ∧ w'.scaffolded = w.scaffolded))
  | _, w, w', _ => w'.scaffolded = w.scaffolded

abbrev workspaces (lib : Go.Lib) (json : Unmarshal) : Worker temporal where
  Env := Workspace
  Attempt := Scaffolds lib json
  Drift w w' := w'.scaffolded = w.scaffolded

section Services

variable {lib : Go.Lib} {json : Unmarshal} {P : Pipeline} {changes : List String}
  {s : Service (workspaces lib json) Vars (Except (Option WorkflowError) (Option WorkflowError))}

def Workspace.fresh (changes : List String) : Workspace := ⟨changes, [], nil_subset _⟩

theorem Scaffolds.grows {c w w' r} (h : Scaffolds lib json c w w' r) :
    w.scaffolded ⊆ w'.scaffolded := by
  unfold Scaffolds at h
  split at h
  · obtain ⟨pod, -, ⟨-, heq⟩ | ⟨-, heq⟩⟩ := h <;> rw [heq]
    · exact subset_append_left _ _
    · exact Subset.refl _
  · rw [h]
    exact Subset.refl _

theorem Scaffolds.eq_nil {c w w' r} (h : Scaffolds lib json c w w' r) (hw : w.scaffolded = [])
    (hc : ∀ i, c ≠ .planRun i) : w'.scaffolded = [] := by
  unfold Scaffolds at h
  split at h
  · exact absurd rfl (hc _)
  · rw [h, hw]

theorem Scaffolds.mem {i w w'} {plan : PlanRunOutput}
    (h : Scaffolds lib json (.planRun i) w w' (some (.ok plan))) :
    plan.changeName ∈ w'.scaffolded := by
  obtain ⟨pod, hr, hscaffold⟩ := h
  have hplan : Activities.planRun lib json pod i = .ok plan := by
    rcases hr with hr | hr
    · cases hr
    · exact (Option.some.inj hr).symm
  obtain ⟨hok, rfl⟩ := Activities.planRun_ok hplan
  rcases hscaffold with ⟨-, heq⟩ | ⟨hnot, -⟩
  · rw [heq, planOutput_changeName]
    exact mem_append_right _ (mem_singleton_self _)
  · exact absurd hok hnot

theorem scaffolded_of_reaches {c : Run}
    (h : (Service.start (workspaces lib json) c (.fresh changes)).Reaches s) :
    (∀ i plan, ⟨.planRun i, .ok plan⟩ ∈ s.answers → plan.changeName ∈ s.env.scaffolded) ∧
      (.asked ∉ s.run.world.log.filterMap planEvent? → s.env.scaffolded = []) := by
  refine h.invariant (fun log (w : Workspace) answers =>
    (∀ i plan, ⟨.planRun i, .ok plan⟩ ∈ answers → plan.changeName ∈ w.scaffolded) ∧
      (.asked ∉ log.filterMap planEvent? → w.scaffolded = [])) ⟨nofun, fun _ => rfl⟩ ?_ ?_ ?_
  · rintro log log' w answers hlog ⟨hans, hnil⟩
    exact ⟨hans, fun hno => hnil fun hin => hno ((hlog.filterMap planEvent?).subset hin)⟩
  · rintro log w w' answers c v r hsch hattempt ⟨hans, hnil⟩
    refine ⟨fun i plan hi => ?_, fun hno => hattempt.eq_nil (hnil hno) ?_⟩
    · rcases mem_append.1 hi with hi | hi
      · exact hattempt.grows (hans i plan hi)
      · simp only [mem_map, Option.mem_toList] at hi
        obtain ⟨r', rfl, heq⟩ := hi
        cases heq
        exact hattempt.mem
    · rintro i rfl
      exact hno (asked_mem hsch)
  · rintro log w w' answers hdrift ⟨hans, hnil⟩
    have heq := hdrift
    rw [heq]
    exact ⟨hans, hnil⟩

/-- The change that a run lets `VerifyRun` look for is in the workspace exactly if the run does not
fix a CI failure. -/
theorem verifyRun_change_iff (hP : pipeline? env input = some P) (hs : P.specDriven)
    (h : (Service.start (workspaces lib json) (Run.start env input) (.fresh changes)).Reaches s)
    {i : VerifyRunInput} {v : Vars} (hi : .scheduled (.verifyRun i) v ∈ s.run.world.log) :
    (∀ w, (workspaces lib json).Drift s.env w → i.changeName ∈ w.changes) ↔
      ¬ Go.hasPrefix P.input.specSource "ci-autofix:" := by
  have hplanned := Run.planned hP hs h.run
  obtain ⟨hans, hnil⟩ := scaffolded_of_reaches h
  have hknown := hplanned.verified _ (verified_mem hi)
  constructor
  · intro hall hci
    have hempty := hnil (hplanned.asked hci)
    exact List.not_mem_nil (hall ⟨[], [], List.nil_subset _⟩ hempty.symm)
  · intro hci w hw
    rw [Known, if_neg (show ¬ P.input.isCIAutofix from hci)] at hknown
    obtain ⟨j, plan, hj, hname⟩ := exists_plan_of_planned hknown
    have hmem := hans j plan (h.answered hj)
    rw [hname] at hmem
    exact w.kept (hw ▸ hmem)

end Services

/-! ## Sample services -/

def smoothButPlan : (c : Command) → Except Failure c.Reply
  | .planRun _ => .error .canceled
  | c => smooth c

def smoothlyButPlan (n : ℕ) : List (Event temporal) := replicate n (.settle smoothButPlan)

theorem answers_smoothlyButPlan {lib json} {w : Workspace} {n} :
    ∀ e ∈ smoothlyButPlan n, Service.Answers (workspaces lib json) w e := by
  intro e he
  rw [eq_of_mem_replicate he]
  intro c a ha
  cases c <;> first | exact rfl | cases ha

abbrev sampleWorkspaces : Worker temporal := workspaces sampleEnv.toLib sampleUnmarshal

def samplePlanPod : AgentPod PlanCall where
  exec
    | .check, _, _ => .ok { stdout := "missing\n" }
    | .newChange, _, _ => .ok {}
    | .validate, _, _ => .ok { stdout := sampleValidation }
    | _, _, _ => .ok { stdout := sampleStatus }
  startAgent := .ok { started := true }
  agentStatus _ := .ok { state := .completed }
  polls := 1

def samplePlanInput : PlanRunInput where
  podName := "agentrun-run"
  namespace_ := ""
  podIP := "10.0.0.1"
  agentRunName := "run"
  prompt := ""
  specContent := ""
  model := "default-cloud"
  repoPath := "/workspace"

example : Activities.planRun sampleEnv.toLib sampleUnmarshal samplePlanPod samplePlanInput =
    .ok { changeName := "run", specsValid := true, taskCount := 1 } := rfl

def plannedInput : WorkflowInput where
  agentRunName := "run"
  orchestrationMode := .specDriven

def samplePlan : PlanRunOutput := { changeName := "run", specsValid := true, taskCount := 1 }

def planningRun : Run := Run.after plannedInput (smoothlyButPlan 6)

def plannedRun : Run := (planningRun.deliver (.settle fun
  | .planRun _ => .ok samplePlan
  | _ => .error .canceled)).getD planningRun

def executeEvents : List (Event temporal) :=
  smoothlyButPlan 3 ++ [.fire (Timer.poll statusPollInterval)] ++ smoothlyButPlan 3

theorem answers_executeEvents {lib json} {w : Workspace} :
    ∀ e ∈ executeEvents, Service.Answers (workspaces lib json) w e :=
  forall_mem_append.2 ⟨forall_mem_append.2 ⟨answers_smoothlyButPlan,
    forall_mem_singleton.2 trivial⟩, answers_smoothlyButPlan⟩

def scaffoldedWorkspace : Workspace := ⟨["run"], ["run"], Subset.refl _⟩

theorem reaches_plannedRun : ∃ answers,
    (Service.start sampleWorkspaces (Run.start sampleEnv plannedInput) (.fresh [])).Reaches
      ⟨plannedRun, scaffoldedWorkspace, answers⟩ := by
  obtain ⟨answers, h⟩ := Service.Reaches.after (W := sampleWorkspaces) (c := Run.start sampleEnv plannedInput) .refl 60
    (answers_smoothlyButPlan (w := .fresh []) (n := 6))
  have hplan : Service.Step (W := sampleWorkspaces) ⟨planningRun, .fresh [], answers⟩
      ⟨planningRun, scaffoldedWorkspace, answers ++ [⟨.planRun samplePlanInput, .ok samplePlan⟩]⟩ :=
    .attempt (I := temporal) (.planRun samplePlanInput) _ (some (.ok samplePlan))
      (mem_of_getElem? (i := 12) rfl) ⟨samplePlanPod, .inr rfl, .inl ⟨rfl, rfl⟩⟩
  have hheard := Service.Step.settle (I := temporal) (W := sampleWorkspaces)
    (s := ⟨planningRun, scaffoldedWorkspace,
      answers ++ [⟨.planRun samplePlanInput, .ok samplePlan⟩]⟩)
    (c := .planRun samplePlanInput) samplePlan rfl
    (mem_append_right _ (mem_singleton_self _))
  exact ⟨_, (h.tail hplan).tail hheard⟩

theorem plannedRun_verifies : ∃ i v,
    .scheduled (.verifyRun i) v ∈ (Config.after 60 plannedRun executeEvents).world.log :=
  ⟨_, _, mem_of_getElem? (i := 31) rfl⟩

theorem reaches_verifying : ∃ s i v,
    (Service.start sampleWorkspaces (Run.start sampleEnv plannedInput) (.fresh [])).Reaches s ∧
      .scheduled (.verifyRun i) v ∈ s.run.world.log := by
  obtain ⟨answers, h⟩ := reaches_plannedRun
  obtain ⟨i, v, hi⟩ := plannedRun_verifies
  obtain ⟨answers', h'⟩ := Service.Reaches.after h 60 answers_executeEvents
  exact ⟨_, i, v, h', hi⟩

theorem verifyRun_change_iff_plannedRun : ∃ s i v,
    (Service.start sampleWorkspaces (Run.start sampleEnv plannedInput) (.fresh [])).Reaches s ∧
      .scheduled (.verifyRun i) v ∈ s.run.world.log ∧
      ∀ w, sampleWorkspaces.Drift s.env w → i.changeName ∈ w.changes := by
  obtain ⟨s, i, v, h, hi⟩ := reaches_verifying
  have hspec : pipeline? sampleEnv plannedInput = some ⟨true, sampleEnv, preamble plannedInput⟩ := rfl
  have hci : ¬ Go.hasPrefix (preamble plannedInput).specSource "ci-autofix:" := by decide
  exact ⟨s, i, v, h, hi, (verifyRun_change_iff hspec rfl h hi).2 hci⟩

def ciAutofixInput : WorkflowInput where
  orchestrationMode := .specDriven
  specSource := "ci-autofix:aot/run:0123456"

/-- It is up to the agents to make the change that is to be verified. -/
theorem ciAutofix_change_missing : ∃ s i v,
    (Service.start sampleWorkspaces (Run.start sampleEnv ciAutofixInput) (.fresh [])).Reaches s ∧
      .scheduled (.verifyRun i) v ∈ s.run.world.log ∧ i.changeName ∉ s.env.changes := by
  obtain ⟨answers, h⟩ := Service.Reaches.after (W := sampleWorkspaces)
    (c := Run.start sampleEnv ciAutofixInput) .refl 60
    (List.forall_mem_append.2 ⟨answers_smoothlyButPlan (w := .fresh []) (n := 7), answers_executeEvents⟩)
  exact ⟨_, _, _, h, List.mem_of_getElem? (i := 31) rfl, List.not_mem_nil⟩

end Uncworks
