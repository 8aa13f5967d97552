import Uncworks.Controller.ProjectRuns
import Uncworks.Server.Labels

/-!
# Labels of started runs

`startWorkflow` labels an AgentRun after it has resolved the defaults of its project: seniors and
juniors with the run they belong to, and spec-driven runs that have no feature with their display
name or their own name.  The labels are stored by the same update as the workflow id, after the
workflow was started.
-/

namespace Uncworks

open Kube

def labelSpecRunID : String := "aot.uncworks.io/spec-run-id"

def labelRunRole : String := "aot.uncworks.io/run-role"

def labelFeature : String := "aot.uncworks.io/feature"

def AgentRunSpec.seniorID (spec : AgentRunSpec) : String :=
  if spec.specRunID = "" then spec.parentRunID else spec.specRunID

section

variable (run : LabelledRun)

def LabelledRun.defaultFeature : String :=
  if run.spec.displayName = "" then run.name else run.spec.displayName

/-- Whether `startWorkflow` sets the feature label; the other labels it sets have other keys. -/
def LabelledRun.lacksFeature : Bool :=
  run.spec.orchestrationMode = .specDriven && (run.labels.lookup labelFeature).isNone

def startValues : List (String × String) :=
  (if run.spec.orchestrationMode = .auto ∨ run.spec.orchestrationMode = .manual then
    [(labelSpecRunID, run.name), (labelRunRole, "senior")]
  else if run.spec.parentRunID ≠ "" then
    [(labelSpecRunID, run.spec.seniorID), (labelRunRole, "junior")]
  else []) ++
  if run.lacksFeature then [(labelFeature, run.defaultFeature)] else []

def startLabels : Labels := run.labels.setAll (startValues run)

end

structure LabelledObject where
  object : AgentRun
  run : LabelledRun
  admitted : run.labels.admitted

namespace LabelledObject

variable (s : LabelledObject)

def updateSpec (spec : AgentRunSpec) : LabelledObject :=
  { s with run := { s.run with spec }, admitted := s.admitted }

def updateLabels (labels : Labels) : LabelledObject :=
  if h : labels.admitted then { s with run := { s.run with labels }, admitted := h } else s

end LabelledObject

def StartResult.isStarted : StartResult → Bool
  | .failed _ => false
  | _ => true

section Start

variable (lib : Go.Lib) (c : ProjectCalls) (s : LabelledObject)

/-- The AgentRun with which `ExecuteWorkflow` is called, if its spec can be resolved and stored. -/
def workflowRun (run : LabelledRun) : Option LabelledRun :=
  match resolveProjectDefaults lib c.project c.softServe run.spec with
  | .error _ => none
  | .ok (spec, _) =>
    if run.spec.projectRef = "" ∨ c.updateSpec then some { run with spec } else none

/-- What the calls of a reconcile return if the API server looks at the labels of the update. -/
def ProjectCalls.withLabels (labels : Labels) : Calls :=
  { c.calls with update := c.calls.update && labels.admitted }

def startLabelled : LabelledObject :=
  match workflowRun lib c s.run with
  | none =>
    let stored : StoredRun := { object := s.object, crd := s.run.toAgentRunCRD }
    { s with object := (startWithProject lib "" "" c stored).1.object }
  | some run =>
    let calls := c.withLabels (startLabels run)
    let started := { s.updateSpec run.spec with object := startWorkflow calls s.object }
    if calls.start.isStarted && calls.update then started.updateLabels (startLabels run) else started

def reconcileLabelled : LabelledObject :=
  if s.object.starts then startLabelled lib c s else { s with object := reconcile c.calls s.object }

/-- The labels that a start of a workflow writes are valid, and unless their update fails for
another reason, the AgentRun has a workflow id. -/
def StartAccepted : Prop :=
  s.object.starts → ∀ run, workflowRun lib c s.run = some run →
    (∀ l ∈ startValues run, validLabelValue l.2) ∧
    (c.calls.start.isStarted → c.calls.update →
      (reconcileLabelled lib c s).object.workflowID ≠ "")

end Start

/-- The texts that `startWorkflow` takes for labels are valid label values. -/
structure RunLabelsFit (run : LabelledRun) : Prop where
  senior : run.spec.orchestrationMode = .auto ∨ run.spec.orchestrationMode = .manual →
    validLabelValue run.name
  junior : ¬ (run.spec.orchestrationMode = .auto ∨ run.spec.orchestrationMode = .manual) →
    run.spec.parentRunID ≠ "" → validLabelValue run.spec.seniorID
  feature : run.lacksFeature → validLabelValue run.defaultFeature

variable {lib : Go.Lib} {c : ProjectCalls} {s : LabelledObject} {run : LabelledRun}

theorem valid_startValues :
    (∀ l ∈ startValues run, validLabelValue l.2) ↔ RunLabelsFit run := by
  have hsenior : validLabelValue "senior" := by decide
  have hjunior : validLabelValue "junior" := by decide
  have hfeature : (∀ l ∈ (if run.lacksFeature then [(labelFeature, run.defaultFeature)] else []),
      validLabelValue l.2) ↔ (run.lacksFeature → validLabelValue run.defaultFeature) := by
    by_cases h : run.lacksFeature <;> simp
  rw [startValues, List.forall_mem_append, hfeature]
  by_cases hmode : run.spec.orchestrationMode = .auto ∨ run.spec.orchestrationMode = .manual
  · rw [if_pos hmode]
    simp only [List.forall_mem_cons, hsenior, List.not_mem_nil, false_imp_iff,
      implies_true, and_true]
    exact ⟨fun h => ⟨fun _ => h.1, fun hno => absurd hmode hno, h.2⟩,
      fun h => ⟨h.senior hmode, h.feature⟩⟩
  · rw [if_neg hmode]
    by_cases hparent : run.spec.parentRunID = ""
    · rw [if_neg (not_not.2 hparent)]
      exact ⟨fun h => ⟨fun hyes => absurd hyes hmode, fun _ hno => absurd hparent hno, h.2⟩,
        fun h => ⟨by simp, h.feature⟩⟩
    · rw [if_pos hparent]
      simp only [List.forall_mem_cons, hjunior, List.not_mem_nil, false_imp_iff,
        implies_true, and_true]
      exact ⟨fun h => ⟨fun hyes => absurd hyes hmode, fun _ _ => h.1, h.2⟩,
        fun h => ⟨h.junior hmode hparent, h.feature⟩⟩

theorem nodup_startValues : ((startValues run).map Prod.fst).Nodup := by
  unfold startValues
  split_ifs <;> simp [labelSpecRunID, labelRunRole, labelFeature]

theorem workflowRun_eq {run'} (h : workflowRun lib c run = some run') :
    ∃ spec url, resolveProjectDefaults lib c.project c.softServe run.spec = .ok (spec, url) ∧
      run' = { run with spec } := by
  unfold workflowRun at h
  split at h
  · cases h
  · rename_i spec url hresolve
    split_ifs at h
    cases h
    exact ⟨spec, url, hresolve, rfl⟩

theorem workflowRun_labels {run'} (h : workflowRun lib c run = some run') :
    run'.labels = run.labels := by
  obtain ⟨spec, url, -, rfl⟩ := workflowRun_eq h
  rfl

theorem workflowRun_of_no_project (h : run.spec.projectRef = "") :
    workflowRun lib c run = some run := by
  simp [workflowRun, resolveProjectDefaults, h]

theorem admitted_startLabels (h : workflowRun lib c s.run = some run) :
    (startLabels run).admitted ↔ ∀ l ∈ startValues run, validLabelValue l.2 :=
  Labels.admitted_setAll (workflowRun_labels h ▸ s.admitted) nodup_startValues

theorem LabelledObject.updateLabels_object (s : LabelledObject) (labels : Labels) :
    (s.updateLabels labels).object = s.object := by
  unfold updateLabels
  split_ifs <;> rfl

theorem LabelledObject.updateLabels_run (s : LabelledObject) (labels : Labels) :
    (s.updateLabels labels).run = s.run ∨ (s.updateLabels labels).run = { s.run with labels } := by
  unfold updateLabels
  split_ifs
  · exact .inr rfl
  · exact .inl rfl

theorem startLabelled_object (h : workflowRun lib c s.run = some run) :
    (startLabelled lib c s).object = startWorkflow (c.withLabels (startLabels run)) s.object := by
  simp only [startLabelled, h]
  split_ifs
  · rw [LabelledObject.updateLabels_object]
  · rfl

/-- A reconcile stores nothing, or the resolved spec, maybe with the labels of `startWorkflow`. -/
theorem reconcileLabelled_run (lib : Go.Lib) (c : ProjectCalls) (s : LabelledObject) :
    (reconcileLabelled lib c s).run = s.run ∨ ∃ run, workflowRun lib c s.run = some run ∧
      ((reconcileLabelled lib c s).run = run ∨
        (reconcileLabelled lib c s).run = { run with labels := startLabels run }) := by
  by_cases hstarts : s.object.starts
  · rw [reconcileLabelled, if_pos hstarts]
    cases hrun : workflowRun lib c s.run with
    | none =>
      left
      rw [startLabelled, hrun]
    | some run =>
      right
      refine ⟨run, rfl, ?_⟩
      obtain ⟨spec, url, -, rfl⟩ := workflowRun_eq hrun
      simp only [startLabelled, hrun, LabelledObject.updateLabels]
      split_ifs
      · exact .inr rfl
      all_goals exact .inl rfl
  · left
    rw [reconcileLabelled, if_neg hstarts]

theorem startWorkflow_workflowID {calls object} (h : object.workflowID = "") :
    (startWorkflow calls object).workflowID ≠ "" ↔ calls.start.isStarted ∧ calls.update := by
  have hid : toString "agentrun-" ≠ "" := by decide
  unfold startWorkflow
  cases calls.start with
  | failed text => split_ifs <;> simp [h, StartResult.isStarted]
  | started => cases calls.update <;> cases calls.statusUpdate <;> simp [h, hid, StartResult.isStarted]
  | alreadyStarted =>
    cases calls.update <;> cases calls.statusUpdate <;> simp [h, hid, StartResult.isStarted]

theorem startAccepted_iff :
    StartAccepted lib c s ↔
      (s.object.starts → ∀ run, workflowRun lib c s.run = some run → RunLabelsFit run) := by
  refine imp_congr_right fun hstarts => forall_congr' fun run => imp_congr_right fun hrun => ?_
  rw [reconcileLabelled, if_pos hstarts, startLabelled_object hrun,
    startWorkflow_workflowID (starts_iff.1 hstarts).2.2.2, valid_startValues, and_iff_left_iff_imp]
  intro hfit hstart hupdate
  have hadmitted := (admitted_startLabels hrun).2 (valid_startValues.2 hfit)
  exact ⟨hstart, by simp [ProjectCalls.withLabels, hupdate, hadmitted]⟩

theorem reconcileLabelled_rejected (hstarts : s.object.starts) (hproject : s.run.spec.projectRef = "")
    (hstart : c.calls.start.isStarted) (hlabels : (startLabels s.run).admitted = false) :
    reconcileLabelled lib c s = s := by
  have hobject : startWorkflow (c.withLabels (startLabels s.run)) s.object = s.object := by
    unfold startWorkflow
    have hcall : (c.withLabels (startLabels s.run)).start = c.calls.start := rfl
    rw [hcall]
    cases hc : c.calls.start with
    | failed text => simp [hc, StartResult.isStarted] at hstart
    | started | alreadyStarted => simp [ProjectCalls.withLabels, hlabels]
  rw [reconcileLabelled, if_pos hstarts, startLabelled, workflowRun_of_no_project hproject]
  simp only [hobject]
  rw [if_neg (by simp [ProjectCalls.withLabels, hlabels])]
  rfl

/-- The labels that `CreateAgentRun` and `startWorkflow` write are valid, and the updates of a
started run accepted, exactly if the texts of the request fit, and those that `startWorkflow` copies
are valid label values.  The display name of a new run is one exactly if it is not cut behind a
hyphen. -/
theorem labels_valid_iff (lib : Go.Lib) (liteLLMBaseURL name : String) (answer : Option String)
    (req : CreateRequest) (c : ProjectCalls) (s : LabelledObject) :
    (((∀ l ∈ (newRun lib liteLLMBaseURL answer req name).labels, Kube.validLabelValue l.2) ∧
        StartAccepted lib c s) ↔
      (FitsLabel req.spec.project ∧ FitsLabel req.feature ∧
        ∀ repo ∈ req.spec.repos.head?, FitsLabel (nameFromURL lib repo.url)) ∧
      (s.object.starts → ∀ run, workflowRun lib c s.run = some run → RunLabelsFit run)) ∧
    (Kube.validLabelValue (newRun lib liteLLMBaseURL answer req name).spec.displayName ↔
      DisplayNameFits lib liteLLMBaseURL req.spec.prompt answer) := by
  refine ⟨?_, valid_generateDisplayName⟩
  rw [← Kube.Labels.admitted_iff, admitted_newRun, startAccepted_iff]

def longPrompt : String := "Refactor authentication middleware implementation thoroughly"

def longPromptRequest : CreateRequest where
  spec := { prompt := longPrompt, orchestrationMode := .specDriven }

def longPromptObject : LabelledObject where
  object := { name := "ar-k3f9qz", finalizer := true }
  run := newRun sampleEnv.toLib "http://litellm:4000" none longPromptRequest "ar-k3f9qz"
  admitted := by decide

def longProjectRequest : CreateRequest where
  spec :=
    { prompt := "Fix the login"
      project := "payments-and-subscriptions-reconciliation-service-for-customer-accounts" }

/-- The label of a project may end with a hyphen, and the run is rejected; a spec-driven run may get
such a label after its workflow was started, and every update is rejected. -/
theorem labels_rejected :
    (¬ ∀ l ∈ (newRun sampleEnv.toLib "" none longProjectRequest "ar-k3f9qz").labels,
      Kube.validLabelValue l.2) ∧
    (createAgentRun sampleEnv.toLib "" none longProjectRequest (.ok "ar-k3f9qz") none).isOk = false ∧
    (createAgentRun sampleEnv.toLib "http://litellm:4000" none longPromptRequest (.ok "ar-k3f9qz")
      none).isOk ∧
    ∀ n, ((reconcileLabelled sampleEnv.toLib { project := .ok {} })^[n] longPromptObject).object.starts ∧
      ¬ StartAccepted sampleEnv.toLib { project := .ok {} }
        ((reconcileLabelled sampleEnv.toLib { project := .ok {} })^[n] longPromptObject) := by
  have hstarts : longPromptObject.object.starts := by decide
  have hlabels : (startLabels longPromptObject.run).admitted = false := by decide +kernel
  have hfixed : reconcileLabelled sampleEnv.toLib { project := .ok {} } longPromptObject =
      longPromptObject := reconcileLabelled_rejected hstarts rfl rfl hlabels
  refine ⟨by decide +kernel, by decide +kernel, by decide +kernel, fun n => ?_⟩
  rw [Function.iterate_fixed hfixed]
  refine ⟨hstarts, fun haccepted => ?_⟩
  have hrun : workflowRun sampleEnv.toLib { project := .ok {} } longPromptObject.run =
      some longPromptObject.run := workflowRun_of_no_project rfl
  have hvalid := (haccepted hstarts _ hrun).1
  rw [← admitted_startLabels hrun] at hvalid
  cases hvalid

end Uncworks
