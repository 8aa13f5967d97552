import Uncworks.Controller.Schedule
import Uncworks.Server.LlmProxy

/-!
# AgentRuns from templates

A RunTemplate becomes an AgentRun on three paths: as a step of a chain, on a Schedule, and by a
request to `handleTriggerTemplate`.  Each path writes its own spec.
-/

namespace Uncworks

/-! ## `handleTriggerTemplate` -/

structure TriggeredRun where
  name : String
  template : String
  spec : AgentRunSpec

/-- The answer to a trigger, the run and the template it names, and the AgentRun it has created. -/
structure Triggered where
  reply : Except HttpError (String × String)
  created : Option TriggeredRun := none

def triggerSpec (tmpl : RunTemplateSpec) : AgentRunSpec where
  backend := .pod
  repos := tmpl.repos
  prompt := tmpl.prompt
  modelTier := tmpl.modelTier
  manageModelTier := tmpl.manageModelTier
  implementModelTier := tmpl.implementModelTier
  orchestrationMode := tmpl.orchestrationMode
  ttlSeconds := tmpl.ttlSeconds
  autoPush := tmpl.autoPush
  autoPR := tmpl.autoPR
  prBaseBranch := tmpl.prBaseBranch
  projectRef := tmpl.projectRef
  specRef := tmpl.specRef

/-- `handleTriggerTemplate` for the template `name`, with what its two API calls return. -/
def handleTriggerTemplate (name : String) (template : Except Kube.Error RunTemplateSpec)
    (create : CreateReply) : Triggered :=
  match template with
  | .error _ => { reply := .error ⟨404, "template not found"⟩ }
  | .ok tmpl =>
    let run suffix : TriggeredRun := ⟨"ar-" ++ suffix, name, triggerSpec tmpl⟩
    match create with
    | .created suffix => { reply := .ok ("ar-" ++ suffix, name), created := some (run suffix) }
    | .refused _ => { reply := .error ⟨500, "failed to create run"⟩ }
    | .lost suffix _ =>
      { reply := .error ⟨500, "failed to create run"⟩, created := some (run suffix) }

/-! ## The three paths -/

def madeRun : Except CreateError ScheduledRun → Option ScheduledRun
  | .ok run => some run
  | .error e => e.lost

/-- The spec of an AgentRun that one of the three paths has made from a template; a step of a chain
without a `ContextFrom` and a `BranchFrom`. -/
inductive MadeFrom (tmpl : RunTemplateSpec) : AgentRunSpec → Prop
  | chainStep {cr : ChainRun} {calls : ChainCalls} {i : ℕ} {steps : List ChainRunStepStatus}
      {s : ChainRunStepStatus} {d : ChainStep} {child : ChildRun} (hcontext : d.contextFrom = "")
      (hbranch : d.branchFrom = "") (h : (createStep cr calls i steps s d tmpl).2 = some child) :
      MadeFrom tmpl child.spec
  | schedule {r : ScheduleReplies} {sched : Schedule} {name template schedule : String}
      {spec : AgentRunSpec} (href : sched.spec.templateRef ≠ "") (htmpl : r.template = .ok tmpl)
      (h : madeRun (createRun r sched) = some (.agentRun name template schedule spec)) :
      MadeFrom tmpl spec
  | trigger {name : String} {create : CreateReply} {run : TriggeredRun}
      (h : (handleTriggerTemplate name (.ok tmpl) create).created = some run) :
      MadeFrom tmpl run.spec

/-- The spec has every field of the template that it has a place for. -/
structure Carries (tmpl : RunTemplateSpec) (spec : AgentRunSpec) : Prop where
  displayName : spec.displayName = tmpl.displayName
  projectRef : spec.projectRef = tmpl.projectRef
  repos : spec.repos = tmpl.repos
  prompt : spec.prompt = tmpl.prompt
  modelTier : spec.modelTier = tmpl.modelTier
  manageModelTier : spec.manageModelTier = tmpl.manageModelTier
  implementModelTier : spec.implementModelTier = tmpl.implementModelTier
  orchestrationMode : spec.orchestrationMode = tmpl.orchestrationMode
  ttlSeconds : spec.ttlSeconds = tmpl.ttlSeconds
  autoPush : spec.autoPush = tmpl.autoPush
  autoPR : spec.autoPR = tmpl.autoPR
  prBaseBranch : spec.prBaseBranch = tmpl.prBaseBranch
  specRef : spec.specRef = tmpl.specRef

variable {tmpl : RunTemplateSpec} {spec : AgentRunSpec}

theorem withBranch_empty (repos : List Repository) : withBranch "" repos = repos := by
  cases repos <;> simp [withBranch]

theorem childSpec_plain {steps reply d} (hcontext : d.contextFrom = "") (hbranch : d.branchFrom = "") :
    childSpec steps reply d tmpl = { triggerSpec tmpl with specRef := "" } := by
  simp [childSpec, branchOf, injectContext, hcontext, hbranch, withBranch_empty, triggerSpec]

theorem createStep_spec {cr calls i steps s d child}
    (h : (createStep cr calls i steps s d tmpl).2 = some child) :
    child.spec = childSpec steps (calls.context i) d tmpl := by
  unfold createStep at h
  split at h
  · exact congrArg ChildRun.spec (Option.some.inj h).symm
  · cases h
  · exact congrArg ChildRun.spec (Option.some.inj h).symm

theorem createScheduled_made {text run reply made}
    (h : madeRun (createScheduled text run reply) = some made) : ∃ suffix, made = run suffix := by
  cases reply with
  | created suffix | lost suffix e => exact ⟨suffix, (Option.some.inj h).symm⟩
  | refused e => cases h

theorem createRun_spec {r sched name template schedule} (htmpl : r.template = .ok tmpl)
    (h : madeRun (createRun r sched) = some (.agentRun name template schedule spec)) :
    spec = templateSpec tmpl := by
  unfold createRun at h
  rw [htmpl] at h
  split at h
  · obtain ⟨suffix, hrun⟩ := createScheduled_made h
    cases hrun
  · obtain ⟨suffix, hrun⟩ := createScheduled_made h
    injection hrun

theorem handleTriggerTemplate_spec {name create run}
    (h : (handleTriggerTemplate name (.ok tmpl) create).created = some run) :
    run.spec = triggerSpec tmpl := by
  cases create with
  | created suffix | lost suffix e => exact congrArg TriggeredRun.spec (Option.some.inj h).symm
  | refused e => cases h

theorem MadeFrom.eq (h : MadeFrom tmpl spec) :
    spec = triggerSpec tmpl ∨ spec = { triggerSpec tmpl with specRef := "" } := by
  cases h with
  | chainStep hcontext hbranch h =>
    exact .inr ((createStep_spec h).trans (childSpec_plain hcontext hbranch))
  | schedule _ htmpl h => exact .inl (createRun_spec htmpl h)
  | trigger h => exact .inl (handleTriggerTemplate_spec h)

theorem madeFrom_trigger (tmpl : RunTemplateSpec) : MadeFrom tmpl (triggerSpec tmpl) :=
  @MadeFrom.trigger tmpl "" (.created "") _ rfl

theorem madeFrom_chainStep (tmpl : RunTemplateSpec) :
    MadeFrom tmpl { triggerSpec tmpl with specRef := "" } := by
  have hmade : MadeFrom tmpl (childSpec [] (.ok {}) { name := "" } tmpl) :=
    @MadeFrom.chainStep tmpl {}
      { chain := .ok [], run := fun _ => .ok {}, template := fun _ => .ok tmpl
        context := fun _ => .ok {}, create := fun _ => .created "" }
      0 [] { name := "" } { name := "" } _ rfl rfl rfl
  rwa [childSpec_plain rfl rfl] at hmade

/-- The AgentRuns of a template are all alike exactly if it has no `SpecRef`, and they have all of
its fields exactly if it has no `DisplayName` either. -/
theorem template_paths_agree_iff (tmpl : RunTemplateSpec) :
    ((∀ a b, MadeFrom tmpl a → MadeFrom tmpl b → a = b) ↔ tmpl.specRef = "") ∧
    ((∀ a, MadeFrom tmpl a → Carries tmpl a) ↔ tmpl.specRef = "" ∧ tmpl.displayName = "") := by
  have hplain (h : tmpl.specRef = "") :
      triggerSpec tmpl = { triggerSpec tmpl with specRef := "" } := by
    simp [triggerSpec, h]
  have hall (h : tmpl.specRef = "") {a} (ha : MadeFrom tmpl a) : a = triggerSpec tmpl :=
    ha.eq.elim id fun ha => ha.trans (hplain h).symm
  refine ⟨⟨fun h => ?_, fun h a b ha hb => (hall h ha).trans (hall h hb).symm⟩,
    ⟨fun h => ?_, fun ⟨hs, hd⟩ a ha => ?_⟩⟩
  · exact congrArg AgentRunSpec.specRef (h _ _ (madeFrom_trigger tmpl) (madeFrom_chainStep tmpl))
  · have hcarries := h _ (madeFrom_chainStep tmpl)
    exact ⟨hcarries.specRef.symm, hcarries.displayName.symm⟩
  · rw [hall hs ha]
    exact { displayName := hd.symm, projectRef := rfl, repos := rfl, prompt := rfl, modelTier := rfl
            manageModelTier := rfl, implementModelTier := rfl, orchestrationMode := rfl
            ttlSeconds := rfl, autoPush := rfl, autoPR := rfl, prBaseBranch := rfl, specRef := rfl }

/-- A template of a project's spec: the step of a chain runs without the spec. -/
theorem template_specRef_dropped :
    ¬ ∀ a b, MadeFrom { projectRef := "shop", specRef := "add-comments" } a →
      MadeFrom { projectRef := "shop", specRef := "add-comments" } b → a = b :=
  fun h => by
    have hspec := congrArg AgentRunSpec.specRef (h _ _ (madeFrom_trigger _) (madeFrom_chainStep _))
    exact absurd hspec (by decide)

end Uncworks
