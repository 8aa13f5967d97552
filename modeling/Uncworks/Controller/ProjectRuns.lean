import Uncworks.Controller.Cluster
import Uncworks.Controller.Projects

/-!
# Runs of a project

An AgentRun with a `ProjectRef` takes the fields it leaves empty from its Project, and the text of
its `SpecRef` from the config repository, before its workflow is started
(`ResolveProjectDefaults`).  A reconcile waits if the Project or the spec cannot be read.
-/

namespace Uncworks

/-! ## `ResolveProjectDefaults` -/

abbrev ReadFile := (repoName filePath : String) → Except String String

def inheritDefaults (d : ProjectDefaults) (spec : AgentRunSpec) : AgentRunSpec :=
  { spec with
    modelTier := if spec.modelTier = "" ∧ d.modelTier ≠ "" then d.modelTier else spec.modelTier
    manageModelTier :=
      if spec.manageModelTier = "" ∧ d.manageModelTier ≠ "" then d.manageModelTier
      else spec.manageModelTier
    implementModelTier :=
      if spec.implementModelTier = "" ∧ d.implementModelTier ≠ "" then d.implementModelTier
      else spec.implementModelTier
    ttlSeconds := if spec.ttlSeconds = 0 ∧ 0 < d.ttlSeconds then d.ttlSeconds else spec.ttlSeconds
    orchestrationMode :=
      if spec.orchestrationMode = .unspecified ∧ d.orchestrationMode ≠ .unspecified then
        d.orchestrationMode
      else spec.orchestrationMode
    autoPush := spec.autoPush || d.autoPush
    autoPR := spec.autoPR || d.autoPR
    prBaseBranch :=
      if spec.prBaseBranch = "" ∧ d.prBaseBranch ≠ "" then d.prBaseBranch else spec.prBaseBranch }

def inheritProject (project : Project) (spec : AgentRunSpec) : AgentRunSpec :=
  let spec := if spec.repos = [] ∧ project.spec.repos ≠ [] then
    { spec with repos := project.spec.repos } else spec
  match project.spec.defaults with
  | none => spec
  | some d => inheritDefaults d spec

def specPath (specRef : String) : String := "openspec/specs/" ++ specRef ++ "/spec.md"

/-- Fetch the text of the `SpecRef`, if there is one, the run has no text of its own, and soft-serve
is configured. -/
def resolveSpecRef (lib : Go.Lib) (softServe : Option ReadFile) (spec : AgentRunSpec) :
    Except String AgentRunSpec :=
  if spec.specRef ≠ "" ∧ spec.specContent = "" then
    match softServe with
    | none => .ok spec
    | some readFile => match readFile spec.projectRef (specPath spec.specRef) with
      | .error err => .error
        s!"read spec {lib.quote spec.specRef} from project {lib.quote spec.projectRef}: {err}"
      | .ok content => .ok
        { spec with
          specContent := content
          specSource := s!"project:{spec.projectRef}/spec:{spec.specRef}" }
  else .ok spec

def nameProject (project : Project) (spec : AgentRunSpec) : AgentRunSpec :=
  if spec.project = "" then
    { spec with project :=
        if project.spec.displayName = "" then project.name else project.spec.displayName }
  else spec

/-- `ResolveProjectDefaults`: the spec of the run and the URL of the config repository. -/
def resolveProjectDefaults (lib : Go.Lib) (project : Except Kube.Error Project)
    (softServe : Option ReadFile) (spec : AgentRunSpec) : Except String (AgentRunSpec × String) :=
  if spec.projectRef = "" then .ok (spec, "")
  else match project with
    | .error e => .error s!"get project {lib.quote spec.projectRef}: {e.text}"
    | .ok project =>
      (resolveSpecRef lib softServe (inheritProject project spec)).map fun spec =>
        (nameProject project spec, project.status.configRepoURL)

/-! ## Reconciles -/

structure StoredRun where
  object : AgentRun
  crd : AgentRunCRD

/-- What the calls of a reconcile return: the Project, soft-serve if it is configured, whether the
resolved spec can be stored, and the other calls. -/
structure ProjectCalls where
  calls : Calls := {}
  project : Except Kube.Error Project
  softServe : Option ReadFile := none
  updateSpec : Bool := true

section Reconcile

variable (lib : Go.Lib) (liteLLMBaseURL gitHubTokenSecretName : String)

/-- `startWorkflow` of a run that may have a project: the run afterwards, and the input of
`ExecuteWorkflow` if that is called. -/
def startWithProject (c : ProjectCalls) (s : StoredRun) : StoredRun × Option WorkflowInput :=
  let start (crd : AgentRunCRD) : StoredRun × Option WorkflowInput :=
    ({ object := startWorkflow c.calls s.object, crd },
      some (buildWorkflowInput crd liteLLMBaseURL gitHubTokenSecretName))
  if s.crd.spec.projectRef = "" then start s.crd
  else match resolveProjectDefaults lib c.project c.softServe s.crd.spec with
    | .error err =>
      -- only the status is stored, and `Reconcile` asks to be called again in five seconds
      (if c.calls.statusUpdate then
        { s with object := { s.object with status := { s.object.status with
            message := s!"Waiting for project {lib.quote s.crd.spec.projectRef} to become ready: {err}"
          } } }
      else s, none)
    | .ok (spec, _) => if c.updateSpec then start { s.crd with spec } else (s, none)

def reconcileRun (c : ProjectCalls) (s : StoredRun) : StoredRun × Option WorkflowInput :=
  if s.object.starts then startWithProject lib liteLLMBaseURL gitHubTokenSecretName c s
  else ({ s with object := reconcile c.calls s.object }, none)

def reconciles : List ProjectCalls → StoredRun → List (ProjectCalls × StoredRun)
  | [], _ => []
  | c :: cs, s => (c, s) :: reconciles cs (reconcileRun lib liteLLMBaseURL gitHubTokenSecretName c s).1

/-- If `ExecuteWorkflow` is called for a run with a project, the project is ready, and the input has
the text of the `SpecRef`, or the text that the run has itself. -/
def StartsReady (c : ProjectCalls) (s : StoredRun) : Prop :=
  ∀ input, (reconcileRun lib liteLLMBaseURL gitHubTokenSecretName c s).2 = some input →
    s.crd.spec.projectRef ≠ "" →
    (∃ project, c.project = .ok project ∧ project.status.configRepoReady) ∧
    (s.crd.spec.specRef ≠ "" →
      (s.crd.spec.specContent ≠ "" ∧ input.specContent = s.crd.spec.specContent) ∨
      ∃ readFile, c.softServe = some readFile ∧
        readFile s.crd.spec.projectRef (specPath s.crd.spec.specRef) = .ok input.specContent)

end Reconcile

def AgentRunSpec.needsSpec (spec : AgentRunSpec) : Bool := spec.specRef ≠ "" && spec.specContent = ""

def specUnreadable (softServe : Option ReadFile) (spec : AgentRunSpec) : Bool :=
  spec.needsSpec && softServe.any fun readFile =>
    !(readFile spec.projectRef (specPath spec.specRef)).isOk

/-- A reconcile that can read the project and its spec and store the resolved spec finds the project
ready, and soft-serve if a text is to be fetched. -/
def ReadyProject (c : ProjectCalls) (s : StoredRun) : Prop :=
  s.crd.spec.projectRef ≠ "" → s.object.starts → c.updateSpec →
    specUnreadable c.softServe s.crd.spec = false → ∀ project, c.project = .ok project →
      project.status.configRepoReady ∧ (s.crd.spec.needsSpec → c.softServe.isSome)

variable {lib : Go.Lib} {liteLLMBaseURL gitHubTokenSecretName : String} {c : ProjectCalls}
  {s : StoredRun} {softServe : Option ReadFile} {spec spec' : AgentRunSpec} {project : Project}

theorem inheritProject_spec (project : Project) (spec : AgentRunSpec) :
    (inheritProject project spec).projectRef = spec.projectRef ∧
    (inheritProject project spec).specRef = spec.specRef ∧
    (inheritProject project spec).specContent = spec.specContent := by
  unfold inheritProject
  cases project.spec.defaults <;> split <;> exact ⟨rfl, rfl, rfl⟩

theorem nameProject_specContent (project : Project) (spec : AgentRunSpec) :
    (nameProject project spec).specContent = spec.specContent := by
  unfold nameProject
  split <;> rfl

theorem resolveSpecRef_of_not_needsSpec (h : spec.needsSpec = false) :
    resolveSpecRef lib softServe spec = .ok spec := by
  have hcond : ¬ (spec.specRef ≠ "" ∧ spec.specContent = "") := by
    simpa [AgentRunSpec.needsSpec] using h
  unfold resolveSpecRef
  rw [if_neg hcond]

theorem resolveSpecRef_none : resolveSpecRef lib none spec = .ok spec := by
  unfold resolveSpecRef
  split <;> rfl

theorem resolveSpecRef_some {readFile} (h : spec.needsSpec)
    (hok : resolveSpecRef lib (some readFile) spec = .ok spec') :
    readFile spec.projectRef (specPath spec.specRef) = .ok spec'.specContent := by
  rw [resolveSpecRef, if_pos (by simpa [AgentRunSpec.needsSpec] using h)] at hok
  cases hread : readFile spec.projectRef (specPath spec.specRef) with
  | error err =>
    rw [hread] at hok
    cases hok
  | ok content =>
    rw [hread] at hok
    rw [← Except.ok.inj hok]

theorem resolveSpecRef_isOk :
    (∃ spec', resolveSpecRef lib softServe spec = .ok spec') ↔
      specUnreadable softServe spec = false := by
  by_cases hneeds : spec.needsSpec
  · cases softServe with
    | none => simp [resolveSpecRef_none, specUnreadable]
    | some readFile =>
      rw [resolveSpecRef, if_pos (by simpa [AgentRunSpec.needsSpec] using hneeds), specUnreadable,
        hneeds]
      cases hread : readFile spec.projectRef (specPath spec.specRef) with
      | error err | ok content => simp [hread, Except.toBool]
  · have hneeds : spec.needsSpec = false := by simpa using hneeds
    simp [resolveSpecRef_of_not_needsSpec hneeds, specUnreadable, hneeds]

theorem specUnreadable_inheritProject :
    specUnreadable softServe (inheritProject project spec) = specUnreadable softServe spec := by
  obtain ⟨hproject, href, hcontent⟩ := inheritProject_spec project spec
  simp [specUnreadable, AgentRunSpec.needsSpec, hproject, href, hcontent]

theorem needsSpec_inheritProject :
    (inheritProject project spec).needsSpec = spec.needsSpec := by
  obtain ⟨-, href, hcontent⟩ := inheritProject_spec project spec
  simp [AgentRunSpec.needsSpec, href, hcontent]

theorem executes_iff (hproject : s.crd.spec.projectRef ≠ "") {content} :
    (∃ input, (reconcileRun lib liteLLMBaseURL gitHubTokenSecretName c s).2 = some input ∧
        input.specContent = content) ↔
      s.object.starts ∧ c.updateSpec ∧ ∃ project, c.project = .ok project ∧
        ∃ spec', resolveSpecRef lib c.softServe (inheritProject project s.crd.spec) = .ok spec' ∧
          spec'.specContent = content := by
  unfold reconcileRun startWithProject resolveProjectDefaults
  by_cases hstarts : s.object.starts
  · simp only [hstarts, if_true, hproject]
    cases hp : c.project with
    | error e => simp
    | ok project =>
      cases hresolve : resolveSpecRef lib c.softServe (inheritProject project s.crd.spec) with
      | error err => simp [Except.map, hresolve]
      | ok spec' =>
        by_cases hupdate : c.updateSpec
        · simp [Except.map, hupdate, hresolve, buildWorkflowInput, nameProject_specContent]
        · simp [Except.map, hupdate, hresolve]
  · simp [hstarts]

/-- The input has the text of the spec exactly if the project is ready and soft-serve is there. -/
theorem startsReady_iff :
    StartsReady lib liteLLMBaseURL gitHubTokenSecretName c s ↔ ReadyProject c s := by
  constructor
  · intro h hproject hstarts hupdate hreadable project hp
    obtain ⟨spec', hspec'⟩ := resolveSpecRef_isOk.2 (specUnreadable_inheritProject.trans hreadable)
    obtain ⟨input, hinput, -⟩ :=
      (executes_iff hproject).2 ⟨hstarts, hupdate, project, hp, spec', hspec', rfl⟩
    obtain ⟨⟨project', hp', hready⟩, hspec⟩ := h input hinput hproject
    obtain rfl : project = project' := Except.ok.inj (hp.symm.trans hp')
    refine ⟨hready, fun hneeds => ?_⟩
    simp only [AgentRunSpec.needsSpec, Bool.and_eq_true, decide_eq_true_eq] at hneeds
    rcases hspec hneeds.1 with ⟨hown, -⟩ | ⟨readFile, hread, -⟩
    · exact absurd hneeds.2 hown
    · rw [hread]
      rfl
  · intro h input hinput hproject
    obtain ⟨hstarts, hupdate, project, hp, spec', hresolve, hcontent⟩ :=
      (executes_iff hproject).1 ⟨input, hinput, rfl⟩
    have hreadable := resolveSpecRef_isOk.1 ⟨spec', hresolve⟩
    rw [specUnreadable_inheritProject] at hreadable
    obtain ⟨hready, hsoft⟩ := h hproject hstarts hupdate hreadable project hp
    refine ⟨⟨project, hp, hready⟩, fun href => ?_⟩
    by_cases hneeds : s.crd.spec.needsSpec
    · obtain ⟨readFile, hread⟩ := Option.isSome_iff_exists.1 (hsoft hneeds)
      rw [hread] at hresolve
      obtain ⟨hpro, href', -⟩ := inheritProject_spec project s.crd.spec
      have hfile := resolveSpecRef_some (needsSpec_inheritProject.trans hneeds) hresolve
      rw [hpro, href', hcontent] at hfile
      exact .inr ⟨readFile, hread, hfile⟩
    · have hneeds : s.crd.spec.needsSpec = false := by simpa using hneeds
      rw [resolveSpecRef_of_not_needsSpec (needsSpec_inheritProject.trans hneeds)] at hresolve
      rw [← Except.ok.inj hresolve, (inheritProject_spec project s.crd.spec).2.2] at hcontent
      have hown : s.crd.spec.specContent ≠ "" := by simpa [AgentRunSpec.needsSpec, href] using hneeds
      exact .inl ⟨hown, hcontent.symm⟩

/-- Workflows are started with complete inputs exactly if each reconcile that gets that far finds
the project ready, and soft-serve if it has to fetch a text. -/
theorem reconciles_startReady_iff (calls : List ProjectCalls) (run : StoredRun) :
    (∀ r ∈ reconciles lib liteLLMBaseURL gitHubTokenSecretName calls run,
        StartsReady lib liteLLMBaseURL gitHubTokenSecretName r.1 r.2) ↔
      ∀ r ∈ reconciles lib liteLLMBaseURL gitHubTokenSecretName calls run, ReadyProject r.1 r.2 :=
  forall₂_congr fun _ _ => startsReady_iff

def shopRun : StoredRun where
  object := { name := "ar-7f3k", finalizer := true }
  crd := { name := "ar-7f3k", spec := { projectRef := "shop", specRef := "checkout" } }

/-- The workflow is started although the project is not ready, and without the text of the spec if
there is no soft-serve. -/
theorem project_run_starts_unready :
    ¬ StartsReady sampleEnv.toLib "" ""
      { project := .ok {}, softServe := some fun _ _ => .ok "# Checkout" } shopRun ∧
    ¬ StartsReady sampleEnv.toLib "" "" { project := .ok { status := { configRepoReady := true } } }
      shopRun := by
  constructor
  · intro h
    obtain ⟨⟨project, hp, hready⟩, -⟩ := h _ rfl (by decide)
    cases hp
    cases hready
  · intro h
    obtain ⟨-, hspec⟩ := h _ rfl (by decide)
    rcases hspec (by decide) with ⟨hown, -⟩ | ⟨readFile, hread, -⟩
    · exact hown rfl
    · cases hread

end Uncworks
