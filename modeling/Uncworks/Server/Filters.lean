import Uncworks.Controller.RunLabels
import Uncworks.Server.Listing

/-!
# Listing the runs of a project or a feature

`ListAgentRuns` finds the runs of a project by their label, which holds what `sanitizeLabelValue`
makes of the project that the caller of `CreateAgentRun` has set; the filter is compared as it is.
-/

namespace Uncworks

open ListAgentRunsRequest Option Bool

def labelProject : String := "aot.uncworks.io/project"

/-- An AgentRun over its lifetime: created for a request, or in another way without a project, a
feature and their labels, and reconciled any number of times. -/
inductive RunHistory (lib : Go.Lib) (liteLLMBaseURL : String) :
    Option CreateRequest → LabelledObject → Prop
  | created (req : CreateRequest) (answer : Option String) (name : String) (s : LabelledObject) :
    s.run = newRun lib liteLLMBaseURL answer req name → RunHistory lib liteLLMBaseURL (some req) s
  | made (s : LabelledObject) : s.run.spec.project = "" → s.run.feature = "" →
    s.run.labels.lookup labelProject = none → RunHistory lib liteLLMBaseURL none s
  | reconciled (origin : Option CreateRequest) (s : LabelledObject) (c : ProjectCalls) :
    RunHistory lib liteLLMBaseURL origin s →
    RunHistory lib liteLLMBaseURL origin (reconcileLabelled lib c s)

def LabelledObject.listed (s : LabelledObject) (creationTimestamp : ℕ) (stage : String) : ListedRun where
  run := s.object
  creationTimestamp
  labels := s.run.labels
  parentRunID := s.run.spec.parentRunID
  stage
  tags := s.run.tags

def Lists (lib : Go.Lib) (sort : Go.SliceSort ListedRun.newer) (items : List ListedRun)
    (req : ListAgentRunsRequest) (x : ListedRun) : Prop :=
  req.invalid lib = none ∧ x ∈ allRuns sort req items

def SetByCaller (origin : Option CreateRequest) : Prop := ∃ req ∈ origin, req.spec.project ≠ ""

structure KnownLabels (origin : Option CreateRequest) (s : LabelledObject) : Prop where
  project : s.run.labels.lookup labelProject =
    (origin.map fun req => sanitizeLabelValue req.spec.project).filter (· ≠ "")
  kept : ∀ req ∈ origin, req.spec.project ≠ "" → s.run.spec.project = req.spec.project
  feature : sanitizeLabelValue s.run.feature ≠ "" →
    s.run.labels.lookup labelFeature = some (sanitizeLabelValue s.run.feature)

variable {lib : Go.Lib} {liteLLMBaseURL : String} {origin : Option CreateRequest} {s : LabelledObject}
  {c : ProjectCalls} {run : LabelledRun}

theorem inheritProject_project (project : Project) (spec : AgentRunSpec) :
    (inheritProject project spec).project = spec.project := by
  unfold inheritProject
  cases project.spec.defaults <;> split <;> rfl

theorem resolveSpecRef_project {softServe spec spec'}
    (h : resolveSpecRef lib softServe spec = .ok spec') : spec'.project = spec.project := by
  unfold resolveSpecRef at h
  split at h
  · cases softServe with
    | none => exact Except.ok.inj h ▸ rfl
    | some readFile =>
      cases hread : readFile spec.projectRef (specPath spec.specRef) with
      | error err => simp [hread] at h
      | ok content =>
        simp only [hread] at h
        exact Except.ok.inj h ▸ rfl
  · exact Except.ok.inj h ▸ rfl

theorem resolveProjectDefaults_project {project softServe spec spec' url}
    (h : resolveProjectDefaults lib project softServe spec = .ok (spec', url))
    (hproject : spec.project ≠ "") : spec'.project = spec.project := by
  unfold resolveProjectDefaults at h
  split at h
  · cases h
    rfl
  · cases project with
    | error e => cases h
    | ok project =>
      cases hspec : resolveSpecRef lib softServe (inheritProject project spec) with
      | error err => simp [hspec, Except.map] at h
      | ok spec₁ =>
        have hkept := (resolveSpecRef_project hspec).trans (inheritProject_project project spec)
        simp only [hspec, Except.map, Except.ok.injEq, Prod.mk.injEq] at h
        rw [← h.1, nameProject, if_neg (hkept ▸ hproject), hkept]

theorem startLabels_project :
    (startLabels run).lookup labelProject = run.labels.lookup labelProject := by
  have hnone : List.lookup labelProject (startValues run) = none := by
    unfold startValues
    split_ifs <;> rfl
  rw [startLabels, Kube.Labels.lookup_setAll nodup_startValues, hnone, none_or]

theorem startLabels_feature {v} (h : run.labels.lookup labelFeature = some v) :
    (startLabels run).lookup labelFeature = some v := by
  have hnone : List.lookup labelFeature (startValues run) = none := by
    have hlacks : run.lacksFeature = false := by simp [LabelledRun.lacksFeature, h]
    rw [startValues, hlacks, if_neg Bool.false_ne_true]
    split_ifs <;> rfl
  rw [startLabels, Kube.Labels.lookup_setAll nodup_startValues, hnone, none_or, h]

theorem newRun_lookup (lib : Go.Lib) (liteLLMBaseURL name : String) (answer : Option String)
    (req : CreateRequest) :
    (newRun lib liteLLMBaseURL answer req name).labels.lookup labelProject =
        (some (sanitizeLabelValue req.spec.project)).filter (· ≠ "") ∧
      (newRun lib liteLLMBaseURL answer req name).labels.lookup labelFeature =
        (some (sanitizeLabelValue req.feature)).filter (· ≠ "") := by
  rw [newRun, createLabels, Kube.Labels.lookup_setAll nodup_filter_createValues,
    Kube.Labels.lookup_setAll nodup_filter_createValues,
    Kube.Labels.lookup_filter (· ≠ "") nodup_createValues,
    Kube.Labels.lookup_filter (· ≠ "") nodup_createValues]
  exact ⟨or_none, or_none⟩

namespace KnownLabels

theorem created {req answer name} (h : s.run = newRun lib liteLLMBaseURL answer req name) :
    KnownLabels (some req) s := by
  obtain ⟨hproject, hfeature⟩ := newRun_lookup lib liteLLMBaseURL name answer req
  refine ⟨h ▸ hproject, ?_, ?_⟩
  · intro req' hreq hne
    rw [h, ← some.inj hreq]
    rfl
  · rw [h]
    intro hne
    rw [hfeature]
    exact filter_some_pos (decide_eq_true hne)

theorem made (hproject : s.run.labels.lookup labelProject = none) (hfeature : s.run.feature = "") :
    KnownLabels none s := by
  refine ⟨hproject, by simp, fun hne => ?_⟩
  rw [hfeature] at hne
  exact absurd (by decide) hne

theorem reconciled (h : KnownLabels origin s) : KnownLabels origin (reconcileLabelled lib c s) := by
  obtain hrun | ⟨run, hworkflow, hrun⟩ := reconcileLabelled_run lib c s
  · exact ⟨hrun ▸ h.project, hrun ▸ h.kept, hrun ▸ h.feature⟩
  · obtain ⟨spec, url, hresolve, rfl⟩ := workflowRun_eq hworkflow
    have hkept : ∀ req ∈ origin, req.spec.project ≠ "" → spec.project = req.spec.project := by
      intro req hreq hne
      rw [← h.kept req hreq hne]
      exact resolveProjectDefaults_project hresolve (h.kept req hreq hne ▸ hne)
    obtain hrun | hrun := hrun
    · exact ⟨hrun ▸ h.project, hrun ▸ hkept, hrun ▸ h.feature⟩
    · refine ⟨?_, hrun ▸ hkept, ?_⟩
      · rw [hrun]
        exact startLabels_project.trans h.project
      · rw [hrun]
        exact fun hne => startLabels_feature (h.feature hne)

end KnownLabels

theorem RunHistory.known (h : RunHistory lib liteLLMBaseURL origin s) : KnownLabels origin s := by
  induction h with
  | created req answer name s hrun => exact .created hrun
  | made s hproject hfeature hlabel => exact .made hlabel hfeature
  | reconciled origin s c h ih => exact ih.reconciled

theorem ListAgentRunsRequest.invalid_eq_none {req : ListAgentRunsRequest} :
    req.invalid lib = none ↔
      req.limit ≤ 100 ∧ req.tagFilter.utf8ByteSize ≤ 64 ∧ req.featureFilter.utf8ByteSize ≤ 128 ∧
        req.projectFilter.utf8ByteSize ≤ 128 ∧
        ¬ (req.parentRunId ≠ "" ∧ !validRunID req.parentRunId) := by
  unfold invalid
  split_ifs <;> simp_all

section Lists

variable {sort : Go.SliceSort ListedRun.newer} {items : List ListedRun} {x : ListedRun}
  {req : ListAgentRunsRequest} {p : String}

theorem lists_projectFilter (hreq : req.invalid lib = none) (hmem : x ∈ items)
    (hmatch : req.matches_ x) (hp : p.utf8ByteSize ≤ 128) :
    Lists lib sort items { req with projectFilter := p } x ↔ x.hasLabel labelProject p := by
  obtain ⟨hlimit, htag, hfeature, -, hparent⟩ := invalid_eq_none.1 hreq
  rw [Lists, invalid_eq_none, mem_allRuns]
  simp only [matches_, selects, and_eq_true] at hmatch ⊢
  exact ⟨fun h => h.2.2.1.1.2, fun h => ⟨⟨hlimit, htag, hfeature, hp, hparent⟩, hmem,
    ⟨⟨hmatch.1.1.1, h⟩, hmatch.1.2⟩, hmatch.2⟩⟩

theorem lists_featureFilter (hreq : req.invalid lib = none) (hmem : x ∈ items)
    (hmatch : req.matches_ x) (hp : p.utf8ByteSize ≤ 128) :
    Lists lib sort items { req with featureFilter := p } x ↔ x.hasLabel labelFeature p := by
  obtain ⟨hlimit, htag, -, hproject, hparent⟩ := invalid_eq_none.1 hreq
  rw [Lists, invalid_eq_none, mem_allRuns]
  simp only [matches_, selects, and_eq_true] at hmatch ⊢
  exact ⟨fun h => h.2.2.1.2, fun h => ⟨⟨hlimit, htag, hp, hproject, hparent⟩, hmem,
    ⟨hmatch.1.1, h⟩, hmatch.2⟩⟩

end Lists

namespace KnownLabels

variable {created : ℕ} {stage : String}

theorem hasLabel_project (h : KnownLabels origin s) :
    (s.listed created stage).hasLabel labelProject s.run.spec.project ↔
      s.run.spec.project = "" ∨ SetByCaller origin ∧ Kube.validLabelValue s.run.spec.project := by
  rw [ListedRun.hasLabel, or_eq_true, decide_eq_true_iff, decide_eq_true_iff]
  refine or_congr_right' fun hne => ?_
  have hlabels : (s.listed created stage).labels = s.run.labels := rfl
  rw [hlabels, h.project]
  constructor
  · intro hlookup
    obtain ⟨hlookup, -⟩ := filter_eq_some_iff.1 hlookup
    obtain ⟨req, hreq, hvalue⟩ := map_eq_some_iff.1 hlookup
    have hset : req.spec.project ≠ "" := fun hempty => hne (by rw [← hvalue, hempty]; decide)
    refine ⟨⟨req, hreq, hset⟩, sanitizeLabelValue_eq_self.1 ?_⟩
    rw [h.kept req hreq hset] at hvalue ⊢
    exact hvalue
  · rintro ⟨⟨req, hreq, hset⟩, hvalid⟩
    have hkept := h.kept req hreq hset
    rw [mem_def.1 hreq, map_some, ← hkept, sanitizeLabelValue_eq_self.2 hvalid]
    exact filter_some_pos (decide_eq_true hne)

theorem hasLabel_feature (h : KnownLabels origin s) :
    (s.listed created stage).hasLabel labelFeature s.run.feature ↔
      Kube.validLabelValue s.run.feature := by
  rw [ListedRun.hasLabel, or_eq_true, decide_eq_true_iff, decide_eq_true_iff]
  constructor
  · rintro (hempty | hlookup)
    · rw [hempty]
      decide
    · exact Kube.Labels.valid_of_lookup s.admitted hlookup
  · intro hvalid
    have hsame := sanitizeLabelValue_eq_self.2 hvalid
    refine or_iff_not_imp_left.2 fun hne => ?_
    exact hsame ▸ h.feature (hsame.symm ▸ hne)

end KnownLabels

/-- Listing the runs of the project and of the feature of a run includes it exactly if it has no
project or a valid label value that its caller has set, and its feature is a valid label value. -/
theorem filters_include_iff (h : RunHistory lib liteLLMBaseURL origin s) (created : ℕ) (stage : String)
    (sort : Go.SliceSort ListedRun.newer) (items : List ListedRun) (req : ListAgentRunsRequest)
    (hmem : s.listed created stage ∈ items) (hreq : req.invalid lib = none)
    (hmatch : req.matches_ (s.listed created stage))
    (hproject : s.run.spec.project.utf8ByteSize ≤ 128) (hfeature : s.run.feature.utf8ByteSize ≤ 128) :
    (Lists lib sort items { req with projectFilter := s.run.spec.project } (s.listed created stage) ∧
      Lists lib sort items { req with featureFilter := s.run.feature } (s.listed created stage)) ↔
    (s.run.spec.project = "" ∨ SetByCaller origin ∧ Kube.validLabelValue s.run.spec.project) ∧
      Kube.validLabelValue s.run.feature := by
  rw [lists_projectFilter hreq hmem hmatch hproject, lists_featureFilter hreq hmem hmatch hfeature,
    h.known.hasLabel_project, h.known.hasLabel_feature]

def shopRequest : CreateRequest where
  spec := { prompt := "Fix the login", project := "shop" }
  feature := "login"

def shopObject : LabelledObject where
  object := { name := "ar-k3f9qz", finalizer := true }
  run := newRun sampleEnv.toLib "" none shopRequest "ar-k3f9qz"
  admitted := by decide

theorem filters_include_shop :
    Lists sampleEnv.toLib stableSort [shopObject.listed 0 ""] { projectFilter := "shop" }
        (shopObject.listed 0 "") ∧
      Lists sampleEnv.toLib stableSort [shopObject.listed 0 ""] { featureFilter := "login" }
        (shopObject.listed 0 "") := by
  have hhistory : RunHistory sampleEnv.toLib "" (some shopRequest) shopObject :=
    .created shopRequest none "ar-k3f9qz" shopObject rfl
  have hiff := filters_include_iff hhistory 0 "" stableSort [shopObject.listed 0 ""] {}
    List.mem_cons_self rfl (by decide +kernel) (by decide) (by decide)
  exact hiff.2 ⟨.inr ⟨⟨shopRequest, rfl, by decide⟩, by decide⟩, by decide⟩

def webPlatformObject : LabelledObject where
  object := { name := "ar-k3f9qz", finalizer := true }
  run := newRun sampleEnv.toLib "" none
    { spec := { prompt := "Fix the login", project := "Web Platform" } } "ar-k3f9qz"
  admitted := by decide

def shopRefObject : LabelledObject where
  object := { name := "ar-k3f9qz", finalizer := true }
  run := newRun sampleEnv.toLib "" none
    { spec := { prompt := "Fix the login", projectRef := "shop" } } "ar-k3f9qz"
  admitted := by decide

def shopStartedObject : LabelledObject :=
  reconcileLabelled sampleEnv.toLib { project := .ok { name := "shop" } } shopRefObject

/-- A run is not found by its project if that has a blank in it, or if the run has inherited it. -/
theorem project_filter_misses :
    (webPlatformObject.run.spec.project = "Web Platform" ∧
      ¬ Lists sampleEnv.toLib stableSort [webPlatformObject.listed 0 ""]
        { projectFilter := "Web Platform" } (webPlatformObject.listed 0 "")) ∧
    shopStartedObject.run.spec.project = "shop" ∧ shopStartedObject.object.workflowID ≠ "" ∧
      ¬ Lists sampleEnv.toLib stableSort [shopStartedObject.listed 0 ""] { projectFilter := "shop" }
        (shopStartedObject.listed 0 "") := by
  have hmiss : ∀ (s : LabelledObject) (p : String), (s.listed 0 "").hasLabel labelProject p = false →
      ¬ Lists sampleEnv.toLib stableSort [s.listed 0 ""] { projectFilter := p } (s.listed 0 "") := by
    intro s p hlabel hlists
    have hselects := (mem_allRuns.1 hlists.2).2
    simp only [ListAgentRunsRequest.matches_, ListAgentRunsRequest.selects, and_eq_true] at hselects
    rw [labelProject, hselects.1.1.2] at hlabel
    cases hlabel
  exact ⟨⟨by decide, hmiss _ _ (by decide +kernel)⟩, by decide +kernel, by decide +kernel,
    hmiss _ _ (by decide +kernel)⟩

end Uncworks
