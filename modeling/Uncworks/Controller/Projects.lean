import Uncworks.Controller.Mapping
import Uncworks.Controller.Reconciler
import Uncworks.Kube.Api
import Uncworks.Machine.Runs

/-!
# Projects

The `Reconcile` of a Project, which creates a config repository for it in soft-serve, scaffolds it
and reports it ready, and deletes it with the Project.  A call may take effect although it reports an
error.
-/

namespace Uncworks

open Kube

/-! ## Types -/

structure ProjectDefaults where
  modelTier : String := ""
  manageModelTier : String := ""
  implementModelTier : String := ""
  ttlSeconds : ℤ := 0
  orchestrationMode : OrchestrationMode := .unspecified
  autoPush : Bool := false
  autoPR : Bool := false
  prBaseBranch : String := ""

structure ProjectSpec where
  displayName : String := ""
  repos : List Repository := []
  defaults : Option ProjectDefaults := none

structure ProjectStatus where
  configRepoReady : Bool := false
  configRepoURL : String := ""
  condition : Option Condition := none

structure Project where
  name : String := ""
  deleting : Bool := false
  finalizer : Bool := false
  spec : ProjectSpec := {}
  status : ProjectStatus := {}

structure ConfigRepo where
  present : Bool
  /-- `ScaffoldAndPush` has succeeded since the repository was created. -/
  scaffolded : Bool
  /-- The repository was there before the first reconcile. -/
  older : Bool

/-- What soft-serve does with a command; a lost reply reports an error although the command was
carried out. -/
inductive SoftReply where
  | ok
  | refused (text : String)
  | lost (text : String)
  deriving DecidableEq

def SoftReply.error? : SoftReply → Option String
  | ok => none
  | refused text => some text
  | lost text => some text

structure ProjectReplies where
  repoExists : Option String := none
  createRepo : SoftReply := .ok
  scaffoldAndPush : SoftReply := .ok
  deleteRepo : SoftReply := .ok
  cloneURL : String := ""
  update : Reply := .ok
  statusUpdate : Reply := .ok

/-- If `CreateRepo` creates the repository, it says so, and `ScaffoldAndPush` succeeds. -/
def ProjectReplies.scaffolds (r : ProjectReplies) : Bool :=
  match r.createRepo with
  | .ok => r.scaffoldAndPush.error?.isNone
  | .refused _ => true
  | .lost _ => false

structure ProjectOutcome where
  object : Object Project
  repo : ConfigRepo
  result : Result
  removesFinalizer : Bool := false

/-! ## `Reconcile` -/

def reconcileResult : Option String → Result
  | none => .done
  | some text => .error ("reconcile: " ++ text)

section

variable (o : Object Project) (i : ℕ) (r : ProjectReplies) (project : Project) (repo : ConfigRepo)

def repoFailed (reason text : String) : ProjectOutcome where
  object := o.write i { project with status := { project.status with
    condition := some { status := false, reason, message := text } } } r.statusUpdate
  repo
  result := reconcileResult (some text)

def repoReady : ProjectOutcome where
  object := o.write i { project with status := {
    configRepoReady := true
    configRepoURL := r.cloneURL
    condition := some { status := true, reason := "RepoCreated"
                        message := "Config repo created at " ++ r.cloneURL } } } r.statusUpdate
  repo
  result := reconcileResult ((o.writeError i r.statusUpdate).map Error.text)

def scaffoldRepo : ProjectOutcome :=
  match r.scaffoldAndPush.error? with
  | some text =>
    repoFailed o i r project ⟨true, false, false⟩ "ScaffoldFailed" text
  | none => repoReady o i r project ⟨true, true, false⟩

def ensureRepo : ProjectOutcome :=
  match r.repoExists with
  | some text => repoFailed o i r project repo "RepoExistenceCheckFailed" text
  | none =>
    if repo.present then repoReady o i r project repo
    else match r.createRepo with
      | .ok => scaffoldRepo o i r project
      | .refused text => repoFailed o i r project repo "CreateFailed" text
      | .lost text => repoFailed o i r project ⟨true, false, false⟩ "CreateFailed" text

def deleteRepo : SoftReply → ConfigRepo
  | .refused _ => repo
  | _ => ⟨false, false, false⟩

end

section

variable (softServe : Bool) (o : Object Project) (i : ℕ) (r : ProjectReplies) (project : Project)
  (repo : ConfigRepo)

/-- Delete the repository and remove the finalizer, and with it the Project; without soft-serve the
call panics. -/
def finalizeProject : ProjectOutcome :=
  if !softServe then
    { object := o, repo
      result := .error "panic: invalid memory address or nil pointer dereference" }
  else
    let stored := o.write i { project with finalizer := false } r.update
    { object := { stored with gone := o.gone || (o.isCurrent i && r.update.stores) }
      repo := deleteRepo repo r.deleteRepo
      result := reconcileResult ((o.writeError i r.update).map Error.text)
      removesFinalizer := true }

/-- `Reconcile` of the version `i` of a Project; `softServe` says whether soft-serve is configured.
-/
def reconcileProject : ProjectOutcome :=
  if project.deleting then
    if project.finalizer then finalizeProject softServe o i r project repo
    else { object := o, repo, result := .done }
  else if !project.finalizer then
    { object := o.write i { project with finalizer := true } r.update
      repo
      result := reconcileResult ((o.writeError i r.update).map Error.text) }
  else if !project.status.configRepoReady && softServe then ensureRepo o i r project repo
  else { object := o, repo, result := .done }

end

/-! ## Runs -/

structure ProjectWorld where
  object : Object Project
  repo : ConfigRepo

/-- What can happen to a Project: a reconcile of one of its versions, an edit or a deletion by a
user, and the loss of the repository. -/
inductive ProjectEvent where
  | reconcile (i : ℕ) (r : ProjectReplies)
  | edit (spec : ProjectSpec)
  | delete
  | dropRepo

namespace ProjectWorld

def created (project : Project) (present : Bool) : ProjectWorld where
  object := { versions := [{ project with status := {} }] }
  repo := ⟨present, false, present⟩

def change (s : ProjectWorld) (f : Project → Project) : Option ProjectWorld :=
  s.object.current.map fun project =>
    { s with object := { s.object with versions := s.object.versions ++ [f project] } }

def step (softServe : Bool) (s : ProjectWorld) : ProjectEvent → Option ProjectWorld
  | .reconcile i r => s.object.versions[i]?.map fun project =>
    let o := reconcileProject softServe s.object i r project s.repo
    ⟨o.object, o.repo⟩
  | .edit spec => s.change fun project => { project with spec }
  | .delete => s.change fun project => { project with deleting := true }
  | .dropRepo => some { s with repo := ⟨false, false, false⟩ }

def creates (softServe : Bool) (s : ProjectWorld) (i : ℕ) (r : ProjectReplies) : Bool :=
  (s.object.versions[i]?.any fun project =>
    !project.deleting && project.finalizer && !project.status.configRepoReady) &&
    softServe && r.repoExists.isNone && !s.repo.present

def scaffolds (softServe : Bool) (s : ProjectWorld) : ProjectEvent → Bool
  | .reconcile i r => !s.creates softServe i r || r.scaffolds
  | _ => true

end ProjectWorld

/-! ## A reconcile that is careful -/

/-- A repository that is there was scaffolded, or is older than the Project. -/
def ConfigRepo.Sound (repo : ConfigRepo) : Prop := repo.present → repo.scaffolded ∨ repo.older

def readyNow (o : Object Project) : Bool :=
  o.versions.getLast?.any fun project => project.status.configRepoReady

/-- A reconcile leaves a sound repository behind, and makes the Project ready only if there is one.
-/
structure ProjectOutcome.Careful (out : ProjectOutcome) (o : Object Project) : Prop where
  sound : out.repo.Sound
  ready : readyNow out.object → readyNow o ∨ out.repo.present

section Reconcile

variable {softServe : Bool} {o : Object Project} {i : ℕ} {r : ProjectReplies}
  {project : Project} {repo : ConfigRepo} (hi : o.versions[i]? = some project)

include hi

theorem ready_of_write {x reply} (h : readyNow (o.write i x reply))
    (hx : x.status.configRepoReady = project.status.configRepoReady) : readyNow o := by
  by_cases hstores : o.isCurrent i ∧ reply.stores
  · rw [readyNow, Object.write_of_stores hstores.1 hstores.2] at h
    have hlast := Object.getLast?_of_current (Object.current_eq hstores.1 hi)
    rw [readyNow, hlast]
    simpa [hx] using h
  · rwa [Object.write_of_not hstores] at h

theorem careful_repoFailed (hrepo : repo.Sound) (reason text : String) :
    (repoFailed o i r project repo reason text).Careful o :=
  ⟨hrepo, fun h => .inl (ready_of_write hi h rfl)⟩

omit hi in
theorem careful_repoReady (hrepo : repo.Sound) (hpresent : repo.present) :
    (repoReady o i r project repo).Careful o :=
  ⟨hrepo, fun _ => .inr hpresent⟩

theorem careful_ensureRepo (hrepo : repo.Sound)
    (hcreate : r.repoExists = none → repo.present = false → r.scaffolds) :
    (ensureRepo o i r project repo).Careful o := by
  unfold ensureRepo
  cases hexists : r.repoExists with
  | some text => exact careful_repoFailed hi hrepo _ _
  | none =>
    by_cases hpresent : repo.present
    · simpa [hpresent] using careful_repoReady hrepo hpresent
    · have hpresent : repo.present = false := by simpa using hpresent
      simp only [hpresent, Bool.false_eq_true, if_false]
      have hscaffolds := hcreate hexists hpresent
      unfold ProjectReplies.scaffolds at hscaffolds
      cases hreply : r.createRepo with
      | ok =>
        rw [hreply, Option.isNone_iff_eq_none] at hscaffolds
        simp only [scaffoldRepo, hscaffolds]
        exact careful_repoReady (fun _ => .inl rfl) rfl
      | refused text => exact careful_repoFailed hi hrepo _ _
      | lost text =>
        rw [hreply] at hscaffolds
        cases hscaffolds

theorem careful_finalizeProject (hrepo : repo.Sound) :
    (finalizeProject softServe o i r project repo).Careful o := by
  unfold finalizeProject
  split
  · exact ⟨hrepo, .inl⟩
  · refine ⟨?_, fun h => .inl (ready_of_write hi h rfl)⟩
    unfold deleteRepo
    split
    · exact hrepo
    · exact fun h => nomatch h

theorem careful_reconcileProject (hrepo : repo.Sound)
    (hcreate : project.deleting = false → project.finalizer →
      project.status.configRepoReady = false →
      softServe → r.repoExists = none → repo.present = false → r.scaffolds) :
    (reconcileProject softServe o i r project repo).Careful o := by
  unfold reconcileProject
  split_ifs with hdeleting hfinalizer hfinalizer hready
  · exact careful_finalizeProject hi hrepo
  · exact ⟨hrepo, .inl⟩
  · exact ⟨hrepo, fun h => .inl (ready_of_write hi h rfl)⟩
  · rw [Bool.and_eq_true, Bool.not_eq_true'] at hready
    exact careful_ensureRepo hi hrepo
      (hcreate (by simpa using hdeleting) (by simpa using hfinalizer) hready.1 hready.2)
  · exact ⟨hrepo, .inl⟩

end Reconcile

namespace ProjectWorld

variable {softServe : Bool} {s s' : ProjectWorld} {e : ProjectEvent}

theorem change_eq_some {f} (h : s.change f = some s') :
    ∃ project, s.object.versions.getLast? = some project ∧ s'.repo = s.repo ∧
      s'.object.versions = s.object.versions ++ [f project] := by
  obtain ⟨project, hcurrent, rfl⟩ := Option.map_eq_some_iff.1 h
  exact ⟨project, Object.getLast?_of_current hcurrent, rfl, rfl⟩

theorem readyNow_of_change {f} (h : s.change f = some s')
    (hf : ∀ project, (f project).status = project.status) :
    readyNow s'.object = readyNow s.object := by
  obtain ⟨project, hlast, -, hversions⟩ := change_eq_some h
  rw [readyNow, readyNow, hversions, hlast]
  simp [hf]

theorem step_careful (hs : s.repo.Sound) (he : s.scaffolds softServe e)
    (h : s.step softServe e = some s') :
    s'.repo.Sound ∧ (readyNow s'.object → readyNow s.object ∨ s'.repo.present) := by
  cases e with
  | reconcile i r =>
    obtain ⟨project, hi, rfl⟩ := Option.map_eq_some_iff.1 h
    have hcareful : (reconcileProject softServe s.object i r project s.repo).Careful s.object := by
      refine careful_reconcileProject hi hs
        fun hdeleting hfinalizer hready hsoft hexists hpresent => ?_
      have hcreates : s.creates softServe i r := by
        simp [creates, hi, hdeleting, hfinalizer, hready, hsoft, hexists, hpresent]
      simpa [scaffolds, hcreates] using he
    exact ⟨hcareful.sound, hcareful.ready⟩
  | edit spec | delete =>
    obtain ⟨_, _, hrepo, _⟩ := change_eq_some h
    refine ⟨hrepo ▸ hs, fun hr => .inl ?_⟩
    rwa [← readyNow_of_change h fun _ => rfl]
  | dropRepo =>
    cases h
    exact ⟨nofun, .inl⟩

theorem sound_of_reaches {project present}
    (h : Machine.Reaches (step softServe) (scaffolds softServe) (created project present) s) :
    s.repo.Sound :=
  h.keeps (I := fun s => s.repo.Sound) (fun hpresent => .inr hpresent) fun hs he hstep =>
    (step_careful hs he hstep).1

end ProjectWorld

/-- If every reconcile that creates the repository also scaffolds it, a Project becomes ready only
with a scaffolded or an older repository; and a deleted Project loses its finalizer exactly if
soft-serve is configured. -/
theorem project_ready_and_deletion (softServe : Bool) :
    (∀ project present s e s', Machine.Reaches (ProjectWorld.step softServe)
        (ProjectWorld.scaffolds softServe) (.created project present) s →
      s.scaffolds softServe e → s.step softServe e = some s' → readyNow s.object = false →
      readyNow s'.object → s'.repo.scaffolded ∨ s'.repo.older) ∧
    ∀ o i r project repo, project.deleting → project.finalizer →
      ((reconcileProject softServe o i r project repo).removesFinalizer ↔ softServe) := by
  constructor
  · intro project present s e s' hreach he hstep hbefore hafter
    obtain ⟨hsound, hready⟩ :=
      ProjectWorld.step_careful (ProjectWorld.sound_of_reaches hreach) he hstep
    refine hsound ((hready hafter).resolve_left fun h => ?_)
    rw [hbefore] at h
    cases h
  · intro o i r project repo hdeleting hfinalizer
    simp only [reconcileProject, hdeleting, hfinalizer, finalizeProject]
    cases softServe <;> simp

/-- The first reconcile adds the finalizer, the second one creates and scaffolds the repository. -/
theorem project_ready_scaffolded :
    let s := ((ProjectWorld.created {} false).step true (.reconcile 0 {})).getD (.created {} false)
    let s' := (s.step true (.reconcile 1 {})).getD s
    readyNow s'.object ∧ (s'.repo.scaffolded ∨ s'.repo.older) :=
  ⟨rfl, (project_ready_and_deletion true).1 {} false _ (.reconcile 1 {}) _
    (Machine.reaches_replay [.reconcile 0 {}] rfl) rfl rfl rfl rfl⟩

/-- A run in which the repository is created at the second reconcile, but not scaffolded. -/
def unscaffolded : List ProjectEvent :=
  [.reconcile 0 {}, .reconcile 1 { scaffoldAndPush := .refused "git push: exit status 128" }]

def unscaffoldedWorld : ProjectWorld :=
  (Machine.replay (ProjectWorld.step true) Machine.always unscaffolded (.created {} false)).getD
    (.created {} false)

/-- The next reconcile makes the Project ready; and without soft-serve the finalizer of a deleted
Project stays. -/
theorem project_ready_unscaffolded :
    (∃ s', Machine.Reaches (ProjectWorld.step true) Machine.always (.created {} false)
        unscaffoldedWorld ∧
      unscaffoldedWorld.step true (.reconcile 2 {}) = some s' ∧
      readyNow unscaffoldedWorld.object = false ∧ readyNow s'.object ∧
      ¬ (s'.repo.scaffolded ∨ s'.repo.older)) ∧
    (reconcileProject false { versions := [] } 0 {} { deleting := true, finalizer := true }
      ⟨false, false, false⟩).removesFinalizer = false := by
  refine ⟨⟨_, Machine.reaches_replay unscaffolded rfl, rfl, rfl, rfl, ?_⟩, rfl⟩
  decide

end Uncworks
