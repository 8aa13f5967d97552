import Uncworks.Controller.Mapping
import Uncworks.Controller.Reconciler
import Uncworks.Graph.Kahn
import Uncworks.Kube.Api

/-!
# ChainRuns

`ValidateChainDAG` and the `Reconcile` of a ChainRun: the steps of a chain are started as AgentRuns
when their dependencies have succeeded, and skipped when one has failed.

A reconcile is a function of the ChainRun it read and of what its API calls return.  Time stamps,
owner references and the usage counter of templates are left out; the `condition` of a step is not
read by the code.
-/

namespace Uncworks

open List

/-! ## Types -/

structure ChainStep where
  name : String
  templateRef : String := ""
  dependsOn : List String := []
  contextFrom : String := ""
  branchFrom : String := ""
  deriving DecidableEq

inductive ChainRunStepPhase where
  | pending
  | running
  | succeeded
  | failed
  | skipped
  deriving DecidableEq, Repr

def ChainRunStepPhase.text : ChainRunStepPhase → String
  | pending => "pending"
  | running => "running"
  | succeeded => "succeeded"
  | failed => "failed"
  | skipped => "skipped"

structure ChainRunStepStatus where
  name : String
  phase : ChainRunStepPhase := .pending
  runID : String := ""
  message : String := ""
  deriving DecidableEq

inductive ChainRunPhase where
  | unset
  | pending
  | running
  | succeeded
  | failed
  | cancelled
  deriving DecidableEq, Repr

def ChainRunPhase.isTerminal (p : ChainRunPhase) : Bool :=
  p = .succeeded || p = .failed || p = .cancelled

structure ChainRunStatus where
  phase : ChainRunPhase := .unset
  steps : List ChainRunStepStatus := []
  message : String := ""
  deriving DecidableEq

structure ChainRun where
  name : String := ""
  chainRef : String := ""
  deleting : Bool := false
  finalizer : Bool := false
  status : ChainRunStatus := {}
  deriving DecidableEq

structure RunTemplateSpec where
  displayName : String := ""
  projectRef : String := ""
  repos : List Repository := []
  prompt : String := ""
  modelTier : String := ""
  manageModelTier : String := ""
  implementModelTier : String := ""
  orchestrationMode : OrchestrationMode := .unspecified
  ttlSeconds : ℤ := 0
  autoPush : Bool := false
  autoPR : Bool := false
  prBaseBranch : String := ""
  specRef : String := ""

structure ChildStatus where
  phase : AgentRunPhase := .unset
  message : String := ""
  logOutput : String := ""

structure ChildRun where
  name : String
  chainRun : String
  chain : String
  step : String
  spec : AgentRunSpec

/-! ## `ValidateChainDAG` -/

def duplicateName? : List String → List String → Option String
  | _, [] => none
  | names, n :: rest => if n ∈ names then some n else duplicateName? (n :: names) rest

def undefinedReference? (lib : Go.Lib) (names : List String) (s : ChainStep) : Option String :=
  match s.dependsOn.find? (· ∉ names) with
  | some dep => some s!"failed: step {lib.quote s.name} depends on undefined step {lib.quote dep}"
  | none =>
    if s.contextFrom ≠ "" ∧ s.contextFrom ∉ names then
      some (s!"failed: step {lib.quote s.name} contextFrom references undefined step " ++
        lib.quote s.contextFrom)
    else if s.branchFrom ≠ "" ∧ s.branchFrom ∉ names then
      some (s!"failed: step {lib.quote s.name} branchFrom references undefined step " ++
        lib.quote s.branchFrom)
    else none

/-- `ValidateChainDAG`; `queue` are the steps without dependencies, in the order of a map. -/
def validateChainDAGFrom (lib : Go.Lib) (queue : List String) (steps : List ChainStep) :
    Option String :=
  let names := steps.map ChainStep.name
  match duplicateName? [] names with
  | some n => some s!"failed: duplicate step name {lib.quote n}"
  | none =>
    match steps.findSome? (undefinedReference? lib names) with
    | some err => some err
    | none =>
      let search := Kahn.run ChainStep.name ChainStep.dependsOn steps queue
      if search.visited ≠ steps.length then some "failed: chain contains a cycle" else none

def validateChainDAG (lib : Go.Lib) (steps : List ChainStep) : Option String :=
  validateChainDAGFrom lib (Kahn.roots ChainStep.name ChainStep.dependsOn steps) steps

@[mk_iff]
structure ValidDAG (steps : List ChainStep) : Prop where
  nodup : (steps.map ChainStep.name).Nodup
  dependsOn : ∀ s ∈ steps, s.dependsOn ⊆ steps.map ChainStep.name
  contextFrom : ∀ s ∈ steps, s.contextFrom ≠ "" → s.contextFrom ∈ steps.map ChainStep.name
  branchFrom : ∀ s ∈ steps, s.branchFrom ≠ "" → s.branchFrom ∈ steps.map ChainStep.name
  ranked : Kahn.Ranked ChainStep.name ChainStep.dependsOn steps

def DependsOn (steps : List ChainStep) : String → String → Prop :=
  Relation.TransGen fun n d => ∃ s ∈ steps, s.name = n ∧ d ∈ s.dependsOn

def ChainStep.references (s : ChainStep) : List String :=
  s.dependsOn ++ [s.contextFrom, s.branchFrom].filter (· ≠ "")

theorem duplicateName?_eq_none {names rest} :
    duplicateName? names rest = none ↔ rest.Nodup ∧ ∀ n ∈ rest, n ∉ names := by
  induction rest generalizing names with
  | nil => simp [duplicateName?]
  | cons n rest ih =>
    rw [duplicateName?]
    by_cases hn : n ∈ names
    · simp [hn]
    · rw [if_neg hn, ih, nodup_cons]
      constructor
      · rintro ⟨hnd, hout⟩
        have hrest : n ∉ rest := fun h => hout n h mem_cons_self
        refine ⟨⟨hrest, hnd⟩, fun m hm => ?_⟩
        rcases mem_cons.1 hm with rfl | hm
        · exact hn
        · exact fun hmem => hout m hm (mem_cons_of_mem _ hmem)
      · rintro ⟨⟨hrest, hnd⟩, hout⟩
        refine ⟨hnd, fun m hm hmem => ?_⟩
        rcases mem_cons.1 hmem with rfl | hmem
        · exact hrest hm
        · exact hout m (mem_cons_of_mem _ hm) hmem

theorem undefinedReference?_eq_none {lib names s} :
    undefinedReference? lib names s = none ↔ s.references ⊆ names := by
  have hsub : s.references ⊆ names ↔ s.dependsOn.find? (· ∉ names) = none ∧
      ¬ (s.contextFrom ≠ "" ∧ s.contextFrom ∉ names) ∧
      ¬ (s.branchFrom ≠ "" ∧ s.branchFrom ∉ names) := by
    simp [ChainStep.references, subset_def, or_imp, forall_and]
  rw [hsub]
  unfold undefinedReference?
  cases s.dependsOn.find? (· ∉ names) with
  | some dep => simp
  | none =>
    dsimp only
    split_ifs <;> simp_all

section Validation

variable {lib : Go.Lib} {steps : List ChainStep} {queue : List String}

theorem validDAG_iff_references : ValidDAG steps ↔ (steps.map ChainStep.name).Nodup ∧
    (∀ s ∈ steps, s.references ⊆ steps.map ChainStep.name) ∧
    Kahn.Ranked ChainStep.name ChainStep.dependsOn steps := by
  simp only [validDAG_iff, ChainStep.references, subset_def, mem_append, or_imp, forall_and]
  simp [and_assoc, imp_and, forall_and]

theorem validateChainDAG_eq_none : validateChainDAG lib steps = none ↔ ValidDAG steps := by
  rw [validDAG_iff_references]
  unfold validateChainDAG validateChainDAGFrom
  dsimp only
  split
  · rename_i n hd
    refine iff_of_false nofun fun h => ?_
    rw [duplicateName?_eq_none.2 ⟨h.1, by simp⟩] at hd
    cases hd
  · rename_i hd
    have hnd := (duplicateName?_eq_none.1 hd).1
    split
    · rename_i err hr
      refine iff_of_false nofun fun h => ?_
      rw [findSome?_eq_none_iff.2 fun s hs => undefinedReference?_eq_none.2 (h.2.1 s hs)] at hr
      cases hr
    · rename_i hr
      have hrefs s hs := undefinedReference?_eq_none.1 (findSome?_eq_none_iff.1 hr s hs)
      have hdeps s hs := (append_subset.1 (hrefs s hs)).1
      have hvisit := Kahn.visited_eq_iff hnd hdeps (.refl _)
      simp only [ite_eq_right_iff, reduceCtorEq, imp_false, not_not, hvisit]
      exact ⟨fun hrank => ⟨hnd, hrefs, hrank⟩, fun h => h.2.2⟩

theorem validateChainDAGFrom_perm
    (hq : queue.Perm (Kahn.roots ChainStep.name ChainStep.dependsOn steps)) :
    validateChainDAGFrom lib queue steps = validateChainDAG lib steps := by
  unfold validateChainDAG validateChainDAGFrom
  dsimp only
  split
  · rfl
  · rename_i hd
    split
    · rfl
    · rename_i hr
      have hnd := (duplicateName?_eq_none.1 hd).1
      have hrefs s hs := undefinedReference?_eq_none.1 (findSome?_eq_none_iff.1 hr s hs)
      have hdeps s hs := (append_subset.1 (hrefs s hs)).1
      have hvisit := (Kahn.visited_eq_iff hnd hdeps hq).trans
        (Kahn.visited_eq_iff hnd hdeps (.refl _)).symm
      exact if_congr (not_congr hvisit) rfl rfl

theorem ValidDAG.congr {deps : ChainStep → List String}
    (h : ∀ s ∈ steps, ∀ n, n ∈ deps s ↔ n ∈ s.dependsOn) :
    ValidDAG (steps.map fun s => { s with dependsOn := deps s }) ↔ ValidDAG steps := by
  simp +contextual [validDAG_iff, Kahn.Ranked, Function.comp_def, subset_def, h]

end Validation

/-- `ValidateChainDAG` accepts exactly the chains without duplicate names, undefined references and
cycles.  Neither the order of the map nor a dependency that is listed twice matters. -/
theorem validateChainDAG_iff_acyclic (lib : Go.Lib) (steps : List ChainStep) {queue : List String}
    (hq : queue.Perm (Kahn.roots ChainStep.name ChainStep.dependsOn steps)) :
    (validateChainDAGFrom lib queue steps = none ↔ (steps.map ChainStep.name).Nodup ∧
      (∀ s ∈ steps, s.references ⊆ steps.map ChainStep.name) ∧ ∀ n, ¬ DependsOn steps n n) ∧
    validateChainDAGFrom lib queue steps = validateChainDAG lib steps ∧
    ∀ deps : ChainStep → List String, (∀ s ∈ steps, ∀ n, n ∈ deps s ↔ n ∈ s.dependsOn) →
      (validateChainDAG lib (steps.map fun s => { s with dependsOn := deps s }) = none ↔
        validateChainDAGFrom lib queue steps = none) := by
  rw [validateChainDAGFrom_perm hq, validateChainDAG_eq_none]
  refine ⟨?_, rfl, fun deps hdeps => validateChainDAG_eq_none.trans (ValidDAG.congr hdeps)⟩
  rw [validDAG_iff_references]
  refine and_congr_right fun _ => and_congr_right fun hrefs => Kahn.ranked_iff_acyclic fun s hs => ?_
  exact (append_subset.1 (hrefs s hs)).1

theorem validateChainDAG_iff_acyclic_diamond :
    let steps : List ChainStep := [⟨"a", "", [], "", ""⟩, ⟨"b", "", [], "", ""⟩,
      ⟨"c", "", ["a", "b", "a"], "a", ""⟩]
    validateChainDAGFrom ⟨id, some, id⟩ ["b", "a"] steps = none ∧ ∀ n, ¬ DependsOn steps n n := by
  intro steps
  have hvalid : validateChainDAGFrom ⟨id, some, id⟩ ["b", "a"] steps = none := by decide
  exact ⟨hvalid, ((validateChainDAG_iff_acyclic ⟨id, some, id⟩ steps (by decide)).1.1 hvalid).2.2⟩

/-! ## What the calls of a reconcile return -/

/-- The reply to the creation of an AgentRun; a lost one reports an error although the AgentRun
exists. -/
inductive CreateReply where
  | created (suffix : String)
  | refused (e : Kube.Error)
  | lost (suffix : String) (e : Kube.Error)

structure ChainCalls where
  chain : Except Kube.Error (List ChainStep)
  /-- The AgentRun of a step. -/
  run : ℕ → Except Kube.Error ChildStatus
  /-- The template of a step. -/
  template : ℕ → Except Kube.Error RunTemplateSpec
  /-- The AgentRun that a step takes its context from. -/
  context : ℕ → Except Kube.Error ChildStatus
  create : ℕ → CreateReply

/-! ## The loops over the steps -/

/-- The working state of a reconcile: the steps, the AgentRuns created so far, whether the status is
to be written, and whether a sweep of the failure propagation has changed a step. -/
structure ChainPass where
  steps : List ChainRunStepStatus
  created : List ChildRun := []
  updated : Bool := false
  changed : Bool := false

namespace ChainPass

def set (p : ChainPass) (i : ℕ) (s : ChainRunStepStatus) : ChainPass :=
  { p with steps := p.steps.set i s, updated := true }

def forSteps (body : ℕ → ChainRunStepStatus → ChainPass → ChainPass) (p : ChainPass) : ChainPass :=
  (range p.steps.length).foldl
    (fun p i => match p.steps[i]? with
      | some s => body i s p
      | none => p) p

end ChainPass

section

variable (steps : List ChainRunStepStatus)

def stepStatus (name : String) : Option ChainRunStepStatus := steps.reverse.find? (·.name = name)

def stepDef (defs : List ChainStep) (name : String) : Option ChainStep :=
  defs.reverse.find? (·.name = name)

def phaseOf (name : String) : Option ChainRunStepPhase :=
  (stepStatus steps name).map (·.phase)

section

variable (reply : Except Kube.Error ChildStatus)

def syncStep (s : ChainRunStepStatus) : Option ChainRunStepStatus :=
  if s.phase ≠ .running ∨ s.runID = "" then none
  else match reply with
    | .error _ => none
    | .ok run => match run.phase with
      | .succeeded => some { s with phase := .succeeded, message := "completed" }
      | .failed => some { s with phase := .failed, message := run.message }
      | .cancelled => some { s with phase := .failed, message := "cancelled" }
      | _ => none

def ChainPass.syncAt (calls : ChainCalls) (i : ℕ) (s : ChainRunStepStatus) (p : ChainPass) :
    ChainPass :=
  match syncStep (calls.run i) s with
  | some s' => p.set i s'
  | none => p

def ChainPass.sync (calls : ChainCalls) (p : ChainPass) : ChainPass := p.forSteps (syncAt calls)

def allDepsOK (d : ChainStep) : Bool :=
  d.dependsOn.all fun dep => phaseOf steps dep = some .succeeded

def contextText (run : ChildStatus) : String :=
  if run.logOutput ≠ "" then
    if run.logOutput.utf8ByteSize > 8000 then
      String.ofList (Go.lastBytes 8000 run.logOutput.toList)
    else run.logOutput
  else run.message

def contextPrompt (step text prompt : String) : String :=
  "Context from previous step '" ++ step ++ "' (agent output):\n\n" ++ text ++ "\n\n" ++ prompt

def injectContext (d : ChainStep) (prompt : String) : String :=
  if d.contextFrom = "" then prompt
  else match stepStatus steps d.contextFrom with
    | none => prompt
    | some dep =>
      if dep.runID = "" then prompt
      else match reply with
        | .error _ => prompt
        | .ok run => contextPrompt d.contextFrom (contextText run) prompt

def branchOf (d : ChainStep) : String :=
  if d.branchFrom = "" then ""
  else match stepStatus steps d.branchFrom with
    | none => ""
    | some dep => "aot/" ++ dep.runID

def withBranch (branch : String) : List Repository → List Repository
  | [] => []
  | repo :: repos => (if branch ≠ "" then { repo with branch := branch } else repo) :: repos

def childSpec (d : ChainStep) (tmpl : RunTemplateSpec) : AgentRunSpec where
  backend := .pod
  repos := withBranch (branchOf steps d) tmpl.repos
  prompt := injectContext steps reply d tmpl.prompt
  modelTier := tmpl.modelTier
  manageModelTier := tmpl.manageModelTier
  implementModelTier := tmpl.implementModelTier
  orchestrationMode := tmpl.orchestrationMode
  ttlSeconds := tmpl.ttlSeconds
  autoPush := tmpl.autoPush
  autoPR := tmpl.autoPR
  prBaseBranch := tmpl.prBaseBranch
  projectRef := tmpl.projectRef

end

end

def childRun (cr : ChainRun) (steps : List ChainRunStepStatus)
    (reply : Except Kube.Error ChildStatus) (d : ChainStep) (step : String) (tmpl : RunTemplateSpec)
    (suffix : String) : ChildRun where
  name := "ar-" ++ suffix
  chainRun := cr.name
  chain := cr.chainRef
  step := step
  spec := childSpec steps reply d tmpl

def createStep (cr : ChainRun) (calls : ChainCalls) (i : ℕ) (steps : List ChainRunStepStatus)
    (s : ChainRunStepStatus) (d : ChainStep) (tmpl : RunTemplateSpec) :
    ChainRunStepStatus × Option ChildRun :=
  let child := childRun cr steps (calls.context i) d s.name tmpl
  match calls.create i with
  | .created suffix =>
    ({ s with phase := .running, runID := "ar-" ++ suffix, message := "started" },
      some (child suffix))
  | .refused e => ({ s with phase := .failed, message := "create run: " ++ e.text }, none)
  | .lost suffix e =>
    ({ s with phase := .failed, message := "create run: " ++ e.text }, some (child suffix))

section

variable (lib : Go.Lib) (cr : ChainRun) (defs : List ChainStep) (calls : ChainCalls) (i : ℕ)

def startStep (steps : List ChainRunStepStatus) (s : ChainRunStepStatus) :
    Option (ChainRunStepStatus × Option ChildRun) :=
  if s.phase ≠ .pending then none
  else match stepDef defs s.name with
    | none => none
    | some d =>
      if !allDepsOK steps d then none
      else match calls.template i with
        | .error _ =>
          some ({ s with
            phase := .failed, message := s!"template {lib.quote d.templateRef} not found" }, none)
        | .ok tmpl => some (createStep cr calls i steps s d tmpl)

def ChainPass.startAt (s : ChainRunStepStatus) (p : ChainPass) : ChainPass :=
  match startStep lib cr defs calls i p.steps s with
  | some (s', child) => { p with created := p.created ++ child.toList }.set i s'
  | none => p

def ChainPass.start (p : ChainPass) : ChainPass := p.forSteps (startAt lib cr defs calls)

def blockingDep? (steps : List ChainRunStepStatus) (d : ChainStep) :
    Option (String × ChainRunStepPhase) :=
  d.dependsOn.findSome? fun dep => match phaseOf steps dep with
    | some .failed => some (dep, .failed)
    | some .skipped => some (dep, .skipped)
    | _ => none

def skipStep (steps : List ChainRunStepStatus) (s : ChainRunStepStatus) : Option ChainRunStepStatus :=
  if s.phase ≠ .pending then none
  else match stepDef defs s.name with
    | none => none
    | some d => match blockingDep? steps d with
      | none => none
      | some (dep, phase) =>
        some { s with
          phase := .skipped
          message := s!"skipped because dependency {lib.quote dep} {phase.text}" }

def ChainPass.skipAt (s : ChainRunStepStatus) (p : ChainPass) : ChainPass :=
  match skipStep lib defs p.steps s with
  | some s' => { p with changed := true }.set i s'
  | none => p

def ChainPass.sweep (p : ChainPass) : ChainPass :=
  { p with changed := false }.forSteps (skipAt lib defs)

end

/-- Propagate failures until stable.  Every sweep but the last one skips a step. -/
def ChainPass.propagate (lib : Go.Lib) (defs : List ChainStep) : ℕ → ChainPass → ChainPass
  | 0, p => p
  | fuel + 1, p =>
    let q := p.sweep lib defs
    if q.changed then propagate lib defs fuel q else q

def ChainPass.loops (lib : Go.Lib) (cr : ChainRun) (defs : List ChainStep) (calls : ChainCalls) :
    ChainPass :=
  (({ steps := cr.status.steps : ChainPass }.sync calls).start lib cr defs calls).propagate lib defs
    (cr.status.steps.length + 1)

/-! ## `Reconcile` -/

/-- What a reconcile does: the AgentRuns it creates, those it asks to delete, the ChainRun it writes,
and its result unless that write fails. -/
structure ChainEffects where
  created : List ChildRun := []
  deleted : List String := []
  store : Option ChainRun := none
  result : Kube.Result := .done

def allDone (steps : List ChainRunStepStatus) : Bool :=
  steps.all fun s => s.phase ≠ .pending && s.phase ≠ .running

def anyFailed (steps : List ChainRunStepStatus) : Bool := steps.any fun s => s.phase = .failed

def chainReconcileInterval : ℤ := 10 * Kube.second

def completeStatus (status : ChainRunStatus) (steps : List ChainRunStepStatus) : ChainRunStatus :=
  if allDone steps then
    if anyFailed steps then
      { phase := .failed, steps := steps, message := "one or more steps failed" }
    else { phase := .succeeded, steps := steps, message := "all steps completed" }
  else { status with steps := steps }

/-- The end of `Reconcile`: the status is written if a step or the phase has changed. -/
def finishPass (cr : ChainRun) (p : ChainPass) : ChainEffects :=
  let status := completeStatus cr.status p.steps
  { created := p.created
    store := if p.updated || allDone p.steps then some { cr with status := status } else none
    result := if status.phase = .running then .requeueAfter chainReconcileInterval else .done }

def initialStatus (status : ChainRunStatus) (defs : List ChainStep) : ChainRunStatus :=
  { status with phase := .running, steps := defs.map fun d => { name := d.name } }

def ChainRun.fail (cr : ChainRun) (message : String) : ChainRun :=
  { cr with status := { cr.status with phase := .failed, message := message } }

section

variable (lib : Go.Lib) (calls : ChainCalls) (cr : ChainRun)

def reconcileChain : ChainEffects :=
  match calls.chain with
  | .error e =>
    { store := some (cr.fail s!"chain {lib.quote cr.chainRef} not found: {e.text}") }
  | .ok defs => match validateChainDAG lib defs with
    | some err => { store := some (cr.fail s!"invalid chain DAG: {err}") }
    | none =>
      if cr.status.steps = [] then
        { store := some { cr with status := initialStatus cr.status defs }
          result := .requeueAfter Kube.second }
      else finishPass cr (ChainPass.loops lib cr defs calls)

def childRunIDs : List String :=
  cr.status.steps.zipIdx.filterMap fun (s, i) =>
    if s.runID = "" then none
    else match calls.run i with
      | .ok _ => some s.runID
      | .error _ => none

def reconcileChainRun : ChainEffects :=
  if cr.deleting then
    if cr.finalizer then
      { deleted := childRunIDs calls cr, store := some { cr with finalizer := false } }
    else {}
  else if !cr.finalizer then { store := some { cr with finalizer := true } }
  else if cr.status.phase.isTerminal then {}
  else reconcileChain lib calls cr

end

end Uncworks
