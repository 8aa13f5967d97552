import Uncworks.Controller.Mapping
import Uncworks.Lifecycle.Footprint

/-!
# CI autofix

The `check_run` webhook: a failure on an `aot/` branch is counted against the retry limit of the
branch, debounced by a timer per commit, and then turned into a spec-driven AgentRun that is to push
its fix to the same branch.  The handlers run concurrently, so a failure is on its way in four phases:
counted, armed, firing and creating.
-/

namespace Uncworks

open Durable List

/-! ## The handler -/

structure CheckRunPayload where
  action : String
  conclusion : String
  headSHA : String
  headBranch : String
  fullName : String

structure CIAutofix where
  namespace_ : String
  maxRetries : ℕ

def newCIAutofix (ns : String) (maxRetries : ℤ) : CIAutofix where
  namespace_ := ns
  maxRetries := if maxRetries ≤ 0 then 3 else maxRetries.toNat

def AgentRunCRD.prBranch (run : AgentRunCRD) : String := run.annotation "aot.uncworks.io/pr-branch"

def AgentRunCRD.fixes (branch : String) (run : AgentRunCRD) : Bool :=
  run.prBranch = branch ∧ Go.hasPrefix run.spec.specSource "ci-autofix:"

def getFixAttemptCount (runs : List AgentRunCRD) (branch : String) : ℕ :=
  runs.countP (·.fixes branch)

/-- The first part of `HandleCheckRunEvent`: the attempts so far, if the failure is to be fixed;
none when the runs cannot be listed. -/
def CIAutofix.countAttempts (ci : CIAutofix) (listed : Option (List AgentRunCRD))
    (payload : CheckRunPayload) : Option ℕ :=
  if payload.action ≠ "completed" then none
  else if payload.conclusion ≠ "failure" then none
  else if !Go.hasPrefix payload.headBranch "aot/" then none
  else
    let attempts := match listed with
      | some runs => getFixAttemptCount runs payload.headBranch
      | none => 0
    if ci.maxRetries ≤ attempts then none else some attempts

def fixPrompt (branch ciLogs : String) : String :=
  s!"The CI checks failed on branch {branch}. Fix the failing checks.\n\n" ++
  s!"## CI Error Output\n{ciLogs}\n\n" ++
  "## Instructions\n- Read the error messages carefully\n" ++
  "- Fix only the issues identified in the CI output\n- Do not make unrelated changes\n" ++
  "- Run any test commands locally to verify before completing"

/-- `createFixRun`: the AgentRun it creates, under the name the API server generates for it. -/
def CIAutofix.createFixRun (ci : CIAutofix) (repoFullName branch sha : String) (attempt : ℕ)
    (ciLogs name : String) : Except String AgentRunCRD :=
  match Go.splitN '/' 2 repoFullName.toList with
  | [owner, repo] => .ok
    { name
      namespace_ := ci.namespace_
      annotations := [("aot.uncworks.io/pr-branch", branch), ("aot.uncworks.io/ci-fix-sha", sha),
        ("aot.uncworks.io/ci-fix-attempt", toString attempt)]
      spec :=
        { repos := [{ url := s!"https://github.com/{owner}/{repo}.git", branch }]
          prompt := fixPrompt branch ciLogs
          ttlSeconds := 1800
          modelTier := "deepseek-v3.1"
          orchestrationMode := .specDriven
          specSource :=
            "ci-autofix:" ++ s!"{owner}/{repo}#{String.ofList (sha.toList.take 8)}"
          autoPush := true
          autoPR := false } }
  | _ => .error s!"invalid input: invalid repo name: {repoFullName}"

/-! ## The system -/

inductive FixPhase where
  | counted
  | armed
  | firing
  | creating
  deriving DecidableEq, Repr

structure Fix where
  id : ℕ
  repo : String
  branch : String
  sha : String
  attempts : ℕ
  phase : FixPhase

structure FixPush where
  run : AgentRunCRD
  target : String

/-- The webhook server, the AgentRuns of its namespace, and what the fix runs have done. -/
structure AutofixState where
  runs : List AgentRunCRD
  /-- The failures on their way. -/
  fixes : List Fix := []
  /-- The timer of each commit. -/
  pendingFixes : String → Option ℕ := fun _ => none
  nextID : ℕ := 0
  created : List AgentRunCRD := []
  /-- All pushes of fix runs so far. -/
  pushes : List FixPush := []

namespace AutofixState

variable (s : AutofixState)

/-- The failures on their way once the timer of a commit is stopped, unless it has expired. -/
def stopTimer (sha : String) : List Fix :=
  match s.pendingFixes sha with
  | some id => s.fixes.filter fun f => ¬ (f.id = id ∧ f.phase = .armed)
  | none => s.fixes

theorem stopTimer_subset (sha : String) : s.stopTimer sha ⊆ s.fixes := by
  unfold stopTimer
  split
  · exact fun _ hf => (mem_filter.1 hf).1
  · exact Subset.refl _

def move (fixes : List Fix) (f : Fix) (phase : FixPhase) : List Fix :=
  fixes.filter (·.id ≠ f.id) ++ [{ f with phase }]

/-- The fix runs of one branch lead to another: one of them pushed there. -/
def LeadsTo (source target : String) : Prop :=
  ∃ p ∈ s.pushes, p.run.prBranch = source ∧ p.target = target

def Descends : String → String → Prop := Relation.ReflTransGen s.LeadsTo

end AutofixState

inductive AutofixAct where
  | detect (payload : CheckRunPayload) (listed : Bool)
  | arm (f : Fix)
  | fire (f : Fix)
  | unlock (f : Fix)
  | create (f : Fix) (name ciLogs : String)
  | drop (f : Fix)
  | push (run : AgentRunCRD)
  | addRun (run : AgentRunCRD)
  | removeRun (name : String)

section System

variable (ci : CIAutofix) (env : Env) (liteLLMBaseURL gitHubTokenSecretName : String)

def fixWorkflow (run : AgentRunCRD) : Run :=
  Run.start env (buildWorkflowInput run liteLLMBaseURL gitHubTokenSecretName)

inductive AutofixStep : AutofixState → AutofixAct → AutofixState → Prop
  | detect {s attempts} (payload : CheckRunPayload) (listed : Bool)
      (h : ci.countAttempts (if listed then some s.runs else none) payload = some attempts) :
      AutofixStep s (.detect payload listed) { s with
        fixes := s.fixes ++ [⟨s.nextID, payload.fullName, payload.headBranch, payload.headSHA,
          attempts, .counted⟩]
        nextID := s.nextID + 1 }
  | arm {s} (f : Fix) (hf : f ∈ s.fixes) (hp : f.phase = .counted) :
      AutofixStep s (.arm f) { s with
        fixes := AutofixState.move (s.stopTimer f.sha) f .armed
        pendingFixes := Function.update s.pendingFixes f.sha (some f.id) }
  | fire {s} (f : Fix) (hf : f ∈ s.fixes) (hp : f.phase = .armed) :
      AutofixStep s (.fire f) { s with fixes := AutofixState.move s.fixes f .firing }
  | unlock {s} (f : Fix) (hf : f ∈ s.fixes) (hp : f.phase = .firing) :
      AutofixStep s (.unlock f) { s with
        fixes := AutofixState.move s.fixes f .creating
        pendingFixes := Function.update s.pendingFixes f.sha none }
  | create {s run} (f : Fix) (name ciLogs : String) (hf : f ∈ s.fixes) (hp : f.phase = .creating)
      (h : ci.createFixRun f.repo f.branch f.sha (f.attempts + 1) ciLogs name = .ok run) :
      AutofixStep s (.create f name ciLogs) { s with
        fixes := s.fixes.filter (·.id ≠ f.id)
        runs := s.runs ++ [run]
        created := s.created ++ [run] }
  | drop {s} (f : Fix) : AutofixStep s (.drop f) { s with fixes := s.fixes.filter (·.id ≠ f.id) }
  | push {s c i v} (run : AgentRunCRD) (hrun : run ∈ s.created)
      (hc : (fixWorkflow env liteLLMBaseURL gitHubTokenSecretName run).Reaches c)
      (hi : .scheduled (.pushChanges i) v ∈ c.world.log) :
      AutofixStep s (.push run) { s with pushes := s.pushes ++ [⟨run, i.branchName⟩] }
  | addRun {s} (run : AgentRunCRD) : AutofixStep s (.addRun run) { s with runs := s.runs ++ [run] }
  | removeRun {s} (name : String) : AutofixStep s (.removeRun name) { s with
      runs := s.runs.filter (·.name ≠ name) }

/-- A fix run pushes only if the branch that bears its name is the one it is for; when a failure is
armed, the attempts it counted are still the fix runs of its branch, and no other failure on that
branch is on its way, apart from the one whose timer it stops; and fix runs are not removed. -/
def Orderly (s : AutofixState) : AutofixAct → Prop
  | .arm f => f.attempts = getFixAttemptCount s.runs f.branch ∧
    ∀ f' ∈ s.stopTimer f.sha, f'.phase ≠ .counted → f'.branch ≠ f.branch
  | .push run => s!"aot/{run.name}" = run.prBranch
  | .removeRun name => ∀ run ∈ s.created, run.name ≠ name
  | _ => True

inductive AutofixReaches (C : AutofixState → AutofixAct → Prop) (runs : List AgentRunCRD) :
    AutofixState → Prop
  | start : AutofixReaches C runs { runs }
  | step {s a s'} (h : AutofixReaches C runs s)
      (hs : AutofixStep ci env liteLLMBaseURL gitHubTokenSecretName s a s') (ha : C s a) :
      AutofixReaches C runs s'

end System

/-! ## What a fix run pushes -/

section Push

variable {env : Env} {input : WorkflowInput} {c : Run} {i : PushChangesInput} {v : Vars}

def pushesTo (branch : String) : Footprint where
  commands c := ∀ i, c = .pushChanges i → i.branchName = branch
  keeps _ := True
  plain c hc i hi := by subst hi; cases hc
  state _ _ _ := trivial
  podIP _ _ _ := trivial

theorem push_branchName (hmode : input.orchestrationMode = .specDriven)
    (h : (Run.start env input).Reaches c) (hi : .scheduled (.pushChanges i) v ∈ c.world.log) :
    i.branchName = s!"aot/{input.agentRunName}" := by
  have hmode' : (preamble input).orchestrationMode = .specDriven := by simp [preamble, hmode]
  have hcovers : (pushesTo (branchName input)).Covers (agentRunWorkflow env input) fun _ => True := by
    simp only [agentRunWorkflow, hmode']
    have hother : ∀ c : Command, c.isStage = false → (pushesTo (branchName input)).commands c := by
      rintro c hc i rfl
      cases hc
    refine (pushesTo _).walk.runSpecDrivenPipeline (Footprint.covers_update fun _ => trivial) hother
      (Footprint.covers_cleanUp hother) (by simp [pushesTo]) (by simp [pushesTo]) ?_
      (by simp [pushesTo])
    rintro i hi _ ⟨⟩
    exact hi
  exact Config.Reaches.within h hcovers trivial _ hi i rfl

end Push

/-! ## The limit -/

section Limit

variable {ci : CIAutofix} {env : Env} {liteLLMBaseURL gitHubTokenSecretName : String}
  {s s' : AutofixState} {a : AutofixAct}

theorem CIAutofix.countAttempts_lt {listed payload attempts}
    (h : ci.countAttempts listed payload = some attempts) : attempts < ci.maxRetries := by
  simp only [CIAutofix.countAttempts] at h
  split_ifs at h with _ _ _ hlt
  cases h
  exact not_le.1 hlt

theorem createFixRun_ok {repo branch sha ciLogs name attempt run}
    (h : ci.createFixRun repo branch sha attempt ciLogs name = .ok run) :
    run.prBranch = branch ∧ run.fixes branch ∧ run.spec.orchestrationMode = .specDriven := by
  unfold CIAutofix.createFixRun at h
  split at h
  · cases h
    exact ⟨rfl, decide_eq_true ⟨rfl, Go.hasPrefix_append _ _⟩, rfl⟩
  · cases h

/-- What fix runs are counted by: a part of the failure that a fix run is created for, which the fix
run shows. -/
structure FixKey (ci : CIAutofix) (κ : Type*) where
  ofFix : Fix → κ
  ofRun : AgentRunCRD → κ
  phase : ∀ (f : Fix) (phase : FixPhase), ofFix { f with phase } = ofFix f
  run : ∀ {f : Fix} {attempt : ℕ} {ciLogs name : String} {run : AgentRunCRD},
    ci.createFixRun f.repo f.branch f.sha attempt ciLogs name = .ok run → ofRun run = ofFix f

namespace FixKey

variable {κ : Type*} [DecidableEq κ] (K : FixKey ci κ) {bound : ℕ}

def created (s : AutofixState) (k : κ) : ℕ := s.created.countP (K.ofRun · = k)

/-- When a failure is armed, no other one under its key is on its way, apart from the one whose
timer it stops. -/
def Alone (s : AutofixState) (f : Fix) : Prop :=
  ∀ f' ∈ s.stopTimer f.sha, f'.phase ≠ .counted → K.ofFix f' ≠ K.ofFix f

/-- At most `bound` fix runs are created under each key, and one failure at a time is on its way to
the next. -/
structure Rationed (bound : ℕ) (s : AutofixState) : Prop where
  alone : ∀ f ∈ s.fixes, f.phase ≠ .counted → ∀ f' ∈ s.fixes, f'.phase ≠ .counted →
    K.ofFix f' = K.ofFix f → f'.id = f.id
  room : ∀ f ∈ s.fixes, f.phase ≠ .counted → K.created s (K.ofFix f) < bound
  limit : ∀ k, K.created s k ≤ bound

namespace Rationed

variable {K}

theorem start (runs : List AgentRunCRD) : K.Rationed bound { runs } where
  alone := nofun
  room := nofun
  limit _ := Nat.zero_le _

theorem fewer (h : K.Rationed bound s) (fixes : List Fix) (hsub : fixes ⊆ s.fixes) :
    K.Rationed bound { s with fixes } where
  alone f hf hp f' hf' := h.alone f (hsub hf) hp f' (hsub hf')
  room f hf := h.room f (hsub hf)
  limit := h.limit

theorem move (h : K.Rationed bound s) {f} (phase : FixPhase)
    (hroom : K.created s (K.ofFix f) < bound)
    (halone : ∀ f' ∈ s.fixes, f'.phase ≠ .counted → K.ofFix f' = K.ofFix f → f'.id = f.id) :
    K.Rationed bound { s with fixes := AutofixState.move s.fixes f phase } := by
  have hmem : ∀ {f'}, f' ∈ AutofixState.move s.fixes f phase ↔
      (f' ∈ s.fixes ∧ f'.id ≠ f.id) ∨ f' = { f with phase } := by
    simp [AutofixState.move]
  refine ⟨?_, ?_, h.limit⟩
  · intro f₁ h₁ hp₁ f₂ h₂ hp₂ hk
    obtain ⟨h₁, hid₁⟩ | rfl := hmem.1 h₁
    · obtain ⟨h₂, -⟩ | rfl := hmem.1 h₂
      · exact h.alone f₁ h₁ hp₁ f₂ h₂ hp₂ hk
      · rw [K.phase f phase] at hk
        exact absurd (halone f₁ h₁ hp₁ hk.symm) hid₁
    · obtain ⟨h₂, hid₂⟩ | rfl := hmem.1 h₂
      · rw [K.phase f phase] at hk
        exact absurd (halone f₂ h₂ hp₂ hk) hid₂
      · rfl
  · intro f' hf' hp
    obtain ⟨hf', -⟩ | rfl := hmem.1 hf'
    · exact h.room f' hf' hp
    · rw [K.phase f phase]
      exact hroom

theorem advance (h : K.Rationed bound s) {f} (phase : FixPhase) (hf : f ∈ s.fixes)
    (hp : f.phase ≠ .counted) :
    K.Rationed bound { s with fixes := AutofixState.move s.fixes f phase } :=
  h.move phase (h.room f hf hp) fun f' hf' hp' => h.alone f hf hp f' hf' hp'

theorem create (h : K.Rationed bound s) {f} (hf : f ∈ s.fixes) (hp : f.phase ≠ .counted) {run}
    (hk : K.ofRun run = K.ofFix f) :
    K.Rationed bound { s with
      fixes := s.fixes.filter (·.id ≠ f.id)
      runs := s.runs ++ [run]
      created := s.created ++ [run] } := by
  have hfewer := h.fewer (s.fixes.filter (·.id ≠ f.id)) fun _ hf => (mem_filter.1 hf).1
  have hcount : ∀ k, (s.created ++ [run]).countP (K.ofRun · = k) =
      K.created s k + if K.ofFix f = k then 1 else 0 := by
    simp [FixKey.created, countP_cons, hk]
  refine ⟨hfewer.alone, ?_, ?_⟩
  · intro f' hf' hp'
    have hother : K.ofFix f ≠ K.ofFix f' := by
      intro heq
      have hid := h.alone f hf hp f' (mem_filter.1 hf').1 hp' heq.symm
      simp [hid] at hf'
    rw [FixKey.created, hcount, if_neg hother]
    exact hfewer.room f' hf' hp'
  · intro k
    rw [FixKey.created, hcount]
    split_ifs with heq
    · exact heq ▸ h.room f hf hp
    · exact h.limit k

theorem step (h : K.Rationed bound s)
    (hs : AutofixStep ci env liteLLMBaseURL gitHubTokenSecretName s a s')
    (harm : ∀ f, a = .arm f → f ∈ s.fixes → K.created s (K.ofFix f) < bound ∧ K.Alone s f) :
    K.Rationed bound s' := by
  cases hs with
  | detect payload listed hcount =>
    refine ⟨?_, ?_, h.limit⟩
    · simpa [or_imp, forall_and] using h.alone
    · simpa [or_imp, forall_and, FixKey.created] using h.room
  | arm f hf hp =>
    obtain ⟨hroom, halone⟩ := harm f rfl hf
    have hfewer := h.fewer _ (s.stopTimer_subset f.sha)
    have hmoved := hfewer.move .armed hroom fun f' hf' hp' hk => absurd hk (halone f' hf' hp')
    exact { hmoved with }
  | fire f hf hp => exact h.advance .firing hf (by simp [hp])
  | unlock f hf hp =>
    have hmoved := h.advance .creating hf (by simp [hp])
    exact { hmoved with }
  | create f name ciLogs hf hp hcreate => exact h.create hf (by simp [hp]) (K.run hcreate)
  | drop f => exact h.fewer _ fun _ hf => (mem_filter.1 hf).1
  | push run hrun hc hi | addRun run | removeRun name => exact { h with }

end Rationed

end FixKey

theorem counted_step (h : ∀ f ∈ s.fixes, f.attempts < ci.maxRetries)
    (hs : AutofixStep ci env liteLLMBaseURL gitHubTokenSecretName s a s') :
    ∀ f ∈ s'.fixes, f.attempts < ci.maxRetries := by
  have hmove : ∀ {fixes : List Fix} {f : Fix} (phase : FixPhase), fixes ⊆ s.fixes → f ∈ s.fixes →
      ∀ f' ∈ AutofixState.move fixes f phase, f'.attempts < ci.maxRetries := by
    intro fixes f phase hsub hf
    refine forall_mem_append.2 ⟨fun f' hf' => ?_, forall_mem_singleton.2 (h f hf)⟩
    exact h f' (hsub (mem_filter.1 hf').1)
  cases hs with
  | detect payload listed hcount =>
    exact forall_mem_append.2
      ⟨h, forall_mem_singleton.2 (CIAutofix.countAttempts_lt hcount)⟩
  | arm f hf hp => exact hmove .armed (s.stopTimer_subset f.sha) hf
  | fire f hf hp => exact hmove .firing (Subset.refl _) hf
  | unlock f hf hp => exact hmove .creating (Subset.refl _) hf
  | create f name ciLogs hf hp hcreate | drop f =>
    exact fun f' hf' => h f' (mem_filter.1 hf').1
  | push run hrun hc hi | addRun run | removeRun name => exact h

def branchKey (ci : CIAutofix) : FixKey ci String where
  ofFix := (·.branch)
  ofRun := (·.prBranch)
  phase _ _ := rfl
  run h := (createFixRun_ok h).1

def AutofixState.createdFor (s : AutofixState) (branch : String) : ℕ :=
  s.created.countP (·.prBranch = branch)

structure AutofixState.Limited (ci : CIAutofix) (s : AutofixState) : Prop where
  exist : s.created.Sublist s.runs
  fixRuns : ∀ run ∈ s.created, run.fixes run.prBranch ∧ run.spec.orchestrationMode = .specDriven
  counted : ∀ f ∈ s.fixes, f.attempts < ci.maxRetries
  alone : ∀ f ∈ s.fixes, f.phase ≠ .counted → ∀ f' ∈ s.fixes, f'.phase ≠ .counted →
    f'.branch = f.branch → f'.id = f.id
  room : ∀ f ∈ s.fixes, f.phase ≠ .counted → s.createdFor f.branch < ci.maxRetries
  limit : ∀ branch, s.createdFor branch ≤ ci.maxRetries
  home : ∀ p ∈ s.pushes, p.target = p.run.prBranch

namespace AutofixState.Limited

theorem start (runs : List AgentRunCRD) : Limited ci { runs } := by
  constructor <;> simp [AutofixState.createdFor]

theorem rationed (h : Limited ci s) : (branchKey ci).Rationed ci.maxRetries s :=
  ⟨h.alone, h.room, h.limit⟩

theorem createdFor_le (h : Limited ci s) (branch : String) :
    s.createdFor branch ≤ getFixAttemptCount s.runs branch := by
  refine le_trans (countP_mono_left fun run hrun hb => ?_) h.exist.countP_le
  have hfix := (h.fixRuns run hrun).1
  rwa [of_decide_eq_true hb] at hfix

theorem step (h : Limited ci s)
    (hs : AutofixStep ci env liteLLMBaseURL gitHubTokenSecretName s a s') (ha : Orderly s a) :
    Limited ci s' := by
  have hrationed : (branchKey ci).Rationed ci.maxRetries s' := by
    refine h.rationed.step hs ?_
    rintro f rfl hf
    refine ⟨?_, ha.2⟩
    have hle := h.createdFor_le f.branch
    rw [← ha.1] at hle
    exact lt_of_le_of_lt hle (h.counted f hf)
  have hcounted := counted_step h.counted hs
  cases hs with
  | create f name ciLogs hf hp hcreate =>
    obtain ⟨hb, hfix, hmode⟩ := createFixRun_ok hcreate
    refine ⟨h.exist.append (Sublist.refl _), ?_, hcounted, hrationed.alone, hrationed.room,
      hrationed.limit, h.home⟩
    exact forall_mem_append.2 ⟨h.fixRuns, forall_mem_singleton.2 ⟨hb ▸ hfix, hmode⟩⟩
  | push run hrun hc hi =>
    refine { h with home := forall_mem_append.2 ⟨h.home, forall_mem_singleton.2 ?_⟩ }
    exact (push_branchName (h.fixRuns run hrun).2 hc hi).trans ha
  | addRun run => exact { h with exist := h.exist.trans (sublist_append_left _ _) }
  | removeRun name =>
    have hkept := filter_eq_self.2 fun run hrun => decide_eq_true (ha run hrun)
    exact { h with exist := hkept ▸ h.exist.filter _ }
  | _ =>
    exact ⟨h.exist, h.fixRuns, hcounted, hrationed.alone, hrationed.room, hrationed.limit, h.home⟩

end AutofixState.Limited

theorem AutofixReaches.limited {runs}
    (h : AutofixReaches ci env liteLLMBaseURL gitHubTokenSecretName Orderly runs s) : s.Limited ci := by
  induction h with
  | start => exact .start runs
  | step _ hs ha ih => exact ih.step hs ha

theorem AutofixState.Descends.eq {root branch} (hd : s.Descends root branch)
    (h : ∀ p ∈ s.pushes, p.target = p.run.prBranch) : branch = root := by
  induction hd with
  | refl => rfl
  | tail _ hlast ih =>
    obtain ⟨p, hp, hsource, htarget⟩ := hlast
    rw [← htarget, h p hp, hsource, ih]

/-- In every orderly run fix runs push to the branch they are for, and no more of them descend from
a pull request than the retry limit. -/
theorem fixRuns_bounded {runs : List AgentRunCRD}
    (h : AutofixReaches ci env liteLLMBaseURL gitHubTokenSecretName Orderly runs s) :
    (∀ p ∈ s.pushes, p.target = p.run.prBranch) ∧
      ∀ root (fixRuns : List AgentRunCRD), fixRuns.Sublist s.created →
        (∀ run ∈ fixRuns, s.Descends root run.prBranch) → fixRuns.length ≤ ci.maxRetries := by
  refine ⟨h.limited.home, fun root fixRuns hsub hd => ?_⟩
  have hall : ∀ run ∈ fixRuns, decide (run.prBranch = root) := fun run hrun =>
    decide_eq_true ((hd run hrun).eq h.limited.home)
  calc fixRuns.length = fixRuns.countP (·.prBranch = root) := (List.countP_eq_length.2 hall).symm
    _ ≤ s.createdFor root := hsub.countP_le
    _ ≤ ci.maxRetries := h.limited.limit root

/-- The acts by which a failure comes to a fix run, apart from arming its timer. -/
def AutofixAct.passes : AutofixAct → Bool
  | .detect _ _ => true
  | .fire _ => true
  | .unlock _ => true
  | .create _ _ _ => true
  | _ => false

theorem AutofixReaches.fix {C runs}
    (h : AutofixReaches ci env liteLLMBaseURL gitHubTokenSecretName C runs s)
    (hC : ∀ s a, a.passes → C s a) (hfixes : s.fixes = []) (payload : CheckRunPayload)
    (listed : Bool) (ciLogs name : String) (run : AgentRunCRD) {attempts}
    (hcount : ci.countAttempts (if listed then some s.runs else none) payload = some attempts)
    (harm : ∀ f : Fix, f = ⟨s.nextID, payload.fullName, payload.headBranch, payload.headSHA,
        attempts, .counted⟩ →
      C { s with fixes := [f], nextID := s.nextID + 1 } (.arm f))
    (hcreate : ci.createFixRun payload.fullName payload.headBranch payload.headSHA (attempts + 1)
      ciLogs name = .ok run) :
    ∃ pendingFixes, AutofixReaches ci env liteLLMBaseURL gitHubTokenSecretName C runs { s with
      fixes := []
      pendingFixes
      nextID := s.nextID + 1
      runs := s.runs ++ [run]
      created := s.created ++ [run] } := by
  obtain ⟨existing, fixes, pendingFixes, nextID, created, pushes⟩ := s
  subst hfixes
  let f (phase : FixPhase) : Fix :=
    ⟨nextID, payload.fullName, payload.headBranch, payload.headSHA, attempts, phase⟩
  let st (fixes : List Fix) (pendingFixes : String → Option ℕ) : AutofixState :=
    ⟨existing, fixes, pendingFixes, nextID + 1, created, pushes⟩
  have hmem : ∀ phase, f phase ∈ [f phase] := fun _ => mem_singleton_self _
  have hmove : ∀ phase phase', AutofixState.move [f phase] (f phase) phase' = [f phase'] := by
    simp [AutofixState.move, f]
  have hstop : (st [f .counted] pendingFixes).stopTimer payload.headSHA = [f .counted] := by
    unfold AutofixState.stopTimer
    split <;> simp [st]
  let Reaches := AutofixReaches ci env liteLLMBaseURL gitHubTokenSecretName C runs
  have hdetected := h.step (.detect payload listed hcount) (hC _ _ rfl)
  obtain ⟨p₁, harmed⟩ : ∃ p, Reaches (st [f .armed] p) :=
    ⟨_, hmove .counted .armed ▸ hstop ▸ hdetected.step (.arm _ (hmem _) rfl) (harm _ rfl)⟩
  have hfired := hmove .armed .firing ▸ harmed.step (.fire _ (hmem _) rfl) (hC _ _ rfl)
  obtain ⟨p₂, hlocked⟩ : ∃ p, Reaches (st [f .creating] p) :=
    ⟨_, hmove .firing .creating ▸ hfired.step (.unlock _ (hmem _) rfl) (hC _ _ rfl)⟩
  have hnone : [f .creating].filter (·.id ≠ (f .creating).id) = [] := by simp
  exact ⟨p₂, hnone ▸ hlocked.step (.create _ name ciLogs (hmem _) rfl hcreate) (hC _ _ rfl)⟩

theorem Orderly.of_passes (s : AutofixState) (a : AutofixAct) (h : a.passes) : Orderly s a := by
  cases a <;> first | exact trivial | cases h

theorem AutofixState.stopTimer_singleton {f} (hfixes : s.fixes = [f]) (hp : f.phase = .counted) {f'}
    (hf' : f' ∈ s.stopTimer f.sha) : f'.phase = .counted := by
  have hmem := s.stopTimer_subset f.sha hf'
  rw [hfixes, mem_singleton] at hmem
  rw [hmem]
  exact hp

end Limit

/-! ## Sample runs -/

def sampleCI : CIAutofix := newCIAutofix "default" 1

def failureOn (branch : String) : CheckRunPayload :=
  ⟨"completed", "failure", "0123456789", branch, "owner/repo"⟩

def sampleFixRun (branch name : String) : AgentRunCRD :=
  ((sampleCI.createFixRun "owner/repo" branch "0123456789" 1 "" name).toOption).getD {}

def pushingRun (run : AgentRunCRD) : Run :=
  Config.after 60 (fixWorkflow sampleEnv "" "" run)
    (smoothly 10 ++ [.fire (Timer.poll 5)] ++ smoothly 6)

abbrev SampleReaches (C : AutofixState → AutofixAct → Prop) : AutofixState → Prop :=
  AutofixReaches sampleCI sampleEnv "" "" C []

theorem SampleReaches.push {C s run i v} (h : SampleReaches C s) (hrun : run ∈ s.created)
    (hmode : run.spec.orchestrationMode = .specDriven)
    (hi : .scheduled (.pushChanges i) v ∈ (pushingRun run).world.log) (hC : C s (.push run)) :
    SampleReaches C { s with pushes := s.pushes ++ [⟨run, s!"aot/{run.name}"⟩] } := by
  have hpushed := h.step (.push run hrun (Config.reaches_after _ _ _) hi) hC
  have htarget := push_branchName hmode (Config.reaches_after _ _ _) hi
  rwa [htarget] at hpushed

/-- A fix run whose name is that of its branch may push. -/
theorem fixRuns_bounded_sameName : ∃ s, SampleReaches Orderly s ∧
    s.created = [sampleFixRun "aot/ar-1" "ar-1"] ∧ (∃ p, s.pushes = [p]) ∧
    ∀ p ∈ s.pushes, p.target = p.run.prBranch := by
  have hstart : SampleReaches Orderly { runs := [] } := .start
  obtain ⟨_, hfixed⟩ := hstart.fix Orderly.of_passes rfl (failureOn "aot/ar-1") true "" "ar-1"
    (sampleFixRun "aot/ar-1" "ar-1") rfl (by
      rintro f rfl
      exact ⟨rfl, fun f' hf' hp => absurd (AutofixState.stopTimer_singleton rfl rfl hf') hp⟩) rfl
  have hpushed := SampleReaches.push hfixed (List.mem_singleton_self _) rfl
    (List.mem_of_getLast? rfl) rfl
  exact ⟨_, hpushed, rfl, ⟨_, rfl⟩, (fixRuns_bounded hpushed).1⟩

/-- The fix run `ar-1` for `aot/ar-0` pushes to `aot/ar-1`, and a failure there is counted anew. -/
theorem fixRuns_exceed : ∃ s, SampleReaches (fun _ _ => True) s ∧
    (∃ p ∈ s.pushes, p.target ≠ p.run.prBranch) ∧
    (∀ run ∈ s.created, s.Descends "aot/ar-0" run.prBranch) ∧
    sampleCI.maxRetries < s.created.length := by
  have hstart : SampleReaches (fun _ _ => True) { runs := [] } := .start
  obtain ⟨_, hfixed⟩ := hstart.fix (fun _ _ _ => trivial) rfl (failureOn "aot/ar-0") true "" "ar-1"
    (sampleFixRun "aot/ar-0" "ar-1") rfl (fun _ _ => trivial) rfl
  have hpushed := SampleReaches.push hfixed (List.mem_singleton_self _) rfl
    (List.mem_of_getLast? rfl) trivial
  obtain ⟨_, hagain⟩ := hpushed.fix (fun _ _ _ => trivial) rfl (failureOn "aot/ar-1") true "" "ar-2"
    (sampleFixRun "aot/ar-1" "ar-2") rfl (fun _ _ => trivial) rfl
  have hbranch : (sampleFixRun "aot/ar-0" "ar-1").prBranch = "aot/ar-0" ∧
      (sampleFixRun "aot/ar-1" "ar-2").prBranch = "aot/ar-1" := ⟨rfl, rfl⟩
  refine ⟨_, hagain, ⟨_, List.mem_append_right _ (List.mem_singleton_self _), ?_⟩, ?_, ?_⟩
  · decide
  · refine List.forall_mem_append.2 ⟨List.forall_mem_singleton.2 ?_, List.forall_mem_singleton.2 ?_⟩
    · exact .refl
    · exact .single ⟨_, List.mem_append_right _ (List.mem_singleton_self _), hbranch.1, rfl⟩
  · show 1 < 2
    decide

end Uncworks
