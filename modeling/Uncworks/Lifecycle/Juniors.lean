import Mathlib.Data.List.Nodup
import Uncworks.Durable.Frame
import Uncworks.Lifecycle.Closing

/-!
# Juniors of a manual orchestration

A manual orchestration runs its tasks as child workflows.  `SpawnJuniorWorkflow` hands the parent's
approval mode down, and `runManualOrchestration` leaves it empty, which the gate of the junior reads
as `hybrid` (`juniorInput_ne_spawnedInput`).
-/

namespace Uncworks

open Durable Run List

variable {env : Env} {input : WorkflowInput} {task : OrchestrationTask} {c : Run}
  {err : Option WorkflowError}

/-! ## Two ways to build a junior -/

/-- What a parent that spawns the junior of a task hands to `SpawnJuniorWorkflow`. -/
def spawnRequest (input : WorkflowInput) (task : OrchestrationTask) : SpawnJuniorInput where
  parentRunName := input.agentRunName
  namespace_ := input.namespace_
  task := task.prompt
  taskName := task.name
  repos := if task.repoURLs.isEmpty then input.repos else task.repoURLs.map fun u => { url := u }
  devboxConfig := input.devboxConfig
  ttlSeconds := input.ttlSeconds
  image := input.image
  envVars := input.envVars
  blocking := true
  modelTier := input.modelTier
  maxBudget := input.maxBudget
  liteLLMBaseURL := input.liteLLMBaseURL
  specRunID := if input.specRunID = "" then input.agentRunName else input.specRunID
  gitHubTokenSecretName := input.gitHubTokenSecretName
  approvalMode := input.approvalMode

theorem juniorApprovalMode_ne_empty (env : Env) (parent : String) :
    juniorApprovalMode env parent ≠ "" := by
  unfold juniorApprovalMode
  dsimp only
  split_ifs with h
  · exact h
  · decide

theorem spawnedInput_approvalMode {request} :
    (spawnedInput env request).approvalMode = juniorApprovalMode env request.approvalMode := by
  rw [spawnedInput]

theorem approvalForm_juniorInput : approvalForm env (preamble (juniorInput env input task)) = "" := by
  have hmode : (preamble (juniorInput env input task)).approvalMode = "" := rfl
  have htrim : Go.trimSpace "" = "" := by decide
  rw [approvalForm, hmode, htrim]
  simp [Go.Lib.toLower]

theorem pipeline?_juniorInput (clock : ℕ) :
    pipeline? { env with nowMilli := clock } (juniorInput env input task) =
      some ⟨false, { env with nowMilli := clock }, preamble (juniorInput env input task)⟩ := rfl

theorem humanApproved_of_junior (h : (start env (juniorInput env input task)).Reaches c)
    (hret : c.returned? = some err) (hphase : c.world.st.state.phase = .succeeded) :
    HumanApproved env c.world.log := by
  have hst := passed_of_succeeded (pipeline?_juniorInput env.nowMilli) h hret hphase
  rcases Pipeline.reviewed_of_ending (by rw [hst]; rfl) with hhuman | ⟨hno, -⟩
  · exact hhuman
  · exact absurd (asksHuman_of_form (.inl approvalForm_juniorInput)) hno

/-- The input that a manual orchestration gives a junior differs from that of `SpawnJuniorWorkflow`
in the approval mode alone, and so no junior of a manual orchestration succeeds before a human has
approved it. -/
theorem juniorInput_ne_spawnedInput (env : Env) (input : WorkflowInput) (task : OrchestrationTask) :
    juniorInput env input task ≠ spawnedInput env (spawnRequest input task) ∧
      { juniorInput env input task with approvalMode := juniorApprovalMode env input.approvalMode } =
        spawnedInput env (spawnRequest input task) ∧
      ∀ (c : Run) err, (Run.start env (juniorInput env input task)).Reaches c →
        c.returned? = some err → c.world.st.state.phase = .succeeded →
        HumanApproved env c.world.log := by
  refine ⟨fun h => ?_, by rw [juniorInput, spawnedInput, spawnRequest, taskSuffix],
    fun c err h hret hphase => humanApproved_of_junior h hret hphase⟩
  have hmode := congrArg WorkflowInput.approvalMode h
  rw [spawnedInput_approvalMode] at hmode
  exact juniorApprovalMode_ne_empty env _ hmode.symm

/-- The junior of a parent that leaves its approval mode unset, when its agent has completed. -/
def gatedJunior : Run :=
  after (juniorInput sampleEnv {} { name := "docs", prompt := "Write the docs" })
    (smoothly 6 ++ [.fire (Timer.poll 5)] ++ smoothly 2)

/-- `SpawnJuniorWorkflow` would have given it no gate; it waits for a human. -/
theorem gatedJunior_blocked :
    (spawnedInput sampleEnv
        (spawnRequest {} { name := "docs", prompt := "Write the docs" })).approvalMode = "none" ∧
      (juniorInput sampleEnv {} { name := "docs", prompt := "Write the docs" }).approvalMode = "" ∧
      (Run.start sampleEnv
        (juniorInput sampleEnv {} { name := "docs", prompt := "Write the docs" })).Reaches gatedJunior ∧
      (∃ k, gatedJunior.control = .blocked gateGuards k) ∧
      gatedJunior.world.st.state.phase = .waitingForInput :=
  ⟨by decide, rfl, Run.reaches_after _ _, ⟨_, rfl⟩, rfl⟩

/-! ## What becomes of the juniors -/

inductive Junior where
  | unstarted
  /-- The service ended its execution before the workflow function returned. -/
  | terminated
  /-- Its workflow function returned. -/
  | returned (c : Run) (err : Option WorkflowError)

def Junior.isOk : Junior → Bool
  | .returned _ none => true
  | _ => false

def Junior.Succeeded : Junior → Prop
  | .returned c _ => c.world.st.state.phase = .succeeded
  | _ => False

/-- The juniors of a manual orchestration: the one at `i` is the child workflow of task `i`. -/
structure Juniors (env : Env) (input : WorkflowInput) where
  at_ : ℕ → Junior
  /-- A junior that returned is a run of its own. -/
  run : ∀ i task c err, input.orchestration[i]? = some task → at_ i = .returned c err →
    (∃ clock, (start { env with nowMilli := clock } (juniorInput env input task)).Reaches c) ∧
      c.returned? = some err
  /-- All are started at once, and one whose name is taken is not started. -/
  exclusive : ∀ i j task task', i < j → input.orchestration[i]? = some task →
    input.orchestration[j]? = some task' →
    (juniorInput env input task).agentRunName = (juniorInput env input task').agentRunName →
    at_ i ≠ .unstarted → at_ j = .unstarted

/-- The history of the parent fits its juniors: only what it issued was started, and its futures are
resolved as the executions closed. -/
structure Juniors.Fit (J : Juniors env input) (log : History) : Prop where
  issued : ∀ i task, input.orchestration[i]? = some task → J.at_ i ≠ .unstarted →
    .issued (.childWorkflow (juniorInput env input task)) ∈ log
  replied : ∀ i r, .completed (.awaitChild i) r ∈ log → r.isOk = (J.at_ i).isOk

theorem Juniors.isOk_of_succeeded (J : Juniors env input) {i}
    (hi : input.orchestration[i]? = some task) (h : (J.at_ i).Succeeded) : (J.at_ i).isOk := by
  rcases hj : J.at_ i with _ | _ | ⟨c, err⟩ <;> rw [hj] at h
  · exact h.elim
  · exact h.elim
  · obtain ⟨⟨clock, hreach⟩, hret⟩ := J.run i task c err hi hj
    obtain ⟨e, -, hv, he⟩ := ends (pipeline?_juniorInput clock) hreach hret
    rw [show c.world.st.state.phase = .succeeded from h] at hv
    rcases e with (_ | _) | _ | _ | _ | _ | _ <;> cases hv
    cases he
    rfl

/-! ## The parent -/

/-- The replies about juniors that agree with `ok`. -/
def Agrees (ok : ℕ → Bool) : Entry temporal Vars → Prop
  | .completed (.awaitChild i) r => r.isOk = ok i
  | _ => True

section Parent

variable {ok : ℕ → Bool} {E : Option WorkflowError → Vars → Prop → Prop} {v : Vars} {m : Prop}

theorem spawnJuniors_wp_agrees {Q : Unit → Vars → Prop → Prop} {tasks} (hQ : ∀ m', Q () v m') :
    (spawnJuniors env input tasks).wp (.every (Agrees ok)) Q E v m := by
  induction tasks generalizing m with
  | nil => exact (Flow.wp_pure _).2 (hQ m)
  | cons task tasks ih =>
    simp only [spawnJuniors, Flow.wp_bind, Flow.wp_issue]
    exact ⟨⟨trivial, ih⟩, trivial, ih⟩

theorem awaitJuniors_wp_agrees {Q : List String → Vars → Prop → Prop}
    {tasks i failedTasks}
    (hQ : ∀ names m', (m' → m) →
      (m' → (names = [] ↔ failedTasks = [] ∧ ∀ j < tasks.length, ok (i + j))) → Q names v m') :
    (awaitJuniors tasks i failedTasks).wp (.every (Agrees ok)) Q E v m := by
  induction tasks generalizing i failedTasks m with
  | nil => exact (Flow.wp_pure _).2 (hQ _ m id fun _ => by simp)
  | cons task tasks ih =>
    simp only [awaitJuniors, Flow.wp_bind]
    refine Flow.wp_execDetached.2 ⟨trivial, fun r => ⟨trivial, ?_⟩⟩
    -- The reply to this junior is `ok i`; the others are shifted by one.
    have hshift : (∀ j < (task :: tasks).length, ok (i + j)) ↔
        ok i ∧ ∀ j < tasks.length, ok (i + 1 + j) := by
      simp only [length_cons, Nat.forall_lt_succ_left]
      refine and_congr_right fun _ => forall_congr' fun j => ?_
      rw [show i + (j + 1) = i + 1 + j by omega]
    rcases r with f | u
    · refine ih fun names m' hm hiff => hQ names m' (fun h => (hm h).1.1) fun h => ?_
      have hno : false = ok i := (hm h).2
      rw [hiff h, hshift, ← hno]
      simp
    · refine ih fun names m' hm hiff => hQ names m' (fun h => (hm h).1.1) fun h => ?_
      have hyes : true = ok i := (hm h).2
      rw [hiff h, hshift, ← hyes]
      simp

theorem runManualOrchestration_wp_agrees :
    (runManualOrchestration env input).wp (.every (Agrees ok)) (fun _ v m =>
      m → (v.state.phase = .succeeded ↔
        ∀ j < (input.orchestration.take maxOrchestrationTasks).length, ok j)) E v m := by
  simp only [runManualOrchestration, Flow.wp_bind, Flow.wp_update]
  refine spawnJuniors_wp_agrees fun m₁ => awaitJuniors_wp_agrees fun names m' _ hiff => ?_
  split_ifs with hnames <;> simp only [setPhase, Flow.wp_bind, Flow.wp_update, Flow.wp_pure]
  · intro hm
    simpa using ((hiff hm).1 (by simpa using hnames)).2
  · intro hm
    simp only [reduceCtorEq, false_iff]
    intro hall
    exact hnames (by simpa using (hiff hm).2 ⟨rfl, by simpa using hall⟩)

end Parent

/-- A manual orchestration ends in the phase `Succeeded` if and only if every junior it looks at
closed without an error. -/
theorem Juniors.Fit.phase_iff {J : Juniors env input}
    (h : (of (runManualOrchestration env input)).Reaches c) (hret : c.returned? = some err)
    (hJ : J.Fit c.world.log) : c.world.st.state.phase = .succeeded ↔
      ∀ i < (input.orchestration.take maxOrchestrationTasks).length, (J.at_ i).isOk := by
  have hagree : ∀ e ∈ c.world.log, Agrees (fun i => (J.at_ i).isOk) e := by
    intro e he
    unfold Agrees
    split
    · exact hJ.replied _ _ he
    · trivial
  simp only [returned?, Option.map_eq_some_iff] at hret
  obtain ⟨r, hr, -⟩ := hret
  have hwp : (runManualOrchestration env input).prog.wp (.every (Agrees fun i => (J.at_ i).isOk))
      (fun _ v m => m → (v.state.phase = .succeeded ↔
        ∀ j < (input.orchestration.take maxOrchestrationTasks).length, (J.at_ j).isOk))
      noVars True :=
    Flow.wp_prog.2 (Flow.wp_mono (runManualOrchestration_wp_agrees (E := fun _ _ _ => False))
      (fun _ _ _ hr => hr) fun _ _ _ hf => hf.elim)
  exact (Prog.wp_sound trivial hwp h).result hr (Monitor.observe_every.2 hagree)

/-- A manual orchestration succeeds if and only if every task among the first
`maxOrchestrationTasks` had a junior of its own that succeeded, where no junior closes without an
error in another phase. -/
theorem manual_succeeded_iff (h : (Run.of (runManualOrchestration env input)).Reaches c)
    (hret : c.returned? = some err) (J : Juniors env input) (hJ : J.Fit c.world.log)
    (hquiet : ∀ i c', J.at_ i = .returned c' none → c'.world.st.state.phase = .succeeded) :
    c.world.st.state.phase = .succeeded ↔
      ∀ i < min maxOrchestrationTasks input.orchestration.length, (J.at_ i).Succeeded := by
  rw [hJ.phase_iff h hret, List.length_take]
  refine forall₂_congr fun i hi => ?_
  obtain ⟨task, htask⟩ : ∃ task, input.orchestration[i]? = some task :=
    ⟨_, List.getElem?_eq_getElem (by omega)⟩
  refine ⟨fun hok => ?_, J.isOk_of_succeeded htask⟩
  rcases hj : J.at_ i with _ | _ | ⟨c', _ | e⟩ <;> rw [hj] at hok
  · cases hok
  · cases hok
  · exact hquiet i c' hj
  · cases hok

def approvedJunior (input : WorkflowInput) (task : OrchestrationTask) : Run :=
  after (juniorInput sampleEnv input task) (smoothly 6 ++ [.fire (Timer.poll 5)] ++ smoothly 2 ++
    [.signal Channel.approvalDecision { approved := true }] ++ smoothly 8)

def distinctJuniors (input : WorkflowInput) (run : OrchestrationTask → Run)
    (hnames : (input.orchestration.map fun t => (juniorInput sampleEnv input t).agentRunName).Nodup)
    (hrun : ∀ task ∈ input.orchestration,
      (start sampleEnv (juniorInput sampleEnv input task)).Reaches (run task) ∧
        (run task).returned? = some none) : Juniors sampleEnv input where
  at_ i := match (input.orchestration.take maxOrchestrationTasks)[i]? with
    | some task => .returned (run task) none
    | none => .unstarted
  run i task c err htask hi := by
    split at hi
    · rename_i task' htask'
      rw [getElem?_take] at htask'
      split_ifs at htask'
      obtain rfl : task' = task := Option.some.inj (htask'.symm.trans htask)
      cases hi
      obtain ⟨hreach, hret⟩ := hrun _ (mem_of_getElem? htask)
      exact ⟨⟨0, hreach⟩, hret⟩
    · cases hi
  exclusive i j task task' hij hi hj hname := by
    have hmap : ∀ {k : ℕ} {t}, input.orchestration[k]? = some t →
        (input.orchestration.map fun t => (juniorInput sampleEnv input t).agentRunName)[k]? =
          some (juniorInput sampleEnv input t).agentRunName := by
      intro k t hk
      rw [List.getElem?_map, hk]
      rfl
    have hlt := (List.getElem?_eq_some_iff.1 (hmap hj)).1
    have hne := nodup_iff_getElem?_ne_getElem?.1 hnames i j hij hlt
    rw [hmap hi, hmap hj, hname] at hne
    exact absurd rfl hne

/-- Whether an entry is no reply to one of the first `n` tasks, or a good one. -/
def isGoodReply (n : ℕ) : Entry temporal Vars → Bool
  | .completed (.awaitChild i) r => r.isOk && decide (i < n)
  | _ => true

theorem distinctJuniors_fit {input : WorkflowInput} {run} {hnames hrun}
    {log rest : History}
    (hlog : log = (input.orchestration.take maxOrchestrationTasks).map
      (fun t => .issued (.childWorkflow (juniorInput sampleEnv input t))) ++ rest)
    (hgood : log.all (isGoodReply (input.orchestration.take maxOrchestrationTasks).length)) :
    (distinctJuniors input run hnames hrun).Fit log where
  issued i task htask hi := by
    have htake : (input.orchestration.take maxOrchestrationTasks)[i]? = some task := by
      dsimp only [distinctJuniors] at hi
      split at hi
      · rename_i task' htask'
        rw [htask', ← htask, ← htask', getElem?_take]
        rw [getElem?_take] at htask'
        split_ifs at htask' ⊢
        rfl
      · exact absurd rfl hi
    rw [hlog]
    exact mem_append_left _ (mem_map.2 ⟨task, mem_of_getElem? htake, rfl⟩)
  replied i r hr := by
    have hgood := all_eq_true.1 hgood _ hr
    obtain ⟨hok, hlt⟩ := Bool.and_eq_true_iff.1 hgood
    rw [hok]
    dsimp only [distinctJuniors]
    rw [getElem?_eq_getElem (by simpa using hlt)]
    rfl

def manualRun (input : WorkflowInput) (n : ℕ) : Run :=
  Config.after 60 (of (runManualOrchestration sampleEnv input)) (smoothly n)

def twoTasks : WorkflowInput where
  agentRunName := "release"
  orchestrationMode := .manual
  orchestration := [{ name := "docs", prompt := "Write" }, { name := "tests", prompt := "Test" }]

def twoJuniors : Juniors sampleEnv twoTasks :=
  distinctJuniors twoTasks (approvedJunior twoTasks) (by decide) (by
    simp only [twoTasks, forall_mem_cons, not_mem_nil, false_implies, implies_true, and_true]
    exact ⟨⟨reaches_after _ _, rfl⟩, reaches_after _ _, rfl⟩)

theorem manual_succeeded_iff_twoTasks :
    (twoJuniors.at_ 0).Succeeded ∧ (twoJuniors.at_ 1).Succeeded := by
  have hquiet : ∀ i c', twoJuniors.at_ i = .returned c' none → c'.world.st.state.phase = .succeeded := by
    rintro (_ | _ | i) c' hi
    · cases hi; rfl
    · cases hi; rfl
    · cases hi
  have hall := (manual_succeeded_iff (c := manualRun twoTasks 2) (Config.reaches_after _ _ _) rfl
    twoJuniors (distinctJuniors_fit rfl rfl) hquiet).1 rfl
  exact ⟨hall 0 (by decide), hall 1 (by decide)⟩

def eightTasks : WorkflowInput where
  agentRunName := "release"
  orchestrationMode := .manual
  orchestration := ["a", "b", "c", "d", "e", "f", "g", "h"].map fun n => { name := n, prompt := n }

def sevenJuniors : Juniors sampleEnv eightTasks :=
  distinctJuniors eightTasks (approvedJunior eightTasks) (by decide) (by
    simp only [eightTasks, map_cons, map_nil, forall_mem_cons, not_mem_nil,
      false_implies, implies_true, and_true]
    exact ⟨⟨reaches_after _ _, rfl⟩, ⟨reaches_after _ _, rfl⟩, ⟨reaches_after _ _, rfl⟩,
      ⟨reaches_after _ _, rfl⟩, ⟨reaches_after _ _, rfl⟩, ⟨reaches_after _ _, rfl⟩,
      ⟨reaches_after _ _, rfl⟩, ⟨reaches_after _ _, rfl⟩⟩)

/-- The parent succeeds, and its eighth task was never run. -/
theorem eighth_task_dropped :
    (Run.of (runManualOrchestration sampleEnv eightTasks)).Reaches (manualRun eightTasks 7) ∧
      (manualRun eightTasks 7).returned? = some none ∧
      sevenJuniors.Fit (manualRun eightTasks 7).world.log ∧
      (manualRun eightTasks 7).world.st.state.phase = .succeeded ∧
      sevenJuniors.at_ 7 = .unstarted ∧
      ¬ ∀ i < eightTasks.orchestration.length, (sevenJuniors.at_ i).Succeeded :=
  ⟨Config.reaches_after _ _ _, rfl, distinctJuniors_fit rfl rfl, rfl, rfl, fun h => h 7 (by decide)⟩

end Uncworks
