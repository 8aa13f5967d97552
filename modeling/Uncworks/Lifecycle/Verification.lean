import Uncworks.Temporal.Verify
import Uncworks.Temporal.Workflow

/-!
# What a passed verification says

Each stage of `VerifyRun` can be passed with less than evidence from the pod and the agent of the
run: a change may have a negative number of tasks, only the first item of a validation is looked
at, the specs are those of another file system, and neither is the answer to `StartAgent` read nor
is it known who wrote the verdict in the log.
-/

namespace Uncworks

section Soundness

variable {lib : Go.Lib} {json : Unmarshal} {worker : SpecFiles} {pod : Pod} {input : VerifyRunInput}

/-- A verdict without a failed criterion that passes, in a line of the agent that this execution has
started. -/
def Pod.OwnPass (lib : Go.Lib) (json : Unmarshal) (pod : Pod) : Prop :=
  ∃ l ∈ pod.log, l.own ∧ ∃ verdict, lineVerdict? lib json l.text = some verdict ∧
    verdict.pass ∧ ∀ c ∈ verdict.criteria, c.pass

structure Evidence (lib : Go.Lib) (json : Unmarshal) (pod : Pod) (input : VerifyRunInput) : Prop where
  tasks : ∃ resp change, pod.listing lib json = .ok resp ∧
    resp.findChange input.changeName = some change ∧ 0 < change.totalTasks ∧
    change.totalTasks ≤ change.completedTasks
  validated : ∃ resp, pod.validation lib json input.changeName = .ok resp ∧ resp.items ≠ [] ∧
    ∀ item ∈ resp.items, item.valid
  files : ∀ fc ∈ extractFileChecks lib pod.files input.repoPath input.changeName,
    pod.FileExists lib input.repoPath fc.path
  commands : ∀ tc ∈ detectTestCommands lib pod.files input.repoPath input.changeName,
    pod.Succeeds input.repoPath tc.command
  started : ∃ resp, pod.startAgent = .ok resp ∧ resp.started
  finished : pod.pollError? = none
  verdict : pod.OwnPass lib json

structure NothingMissed (lib : Go.Lib) (json : Unmarshal) (worker : SpecFiles) (pod : Pod)
    (input : VerifyRunInput) : Prop where
  tasks : ∀ resp change, pod.listing lib json = .ok resp →
    resp.findChange input.changeName = some change → 0 ≤ change.totalTasks
  validated : ∀ resp, pod.validation lib json input.changeName = .ok resp →
    resp.items ≠ [] ∧ ∀ item ∈ resp.items.tail, item.valid
  files : ∀ fc ∈ extractFileChecks lib pod.files input.repoPath input.changeName,
    fc.path ∉ (extractFileChecks lib worker input.repoPath input.changeName).map (·.path) →
      pod.FileExists lib input.repoPath fc.path
  commands : ∀ tc ∈ detectTestCommands lib pod.files input.repoPath input.changeName,
    tc.command ∉ (detectTestCommands lib worker input.repoPath input.changeName).map (·.command) →
      pod.Succeeds input.repoPath tc.command
  verdict : pod.OwnPass lib json

theorem Pod.OwnPass.started (h : pod.OwnPass lib json) :
    ∃ resp, pod.startAgent = .ok resp ∧ resp.started := by
  obtain ⟨l, hl, hown, -⟩ := h
  exact pod.own_started l hl hown

theorem OpenSpecValidateResponse.valid_iff {resp : OpenSpecValidateResponse}
    (h : resp.firstIssues? = none) :
    (resp.items ≠ [] ∧ ∀ item ∈ resp.items, item.valid) ↔
      resp.items ≠ [] ∧ ∀ item ∈ resp.items.tail, item.valid := by
  unfold firstIssues? at h
  rcases hitems : resp.items with _ | ⟨item, more⟩
  · simp
  · have hvalid : item.valid := by
      rw [hitems] at h
      by_contra hne
      simp [hne] at h
    simp [hvalid]

theorem Gates.evidence_iff (h : Gates lib json worker pod input) :
    Evidence lib json pod input ↔ NothingMissed lib json worker pod input := by
  obtain ⟨resp, change, hlist, hfind, hne, hdone⟩ := h.tasks
  obtain ⟨vresp, hval, hissues⟩ := h.validated
  constructor
  · intro he
    refine ⟨?_, ?_, fun fc hfc _ => he.files fc hfc, fun tc htc _ => he.commands tc htc, he.verdict⟩
    · intro resp' change' hlist' hfind'
      obtain ⟨resp'', change'', hlist'', hfind'', hpos, -⟩ := he.tasks
      cases hlist'.symm.trans hlist''
      cases hfind'.symm.trans hfind''
      omega
    · intro resp' hval'
      obtain ⟨resp'', hval'', hall⟩ := he.validated
      cases hval'.symm.trans hval''
      cases hval.symm.trans hval''
      exact (OpenSpecValidateResponse.valid_iff hissues).1 hall
  · intro hm
    have hpos := hm.tasks resp change hlist hfind
    refine ⟨⟨resp, change, hlist, hfind, by omega, hdone⟩, ⟨vresp, hval, ?_⟩, ?_, ?_,
      hm.verdict.started, h.review.2.1, hm.verdict⟩
    · exact (OpenSpecValidateResponse.valid_iff hissues).2 (hm.validated vresp hval)
    · intro fc hfc
      by_cases hmem : fc.path ∈
          (extractFileChecks lib worker input.repoPath input.changeName).map (·.path)
      · obtain ⟨fc', hfc', heq⟩ := List.mem_map.1 hmem
        rw [← heq]
        exact h.files fc' hfc'
      · exact hm.files fc hfc hmem
    · intro tc htc
      by_cases hmem : tc.command ∈
          (detectTestCommands lib worker input.repoPath input.changeName).map (·.command)
      · obtain ⟨tc', htc', heq⟩ := List.mem_map.1 hmem
        rw [← heq]
        exact h.commands tc' htc'
      · exact hm.commands tc htc hmem

/-- A pass of `VerifyRun` is backed by evidence exactly if nothing was missed, provided that all
stages let the run through. -/
theorem verifyRun_sound_iff (lib : Go.Lib) (json : Unmarshal) (worker : SpecFiles) (pod : Pod)
    (input : VerifyRunInput) :
    ((Activities.verifyRun lib json worker pod input).pass → Evidence lib json pod input) ↔
      (Gates lib json worker pod input → NothingMissed lib json worker pod input) := by
  rw [Activities.verifyRun_pass]
  exact forall_congr' Gates.evidence_iff

end Soundness

/-! ## A stale verdict -/

theorem parseOpenSpecJSON_sample {lib text}
    (hbrace : text.toList.dropWhile (· != '\x7b') = text.toList) (hne : text ≠ "") :
    parseOpenSpecJSON lib sampleUnmarshal text = .ok text := by
  unfold parseOpenSpecJSON
  rw [hbrace]
  simp [hne, sampleUnmarshal]

theorem lineVerdict?_sampleLine {lib} : lineVerdict? lib sampleUnmarshal sampleLine =
    some { pass := true, criteria := [{ scenario := "", pass := true }] } := by
  have htrim : Go.trimSpace sampleLine = sampleLine := by decide +kernel
  have hne : sampleLine ≠ "" := by decide +kernel
  have hparse : parseOpenSpecJSON lib sampleUnmarshal sampleVerdict = .ok sampleVerdict :=
    parseOpenSpecJSON_sample (by decide +kernel) (by decide +kernel)
  have hevent : sampleUnmarshal.event sampleLine =
      .ok ⟨"message_end", some ⟨"assistant", sampleContent⟩⟩ := by simp [sampleUnmarshal]
  have hcontent : sampleUnmarshal.content sampleContent =
      .ok [{ type := "text", text := sampleVerdict }] := by simp [sampleUnmarshal]
  have hverdict : sampleUnmarshal.verdict sampleVerdict =
      .ok { pass := true, criteria := [{ scenario := "", pass := true }] } := by
    simp [sampleUnmarshal]
  simp [lineVerdict?, htrim, hne, hevent, hcontent, blockVerdict?, hparse, hverdict]

theorem newline_not_mem_sampleLine : '\n' ∉ sampleLine.toList := by decide +kernel

def spentGateway : Gateway where
  process := some { state := .completed }
  runOutputTokens := 32000

def sampleVerifyInput : VerifyRunInput where
  podName := ""
  namespace_ := ""
  podIP := "10.0.0.1"
  agentRunName := "run"
  changeName := "run"
  repoPath := "/workspace"
  manageModel := "default-cloud"
  previousReviewFeedback := ""

def sampleExec : VerifyCall → (workingDir command : String) → ExecAnswer
  | .list, _, _ => .ok { stdout := sampleList }
  | .validate, _, _ => .ok { stdout := sampleValidation }
  | _, _, _ => .ok {}

/-- The gateway refuses to start the manage agent, and the log holds a verdict of an earlier agent. -/
def stalePod : Pod where
  exec := sampleExec
  startAgent := .ok (spentGateway.startAgent none).1
  agentStatus _ := .ok (spentGateway.startAgent none).2.getStatus
  polls := 1
  log := [{ text := sampleLine, own := false }]
  logCall := .ok 0
  files _ _ := []
  one_line := List.forall_mem_singleton.2 newline_not_mem_sampleLine
  own_started := List.forall_mem_singleton.2 nofun

theorem gates_of_sampleExec {pod} (hlist : pod.exec .list = sampleExec .list)
    (hval : pod.exec .validate = sampleExec .validate)
    (hreview : pod.ReviewPasses sampleEnv.toLib sampleUnmarshal) :
    Gates sampleEnv.toLib sampleUnmarshal (fun _ _ => []) pod sampleVerifyInput where
  tasks := by
    refine ⟨⟨[⟨"run", 1, 1⟩]⟩, ⟨"run", 1, 1⟩, ?_, rfl, by decide, by decide⟩
    rw [Pod.listing, hlist]
    rfl
  validated := by
    refine ⟨⟨[⟨true, []⟩]⟩, ?_, rfl⟩
    rw [Pod.validation, hval]
    rfl
  files := nofun
  commands := nofun
  review := hreview

theorem reviewPasses_of_sampleLine {pod : Pod} {own} (hstart : ∃ resp, pod.startAgent = .ok resp)
    (hpoll : pod.pollError? = none) (hcall : pod.logCall = .ok 0)
    (hlog : pod.log = [{ text := sampleLine, own }]) :
    pod.ReviewPasses sampleEnv.toLib sampleUnmarshal := by
  refine ⟨hstart, hpoll, hcall, ⟨true, [⟨"", true, ""⟩], false, "", 0⟩, ?_, rfl⟩
  simp [Pod.verdict?, Pod.logTail, hlog, lineVerdict?_sampleLine]

theorem stalePod_gates :
    Gates sampleEnv.toLib sampleUnmarshal (fun _ _ => []) stalePod sampleVerifyInput :=
  gates_of_sampleExec rfl rfl (reviewPasses_of_sampleLine ⟨_, rfl⟩ rfl rfl rfl)

/-- The run passes, although no agent has reviewed it. -/
theorem stalePod_passes :
    (Activities.verifyRun sampleEnv.toLib sampleUnmarshal (fun _ _ => []) stalePod
      sampleVerifyInput).pass ∧
      ¬ Evidence sampleEnv.toLib sampleUnmarshal stalePod sampleVerifyInput := by
  refine ⟨Activities.verifyRun_pass.2 stalePod_gates, fun h => ?_⟩
  obtain ⟨resp, hresp, hstarted⟩ := h.started
  cases hresp
  cases hstarted

/-! ## Execution after a lost result -/

section Again

variable {lib : Go.Lib} {json : Unmarshal} {worker worker' : SpecFiles} {pod pod' : Pod}
  {input : VerifyRunInput}

/-- The pod when a verification is executed again after one that passed: the verdict is the same,
and an archived change is no longer listed. -/
structure Pod.Again (lib : Go.Lib) (json : Unmarshal) (changeName : String) (pod pod' : Pod) :
    Prop where
  review : pod.ReviewPasses lib json → pod'.ReviewPasses lib json
  archived : pod.archiveError? lib changeName = none → ∀ resp, pod'.listing lib json = .ok resp →
    resp.findChange changeName = none

structure Structural (lib : Go.Lib) (json : Unmarshal) (worker : SpecFiles) (pod : Pod)
    (input : VerifyRunInput) : Prop where
  tasks : pod.TasksDone lib json input.changeName
  validated : pod.NoFirstIssues lib json input.changeName
  files : ∀ fc ∈ extractFileChecks lib worker input.repoPath input.changeName,
    pod.FileExists lib input.repoPath fc.path
  commands : ∀ tc ∈ detectTestCommands lib worker input.repoPath input.changeName,
    pod.Succeeds input.repoPath tc.command

/-- A verification that passes also passes again, exactly if the change could not be archived and
the workspace still passes the stages before the review. -/
theorem verifyRun_again_iff (h : Pod.Again lib json input.changeName pod pod')
    (hpass : (Activities.verifyRun lib json worker pod input).pass) :
    (Activities.verifyRun lib json worker' pod' input).pass ↔
      pod.archiveError? lib input.changeName ≠ none ∧ Structural lib json worker' pod' input := by
  have hreview := h.review (Activities.verifyRun_pass.1 hpass).review
  rw [Activities.verifyRun_pass]
  constructor
  · rintro ⟨htasks, hval, hfiles, hcommands, -⟩
    refine ⟨fun harchived => ?_, htasks, hval, hfiles, hcommands⟩
    obtain ⟨resp, change, hlist, hfind, -⟩ := htasks
    rw [h.archived harchived resp hlist] at hfind
    cases hfind
  · rintro ⟨-, hs⟩
    exact ⟨hs.tasks, hs.validated, hs.files, hs.commands, hreview⟩

def reviewedPod (exec : VerifyCall → (workingDir command : String) → ExecAnswer) : Pod where
  exec
  startAgent := .ok { started := true }
  agentStatus _ := .ok { state := .completed }
  polls := 1
  log := [{ text := sampleLine, own := true }]
  logCall := .ok 0
  files _ _ := []
  one_line := List.forall_mem_singleton.2 newline_not_mem_sampleLine
  own_started := fun _ _ _ => ⟨_, rfl, rfl⟩

def unarchivedExec : VerifyCall → (workingDir command : String) → ExecAnswer
  | .archive, _, _ => .ok { exitCode := 1 }
  | call, dir, command => sampleExec call dir command

def archivedExec : VerifyCall → (workingDir command : String) → ExecAnswer
  | .list, _, _ => .ok { stdout := sampleEmptyList }
  | call, dir, command => sampleExec call dir command

theorem reviewedPod_passes {exec} :
    (reviewedPod exec).ReviewPasses sampleEnv.toLib sampleUnmarshal :=
  reviewPasses_of_sampleLine ⟨_, rfl⟩ rfl rfl rfl

theorem verifyRun_again_iff_unarchived :
    (Activities.verifyRun sampleEnv.toLib sampleUnmarshal (fun _ _ => [])
      (reviewedPod unarchivedExec) sampleVerifyInput).pass := by
  have hgates : Gates sampleEnv.toLib sampleUnmarshal (fun _ _ => []) (reviewedPod unarchivedExec)
      sampleVerifyInput := gates_of_sampleExec rfl rfl reviewedPod_passes
  have hfailed : (reviewedPod unarchivedExec).archiveError? sampleEnv.toLib
      sampleVerifyInput.changeName ≠ none := nofun
  have hagain : Pod.Again sampleEnv.toLib sampleUnmarshal sampleVerifyInput.changeName
      (reviewedPod unarchivedExec) (reviewedPod unarchivedExec) := ⟨id, fun h => absurd h hfailed⟩
  have hpass := Activities.verifyRun_pass.2 hgates
  rw [verifyRun_again_iff hagain hpass]
  exact ⟨hfailed, hgates.tasks, hgates.validated, hgates.files, hgates.commands⟩

/-- The first execution passes and archives the change, the second does not find it. -/
theorem archived_change_not_found :
    Pod.Again sampleEnv.toLib sampleUnmarshal "run" (reviewedPod sampleExec)
        (reviewedPod archivedExec) ∧
      (Activities.verifyRun sampleEnv.toLib sampleUnmarshal (fun _ _ => [])
        (reviewedPod sampleExec) sampleVerifyInput).pass ∧
      ¬ (Activities.verifyRun sampleEnv.toLib sampleUnmarshal (fun _ _ => [])
        (reviewedPod archivedExec) sampleVerifyInput).pass := by
  have hempty : (reviewedPod archivedExec).listing sampleEnv.toLib sampleUnmarshal =
      .ok { changes := [] } := rfl
  have hmissing : ∀ resp, (reviewedPod archivedExec).listing sampleEnv.toLib sampleUnmarshal =
      .ok resp → resp.findChange "run" = none := by
    intro resp hresp
    cases hresp
    rfl
  refine ⟨⟨fun _ => reviewedPod_passes, fun _ => hmissing⟩, ?_, fun hpass => ?_⟩
  · exact Activities.verifyRun_pass.2 (gates_of_sampleExec rfl rfl reviewedPod_passes)
  · have hgates := Activities.verifyRun_pass.1 hpass
    obtain ⟨resp, change, hlist, hfind, -⟩ := hgates.tasks
    rw [show sampleVerifyInput.changeName = "run" from rfl, hmissing resp hlist] at hfind
    cases hfind

end Again

end Uncworks
