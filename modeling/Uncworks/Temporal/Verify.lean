import Uncworks.Temporal.OpenSpec

/-!
# Verification

`VerifyRun` checks an attempt in stages: the tasks of the change, its structure, the files and the
commands that its specs mention, and the review of a manage agent, read from the agent log.

A `Pod` is what the agent pod answers in the course of one execution.  The specs are read from the
file system of the process that runs the activity, which need not be that of the pod.
-/

namespace Uncworks

open Go List

/-! ## Criteria in spec files -/

/-- The texts of the Markdown files among the specs of a change, in the order of a walk, for the
directory of `openspec`. -/
abbrev SpecFiles := (root changeName : String) → List String

def SpecFiles.texts (files : SpecFiles) (repoPath changeName : String) : List String :=
  files "/workspace" changeName ++ files repoPath changeName

/-- The parts between backticks that a pattern matches.  The backtick that closes a match opens no
other. -/
def backticked (ok : String → Bool) : List String → List String
  | part :: next :: more =>
    if ok part then part :: backticked ok more else backticked ok (next :: more)
  | _ => []

def findAllBackticked (ok : String → Bool) (line : String) : List String :=
  backticked ok (split '\x60' line).tail

def isBacktickCommand (part : String) : Bool :=
  part.toList.tail.dropLast.any fun c =>
    c == ' ' || c == '\t' || c == '\n' || c == '\x0c' || c == '\r'

/-- `backtickPathRe`: the characters of a path, with a dot or a slash among them. -/
def isBacktickPath (part : String) : Bool :=
  part.toList.all (fun c => c.isAlphanum || c == '_' || c == '.' || c == '/' || c == '-') &&
    part.toList.any fun c => c == '.' || c == '/'

structure TestCommand where
  name : String
  command : String

def commandKeywords : List String :=
  ["run", "execute", "pass", "exit", "build", "test", "compile", "lint"]

section Criteria

variable (lib : Lib)

def commandsIn (line : String) : List String :=
  let trimmed := trimSpace line
  let lower := lib.toLower trimmed
  if (contains lower "when" || contains lower "then" || contains lower "and") &&
      commandKeywords.any (contains lower) then
    (findAllBackticked isBacktickCommand trimmed).map trimSpace
  else []

def detectTestCommands (files : SpecFiles) (repoPath changeName : String) : List TestCommand :=
  let commands := (files.texts repoPath changeName).flatMap fun text =>
    (split '\n' text).flatMap (commandsIn lib)
  commands.eraseDups.map fun command => { name := s!"spec_command: {truncate command 40}", command }

structure FileCheck where
  path : String
  scenario : String

/-- The files in the lines of a text, from the scenario they are in. -/
def fileChecksIn : (currentScenario : String) → List String → List FileCheck
  | _, [] => []
  | currentScenario, line :: lines =>
    let trimmed := trimSpace line
    let scenario := if hasPrefix trimmed "#### Scenario:" then
      trimSpace (trimPrefix trimmed "#### Scenario:") else currentScenario
    let lower := lib.toLower trimmed
    let found := if (contains lower "then" || contains lower "and") &&
        contains lower "exist" then
      (findAllBackticked isBacktickPath trimmed).map fun path => { path, scenario }
    else []
    found ++ fileChecksIn scenario lines

def extractFileChecks (files : SpecFiles) (repoPath changeName : String) : List FileCheck :=
  (files.texts repoPath changeName).flatMap fun text => fileChecksIn lib "" (split '\n' text)

end Criteria

/-! ## The verdict in the log -/

section Verdict

variable (lib : Lib) (json : Unmarshal)

/-- The verdict in a content block; one without criteria does not count. -/
def blockVerdict? (block : ContentBlock) : Option LLMVerdict :=
  if block.type ≠ "text" then none
  else match parseOpenSpecJSON lib json block.text with
    | .error _ => none
    | .ok jsonBytes => match json.verdict jsonBytes with
      | .error _ => none
      | .ok verdict => if verdict.criteria.isEmpty then none else some verdict

/-- The verdict in a line of the log, which has to be a message of an assistant. -/
def lineVerdict? (line : String) : Option LLMVerdict :=
  let line := trimSpace line
  if line = "" then none
  else match json.event line with
    | .error _ => none
    | .ok event => match event.message with
      | none => none
      | some message =>
        if event.type ≠ "message_end" ∨ message.role ≠ "assistant" then none
        else match json.content message.content with
          | .error _ => none
          | .ok blocks => blocks.findSome? (blockVerdict? lib json)

def parseLLMVerdict (jsonlContent : String) : Option LLMVerdict :=
  (split '\n' jsonlContent).reverse.findSome? (lineVerdict? lib json)

end Verdict

/-! ## The pod -/

inductive VerifyCall where
  | list
  | validate
  | fileCheck
  | test
  | archive
  deriving DecidableEq, Repr

/-- A line of the agent log, and whether the agent wrote it that this execution has started. -/
structure LogLine where
  text : String
  own : Bool

/-- What the pod answers in the course of an execution.  All agents of a run share one log. -/
structure Pod extends AgentPod VerifyCall where
  /-- The log when it is read, and how the command that reads it ends. -/
  log : List LogLine
  logCall : Except String ℤ
  files : SpecFiles
  one_line : ∀ l ∈ log, '\n' ∉ l.text.toList
  own_started : ∀ l ∈ log, l.own → ∃ resp, startAgent = .ok resp ∧ resp.started

namespace Pod

def logTail (pod : Pod) : List LogLine := pod.log.drop (pod.log.length - 50)

def readLog (pod : Pod) : ExecAnswer :=
  pod.logCall.map fun exitCode =>
    { stdout := String.ofList
        (['\n'].intercalate ((pod.logTail.map (·.text) ++ [""]).map String.toList))
      exitCode }

variable (lib : Lib) (json : Unmarshal)

def query {α : Type} (command parsed : String) (parse : String → Except String α)
    (answer : ExecAnswer) : Except String α :=
  match execInSidecar answer with
  | (out, some err) => .error s!"{command} failed: {err} (output: {out})"
  | (out, none) => match parse out with
    | .error err => .error s!"failed to parse {parsed}: {err}"
    | .ok resp => .ok resp

def listing (pod : Pod) : Except String OpenSpecListResponse :=
  query "openspec list" "openspec list" (parseOpenSpecListResponse lib json)
    (pod.exec .list "/workspace" "openspec list --json")

section

variable (pod : Pod) (changeName : String)

def validation : Except String OpenSpecValidateResponse :=
  query "openspec validate" "validate response" (parseOpenSpecValidateResponse lib json)
    (pod.exec .validate "/workspace" s!"openspec validate {lib.quote changeName} --json")

def testFile (workDir path : String) : String × Option String :=
  execInSidecar
    (pod.exec .fileCheck workDir s!"test -f {lib.quote path} && echo exists || echo missing")

def FileExists (workDir path : String) : Prop :=
  (pod.testFile lib workDir path).2 = none ∧ trimSpace (pod.testFile lib workDir path).1 = "exists"

def Succeeds (workDir command : String) : Prop :=
  (execInSidecar (pod.exec .test workDir command)).2 = none

def archiveError? : Option String :=
  (execInSidecar (pod.exec .archive "/workspace"
    s!"openspec archive {lib.quote changeName} --yes")).2

def verdict? : Option LLMVerdict :=
  pod.logTail.reverse.findSome? fun l => lineVerdict? lib json l.text

end

theorem parseLLMVerdict_readLog {pod : Pod} :
    parseLLMVerdict lib json (String.ofList
      (['\n'].intercalate ((pod.logTail.map (·.text) ++ [""]).map String.toList))) =
      pod.verdict? lib json := by
  have hlines : ∀ l ∈ pod.logTail.map (·.text) ++ [""], '\n' ∉ l.toList := by
    intro l hl
    rcases mem_append.1 hl with hl | hl
    · obtain ⟨line, hline, rfl⟩ := mem_map.1 hl
      exact pod.one_line line (mem_of_mem_drop hline)
    · rw [mem_singleton.1 hl]
      exact not_mem_nil
  have hblank : lineVerdict? lib json "" = none := rfl
  rw [parseLLMVerdict, split_intercalate hlines (by simp), reverse_append,
    reverse_singleton, singleton_append, findSome?_cons_of_isNone (by rw [hblank]; rfl),
    ← map_reverse, findSome?_map]
  rfl

end Pod

/-! ## The stages -/

structure AutomatedCheck where
  name : String
  pass : Bool
  output : String := ""
  command : String := ""

structure VerificationReport extends VerificationResult where
  tasksCompleted : ℤ := 0
  tasksTotal : ℤ := 0
  validationValid : Bool := false
  automatedChecks : List AutomatedCheck := []
  llmVerdict : Option LLMVerdict := none
  salvageable : Bool := false
  confidenceScore : ℚ := 0

namespace VerificationReport

def note (r : VerificationReport) (check : AutomatedCheck) : VerificationReport :=
  { r with automatedChecks := r.automatedChecks ++ [check] }

def fail (r : VerificationReport) (name failureReport : String) : VerificationReport :=
  { r.note { name, pass := false, output := failureReport } with pass := false, failureReport }

end VerificationReport

/-- A stage either adds to the report or ends the verification with one. -/
abbrev VerifyStage := VerificationReport → Except VerificationReport VerificationReport

/-- Run a check for each element until one fails; a check comes with its failure report. -/
def runChecks {α : Type} (check : α → AutomatedCheck × Option String) : List α → VerifyStage
  | [], r => .ok r
  | a :: more, r =>
    match check a with
    | (c, some failureReport) => .error { r.note c with pass := false, failureReport }
    | (c, none) => runChecks check more (r.note c)

section Stages

variable (lib : Lib) (json : Unmarshal) (worker : SpecFiles) (pod : Pod) (input : VerifyRunInput)

def taskStage : VerifyStage := fun r =>
  match pod.listing lib json with
  | .error err => .error (r.fail "task_completion" err)
  | .ok resp => match resp.findChange input.changeName with
    | none => .error (r.fail "task_completion"
        s!"change {lib.quote input.changeName} not found in openspec list output")
    | some change =>
      let r := { r with tasksCompleted := change.completedTasks, tasksTotal := change.totalTasks }
      if change.totalTasks = 0 then
        .error (r.fail "task_completion"
          "no tasks found in change — planning agent may not have created tasks.md")
      else if change.completedTasks < change.totalTasks then
        .error (r.fail "task_completion"
          s!"task completion: {change.completedTasks}/{change.totalTasks} tasks complete")
      else .ok (r.note
        { name := "task_completion", pass := true
          output := s!"{change.completedTasks}/{change.totalTasks} tasks complete" })

def validationStage : VerifyStage := fun r =>
  match pod.validation lib json input.changeName with
  | .error err => .error (r.fail "spec_validation" err)
  | .ok resp => match resp.firstIssues? with
    | some issues =>
      let report := "spec validation failed: " ++ "; ".intercalate issues
      .error { r.fail "spec_validation" report with validationValid := false }
    | none => .ok ({ r with validationValid := true }.note { name := "spec_validation", pass := true })

def fileCheck (fc : FileCheck) : AutomatedCheck × Option String :=
  let (checkOut, err) := pod.testFile lib input.repoPath fc.path
  let name := s!"file_exists: {fc.path}"
  if err ≠ none ∨ trimSpace checkOut ≠ "exists" then
    let output := s!"file not found: {fc.path} (spec scenario: {fc.scenario})"
    ({ name, pass := false, output }, some output)
  else ({ name, pass := true, output := "exists" }, none)

def commandCheck (tc : TestCommand) : AutomatedCheck × Option String :=
  match execInSidecar (pod.exec .test input.repoPath tc.command) with
  | (output, some err) =>
    let output := s!"command failed: {err}\n{output}"
    ({ name := tc.name, command := tc.command, pass := false, output },
      some s!"automated check '{tc.name}' failed: {output}")
  | (output, none) =>
    ({ name := tc.name, command := tc.command, pass := true, output := truncate output 500 }, none)

def fileStage : VerifyStage :=
  runChecks (fileCheck lib pod input) (extractFileChecks lib worker input.repoPath input.changeName)

def commandStage : VerifyStage :=
  runChecks (commandCheck pod input) (detectTestCommands lib worker input.repoPath input.changeName)

def judge (verdict : LLMVerdict) : VerifyStage := fun r =>
  let r := { r with llmVerdict := some verdict }
  if verdict.pass then
    .ok (r.note { name := "llm_judge", pass := true, output := "manage agent review passed" })
  else
    let failedCriteria := (verdict.criteria.filter (!·.pass)).map fun c =>
      s!"{c.scenario}: {c.explanation}"
    .error
      { r.fail "llm_judge" ("Manage agent review failed: " ++ "; ".intercalate failedCriteria) with
        reviewFeedback := "\n".intercalate failedCriteria
        salvageable := verdict.salvageable
        salvageGuidance := verdict.salvageGuidance
        confidenceScore := verdict.confidenceScore }

/-- The manage agent reviews the attempt.  Whether the sidecar has started it is not looked at. -/
def reviewStage : VerifyStage := fun r =>
  match pod.startAgent with
  | .error err => .error (r.fail "llm_judge" s!"manage agent review failed to start: {err}")
  | .ok _ => match pod.pollError? with
    | some err => .error (r.fail "llm_judge" s!"manage agent review failed: {err}")
    | none => match execInSidecar pod.readLog with
      | (_, some err) => .error (r.fail "llm_judge" s!"failed to read manage agent log: {err}")
      | (verdictJSON, none) => match parseLLMVerdict lib json verdictJSON with
        | none => .error (r.fail "llm_judge" "manage agent produced no parseable verdict")
        | some verdict => judge verdict r

def archiveStage (r : VerificationReport) : VerificationReport :=
  match pod.archiveError? lib input.changeName with
  | some err => r.note { name := "archive", pass := false, output := s!"archive failed: {err}" }
  | none => r.note { name := "archive", pass := true, output := "change archived successfully" }

def verifyStages : VerifyStage := fun r => do
  let r ← taskStage lib json pod input r
  let r ← validationStage lib json pod input r
  let r ← fileStage lib worker pod input r
  let r ← commandStage lib worker pod input r
  reviewStage lib json pod r

def Activities.verifyRun : VerificationReport :=
  match verifyStages lib json worker pod input { pass := false } with
  | .error r => r
  | .ok r => { archiveStage lib pod input r with pass := true }

end Stages

/-! ## What the stages check -/

/-- The stage goes on exactly if `P` holds, and no report it makes says that the run passes. -/
def VerifyStage.Checks (stage : VerifyStage) (P : Prop) : Prop :=
  ∀ r, r.pass = false →
    (∃ r', stage r = .ok r' ∧ r'.pass = false ∧ P) ∨ ∃ r', stage r = .error r' ∧ r'.pass = false ∧ ¬ P

theorem VerifyStage.Checks.bind {stage stage' : VerifyStage} {P P' : Prop} (h : stage.Checks P)
    (h' : stage'.Checks P') : VerifyStage.Checks (fun r => stage r >>= stage') (P ∧ P') := by
  intro r hr
  rcases h r hr with ⟨r', heq, hr', hP⟩ | ⟨r', heq, hr', hP⟩
  · rcases h' r' hr' with ⟨r'', heq', hr'', hP'⟩ | ⟨r'', heq', hr'', hP'⟩
    · exact .inl ⟨r'', by simp [heq, heq', Except.bind, Bind.bind], hr'', hP, hP'⟩
    · exact .inr ⟨r'', by simp [heq, heq', Except.bind, Bind.bind], hr'', fun hPP => hP' hPP.2⟩
  · exact .inr ⟨r', by simp [heq, Except.bind, Bind.bind], hr', fun hPP => hP hPP.1⟩

theorem runChecks_checks {α : Type} {check} {as : List α} :
    (runChecks check as).Checks (∀ a ∈ as, (check a).2 = none) := by
  induction as with
  | nil => exact fun r hr => .inl ⟨r, rfl, hr, nofun⟩
  | cons a more ih =>
    intro r hr
    rw [runChecks, forall_mem_cons]
    rcases hc : check a with ⟨c, _ | failureReport⟩
    · rcases ih (r.note c) hr with ⟨r', heq, hr', hall⟩ | ⟨r', heq, hr', hnot⟩
      · exact .inl ⟨r', heq, hr', rfl, hall⟩
      · exact .inr ⟨r', heq, hr', fun h => hnot h.2⟩
    · exact .inr ⟨_, rfl, rfl, fun h => nomatch h.1⟩

section Gates

variable {lib : Lib} {json : Unmarshal} {worker : SpecFiles} {pod : Pod} {input : VerifyRunInput}

section

variable (lib : Lib) (json : Unmarshal) (pod : Pod) (changeName : String)

def Pod.TasksDone : Prop :=
  ∃ resp change, pod.listing lib json = .ok resp ∧ resp.findChange changeName = some change ∧
    change.totalTasks ≠ 0 ∧ change.totalTasks ≤ change.completedTasks

def Pod.NoFirstIssues : Prop :=
  ∃ resp, pod.validation lib json changeName = .ok resp ∧ resp.firstIssues? = none

/-- The call to start an agent succeeds, an agent has finished, and the last verdict of the log is a
pass. -/
def Pod.ReviewPasses : Prop :=
  (∃ resp, pod.startAgent = .ok resp) ∧ pod.pollError? = none ∧ pod.logCall = .ok 0 ∧
    ∃ verdict, pod.verdict? lib json = some verdict ∧ verdict.pass

end

theorem taskStage_checks :
    (taskStage lib json pod input).Checks (pod.TasksDone lib json input.changeName) := by
  intro r hr
  unfold taskStage
  rcases hlist : pod.listing lib json with err | resp
  · exact .inr ⟨_, rfl, rfl, fun ⟨resp, _, h, _⟩ => by rw [hlist] at h; cases h⟩
  rcases hfind : resp.findChange input.changeName with _ | change
  · simp only [hfind]
    refine .inr ⟨_, rfl, rfl, fun ⟨resp', _, h, hfind', _⟩ => ?_⟩
    rw [hlist] at h
    cases h
    rw [hfind] at hfind'
    cases hfind'
  have hiff : pod.TasksDone lib json input.changeName ↔
      change.totalTasks ≠ 0 ∧ change.totalTasks ≤ change.completedTasks := by
    simp [Pod.TasksDone, hlist, hfind]
  simp only [hfind, hiff]
  split_ifs with hzero hless
  · exact .inr ⟨_, rfl, rfl, fun h => h.1 hzero⟩
  · exact .inr ⟨_, rfl, rfl, fun h => absurd h.2 (by omega)⟩
  · exact .inl ⟨_, rfl, hr, hzero, by omega⟩

theorem validationStage_checks :
    (validationStage lib json pod input).Checks
      (pod.NoFirstIssues lib json input.changeName) := by
  intro r hr
  unfold validationStage
  rcases hval : pod.validation lib json input.changeName with err | resp
  · exact .inr ⟨_, rfl, rfl, fun ⟨resp, h, _⟩ => by rw [hval] at h; cases h⟩
  rcases hissues : resp.firstIssues? with _ | issues <;> simp only [hissues]
  · exact .inl ⟨_, rfl, hr, resp, hval, hissues⟩
  · refine .inr ⟨_, rfl, rfl, fun ⟨resp', h, hnone⟩ => ?_⟩
    rw [hval] at h
    cases h
    rw [hissues] at hnone
    cases hnone

theorem fileCheck_iff {fc} :
    (fileCheck lib pod input fc).2 = none ↔ pod.FileExists lib input.repoPath fc.path := by
  simp only [fileCheck, Pod.FileExists]
  split_ifs with h
  · simp only [false_iff]
    tauto
  · tauto

theorem commandCheck_iff {tc} :
    (commandCheck pod input tc).2 = none ↔ pod.Succeeds input.repoPath tc.command := by
  simp only [commandCheck, Pod.Succeeds]
  rcases execInSidecar (pod.exec .test input.repoPath tc.command) with ⟨out, _ | err⟩ <;> simp

theorem judge_checks {verdict} : (judge verdict).Checks verdict.pass := by
  intro r hr
  by_cases hpass : verdict.pass
  · exact .inl ⟨_, if_pos hpass, hr, hpass⟩
  · exact .inr ⟨_, if_neg hpass, rfl, hpass⟩

theorem reviewStage_checks : (reviewStage lib json pod).Checks (pod.ReviewPasses lib json) := by
  intro r hr
  unfold reviewStage
  rcases hstart : pod.startAgent with err | resp
  · exact .inr ⟨_, rfl, rfl, fun ⟨⟨resp, h⟩, _⟩ => by rw [hstart] at h; cases h⟩
  rcases hpoll : pod.pollError? with _ | err
  swap
  · exact .inr ⟨_, rfl, rfl, fun ⟨_, h, _⟩ => by rw [hpoll] at h; cases h⟩
  rcases hcall : pod.logCall with err | exitCode <;>
    simp only [Pod.readLog, hcall, Except.map, execInSidecar]
  · exact .inr ⟨_, rfl, rfl, fun ⟨_, _, h, _⟩ => by rw [hcall] at h; cases h⟩
  by_cases hexit : exitCode = 0
  swap
  · simp only [if_pos hexit]
    exact .inr ⟨_, rfl, rfl, fun ⟨_, _, h, _⟩ => by rw [hcall] at h; cases h; exact hexit rfl⟩
  subst hexit
  simp only [ne_eq, not_true_eq_false, if_false, Pod.parseLLMVerdict_readLog]
  rcases hverdict : pod.verdict? lib json with _ | verdict
  · exact .inr ⟨_, rfl, rfl, fun ⟨_, _, _, v, hv, _⟩ => by rw [hverdict] at hv; cases hv⟩
  have hiff : pod.ReviewPasses lib json ↔ verdict.pass := by
    simp [Pod.ReviewPasses, hstart, hpoll, hcall, hverdict]
  rw [hiff]
  exact judge_checks r hr

structure Gates (lib : Lib) (json : Unmarshal) (worker : SpecFiles) (pod : Pod)
    (input : VerifyRunInput) : Prop where
  tasks : pod.TasksDone lib json input.changeName
  validated : pod.NoFirstIssues lib json input.changeName
  files : ∀ fc ∈ extractFileChecks lib worker input.repoPath input.changeName,
    pod.FileExists lib input.repoPath fc.path
  commands : ∀ tc ∈ detectTestCommands lib worker input.repoPath input.changeName,
    pod.Succeeds input.repoPath tc.command
  review : pod.ReviewPasses lib json

theorem fileStage_checks : (fileStage lib worker pod input).Checks
    (∀ fc ∈ extractFileChecks lib worker input.repoPath input.changeName,
      pod.FileExists lib input.repoPath fc.path) := by
  have h : (fileStage lib worker pod input).Checks _ := runChecks_checks
  simp only [fileCheck_iff] at h
  exact h

theorem commandStage_checks : (commandStage lib worker pod input).Checks
    (∀ tc ∈ detectTestCommands lib worker input.repoPath input.changeName,
      pod.Succeeds input.repoPath tc.command) := by
  have h : (commandStage lib worker pod input).Checks _ := runChecks_checks
  simp only [commandCheck_iff] at h
  exact h

theorem verifyStages_checks :
    (verifyStages lib json worker pod input).Checks (Gates lib json worker pod input) := by
  have hall : (verifyStages lib json worker pod input).Checks _ :=
    taskStage_checks.bind (validationStage_checks.bind
      (fileStage_checks.bind (commandStage_checks.bind reviewStage_checks)))
  intro r hr
  rcases hall r hr with ⟨r', heq, hr', h1, h2, h3, h4, h5⟩ | ⟨r', heq, hr', hnot⟩
  · exact .inl ⟨r', heq, hr', ⟨h1, h2, h3, h4, h5⟩⟩
  · exact .inr ⟨r', heq, hr', fun h => hnot ⟨h.tasks, h.validated, h.files, h.commands, h.review⟩⟩

theorem Activities.verifyRun_pass :
    (Activities.verifyRun lib json worker pod input).pass ↔ Gates lib json worker pod input := by
  unfold verifyRun
  have hchecks : (verifyStages lib json worker pod input).Checks _ := verifyStages_checks
  rcases hchecks { pass := false } rfl with ⟨r, heq, -, hgates⟩ | ⟨r, heq, hr, hgates⟩
  · simp [heq, hgates]
  · simp [heq, hgates, hr]

end Gates

end Uncworks
