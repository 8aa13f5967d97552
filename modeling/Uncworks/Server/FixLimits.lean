import Uncworks.Server.Autofix

/-!
# How many fix runs a failure leads to

Failed checks of one commit are coalesced by a timer, and the fix runs of one branch are counted
before the timer is armed.
-/

namespace Uncworks

open Durable

def githubURL (fullName : String) : String := "https://github.com/" ++ fullName ++ ".git"

theorem githubURL_inj {a b} (h : githubURL a = githubURL b) : a = b := by
  exact (String.append_right_inj _).1 ((String.append_left_inj _).1 h)

namespace AgentRunCRD

variable (run : AgentRunCRD)

def repoURL : String := (run.spec.repos.head?.map (·.url)).getD ""

def fixedCommit : String × String := (run.repoURL, run.annotation "aot.uncworks.io/ci-fix-sha")

def fixedBranch : String × String := (run.repoURL, run.prBranch)

end AgentRunCRD

variable {ci : CIAutofix} {env : Env} {liteLLMBaseURL gitHubTokenSecretName : String}
  {s s' : AutofixState} {a : AutofixAct}

theorem createFixRun_repos {repo branch sha ciLogs name attempt run}
    (h : ci.createFixRun repo branch sha attempt ciLogs name = .ok run) :
    (∃ owner rest, repo = owner ++ "/" ++ rest ∧ run.spec.repos.head? =
      some { url := s!"https://github.com/{owner}/{rest}.git", branch := branch }) ∧
    run.annotation "aot.uncworks.io/ci-fix-sha" = sha := by
  unfold CIAutofix.createFixRun at h
  split at h
  · rename_i owner rest hsplit
    obtain rfl := Except.ok.inj h
    refine ⟨⟨owner, rest, ?_, rfl⟩, by simp [AgentRunCRD.annotation, List.lookup_cons]⟩
    apply String.toList_injective
    rw [Go.splitN_two hsplit]
    simp
  · cases h

theorem createFixRun_repoURL {repo branch sha ciLogs name attempt run}
    (h : ci.createFixRun repo branch sha attempt ciLogs name = .ok run) :
    run.repoURL = githubURL repo := by
  obtain ⟨⟨owner, rest, rfl, hrepos⟩, -⟩ := createFixRun_repos h
  -- for any texts, since unification would compute the texts of the URL
  have happend : ∀ a b c : String, a ++ owner ++ b ++ rest ++ c = a ++ (owner ++ b ++ rest) ++ c :=
    fun a b c => by simp [String.append_assoc]
  unfold AgentRunCRD.repoURL githubURL
  rw [hrepos]
  exact happend _ _ _

def commitKey (ci : CIAutofix) : FixKey ci (String × String) where
  ofFix f := (githubURL f.repo, f.sha)
  ofRun := (·.fixedCommit)
  phase _ _ := rfl
  run h := by
    rw [AgentRunCRD.fixedCommit, createFixRun_repoURL h, (createFixRun_repos h).2]

def repoBranchKey (ci : CIAutofix) : FixKey ci (String × String) where
  ofFix f := (githubURL f.repo, f.branch)
  ofRun := (·.fixedBranch)
  phase _ _ := rfl
  run h := by
    rw [AgentRunCRD.fixedBranch, createFixRun_repoURL h, (createFixRun_ok h).1]

/-- When a failure is armed, its count covers the fix runs of its branch, no other failure of its
branch or its commit is on its way, apart from the one whose timer it stops, and there is no fix run
for its commit. -/
def Deduplicated (s : AutofixState) : AutofixAct → Prop
  | .arm f =>
    s.created.countP (·.fixedBranch = (githubURL f.repo, f.branch)) ≤ f.attempts ∧
      (∀ run ∈ s.created, run.fixedCommit ≠ (githubURL f.repo, f.sha)) ∧
      ∀ f' ∈ s.stopTimer f.sha, f'.phase ≠ .counted → f'.repo = f.repo →
        f'.branch ≠ f.branch ∧ f'.sha ≠ f.sha
  | _ => True

theorem Deduplicated.of_passes (s : AutofixState) (a : AutofixAct) (h : a.passes) :
    Deduplicated s a := by
  cases a <;> first | exact trivial | cases h

theorem Deduplicated.first {f} (hcreated : s.created = []) (hfixes : s.fixes = [f])
    (hp : f.phase = .counted) : Deduplicated s (.arm f) := by
  refine ⟨?_, ?_, fun f' hf' hp' => absurd (AutofixState.stopTimer_singleton hfixes hp hf') hp'⟩
  · rw [hcreated]
    exact Nat.zero_le _
  · rw [hcreated]
    exact fun _ hrun => nomatch hrun

structure AutofixState.FixedOnce (ci : CIAutofix) (s : AutofixState) : Prop where
  counted : ∀ f ∈ s.fixes, f.attempts < ci.maxRetries
  commits : (commitKey ci).Rationed 1 s
  branches : (repoBranchKey ci).Rationed ci.maxRetries s

namespace AutofixState.FixedOnce

theorem start (runs : List AgentRunCRD) : FixedOnce ci { runs } :=
  ⟨nofun, .start runs, .start runs⟩

theorem step (h : FixedOnce ci s)
    (hs : AutofixStep ci env liteLLMBaseURL gitHubTokenSecretName s a s') (ha : Deduplicated s a) :
    FixedOnce ci s' where
  counted := counted_step h.counted hs
  commits := by
    refine h.commits.step hs ?_
    rintro f rfl hf
    obtain ⟨-, hnone, halone⟩ := ha
    refine ⟨?_, fun f' hf' hp hk => ?_⟩
    · have hzero : (commitKey ci).created s ((commitKey ci).ofFix f) = 0 :=
        List.countP_eq_zero.2 fun run hrun heq => hnone run hrun (of_decide_eq_true heq)
      rw [hzero]
      exact Nat.one_pos
    · obtain ⟨hrepo, hsha⟩ := Prod.mk.inj hk
      exact (halone f' hf' hp (githubURL_inj hrepo)).2 hsha
  branches := by
    refine h.branches.step hs ?_
    rintro f rfl hf
    obtain ⟨hcount, -, halone⟩ := ha
    refine ⟨lt_of_le_of_lt hcount (h.counted f hf), fun f' hf' hp hk => ?_⟩
    obtain ⟨hrepo, hbranch⟩ := Prod.mk.inj hk
    exact (halone f' hf' hp (githubURL_inj hrepo)).1 hbranch

end AutofixState.FixedOnce

/-- If failures are armed only as `Deduplicated` says, at most one fix run is created for a commit
of a repository and at most `maxRetries` for a branch. -/
theorem fixRuns_limited {runs : List AgentRunCRD}
    (h : AutofixReaches ci env liteLLMBaseURL gitHubTokenSecretName Deduplicated runs s) :
    (∀ repo sha, s.created.countP (·.fixedCommit = (githubURL repo, sha)) ≤ 1) ∧
      ∀ repo branch, s.created.countP (·.fixedBranch = (githubURL repo, branch)) ≤ ci.maxRetries := by
  have hs : s.FixedOnce ci := by
    induction h with
    | start => exact .start runs
    | step _ hstep ha ih => exact ih.step hstep ha
  exact ⟨fun repo sha => hs.commits.limit _, fun repo branch => hs.branches.limit _⟩

/-! ## Sample runs -/

theorem fixRuns_limited_first : ∃ s, SampleReaches Deduplicated s ∧
    s.created = [sampleFixRun "aot/ar-0" "ar-1"] ∧
    s.created.countP (·.fixedCommit = (githubURL "owner/repo", "0123456789")) ≤ 1 := by
  have hstart : SampleReaches Deduplicated { runs := [] } := .start
  obtain ⟨_, hfixed⟩ := hstart.fix Deduplicated.of_passes rfl (failureOn "aot/ar-0") true "" "ar-1"
    (sampleFixRun "aot/ar-0" "ar-1") rfl (fun f hf => .first rfl rfl (by rw [hf])) rfl
  exact ⟨_, hfixed, rfl, (fixRuns_limited hfixed).1 _ _⟩

def patientCI : CIAutofix := newCIAutofix "default" 0

def secondFixRun (branch name : String) : AgentRunCRD :=
  ((patientCI.createFixRun "owner/repo" branch "0123456789" 2 "" name).toOption).getD {}

/-- A check of the commit fails again after the first fix run was created; and a second fix run is
created for a branch with a limit of one, because the runs could not be listed. -/
theorem fixRuns_unlimited :
    (∃ s, AutofixReaches patientCI sampleEnv "" "" (fun _ _ => True) [] s ∧
      s.created.countP (·.fixedCommit = (githubURL "owner/repo", "0123456789")) = 2) ∧
    ∃ s, SampleReaches (fun _ _ => True) s ∧
      sampleCI.maxRetries <
        s.created.countP (·.fixedBranch = (githubURL "owner/repo", "aot/ar-0")) := by
  refine ⟨?_, ?_⟩
  · have hstart : AutofixReaches patientCI sampleEnv "" "" (fun _ _ => True) [] { runs := [] } :=
      .start
    obtain ⟨_, hfixed⟩ := hstart.fix (fun _ _ _ => trivial) rfl (failureOn "aot/ar-0") true "" "ar-1"
      (sampleFixRun "aot/ar-0" "ar-1") rfl (fun _ _ => trivial) rfl
    obtain ⟨_, hagain⟩ := hfixed.fix (fun _ _ _ => trivial) rfl (failureOn "aot/ar-0") true "" "ar-2"
      (secondFixRun "aot/ar-0" "ar-2") rfl (fun _ _ => trivial) rfl
    have hcommits : [sampleFixRun "aot/ar-0" "ar-1", secondFixRun "aot/ar-0" "ar-2"].countP
        (·.fixedCommit = (githubURL "owner/repo", "0123456789")) = 2 := by decide
    exact ⟨_, hagain, hcommits⟩
  · have hstart : SampleReaches (fun _ _ => True) { runs := [] } := .start
    obtain ⟨_, hfixed⟩ := hstart.fix (fun _ _ _ => trivial) rfl (failureOn "aot/ar-0") true "" "ar-1"
      (sampleFixRun "aot/ar-0" "ar-1") rfl (fun _ _ => trivial) rfl
    obtain ⟨_, hagain⟩ := hfixed.fix (fun _ _ _ => trivial) rfl (failureOn "aot/ar-0") false "" "ar-2"
      (sampleFixRun "aot/ar-0" "ar-2") rfl (fun _ _ => trivial) rfl
    have hbranches : 1 < [sampleFixRun "aot/ar-0" "ar-1", sampleFixRun "aot/ar-0" "ar-2"].countP
        (·.fixedBranch = (githubURL "owner/repo", "aot/ar-0")) := by decide
    exact ⟨_, hagain, hbranches⟩

end Uncworks
