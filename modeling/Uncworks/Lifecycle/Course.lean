import Uncworks.Lifecycle.Stage

/-!
# The pipelines follow the course

Each function of the workflow keeps the phase in step with the stage.  The theorems are in the form of
`Flow.wp` with an arbitrary continuation: what must hold when the function falls through, and what
when it returns from the workflow.
-/

namespace Uncworks

open Durable Flow Stage

namespace Follows

variable {P : Pipeline} {v : Vars} {st : Stage} {α : Type}
  {Q : α → Vars → Stage → Prop} {E : Option WorkflowError → Vars → Stage → Prop} {p : Phase}
  {c : Command}

@[simp] theorem setPhase_wp {Q : Unit → Vars → Stage → Prop} {message} :
    (setPhase p message).wp (course P) Q E v st ↔
      Q () { v with state := { v.state with phase := p, message } } st := wp_update _

@[simp] theorem setMessage_wp {Q : Unit → Vars → Stage → Prop} {message} :
    (setMessage message).wp (course P) Q E v st ↔
      Q () { v with state := { v.state with message } } st := wp_update _

def background : Command → Bool
  | .provisionLLMKey _ => false
  | .createAgentDeployment _ => false
  | .waitForHydration _ _ _ => false
  | .checkPodStatus _ _ => false
  | .planRun _ => false
  | .startAgent _ => false
  | .getAgentStatus _ => false
  | .verifyRun _ => false
  | .llmJudgeChanges _ => false
  | .pushChanges _ => false
  | .createPR _ => false
  | _ => true

theorem ignores_background (hc : background c) (hst : st ≠ .awaiting) :
    (course P).Ignores st c := by
  refine ⟨fun v => ?_, ?_, fun r => ?_⟩ <;> simp [step, unlessAwaiting_of_ne hst] <;>
    cases c <;> first
      | rfl
      | cases hc

theorem execute_background {Q : Except Failure c.Reply → Vars → Stage → Prop}
    (hc : background c) (hst : st ≠ .awaiting) (hv : st.Shows P v.state.phase)
    (h : ∀ r, Q r v st) : (execute c).wp (course P) Q E v st :=
  wp_exec_of_ignores (ignores_background hc hst) hv h

theorem cleanUp_background {Q : Unit → Vars → Stage → Prop} (hc : background c)
    (hst : st ≠ .awaiting) (hv : st.Shows P v.state.phase) (h : Q () v st) :
    (cleanUp c).wp (course P) Q E v st := by
  simp only [cleanUp, wp_bind, wp_pure]
  exact wp_execDetached_of_ignores (ignores_background hc hst) hv fun _ => h

theorem execute_reply {Q : Except Failure c.Reply → Vars → Stage → Prop}
    (hst : st ≠ .awaiting) (hs : st.onScheduled P c = st) (hv : st.Shows P v.state.phase)
    (hr : ∀ r, (st.onReply P c r).Shows P v.state.phase) (h : ∀ r, Q r v (st.onReply P c r)) :
    (execute c).wp (course P) Q E v st := by
  rw [execute, wp_exec]
  simp only [step, unlessAwaiting_of_ne hst, hs]
  exact ⟨⟨ne_stray_of_shows (hr _), h _⟩, hv, fun r => ⟨hr r, h r⟩⟩

/-! ## Steps a run needs -/

theorem shows_aborted {canceled} (hp : idle.Shows P p) : (aborted canceled).Shows P p := by
  rcases hb : P.specDriven <;> simp [Shows, hb] at hp ⊢ <;> tauto

theorem shows_need {next} {r : Except Failure α} (hp : idle.Shows P p) (hn : next.Shows P p) :
    (need next r).Shows P p := by
  rcases r with (_ | _) | _
  · exact shows_aborted hp
  · exact shows_aborted hp
  · exact hn

/-- The condition on what a step the run needs returns with when it fails. -/
abbrev Aborts (E : Option WorkflowError → Vars → Stage → Prop) : Prop :=
  ∀ canceled err v', (aborted canceled).Ends v'.state.phase err → E err v' (.aborted canceled)

theorem required_wp (next : Stage) {r context cancelMessage failMessage}
    (hQ : ∀ a, r = .ok a → Q a v next) (hE : Aborts E) :
    (required context cancelMessage failMessage r).wp (course P) Q E v (need next r) := by
  rcases r with (_ | text) | a <;>
    simp [required]
  · exact hE true _ _ ⟨rfl, _, rfl⟩
  · exact hE false _ _ ⟨rfl, _, rfl⟩
  · exact hQ a rfl

section Preparing

variable {Q : Unit → Vars → Stage → Prop} (hv : idle.Shows P v.state.phase)
  (hQ : ∀ v', v'.state.phase = v.state.phase → Q () v' .idle)
  (hE : Aborts E) {context : String}

include hv hQ hE

theorem provisionLLMKey_wp :
    (provisionLLMKey context P.input).wp (course P) Q E v .idle := by
  simp only [provisionLLMKey, wp_bind, wp_update]
  refine execute_reply (by simp) rfl hv (fun r => shows_need hv hv) fun r => ?_
  exact required_wp .idle (fun key _ => hQ _ rfl) hE

theorem createAgentDeployment_wp :
    (createAgentDeployment context P.input).wp (course P) Q E v .idle := by
  simp only [createAgentDeployment, wp_bind, wp_update, wp_read, setMessage_wp]
  refine execute_reply (by simp) rfl hv (fun r => shows_need hv hv) fun r => ?_
  exact required_wp .idle (fun name _ => hQ _ rfl) hE

theorem checkEviction_wp : (checkEviction P.input).wp (course P) Q E v .idle := by
  simp only [checkEviction, wp_bind, wp_read, setMessage_wp]
  refine execute_reply (by simp) rfl hv (fun r => ?_) fun r => ?_
  · rcases r with err | status
    · exact hv
    · simp only [onReply]
      split_ifs
      · exact shows_aborted hv
      · exact hv
  · rcases r with err | status
    · simp only [wp_pure]
      exact hQ _ rfl
    · refine wp_when (fun h => ?_) fun h => ?_
      · simp only [onReply, if_pos h, wp_bind, setPhase_wp, wp_exit]
        exact hE false _ _ ⟨rfl, _, rfl⟩
      · simp only [onReply, if_neg h]
        exact hQ _ rfl

theorem waitForHydration_wp :
    (waitForHydration context P.input).wp (course P) Q E v .idle := by
  simp only [waitForHydration, wp_bind, wp_update, wp_read]
  refine execute_reply (by simp) rfl hv (fun r => shows_need hv hv) fun r => ?_
  exact required_wp .idle (fun podIP _ => hQ _ rfl) hE

end Preparing

/-! ## Cleanup -/

section Cleanup

variable {Q : Unit → Vars → Stage → Prop} (hst : st ≠ .awaiting)
  (hv : st.Shows P v.state.phase) (hQ : Q () v st)

include hst hv hQ

theorem revokeLLMKey_wp : revokeLLMKey.wp (course P) Q E v st := by
  simp only [revokeLLMKey, wp_bind, wp_read]
  exact wp_when (fun _ => cleanUp_background rfl hst hv hQ) fun _ => hQ

theorem retireDeployment_wp {retention} :
    (retireDeployment P.input retention).wp (course P) Q E v st := by
  simp only [retireDeployment, wp_bind, wp_read]
  refine wp_when (fun _ => ?_) fun _ => hQ
  simp only [wp_bind]
  exact cleanUp_background rfl hst hv (cleanUp_background rfl hst hv
    (cleanUp_background rfl hst hv (cleanUp_background rfl hst hv hQ)))

theorem singleAgentCleanup_wp : (singleAgentCleanup P.input).wp (course P) Q E v st := by
  simp only [singleAgentCleanup, wp_bind, wp_read]
  have hrest : revokeLLMKey.wp (course P)
      (fun _ v st => (retireDeployment P.input (2 * 3600)).wp (course P) Q E v st) E v st :=
    revokeLLMKey_wp hst hv (retireDeployment_wp hst hv hQ)
  refine wp_when (fun _ => ?_) fun _ => hrest
  simp only [wp_bind]
  exact cleanUp_background rfl hst hv (cleanUp_background rfl hst hv hrest)

theorem specDrivenCleanup_wp : (specDrivenCleanup P.input).wp (course P) Q E v st := by
  simp only [specDrivenCleanup, wp_bind]
  exact revokeLLMKey_wp hst hv (retireDeployment_wp hst hv hQ)

end Cleanup

/-! ## The gate -/

def entersGate (P : Pipeline) (p : Phase) : Prop :=
  if P.specDriven then p = .running ∨ p = .failed else p = .succeeded

theorem entersGate.shows (h : entersGate P p) :
    done.Shows P p ∧ (∀ b, (judged b).Shows P p) ∧ denied.Shows P p := by
  rcases hb : P.specDriven <;> simp_all [entersGate, Shows]

theorem shows_afterJudge (hp : entersGate P p) (r : Except Failure LLMJudgeOutput) :
    (afterJudge r).Shows P p := by
  rcases r with err | verdict
  · exact hp.shows.2.1 _
  · simp only [afterJudge]
    split_ifs
    · exact hp.shows.2.1 _
    · exact hp.shows.2.2

section Gate

variable {Q : Unit → Vars → Stage → Prop}

theorem judgeReview_wp (hp : entersGate P v.state.phase)
    (hQ : ∀ b v', v'.state.phase = v.state.phase → Q () v' (.judged b))
    (hE : ∀ text v', v'.state.phase = .failed → E (some (.failed text)) v' .denied) :
    (judgeReview P.env P.input).wp (course P) Q E v .done := by
  simp only [judgeReview, wp_bind, wp_read, setMessage_wp]
  refine execute_reply (by simp) rfl hp.shows.1 (shows_afterJudge hp) fun r => ?_
  rcases r with err | verdict
  · simp only [setMessage_wp]
    exact hQ false _ rfl
  · simp only [onReply, afterJudge, wp_bind, wp_update]
    split_ifs <;> simp
    · exact hQ true _ rfl
    · exact hE _ _ rfl

theorem applyDecision_wp {ch : Channel} {m : ch.Message} (hch : ch ≠ .cancel)
    (hQ : ∀ v', v'.state.phase = .succeeded → Q () v' .approved)
    (hE : ∀ text v', v'.state.phase = .failed → E (some (.failed text)) v' .declined) :
    (applyDecision (decisionOf P.env (.received ch m))).wp (course P) Q E v
      (onReceived P .awaiting gateGuards (.received ch m)) := by
  rw [onReceived_awaiting hch]
  rcases decisionOf P.env (.received ch m) with _ | given <;>
    simp [applyDecision]
  · exact hQ _ rfl
  · exact hE _ _ rfl

theorem onWaiting_awaiting : onWaiting P .awaiting gateGuards = .awaiting := by
  simp [onWaiting]

theorem humanReview_wp (hst : st.onMark P .gateWait = .awaiting)
    (hQ : ∀ v', v'.state.phase = .succeeded → Q () v' .approved)
    (hE : ∀ text v', v'.state.phase = .failed → E (some (.failed text)) v' .declined) :
    (humanReview P.env).wp (course P) Q E v st := by
  simp only [humanReview, wp_bind, setPhase_wp, wp_mark, wp_select]
  simp only [step, hst, onWaiting_awaiting]
  refine ⟨(by simp), rfl, ?_⟩
  rintro st' hst'
  obtain rfl : st' = .awaiting := by simpa using hst'
  refine ⟨fun ch hch n x => ?_, fun t ht => by simp [gateGuards] at ht⟩
  have hne : ch ≠ Channel.cancel := by
    rintro rfl
    simp [gateGuards] at hch
  refine ⟨?_, applyDecision_wp hne hQ hE⟩
  rw [onReceived_awaiting hne]
  rcases decisionOf P.env (.received ch x) <;> rintro ⟨⟩

theorem reviews_wp {Q : Option WorkflowError → Vars → Stage → Prop}
    (hp : entersGate P v.state.phase)
    (hpass : ∀ v' st', st'.onMark P .gatePassed = .passed →
      v'.state.phase = v.state.phase ∨ v'.state.phase = .succeeded → Q none v' st')
    (hrej : ∀ text v' st', st'.onMark P .gateRejected = .rejected → v'.state.phase = .failed →
      E (some (.failed text)) v' st') :
    (reviews P.env P.input).wp (course P) Q E v .done := by
  have hhuman : ∀ v' st', v'.state.phase = v.state.phase →
      (asksHuman P.mode → st'.onMark P .gateWait = .awaiting) →
      (¬ asksHuman P.mode → st'.onMark P .gatePassed = .passed) →
      (when (asksHuman P.mode) (humanReview P.env)).wp (course P)
        (fun _ v st => Q none v st) E v' st' := by
    intro v' st' hv hwait hgo
    refine wp_when (fun h => ?_) fun h => hpass v' st' (hgo h) (.inl hv)
    refine humanReview_wp (hwait h) (fun v' hv => hpass v' _ rfl (.inr hv)) fun text v' hv => ?_
    exact hrej text v' _ rfl hv
  simp only [reviews]
  split_ifs with hnone
  · rw [wp_pure]
    refine hpass _ _ ?_ (.inl rfl)
    have hmode : P.mode = "none" := hnone
    simp only [onMark, hmode]
    rfl
  · simp only [wp_bind, wp_pure]
    refine wp_when (fun hj => ?_) fun hj => ?_
    · refine judgeReview_wp hp (fun b v' hv => hhuman v' _ hv ?_ ?_) fun text v' hv =>
        hrej text v' _ rfl hv
      all_goals intro h; simp [onMark, h]
    · refine hhuman v _ rfl ?_ ?_
      · intro h; simp only [onMark, h, show ¬ asksJudge P.mode from hj, not_false_iff,
          and_self, if_true]
      · intro h; simp [onMark, h, show ¬ asksJudge P.mode from hj, or_self]

theorem runApprovalGate_wp {Q : Option WorkflowError → Vars → Stage → Prop}
    (hp : entersGate P v.state.phase)
    (hpass : ∀ v', v'.state.phase = v.state.phase ∨ v'.state.phase = .succeeded →
      Q none v' .passed)
    (hrej : ∀ text v', v'.state.phase = .failed → Q (some (.failed text)) v' .rejected) :
    (runApprovalGate P.env P.input).wp (course P) Q E v .done := by
  simp only [runApprovalGate, wp_bind, wp_call, wp_mark, wp_pure]
  refine reviews_wp hp (fun v' st' hst hv => ?_) fun text v' st' hst hv => ?_
  · change st'.onMark P .gatePassed ≠ .stray ∧ Q none v' (st'.onMark P .gatePassed)
    rw [hst]
    exact ⟨(by simp), hpass v' hv⟩
  · change st'.onMark P .gateRejected ≠ .stray ∧ Q _ v' (st'.onMark P .gateRejected)
    rw [hst]
    exact ⟨(by simp), hrej text v' hv⟩

end Gate

end Follows

end Uncworks
