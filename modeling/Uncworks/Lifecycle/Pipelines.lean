import Uncworks.Durable.History
import Uncworks.Lifecycle.Course

/-!
# The two pipelines follow the course
-/

namespace Uncworks

open Durable Flow Stage

namespace Follows

variable {P : Pipeline} {v : Vars} {st : Stage} {Q : Unit → Vars → Stage → Prop}
  {E : Option WorkflowError → Vars → Stage → Prop} {n : ℕ}

abbrev Concludes (Q : Option WorkflowError → Vars → Stage → Prop) : Prop :=
  ∀ err v' st', st'.Ends v'.state.phase err → Q err v' st'

/-! ## Polling -/

theorem stopAgent_wp (hst : st ≠ .awaiting) (hv : st.Shows P v.state.phase)
    (hQ : Q () v st) : (stopAgent P.input).wp (course P) Q E v st := by
  simp only [stopAgent, wp_bind, wp_read, wp_pure]
  exact execute_background rfl hst hv fun _ => hQ

theorem forwardHumanInput_wp {text} (hst : st ≠ .awaiting) (hv : st.Shows P v.state.phase)
    (hQ : ∀ v', v'.state.phase = .running → Q () v' st) :
    (forwardHumanInput P.input text).wp (course P) Q E v st := by
  simp only [forwardHumanInput, wp_bind, wp_read, setPhase_wp]
  exact execute_background rfl hst hv fun _ => hQ _ rfl

theorem exceedTTL_wp (hst : st ≠ .awaiting) (hv : st.Shows P .failed)
    (hQ : ∀ v', v'.state.phase = .failed → Q () v' st) :
    (exceedTTL P.input).wp (course P) Q E v st := by
  simp only [exceedTTL, wp_bind, setPhase_wp]
  exact stopAgent_wp hst hv (hQ _ rfl)

theorem enrichRunTags_wp (hst : st ≠ .awaiting) (hv : st.Shows P v.state.phase)
    (hQ : Q () v st) : (enrichRunTags P.env P.input).wp (course P) Q E v st := by
  simp only [enrichRunTags, wp_bind, wp_read, wp_pure]
  exact execute_background rfl hst hv fun _ => hQ

theorem startPolling_wp (hQ : Q () v (.polling 0)) :
    (startPolling P.input).wp (course P) Q E v .launched := by
  simp only [startPolling, wp_bind, wp_start, step, onStarted, unlessAwaiting]
  exact ⟨(by simp), (by simp), hQ⟩

theorem onFired_ne_stray {t} : onFired P (.polling n) (pollGuards P.input) t ≠ .stray := by
  cases t <;> simp only [onFired]
  · split_ifs <;> exact nofun
  · exact nofun

theorem onWaiting_polling : onWaiting P (.polling n) (pollGuards P.input) = .polling n := by
  simp [onWaiting]

theorem pollSelect_wp {Q : Picked temporal → Vars → Stage → Prop}
    (hv : (polling n).Shows P v.state.phase)
    (hcancel : Q (.received Channel.cancel ()) v .quit)
    (hinput : ∀ text, Q (.received Channel.humanInput text) v (.polling n))
    (httl : ∀ d, Q (.fired (Timer.ttl d)) v (onFired P (.polling n) (pollGuards P.input) (.ttl d)))
    (hpoll : ∀ d, Q (.fired (Timer.poll d)) v (.polling n)) :
    (select (pollGuards P.input)).wp (course P) Q E v (.polling n) := by
  rw [wp_select]
  simp only [step, onWaiting_polling]
  refine ⟨hv, ?_⟩
  rintro st' hst'
  obtain rfl : st' = .polling n := by simpa using hst'
  refine ⟨fun ch hch i x => ?_, fun t ht => ?_⟩
  · simp only [pollGuards, List.mem_cons, Guard.receive.injEq, reduceCtorEq, List.not_mem_nil,
      or_false] at hch
    rcases hch with rfl | rfl
    · exact ⟨(by rintro ⟨⟩), hcancel⟩
    · exact ⟨(by rintro ⟨⟩), hinput x⟩
  · simp only [pollGuards, List.mem_cons, Guard.timer.injEq, reduceCtorEq, List.not_mem_nil,
      false_or, or_false] at ht
    rcases ht with rfl | rfl
    · exact ⟨onFired_ne_stray, httl _⟩
    · exact ⟨onFired_ne_stray, hpoll _⟩

theorem getAgentStatus_wp {Q : Except Failure GetAgentStatusOutput → Vars → Stage → Prop}
    (hv : (polling n).Shows P v.state.phase)
    (hr : ∀ r, (afterStatus P n r).Shows P v.state.phase)
    (hQ : ∀ r, Q r v (afterStatus P n r)) :
    (getAgentStatus P.input).wp (course P) Q E v (.polling n) := by
  simp only [getAgentStatus, wp_bind, wp_read]
  exact execute_reply (by simp) rfl hv hr hQ

/-! ## The single-agent workflow -/

section SingleAgent

variable (hs : P.specDriven = false) {n : ℕ}

include hs

theorem prepareSingleAgent_wp
    (hQ : ∀ v', Q () v' .idle)
    (hE : Aborts E) :
    (prepareSingleAgent P.input).wp (course P) Q E v .idle := by
  simp only [prepareSingleAgent, wp_bind, setPhase_wp, wp_read, wp_pure]
  refine provisionLLMKey_wp (by simp [Shows, hs]) (fun v₁ h₁ => ?_) hE
  refine createAgentDeployment_wp (by simp [Shows, hs, h₁]) (fun v₂ h₂ => ?_) hE
  refine checkEviction_wp (by simp [Shows, hs, h₁, h₂]) (fun v₃ h₃ => ?_) hE
  refine waitForHydration_wp (by simp [Shows, hs]) (fun v₄ h₄ => ?_) hE
  exact execute_background rfl (by simp) (by simp [Shows, hs, h₄]) fun _ => hQ v₄

theorem startSingleAgent_wp
    (hQ : ∀ v', v'.state.phase = .running → Q () v' .launched)
    (hE : Aborts E) :
    (startSingleAgent P.input).wp (course P) Q E v .idle := by
  simp only [startSingleAgent, wp_bind, setPhase_wp, setMessage_wp, wp_read]
  have hidle : idle.Shows P .running := by simp [Shows, hs]
  have hlaunched : launched.Shows P .running := by simp [Shows, hs]
  refine execute_reply (by simp) rfl hidle (fun r => shows_need hidle hlaunched) fun r => ?_
  exact required_wp .launched (fun _ _ => hQ _ rfl) hE

def Polled (p : Phase) : Prop := p = .running ∨ p = .waitingForInput

def StatusSeen (n : ℕ) (p : Phase) (st : Stage) : Prop :=
  (st = .polling n ∧ Polled p) ∨ ((st = .failed ∨ st = .overdue) ∧ p = .failed) ∨
    (st = .done ∧ p = .succeeded)

theorem noteStatus_wp {Q : ℕ → Vars → Stage → Prop} (hv : Polled v.state.phase)
    (hQ : ∀ n' v' st', StatusSeen n' v'.state.phase st' → Q n' v' st')
    (r : Except Failure GetAgentStatusOutput) :
    (noteStatus n r).wp (course P) Q E v (afterStatus P n r) := by
  rcases r with err | status
  · simp only [noteStatus, wp_bind, wp_pure, afterStatus, hs, Bool.false_eq_true,
      if_false]
    refine wp_when (fun h => ?_) fun h => ?_
    · simp only [setPhase_wp, if_pos h]
      exact hQ _ _ _ (.inr (.inl ⟨.inl rfl, rfl⟩))
    · simp only [if_neg h]
      exact hQ _ _ _ (.inl ⟨rfl, hv⟩)
  · simp only [noteStatus, wp_bind, wp_pure, afterStatus, hs, Bool.false_eq_true,
      if_false]
    simp only [applyStatus]
    rcases status.state <;> simp
    case completed => exact hQ _ _ _ (.inr (.inr ⟨rfl, rfl⟩))
    case failed => exact hQ _ _ _ (.inr (.inl ⟨.inl rfl, rfl⟩))
    case waitingForInput => exact hQ _ _ _ (.inl ⟨rfl, .inr rfl⟩)
    all_goals exact hQ _ _ _ (.inl ⟨rfl, hv⟩)

theorem shows_afterStatus {p} (hp : Polled p) (r : Except Failure GetAgentStatusOutput) :
    (afterStatus P n r).Shows P p := by
  unfold Polled at hp
  rcases r with err | status
  · simp only [afterStatus, hs, Bool.false_eq_true, if_false]
    split_ifs <;> simp [Shows, hs] <;> tauto
  · simp only [afterStatus, hs, Bool.false_eq_true, if_false]
    rcases status.state <;> simp [Shows, hs] <;> tauto

theorem handlePolled_wp {Q : ℕ → Vars → Stage → Prop} (hv : Polled v.state.phase)
    (hseen : ∀ n' v' st', StatusSeen n' v'.state.phase st' → Q n' v' st')
    (hquit : ∀ v', v'.state.phase = .cancelled → Q n v' .quit) :
    (select (pollGuards P.input)).wp (course P)
      (fun picked v st => (handlePolled P.input n picked).wp (course P) Q E v st) E v
      (.polling n) := by
  have hpolling : (polling n).Shows P v.state.phase := by
    simpa [Shows, hs, Polled] using hv
  refine pollSelect_wp hpolling ?_ (fun text => ?_) (fun d => ?_) fun d => ?_
  · simp only [handlePolled, wp_bind, wp_pure, setPhase_wp]
    exact stopAgent_wp (by simp) (.inl rfl) (hquit _ rfl)
  · simp only [handlePolled, wp_bind, wp_pure]
    exact forwardHumanInput_wp (by simp) hpolling fun v' hv' => hseen _ _ _ (.inl ⟨rfl, .inl hv'⟩)
  · simp only [handlePolled, wp_bind, wp_pure, onFired, hs, Bool.false_eq_true,
      if_true, if_false]
    exact exceedTTL_wp (by simp) rfl fun v' hv' => hseen _ _ _ (.inr (.inl ⟨.inr rfl, hv'⟩))
  · simp only [handlePolled, wp_bind, wp_pure, wp_start]
    refine getAgentStatus_wp hpolling (shows_afterStatus hs hv) fun r => ?_
    refine noteStatus_wp hs hv (fun n' v' st' h => ?_) r
    have hst : step P st' (.started (.poll statusPollInterval)) = st' ∧ st' ≠ .stray := by
      rcases h with ⟨rfl, _⟩ | ⟨rfl | rfl, _⟩ | ⟨rfl, _⟩ <;> exact ⟨rfl, (by simp)⟩
    rw [hst.1]
    exact ⟨hst.2, hseen n' v' st' h⟩

theorem onScheduled_push (hp : P.publishes) {c} (hc : c.isPush) :
    onScheduled P .passed c = .passed := by
  cases c <;> simp_all [Command.isPush, onScheduled, onPush]

theorem openPullRequest_wp {url} (hp : P.publishes) (hv : v.state.phase = .succeeded)
    (hQ : ∀ v', v'.state.phase = .succeeded → Q () v' .passed) :
    (openPullRequest P.env P.input url).wp (course P) Q E v .passed := by
  unfold openPullRequest
  rcases parseGitHubOwnerRepo P.env url with _ | ⟨owner, repo⟩
  · exact (wp_pure _).2 (hQ v hv)
  · simp only [wp_bind]
    refine execute_reply (by simp) (onScheduled_push hs hp rfl) hv (fun _ => hv) fun r => ?_
    rcases r with err | prUrl
    · exact (wp_pure _).2 (hQ v hv)
    · exact (wp_update _).2 (hQ _ hv)

theorem pushAndPR_wp (hp : P.publishes) (hv : v.state.phase = .succeeded)
    (hQ : ∀ v', v'.state.phase = .succeeded → Q () v' .passed) :
    (pushAndPR P.env P.input).wp (course P) Q E v .passed := by
  simp only [pushAndPR, wp_bind, wp_read]
  refine execute_reply (by simp) (onScheduled_push hs hp rfl) hv (fun _ => hv) fun r => ?_
  rcases r with err | pushed
  · exact (wp_pure _).2 (hQ v hv)
  · change wp (course P) (if _ then _ else _) Q E v .passed
    split_ifs
    · exact setMessage_wp.2 (hQ _ hv)
    · split
      · exact openPullRequest_wp hs hp hv hQ
      · exact setMessage_wp.2 (hQ _ hv)

theorem finishSingleAgent_wp {Q} (hv : v.state.phase = .succeeded) (hQ : Concludes Q) :
    (finishSingleAgent P.env P.input).wp (course P) Q E v .done := by
  simp only [finishSingleAgent, wp_bind, wp_call]
  refine runApprovalGate_wp (by simpa [entersGate, hs] using hv) (fun v' hv' => ?_)
    fun text v' hv' => ?_
  · replace hv' : v'.state.phase = .succeeded := by rcases hv' with h | h <;> simp [h, hv]
    simp only [wp_bind, wp_pure]
    refine enrichRunTags_wp (by simp) hv' (wp_when (fun hp => ?_) fun _ => hQ none v' _ ⟨hv', rfl⟩)
    exact pushAndPR_wp hs hp hv' fun v₁ hv₁ => hQ none v₁ _ ⟨hv₁, rfl⟩
  · exact (wp_pure _).2 (hQ _ v' _ ⟨hv', text, rfl⟩)

theorem pollRound_wp {Q : ℕ ⊕ Option WorkflowError → Vars → Stage → Prop}
    (hv : Polled v.state.phase)
    (hround : ∀ n' v', Polled v'.state.phase → Q (.inl n') v' (.polling n'))
    (hend : ∀ err v' st', st'.Ends v'.state.phase err → Q (.inr err) v' st') :
    (pollRound P.env P.input n).wp (course P) Q E v (.polling n) := by
  simp only [pollRound, wp_bind, wp_read]
  refine handlePolled_wp hs hv (fun n' v' st' h => ?_) fun v' hv' => ?_
  · rcases h with ⟨rfl, h | h⟩ | ⟨rfl | rfl, h⟩ | ⟨rfl, h⟩ <;>
      simp [h]
    · exact hround n' v' (.inl h)
    · exact hround n' v' (.inr h)
    · exact hend none v' _ ⟨h, rfl⟩
    · exact hend none v' _ ⟨h, rfl⟩
    · exact finishSingleAgent_wp hs h hend
  · simp only [hv', wp_pure]
    exact hend none v' _ ⟨hv', .inl rfl⟩

theorem singleAgentBody_wp {Q} (hQ : Concludes Q) :
    (singleAgentBody P.env P.input).wp (course P) Q Q v .idle := by
  have habort : Aborts Q := fun _ err v' h => hQ err v' _ h
  simp only [singleAgentBody, wp_bind]
  refine prepareSingleAgent_wp hs (fun v₁ => ?_) habort
  refine startSingleAgent_wp hs (fun v₂ h₂ => ?_) habort
  refine startPolling_wp (wp_loop
    (fun n v st => st = .polling n ∧ Polled v.state.phase) ⟨rfl, .inl h₂⟩ ?_)
  rintro n v st ⟨rfl, hv⟩
  exact pollRound_wp hs hv (fun n' v' h => ⟨rfl, h⟩) hQ

end SingleAgent

/-! ## The spec-driven pipeline -/

theorem writeStageSpan_wp {name status} (hst : st ≠ .awaiting) (hv : st.Shows P v.state.phase)
    (hQ : Q () v st) : (writeStageSpan P.input name status).wp (course P) Q E v st := by
  simp only [writeStageSpan, wp_bind, wp_read, wp_pure]
  exact execute_background rfl hst hv fun _ => hQ

section SpecDriven

def Attempting (p : Phase) : Prop := p = .running ∨ p = .failed

variable (hs : P.specDriven = true) {p : Phase} {changeName : String}

include hs

theorem Attempting.retrying (h : Attempting p) : retrying.Shows P p := by
  simp only [Shows, hs]
  exact h

theorem Attempting.exhausted (h : Attempting p) : exhausted.Shows P p := by
  simp only [Shows, hs]
  exact h

theorem Attempting.verifying (h : Attempting p) : verifying.Shows P p := by
  simp only [Shows, hs]
  exact h

theorem shows_idle (h : p = .running) : idle.Shows P p := by
  simp only [Shows, hs]
  exact .inr h

theorem Attempting.aborted (h : Attempting p) {canceled} : (aborted canceled).Shows P p := by
  simp only [Shows, hs]
  exact .inr h

def Ready (st : Stage) (p : Phase) : Prop :=
  (st = .idle ∧ p = .running) ∨ (st = .retrying ∧ Attempting p)

theorem Ready.shows (h : Ready st p) : st.Shows P p := by
  rcases h with ⟨rfl, hp⟩ | ⟨rfl, hp⟩
  · exact shows_idle hs hp
  · exact hp.retrying hs

omit hs in
theorem Ready.attempting (h : Ready st p) : Attempting p := by
  rcases h with ⟨-, hp⟩ | ⟨-, hp⟩
  · exact .inl hp
  · exact hp

omit hs in
theorem Ready.ne_awaiting (h : Ready st p) : st ≠ .awaiting := by
  rcases h with ⟨rfl, -⟩ | ⟨rfl, -⟩ <;> exact nofun

theorem Attempting.done (h : Attempting p) : done.Shows P p := by
  simpa only [Shows, hs, Attempting] using h

theorem Attempting.launched (h : Attempting p) : launched.Shows P p := by
  simpa only [Shows, hs, Attempting] using h

theorem Attempting.polling (h : Attempting p) : (polling 0).Shows P p := by
  simp only [Shows, hs]
  unfold Attempting at h
  tauto

theorem checkCancel_wp {Q : Bool → Vars → Stage → Prop} (hst : Ready st v.state.phase)
    (hgo : Q false v st) (hquit : ∀ v', v'.state.phase = .cancelled → Q true v' .quit) :
    checkCancel.wp (course P) Q E v st := by
  have hstep : ∀ gs n x, step P st (.received gs Channel.cancel n x) = .quit := by
    intro gs n x
    rcases hst with ⟨rfl, -⟩ | ⟨rfl, -⟩
    · simp [step, onReceived, hs]
    · rfl
  simp only [checkCancel, wp_bind]
  refine wp_poll.2 ⟨(wp_pure _).2 hgo, fun n x => ?_⟩
  simp only [wp_bind, wp_pure, setPhase_wp, hstep]
  exact ⟨(by simp), hquit _ rfl⟩

theorem prepareSpecDriven_wp
    (hQ : ∀ v', v'.state.phase = .running → Q () v' .idle)
    (hE : Aborts E) :
    (prepareSpecDriven P.input).wp (course P) Q E v .idle := by
  simp only [prepareSpecDriven, wp_bind, setPhase_wp, setMessage_wp]
  have hidle {p} (h : p = Phase.running) : idle.Shows P p := shows_idle hs h
  refine provisionLLMKey_wp (hidle rfl) (fun v₁ h₁ => ?_) hE
  refine createAgentDeployment_wp (hidle h₁) (fun v₂ h₂ => ?_) hE
  refine checkEviction_wp (hidle (h₂.trans h₁)) (fun v₃ h₃ => ?_) hE
  have hrun := h₃.trans (h₂.trans h₁)
  refine waitForHydration_wp ?_ (fun v₄ h₄ => ?_) hE
  · exact hidle hrun
  · exact hQ v₄ (h₄.trans hrun)

theorem shows_afterPlan (hp : p = .running) (r : Except Failure PlanRunOutput) :
    (afterPlan r).Shows P p := by
  have hidle : idle.Shows P p := shows_idle hs hp
  rcases r with (_ | _) | plan
  · exact shows_aborted hidle
  · exact shows_aborted hidle
  · simp only [afterPlan]
    split_ifs
    · exact hidle
    · exact shows_aborted hidle

theorem obtainPlan_wp {Q : PlanRunOutput → Vars → Stage → Prop} (hv : v.state.phase = .running)
    (hQ : ∀ plan, Q plan v (afterPlan (.ok plan)))
    (hE : Aborts E) :
    (obtainPlan P.input).wp (course P) Q E v .idle := by
  have hidle : idle.Shows P v.state.phase := shows_idle hs hv
  unfold obtainPlan
  split_ifs
  · simp only [wp_bind, wp_pure]
    exact writeStageSpan_wp (by simp) hidle (hQ { changeName := "ci-autofix", taskCount := 1, specsValid := true })
  · simp only [wp_bind, wp_read]
    refine execute_reply (by simp) rfl hidle (shows_afterPlan hs hv) fun r => ?_
    rcases r with (_ | text) | plan
    · simp only [wp_bind]
      exact writeStageSpan_wp (by rintro ⟨⟩) (shows_aborted hidle) (required_wp .idle (by rintro _ ⟨⟩) hE)
    · simp only [wp_bind]
      exact writeStageSpan_wp (by rintro ⟨⟩) (shows_aborted hidle) (required_wp .idle (by rintro _ ⟨⟩) hE)
    · exact (wp_pure _).2 (hQ plan)

theorem planStage_wp {Q : PlanRunOutput → Vars → Stage → Prop} (hv : v.state.phase = .running)
    (hQ : ∀ plan v', v'.state.phase = .running → Q plan v' .idle)
    (hE : Aborts E) :
    (planStage P.input).wp (course P) Q E v .idle := by
  have hidle : idle.Shows P v.state.phase := shows_idle hs hv
  simp only [planStage, wp_bind, setMessage_wp]
  refine writeStageSpan_wp (by simp) hidle (obtainPlan_wp hs hv (fun plan => ?_) hE)
  split_ifs with hvalid <;> simp only [afterPlan, hvalid, if_true, if_false, Bool.false_eq_true,
    wp_bind, wp_pure, wp_exit, setPhase_wp]
  · exact writeStageSpan_wp (by simp) hidle (hQ plan _ hv)
  · exact writeStageSpan_wp (by simp) (shows_aborted hidle) (hE false _ _ ⟨rfl, _, rfl⟩)

/-! ### An attempt -/

theorem afterStatus_polling {n} (r : Except Failure GetAgentStatusOutput) :
    afterStatus P n r = .polling 0 := by
  rcases r with err | status <;> simp [afterStatus, hs]

def AttemptPolled (p : Phase) : Prop := p = .running ∨ p = .waitingForInput ∨ p = .failed

omit hs in
theorem noteAttemptStatus_wp {Q : ℕ → Vars → Stage → Prop} {n} (hv : AttemptPolled v.state.phase)
    (hQ : ∀ n' v', AttemptPolled v'.state.phase ∨ v'.state.phase = .agentCompleted → Q n' v' st)
    (r : Except Failure GetAgentStatusOutput) : (noteAttemptStatus n r).wp (course P) Q E v st := by
  rcases r with err | status
  · simp only [noteAttemptStatus, wp_bind, wp_pure]
    refine wp_when (fun h => ?_) fun h => hQ _ _ (.inl hv)
    exact setPhase_wp.2 (hQ _ _ (.inl (.inr (.inr rfl))))
  · simp only [noteAttemptStatus, wp_bind, applyAttemptStatus]
    rcases status.state <;> simp
    case completed => exact hQ _ _ (.inr rfl)
    case failed => exact hQ _ _ (.inl (.inr (.inr rfl)))
    case waitingForInput => exact hQ _ _ (.inl (.inr (.inl rfl)))
    all_goals exact hQ _ _ (.inl hv)

theorem handleAttemptPolled_wp {n} {Q : ℕ → Vars → Stage → Prop}
    (hv : AttemptPolled v.state.phase)
    (hseen : ∀ n' v', AttemptPolled v'.state.phase ∨ v'.state.phase = .agentCompleted →
      Q n' v' (.polling 0))
    (hquit : ∀ v', v'.state.phase = .cancelled → Q n v' .quit) :
    (select (pollGuards P.input)).wp (course P)
      (fun picked v st => (handleAttemptPolled P.input n picked).wp (course P) Q E v st) E v
      (.polling 0) := by
  have hpolling {p} (h : AttemptPolled p) : (polling 0).Shows P p := by
    simpa [Shows, hs, AttemptPolled] using h
  refine pollSelect_wp (hpolling hv) ?_ (fun text => ?_) (fun d => ?_) fun d => ?_
  · simp only [handleAttemptPolled, wp_bind, wp_pure, setPhase_wp]
    exact stopAgent_wp (by simp) (.inr rfl) (hquit _ rfl)
  · simp only [handleAttemptPolled, wp_bind, wp_pure]
    exact forwardHumanInput_wp (by simp) (hpolling hv) fun v' hv' => hseen _ _ (.inl (.inl hv'))
  · simp only [handleAttemptPolled, wp_bind, wp_pure, onFired, hs]
    exact exceedTTL_wp (by simp) (hpolling (.inr (.inr rfl))) fun v' hv' =>
      hseen _ _ (.inl (.inr (.inr hv')))
  · simp only [handleAttemptPolled, wp_bind, wp_pure, wp_start]
    refine getAgentStatus_wp (hpolling hv) (fun r => ?_) fun r => ?_ <;>
      rw [afterStatus_polling hs r]
    · exact hpolling hv
    · refine noteAttemptStatus_wp hv (fun n' v' h => ?_) r
      exact ⟨(by rintro ⟨⟩), hseen n' v' h⟩

theorem pollAgentStatus_wp (hv : Attempting v.state.phase)
    (hQ : ∀ v', Attempting v'.state.phase → Q () v' (.polling 0))
    (hquit : ∀ v', v'.state.phase = .cancelled → Q () v' .quit) :
    (pollAgentStatus P.input).wp (course P) Q E v .launched := by
  simp only [pollAgentStatus, wp_bind]
  refine startPolling_wp (wp_loop
    (fun _ v st => st = .polling 0 ∧ AttemptPolled v.state.phase) ⟨rfl, ?_⟩ ?_)
  · exact hv.imp_right .inr
  · rintro n v st ⟨rfl, hv⟩
    simp only [pollAttemptRound, wp_bind, wp_read]
    refine handleAttemptPolled_wp hs hv (fun n' v' h => ?_) fun v' h => ?_
    · rcases h with (h | h | h) | h <;> simp only [h, wp_bind, wp_pure, wp_update]
      · exact ⟨trivial, .inl rfl⟩
      · exact ⟨trivial, .inr (.inl rfl)⟩
      · exact hQ v' (.inr h)
      · exact hQ _ (.inl rfl)
    · simp only [h, wp_pure]
      exact hquit v' h

omit hs in
theorem onReply_startAgent (hst : Ready st p) {i} {r : Except Failure Unit} :
    st.onReply P (.startAgent i) r = need .launched r := by
  rcases hst with ⟨rfl, -⟩ | ⟨rfl, -⟩ <;> rfl

theorem executeStage_wp {r} (hst : Ready st v.state.phase)
    (hQ : ∀ v', Attempting v'.state.phase → Q () v' (.polling 0)) (hE : Concludes E) :
    (executeStage P.input changeName r).wp (course P) Q E v st := by
  have hv := hst.attempting
  have hreply {r : Except Failure Unit} : (need .launched r).Shows P v.state.phase := by
    rcases r with (_ | _) | _
    · exact hv.aborted hs
    · exact hv.aborted hs
    · exact hv.launched hs
  simp only [executeStage, wp_bind, setMessage_wp, wp_read]
  refine writeStageSpan_wp hst.ne_awaiting (hst.shows hs)
    (execute_reply hst.ne_awaiting rfl (hst.shows hs) (fun r => ?_) fun r => ?_) <;>
    rw [onReply_startAgent hst]
  · exact hreply
  rcases r with err | _
  · simp only [wp_bind]
    exact writeStageSpan_wp (by cases err <;> rintro ⟨⟩) hreply
      (required_wp .launched (by simp) fun canceled err v' h => hE err v' _ h)
  · simp only [wp_bind, wp_read]
    refine pollAgentStatus_wp hs hv (fun v' hv' => ?_) fun v' hv' => ?_
    · refine writeStageSpan_wp (by simp) (hv'.polling hs) (wp_when (fun h => ?_) fun _ => hQ v' hv')
      rcases hv' with h' | h' <;> simp [h'] at h
    · refine writeStageSpan_wp (by simp) (.inr hv') (wp_when (fun _ => ?_) fun h => absurd hv' h)
      exact (wp_exit _).2 (hE _ v' _ ⟨hv', .inr ⟨_, rfl⟩⟩)

/-! ### Verification -/

theorem onScheduled_push_done (hp : P.publishes) {c} (hc : c.isPush) :
    onScheduled P .done c = .done := by
  cases c <;> simp_all [Command.isPush, onScheduled, onPush]

theorem postVerifyPushAndPR_wp
    (hv : Attempting v.state.phase) (hQ : ∀ v', Attempting v'.state.phase → Q () v' .done) :
    (postVerifyPushAndPR P.env P.input changeName).wp (course P) Q E v .done := by
  refine wp_when (fun hp => ?_) fun _ => hQ v hv
  simp only [wp_bind, setMessage_wp, wp_read]
  have hpush {c : Command} (hc : c.isPush) := onScheduled_push_done hs hp hc
  refine execute_reply (by simp) (hpush rfl) (hv.done hs) (fun _ => hv.done hs) fun r => ?_
  rcases r with err | pushed
  · exact (wp_pure _).2 (hQ _ hv)
  refine wp_when (fun _ => ?_) fun _ => hQ _ hv
  split
  · exact (wp_pure _).2 (hQ _ hv)
  · simp only [wp_bind, setMessage_wp]
    refine execute_reply (by rintro ⟨⟩) (hpush rfl) (hv.done hs) (fun _ => hv.done hs) fun r => ?_
    rcases r with err | url
    · exact (wp_pure _).2 (hQ _ hv)
    · exact (wp_update _).2 (hQ _ hv)

theorem finishSpecDriven_wp {Q attempt} (hv : Attempting v.state.phase) (hQ : Concludes Q) :
    (finishSpecDriven P.env P.input changeName attempt).wp (course P) Q E v .done := by
  simp only [finishSpecDriven, wp_bind, wp_call]
  refine writeStageSpan_wp (by simp) (hv.done hs) (enrichRunTags_wp (by simp) (hv.done hs) ?_)
  refine postVerifyPushAndPR_wp hs hv fun v₁ hv₁ => writeStageSpan_wp (by simp) (hv₁.done hs) ?_
  refine runApprovalGate_wp (by simpa [entersGate, hs, Attempting] using hv₁) (fun v₂ _ => ?_)
    fun text v₂ hv₂ => ?_
  · simp only [wp_bind, wp_update, wp_pure]
    exact hQ none _ _ ⟨rfl, rfl⟩
  · exact (wp_pure _).2 (hQ _ v₂ _ ⟨hv₂, text, rfl⟩)

theorem shows_afterVerify (hp : Attempting p) (r : Except Failure VerificationResult) :
    (afterVerify r).Shows P p := by
  rcases r with (_ | _) | result
  · exact hp.aborted hs
  · exact hp.retrying hs
  · simp only [afterVerify]
    split_ifs
    · exact hp.done hs
    · exact hp.retrying hs

theorem verifyRun_wp {Q : Except Failure VerificationResult → Vars → Stage → Prop} {input}
    (hv : Attempting v.state.phase) (hQ : ∀ r, Q r v (afterVerify r)) :
    (execute (.verifyRun input)).wp (course P) Q E v (.polling 0) := by
  rw [execute, wp_exec]
  simp only [step, onScheduled, onReply, hs, if_true]
  exact ⟨⟨(by rintro ⟨⟩), hQ _⟩, hv.verifying hs, fun r => ⟨shows_afterVerify hs hv r, hQ r⟩⟩

theorem verifyStage_wp {Q : Retry → Vars → Stage → Prop} {r} (hv : Attempting v.state.phase)
    (hQ : ∀ r v', Attempting v'.state.phase → Q r v' .retrying) (hE : Concludes E) :
    (verifyStage P.env P.input changeName r).wp (course P) Q E v (.polling 0) := by
  simp only [verifyStage, wp_bind, setMessage_wp, wp_read]
  refine writeStageSpan_wp (by simp) (hv.polling hs) (verifyRun_wp hs hv fun reply => ?_)
  rcases reply with (_ | text) | result
  · simp only [wp_bind, setPhase_wp, wp_exit]
    exact writeStageSpan_wp (by rintro ⟨⟩) (hv.aborted hs) (hE _ _ _ ⟨rfl, _, rfl⟩)
  · simp only [wp_bind, wp_pure]
    exact writeStageSpan_wp (by rintro ⟨⟩) (hv.retrying hs) (hQ _ _ hv)
  · simp only [afterVerify]
    split_ifs <;> simp
    · exact finishSpecDriven_wp hs hv hE
    · exact writeStageSpan_wp (by simp) (hv.retrying hs) (hQ _ _ hv)

theorem attemptRound_wp {Q : Retry ⊕ Retry → Vars → Stage → Prop} {r} (hst : Ready st v.state.phase)
    (hQ : ∀ r v' st', Ready st' v'.state.phase → Q r v' st') (hE : Concludes E) :
    (attemptRound P.env P.input changeName r).wp (course P) Q E v st := by
  unfold attemptRound
  split_ifs
  · simp only [wp_bind, wp_read, wp_pure]
    refine checkCancel_wp hs hst (wp_when (fun h => ?_) fun _ => ?_) fun v' hv' => ?_
    · rcases hst.attempting with h' | h' <;> simp [h'] at h
    · exact executeStage_wp hs hst (fun v₁ hv₁ =>
        verifyStage_wp hs hv₁ (fun r v₂ hv₂ => hQ (.inl r) v₂ _ (.inr ⟨rfl, hv₂⟩)) hE) hE
    · exact (wp_exit _).2 (hE _ v' _ ⟨hv', .inr ⟨_, rfl⟩⟩)
  · exact (wp_pure _).2 (hQ _ v st hst)

theorem onMark_retriesExhausted (hst : Ready st p) :
    step P st (.marked .retriesExhausted) = .exhausted := by
  rcases hst with ⟨rfl, -⟩ | ⟨rfl, -⟩
  · simp [step, onMark, hs]
  · rfl

theorem specDrivenBody_wp {Q} (hQ : Concludes Q) :
    (specDrivenBody P.env P.input).wp (course P) Q Q v .idle := by
  have habort : Aborts Q := fun _ err v' h => hQ err v' _ h
  simp only [specDrivenBody, wp_bind, wp_mark, setPhase_wp, wp_pure]
  refine prepareSpecDriven_wp hs (fun v₁ h₁ => ?_) habort
  refine writeStageSpan_wp (by simp) (shows_idle hs h₁) ?_
  refine checkCancel_wp hs (.inl ⟨rfl, h₁⟩) (wp_when (by simp) fun _ => ?_) fun v₂ h₂ => ?_
  · refine planStage_wp hs h₁ (fun plan v₂ h₂ => ?_) habort
    refine wp_loop (fun _ v st => Ready st v.state.phase) (.inl ⟨rfl, h₂⟩) ?_
    intro r v st hst
    refine attemptRound_wp hs hst (fun r' v' st' hst' => ?_) hQ
    rcases r' with r' | r'
    · exact hst'
    · rw [onMark_retriesExhausted hs hst']
      exact ⟨(by simp), writeStageSpan_wp (by simp) (hst'.attempting.exhausted hs)
        (hQ none _ _ ⟨rfl, rfl⟩)⟩
  · exact (wp_exit _).2 (hQ none v₂ _ ⟨h₂, .inl rfl⟩)

end SpecDriven

/-! ## Deferred cleanup -/

theorem withDeferred_wp {Q : Option WorkflowError → Vars → Stage → Prop} {cleanup body}
    (hbody : ∀ {R : Option WorkflowError → Vars → Stage → Prop},
      (∀ err v' st', st'.Ends v'.state.phase err → R err v' st') →
      body.wp (course P) R R v st)
    (hcleanup : ∀ {R : Unit → Vars → Stage → Prop} {v' st'}, st' ≠ .awaiting →
      st'.Shows P v'.state.phase → R () v' st' → cleanup.wp (course P) R E v' st')
    (hQ : ∀ e err v', v'.state.phase = e.phase → e.Returns err → Q err v' (.closing e)) :
    (withDeferred cleanup body).wp (course P) Q E v st := by
  simp only [withDeferred, wp_bind, wp_call, wp_mark, wp_pure]
  refine hbody fun err v' st' h => ?_
  obtain ⟨e, hst, hphase, hret⟩ := h.returned (P := P)
  rw [hst]
  exact ⟨(by simp), hcleanup (by simp) hphase (hQ e err v' hphase hret)⟩

theorem runSingleAgent_wp {Q : Option WorkflowError → Vars → Stage → Prop}
    (hs : P.specDriven = false)
    (hQ : ∀ e err v', v'.state.phase = e.phase → e.Returns err → Q err v' (.closing e)) :
    (runSingleAgent P.env P.input).wp (course P) Q E v .idle := by
  simp only [runSingleAgent, wp_bind, wp_update]
  exact withDeferred_wp (singleAgentBody_wp hs) singleAgentCleanup_wp hQ

theorem runSpecDrivenPipeline_wp {Q : Option WorkflowError → Vars → Stage → Prop}
    (hs : P.specDriven = true)
    (hQ : ∀ e err v', v'.state.phase = e.phase → e.Returns err → Q err v' (.closing e)) :
    (runSpecDrivenPipeline P.env P.input).wp (course P) Q E v .idle := by
  simp only [runSpecDrivenPipeline, wp_bind, wp_update]
  exact withDeferred_wp (specDrivenBody_wp hs) specDrivenCleanup_wp hQ

end Follows

/-! ## Runs -/

/-- The pipeline an agent run goes through; a manual orchestration only waits for its juniors. -/
def pipeline? (env : Env) (input : WorkflowInput) : Option Pipeline :=
  match (preamble input).orchestrationMode with
  | .manual => none
  | .auto => some ⟨false, env, preamble { preamble input with orchestrationMode := .single }⟩
  | .specDriven => some ⟨true, env, preamble input⟩
  | .single => some ⟨false, env, preamble input⟩
  | .unspecified => some ⟨false, env, preamble input⟩

variable {env : Env} {input : WorkflowInput} {P : Pipeline} {c : Run}

def Closed (err : Option WorkflowError) (v : Vars) (st : Stage) : Prop :=
  ∃ e : Ending, st = .closing e ∧ v.state.phase = e.phase ∧ e.Returns err

theorem agentRunWorkflow_wp (hP : pipeline? env input = some P) {v}
    {E : Option WorkflowError → Vars → Stage → Prop} :
    (agentRunWorkflow env input).wp (course P) Closed E v .idle := by
  have hends : ∀ (e : Ending) err (v : Vars), v.state.phase = e.phase → e.Returns err →
      Closed err v (.closing e) := fun e _ _ hv he => ⟨e, rfl, hv, he⟩
  simp only [agentRunWorkflow]
  unfold pipeline? at hP
  rcases hm : (preamble input).orchestrationMode <;> simp only [hm, Option.some.injEq] at hP ⊢
  case manual => cases hP
  case auto =>
    subst hP
    simp only [runAutoOrchestration, wp_bind, wp_update]
    exact Follows.runSingleAgent_wp (P := ⟨false, env, _⟩) rfl hends
  case specDriven =>
    subst hP
    exact Follows.runSpecDrivenPipeline_wp (P := ⟨true, env, _⟩) rfl hends
  all_goals
    subst hP
    exact Follows.runSingleAgent_wp (P := ⟨false, env, _⟩) rfl hends

theorem agentRunWorkflow_prog_wp (hP : pipeline? env input = some P) :
    (agentRunWorkflow env input).prog.wp (course P)
      (fun r v st => ∀ err, r = .ok err ∨ r = .error err → Closed err v st) noVars .idle := by
  refine wp_prog.2 (wp_mono
    (agentRunWorkflow_wp (E := fun _ _ _ => False) hP) ?_ ?_)
  · rintro err v st hend err' (h | h) <;> cases h
    exact hend
  · intro err v st hf
    exact hf.elim

theorem shows_noVars : idle.Shows P noVars.state.phase := by
  rcases hs : P.specDriven <;> simp [Shows, noVars, hs]

theorem Run.stage_ne_stray (hP : pipeline? env input = some P)
    (h : (Run.start env input).Reaches c) : P.stage c.world.log ≠ .stray :=
  (Prog.wp_sound shows_noVars (agentRunWorkflow_prog_wp hP) h).safe

theorem Run.shows (hP : pipeline? env input = some P) (h : (Run.start env input).Reaches c)
    (hr : c.control.atRest) : (P.stage c.world.log).Shows P c.world.st.state.phase :=
  (Prog.wp_sound shows_noVars (agentRunWorkflow_prog_wp hP) h).rest hr

theorem Run.ends (hP : pipeline? env input = some P) (h : (Run.start env input).Reaches c) {err}
    (hc : c.returned? = some err) : Closed err c.world.st (P.stage c.world.log) := by
  simp only [Run.returned?, Option.map_eq_some_iff] at hc
  obtain ⟨r, hr, he⟩ := hc
  refine (Prog.wp_sound shows_noVars (agentRunWorkflow_prog_wp hP) h).result hr err ?_
  rcases r with e | e <;> simp_all

end Uncworks
