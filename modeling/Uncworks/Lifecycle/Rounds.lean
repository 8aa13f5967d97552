import Uncworks.Lifecycle.Quiet

/-!
# Following a run through its attempts

A monitor that looks at the agents and the verifications of a spec-driven run is followed through
the code once, for all such monitors.  `Rounds` is what there is to show about one of them: what it
knows at each point of an attempt, and that the entries made there lead from one point to the next.
-/

namespace Uncworks

open Durable Flow

def endsPolling : Phase → Bool
  | .agentCompleted => true
  | .failed => true
  | .cancelled => true
  | _ => false

/-- The phase after a status reply, if so many errors in a row came before it. -/
def attemptPhase (errors : ℕ) (p : Phase) : Except Failure GetAgentStatusOutput → Phase
  | .error _ => if maxConsecutiveStatusErrors ≤ errors + 1 then .failed else p
  | .ok status =>
    match status.state with
    | .completed => .agentCompleted
    | .failed => .failed
    | .waitingForInput => .waitingForInput
    | _ => p

def attemptErrors (errors : ℕ) : Except Failure GetAgentStatusOutput → ℕ
  | .error _ => errors + 1
  | .ok _ => 0

structure Rounds (O : Monitor temporal Vars) (input : WorkflowInput) where
  Calm : O.State → Prop
  Ready : Retry → Vars → O.State → Prop
  /-- While the agent is polled, after so many errors in a row. -/
  Polled : Retry → ℕ → Vars → O.State → Prop
  /-- After a handler of the polling selector. -/
  Handled : Retry → ℕ → Vars → O.State → Prop
  Ended : Retry → Vars → O.State → Prop
  Executed : Retry → Vars → O.State → Prop
  /-- How the body of a run returns. -/
  Settled : Vars → O.State → Prop
  rest {v m} : O.safe m → O.rest v m
  waiting {gs v m} : O.step m (.waiting gs v) = m
  received {gs ch k x m} : O.step m (.received gs ch k x) = m
  started {t m} : O.step m (.started t) = m
  asked {i v m} : O.step m (.scheduled (.getAgentStatus i) v) = m
  stopped {i r m} : O.step m (.completed (.stopAgent i) r) = m
  polled {gs d m} : O.step m (.fired gs (Timer.poll d)) = m
  forwards {name pod text m} : O.Ignores m (.forwardHumanInput name pod text)
  quiet {m} : Calm m → Quiet O m
  calm_init : Calm O.init
  ready_init {v} : v.state.phase = .running → Ready {} v O.init
  calm_of_ready {r v m} : Ready r v m → Calm m
  start {r v w m i} : Ready r v m → r.attempt ≤ maxRetries input → w.state.phase = v.state.phase →
    Calm (O.step m (.refused (.startAgent i))) ∧
      O.safe (O.step m (.scheduled (.startAgent i) w)) ∧ ∀ reply,
      let m' := O.step (O.step m (.scheduled (.startAgent i) w)) (.completed (.startAgent i) reply)
      O.safe m' ∧ if reply.toBool then Polled r 0 w m' else Calm m'
  safe_of_polled {r e v m} : Polled r e v m → O.safe m
  cancel {r e v w m i} : Polled r e v m → w.state.phase = .cancelled →
    Handled r e w (O.step m (.refused (.stopAgent i))) ∧
      Handled r e w (O.step m (.scheduled (.stopAgent i) w))
  safe_fired {gs t m} : O.safe m → O.safe (O.step m (.fired gs t))
  exceed {r e v w m i gs d} : Polled r e v m → w.state.phase = .failed →
    let m' := O.step m (.fired gs (Timer.ttl d))
    Handled r e w (O.step m' (.refused (.stopAgent i))) ∧
      Handled r e w (O.step m' (.scheduled (.stopAgent i) w))
  forward {r e v w m} : Polled r e v m → w.state.phase = .running → Handled r e w m
  unanswered {i m} : O.step m (.refused (.getAgentStatus i)) =
    O.step m (.completed (.getAgentStatus i) (.error .canceled))
  status {r e v w m i reply} : Polled r e v m →
    w.state.phase = attemptPhase e v.state.phase reply →
      Handled r (attemptErrors e reply) w (O.step m (.completed (.getAgentStatus i) reply))
  safe_of_handled {r e v m} : Handled r e v m → O.safe m
  goes {r e v m} : Handled r e v m → endsPolling v.state.phase = false → Polled r e v m
  ends {r e v w m} : Handled r e v m → endsPolling v.state.phase →
    w.state.phase = (if v.state.phase = .agentCompleted then .running else v.state.phase) →
      Ended r w m
  calm_of_ended {r v m} : Ended r v m → Calm m
  executed {r v m} : Ended r v m → v.state.phase ≠ .cancelled → Executed r v m
  calm_of_executed {r v m} : Executed r v m → Calm m
  verify {r v w m i} : Executed r v m →
    Calm (O.step m (.refused (.verifyRun i))) ∧
      O.safe (O.step m (.scheduled (.verifyRun i) w)) ∧ ∀ reply,
      let m' := O.step (O.step m (.scheduled (.verifyRun i) w)) (.completed (.verifyRun i) reply)
      Calm m' ∧
        (∀ r' w', r'.attempt = r.attempt + 1 → w'.state.phase = v.state.phase → Ready r' w' m') ∧
        ∀ result, reply = .ok result → result.pass →
          ∀ w', Settled w' (O.step m' (.marked .gatePassed))
  calm_of_settled {v m} : Settled v m → Calm m
  settled_of_calm {v m} : Calm m → v.state.phase ≠ .succeeded → Settled v m

namespace Rounds

variable {O : Monitor temporal Vars} {env : Env} {input : WorkflowInput} {v : Vars} {m : O.State}
  {E : Option WorkflowError → Vars → O.State → Prop} {Q : Unit → Vars → O.State → Prop}
  {r : Retry} {e : ℕ}

theorem noteAttemptStatus_wp {Q reply}
    (hQ : ∀ v', v'.state.phase = attemptPhase e v.state.phase reply →
      Q (attemptErrors e reply) v' m) : (noteAttemptStatus e reply).wp O Q E v m := by
  rcases reply with f | status
  · simp only [noteAttemptStatus, wp_bind, wp_pure]
    refine wp_when (fun hmany => Quiet.setPhase_wp.2 (hQ _ ?_)) fun hfew => hQ _ ?_
    · exact (if_pos hmany).symm
    · exact (if_neg hfew).symm
  · simp only [noteAttemptStatus, wp_bind, applyAttemptStatus]
    rcases hs : status.state <;> simp <;>
      exact hQ _ (by simp [attemptPhase, hs])

variable (R : Rounds O input)

include R

theorem stopAgent_wp (hQ : ∀ i, (O.safe (O.step m (.refused (.stopAgent i))) ∧
      Q () v (O.step m (.refused (.stopAgent i)))) ∧
      O.safe (O.step m (.scheduled (.stopAgent i) v)) ∧
      Q () v (O.step m (.scheduled (.stopAgent i) v))) :
    (stopAgent input).wp O Q E v m := by
  simp only [stopAgent, wp_bind, wp_read, wp_pure]
  refine wp_exec.2 ⟨(hQ _).1, R.rest (hQ _).2.1, fun reply => ?_⟩
  rw [R.stopped]
  exact ⟨R.rest (hQ _).2.1, (hQ _).2.2⟩

theorem getAgentStatus_wp {Q}
    (hm : O.safe m) (hQ : ∀ i reply, O.safe (O.step m (.completed (.getAgentStatus i) reply)) ∧
      Q reply v (O.step m (.completed (.getAgentStatus i) reply))) :
    (getAgentStatus input).wp O Q E v m := by
  simp only [getAgentStatus, execute, wp_bind, wp_read]
  rw [wp_exec, R.unanswered, R.asked]
  exact ⟨hQ _ _, R.rest hm, fun reply => ⟨R.rest (hQ _ reply).1, (hQ _ reply).2⟩⟩

theorem handleAttemptPolled_wp {Q} (h : R.Polled r e v m)
    (hQ : ∀ e' v' m', R.Handled r e' v' m' → Q e' v' m') :
    (select (pollGuards input)).wp O
      (fun picked v m => (handleAttemptPolled input e picked).wp O Q E v m) E v m := by
  have hsafe := R.safe_of_polled h
  have hstop : ∀ {v' : Vars} {m' : O.State},
      (∀ i, R.Handled r e v' (O.step m' (.refused (.stopAgent i))) ∧
        R.Handled r e v' (O.step m' (.scheduled (.stopAgent i) v'))) →
      (stopAgent input).wp O (fun _ => Q e) E v' m' := fun hi =>
    R.stopAgent_wp fun i => ⟨⟨R.safe_of_handled (hi i).1, hQ _ _ _ (hi i).1⟩,
      R.safe_of_handled (hi i).2, hQ _ _ _ (hi i).2⟩
  simp only [wp_select, R.waiting, or_self, forall_eq, R.received]
  refine ⟨R.rest hsafe, fun ch hch k x => ⟨hsafe, ?_⟩, fun t ht => ?_⟩
  · simp only [pollGuards, List.mem_cons, Guard.receive.injEq, reduceCtorEq, List.not_mem_nil,
      or_false] at hch
    rcases hch with rfl | rfl
    · simp only [handleAttemptPolled, wp_bind, wp_pure, Quiet.setPhase_wp]
      exact hstop fun i => R.cancel h rfl
    · simp only [handleAttemptPolled, wp_bind, wp_pure]
      exact Quiet.forwardHumanInput_wp (fun _ _ => R.forwards) (R.rest hsafe) fun v' hv' =>
        hQ _ _ _ (R.forward h hv')
  · simp only [pollGuards, List.mem_cons, Guard.timer.injEq, reduceCtorEq, List.not_mem_nil,
      false_or, or_false] at ht
    rcases ht with rfl | rfl
    · simp only [handleAttemptPolled, exceedTTL, wp_bind, wp_pure, Quiet.setPhase_wp]
      exact ⟨R.safe_fired hsafe, hstop fun i => R.exceed h rfl⟩
    · simp only [handleAttemptPolled, wp_bind, wp_pure, wp_start, R.polled, R.started]
      refine ⟨hsafe, R.getAgentStatus_wp hsafe fun i reply => ?_⟩
      refine ⟨R.safe_of_handled (R.status (w := { v with state := { v.state with
        phase := attemptPhase e v.state.phase reply } }) h rfl), noteAttemptStatus_wp fun v' hv' => ?_⟩
      have hnoted := R.status (i := i) h hv'
      exact ⟨R.safe_of_handled hnoted, hQ _ _ _ hnoted⟩

theorem pollAgentStatus_wp (h : R.Polled r 0 v m) (hQ : ∀ v' m', R.Ended r v' m' → Q () v' m') :
    (pollAgentStatus input).wp O Q E v m := by
  have hsafe := R.safe_of_polled h
  simp only [pollAgentStatus, startPolling, wp_bind, wp_start, R.started]
  refine ⟨hsafe, hsafe, wp_loop (R.Polled r) h fun e v m h => ?_⟩
  simp only [pollAttemptRound, wp_bind, wp_read]
  refine R.handleAttemptPolled_wp h fun e' v' m' h' => ?_
  have hends := R.ends (w := v') h'
  have hgoes := R.goes h'
  rcases hphase : v'.state.phase <;> simp <;>
    rw [hphase] at hends hgoes
  case agentCompleted => exact hQ _ _ (R.ends h' (by rw [hphase]; rfl) (by simp [hphase]))
  case failed | cancelled => exact hQ _ _ (hends rfl rfl)
  all_goals exact hgoes rfl

variable (hE : ∀ err v m, R.Settled v m → E err v m) {changeName : String}

include hE

theorem executeStage_wp (h : R.Ready r v m) (hr : r.attempt ≤ maxRetries input)
    (hQ : ∀ v' m', R.Executed r v' m' → Q () v' m') :
    (executeStage input changeName r).wp O Q E v m := by
  have hfail : ∀ {v' : Vars} {m' : O.State} {err : Failure}, R.Calm m' → (do
      writeStageSpan input s!"EXECUTE (attempt {r.attempt})" "error"
      required "spec driven pipeline" "Cancelled during execution" "Execution failed"
        (.error err) : Workflow Unit).wp O Q E v' m' := by
    intro v' m' err hm
    rw [wp_bind]
    exact (R.quiet hm).writeStageSpan_wp (Quiet.required_wp nofun fun err v' hv' =>
      hE err v' m' (R.settled_of_calm hm hv'))
  simp only [executeStage, wp_bind, Quiet.setMessage_wp, wp_read]
  refine (R.quiet (R.calm_of_ready h)).writeStageSpan_wp (wp_exec.2 ?_)
  obtain ⟨hrefused, hsched, hreply⟩ := R.start (w := { v with state := { v.state with
    message := s!"Executing: attempt {r.attempt}/{maxRetries input}" } }) h hr rfl
  refine ⟨⟨(R.quiet hrefused).safe, hfail hrefused⟩, R.rest hsched, fun reply =>
    ⟨R.rest (hreply reply).1, ?_⟩⟩
  rcases reply with err | u
  · exact hfail (hreply (.error err)).2
  simp only [wp_bind, wp_read]
  refine R.pollAgentStatus_wp (hreply (.ok u)).2 fun v' m' h' => ?_
  refine (R.quiet (R.calm_of_ended h')).writeStageSpan_wp (wp_when (fun hc => ?_) fun hlive => ?_)
  · exact (wp_exit _).2 (hE _ _ _ (R.settled_of_calm (R.calm_of_ended h') (by simp [hc])))
  · exact hQ v' m' (R.executed h' hlive)

theorem finishSpecDriven_wp {attempt} (hm : R.Calm m)
    (hpass : ∀ v', R.Settled v' (O.step m (.marked .gatePassed))) :
    (finishSpecDriven env input changeName attempt).wp O E E v m := by
  have hq := R.quiet hm
  simp only [finishSpecDriven, enrichRunTags, wp_bind, wp_call, wp_read, wp_pure]
  refine hq.writeStageSpan_wp (hq.execute_wp rfl fun _ => ?_)
  refine hq.postVerifyPushAndPR_wp fun v₁ => hq.writeStageSpan_wp ?_
  refine hq.runApprovalGate_wp (R.quiet (R.calm_of_settled (hpass v))).safe (fun v₂ => ?_)
    fun err v₂ hv₂ => ?_
  · simp only [wp_bind, wp_update, wp_pure]
    exact hE _ _ _ (hpass _)
  · exact (wp_pure _).2 (hE _ _ _ (R.settled_of_calm hm (by simp [hv₂])))

theorem verifyStage_wp {Q} (h : R.Executed r v m) (hQ : ∀ r' v' m', R.Ready r' v' m' → Q r' v' m') :
    (verifyStage env input changeName r).wp O Q E v m := by
  have hcancel : ∀ {v' : Vars} {m' : O.State}, R.Calm m' → v'.state.phase = .cancelled →
      ∀ err, E err v' m' := fun hm hv' err => hE err _ _ (R.settled_of_calm hm (by simp [hv']))
  simp only [verifyStage, wp_bind, Quiet.setMessage_wp, wp_read]
  refine (R.quiet (R.calm_of_executed h)).writeStageSpan_wp (wp_exec.2 ?_)
  obtain ⟨hrefused, hsched, hreply⟩ := R.verify h
  refine ⟨⟨(R.quiet hrefused).safe, ?_⟩, R.rest hsched, fun reply => ?_⟩
  · simp only [wp_bind, Quiet.setPhase_wp, wp_exit]
    exact (R.quiet hrefused).writeStageSpan_wp (hcancel hrefused rfl _)
  obtain ⟨hm, hnext, hpass⟩ := hreply reply
  have hq := R.quiet hm
  refine ⟨hq.rest _, ?_⟩
  rcases reply with (_ | text) | result
  · simp only [wp_bind, Quiet.setPhase_wp, wp_exit]
    exact hq.writeStageSpan_wp (hcancel hm rfl _)
  · simp only [wp_bind, wp_pure]
    exact hq.writeStageSpan_wp (hQ _ _ _ (hnext _ _ rfl rfl))
  · dsimp only
    split_ifs with hp <;> simp
    · exact R.finishSpecDriven_wp hE hm (hpass result rfl hp)
    · exact hq.writeStageSpan_wp (hQ _ _ _ (hnext _ _ rfl rfl))

theorem attemptRound_wp {Q} (h : R.Ready r v m)
    (hnext : ∀ r' v' m', R.Ready r' v' m' → Q (.inl r') v' m')
    (hlast : ∀ r' v' m', R.Calm m' → Q (.inr r') v' m') :
    (attemptRound env input changeName r).wp O Q E v m := by
  have hm := R.calm_of_ready h
  unfold attemptRound
  split_ifs with hmax
  · simp only [wp_bind, wp_read, wp_pure]
    refine (R.quiet hm).checkCancel_wp (wp_when (fun hc => ?_) fun _ => ?_) fun v' hv' => ?_
    · have hcancelled := hc.resolve_left (by simp)
      exact (wp_exit _).2 (hE _ _ _ (R.settled_of_calm hm (by simp [hcancelled])))
    · exact R.executeStage_wp hE h hmax fun v₁ m₁ h₁ => R.verifyStage_wp hE h₁ hnext
    · exact (wp_exit _).2 (hE _ _ _ (R.settled_of_calm hm (by simp [hv'])))
  · exact (wp_pure _).2 (hlast r v m hm)

theorem specDrivenBody_wp : (specDrivenBody env input).wp O E E v O.init := by
  have hq := R.quiet R.calm_init
  have hfail : ∀ err (v' : Vars), v'.state.phase ≠ .succeeded → E err v' O.init := fun err v' hv' =>
    hE err v' _ (R.settled_of_calm R.calm_init hv')
  simp only [specDrivenBody, wp_bind, wp_mark, Quiet.setPhase_wp, wp_pure]
  refine hq.prepareSpecDriven_wp (fun v₁ h₁ => hq.writeStageSpan_wp ?_) hfail
  refine hq.checkCancel_wp (wp_when (by simp) fun _ => ?_) fun v₂ h₂ => ?_
  · refine hq.planStage_wp (fun plan v₂ h₂ => ?_) hfail
    refine wp_loop R.Ready (R.ready_init (h₂.trans h₁)) fun r v m h => ?_
    refine R.attemptRound_wp hE h (fun _ _ _ h' => h') fun r' v' m' hm => ?_
    rw [(R.quiet hm).marked _ (by simp)]
    refine ⟨(R.quiet hm).safe, (R.quiet hm).writeStageSpan_wp ?_⟩
    exact hE _ _ _ (R.settled_of_calm hm (by simp))
  · exact (wp_exit _).2 (hfail _ _ (by simp [h₂]))

omit hE in
theorem runSpecDrivenPipeline_wp :
    (runSpecDrivenPipeline env input).wp O (fun _ => R.Settled) E v O.init := by
  simp only [runSpecDrivenPipeline, withDeferred, wp_bind, wp_update, wp_call, wp_mark, wp_pure]
  refine R.specDrivenBody_wp fun err v m h => ?_
  have hq := R.quiet (R.calm_of_settled h)
  rw [hq.marked _ (by simp)]
  exact ⟨hq.safe, hq.specDrivenCleanup_wp h⟩

end Rounds

end Uncworks
