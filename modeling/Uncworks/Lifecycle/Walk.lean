import Uncworks.Temporal.Workflow

/-!
# Walking over the code of the pipelines

A `CodeWalk` is a property of code that is read off its steps: every step has it that gives no
command but certain ones, and code has it that is put together from such code.  What a pipeline has
to give of commands is said here once for all such properties.
-/

namespace Uncworks

open Durable Flow

/-- The commands that neither provision nor retire anything, and neither plan, verify nor push. -/
def Command.isPlain : Command → Bool
  | .provisionLLMKey _ => false
  | .createAgentDeployment _ => false
  | .planRun _ => false
  | .verifyRun _ => false
  | .pushChanges _ => false
  | .createPR _ => false
  | .revokeLLMKey _ => false
  | .scaleDownDeployment _ _ => false
  | .archiveAndCleanup _ _ _ => false
  | _ => true

def Command.isStage : Command → Bool
  | .planRun _ => true
  | .verifyRun _ => true
  | .pushChanges _ => true
  | .createPR _ => true
  | _ => false

def Command.retires : Command → Bool
  | .revokeLLMKey _ => true
  | .collectAgentLogs _ _ _ => true
  | .scaleDownDeployment _ _ => true
  | .sleep _ => true
  | .archiveAndCleanup _ _ _ => true
  | _ => false

structure CodeWalk (commands : Command → Prop) (W : {α : Type} → Workflow α → Prop) : Prop where
  plain : ∀ c : Command, c.isPlain → commands c
  pure : ∀ {α : Type} (a : α), W (Pure.pure a : Workflow α)
  exit : ∀ {α : Type} (err : Option WorkflowError), W (Flow.exit err : Workflow α)
  bind : ∀ {α β : Type} {p : Workflow β} {f : β → Workflow α}, W p → (∀ b, W (f b)) → W (p >>= f)
  call : ∀ {p : Workflow (Option WorkflowError)}, W p → W (Flow.call p : Workflow _)
  loop : ∀ {β γ : Type} {body : β → Workflow (β ⊕ γ)} (b : β), (∀ b, W (body b)) →
    W (Flow.loop body b)
  read : W (Flow.read : Workflow Vars)
  select : ∀ gs, W (Flow.select gs : Workflow (Picked temporal))
  poll : ∀ ch, W (Flow.poll (I := temporal) ch : Workflow _)
  mark : ∀ x, W (Flow.mark (I := temporal) x : Workflow Unit)
  start : ∀ t, W (Flow.start (I := temporal) t : Workflow Unit)
  state : ∀ f : Vars → WorkflowState, W (update fun v => { v with state := f v } : Workflow Unit)
  podIP : ∀ podIP, W (update fun v => { v with podIP } : Workflow Unit)
  execute : ∀ {c : Command}, commands c → W (execute c)

namespace CodeWalk

variable {commands : Command → Prop} {W : {α : Type} → Workflow α → Prop} (hW : CodeWalk commands W)
  {α β : Type} {env : Env} {input : WorkflowInput} {changeName : String}

include hW

/-! ## Steps -/

theorem when {c : Prop} [Decidable c] {p} (hp : W p) : W (Flow.when c p) := by
  unfold Flow.when
  split_ifs
  · exact hp
  · exact hW.pure ()

section

variable (phase : Phase) (message : String)

theorem setPhase : W (setPhase phase message) := hW.state _

theorem setMessage : W (setMessage message) := hW.state _

theorem fail (err : Option WorkflowError) :
    W (do Uncworks.setPhase phase message; Flow.exit err : Workflow α) :=
  hW.bind (hW.setPhase _ _) fun _ => hW.exit err

end

theorem required {context cancelMessage failMessage} (r : Except Failure α) :
    W (required context cancelMessage failMessage r) := by
  rcases r with (_ | text) | a
  · exact hW.fail _ _ _
  · exact hW.fail _ _ _
  · exact hW.pure a

theorem readExecute {c : Vars → Command} {f : (v : Vars) → Except Failure (c v).Reply → Workflow α}
    (hc : ∀ v, commands (c v)) (hf : ∀ v r, W (f v r)) :
    W (do let v ← Flow.read; let r ← Uncworks.execute (c v); f v r) :=
  hW.bind hW.read fun v => hW.bind (hW.execute (hc v)) (hf v)

theorem readPlain {c : Vars → Command} {f : (v : Vars) → Except Failure (c v).Reply → Workflow α}
    (hc : ∀ v, (c v).isPlain) (hf : ∀ v r, W (f v r)) :
    W (do let v ← Flow.read; let r ← Uncworks.execute (c v); f v r) :=
  hW.readExecute (fun v => hW.plain _ (hc v)) hf

theorem checkEviction : W (checkEviction input) := by
  refine hW.bind (hW.setMessage _) fun _ => hW.readPlain (fun _ => rfl) fun v r => ?_
  rcases r with err | status
  · exact hW.pure _
  · exact hW.when (hW.fail _ _ _)

theorem waitForHydration {context} : W (waitForHydration context input) :=
  hW.readPlain (fun _ => rfl) fun _ r => hW.bind (hW.required r) fun _ => hW.podIP _

theorem startPolling : W (startPolling input) := hW.bind (hW.start _) fun _ => hW.start _

theorem stopAgent : W (stopAgent input) := hW.readPlain (fun _ => rfl) fun _ _ => hW.pure _

theorem forwardHumanInput {text} : W (forwardHumanInput input text) :=
  hW.readPlain (fun _ => rfl) fun _ _ => hW.setPhase _ _

theorem exceedTTL : W (exceedTTL input) := hW.bind (hW.setPhase _ _) fun _ => hW.stopAgent

theorem enrichRunTags : W (enrichRunTags env input) :=
  hW.readPlain (fun _ => rfl) fun _ _ => hW.pure _

theorem getAgentStatus : W (getAgentStatus input) :=
  hW.bind hW.read fun _ => hW.execute (hW.plain _ rfl)

/-! ## The gate -/

theorem judgeReview : W (judgeReview env input) := by
  refine hW.bind (hW.setMessage _) fun _ => hW.readPlain (fun _ => rfl) fun v r => ?_
  rcases r with err | verdict
  · exact hW.setMessage _
  · refine hW.bind (hW.state _) fun _ => ?_
    split_ifs
    · exact hW.setMessage _
    · exact hW.fail _ _ _

theorem humanReview : W (humanReview env) := by
  refine hW.bind (hW.setPhase _ _) fun _ => hW.bind (hW.mark _) fun _ => ?_
  refine hW.bind (hW.select _) fun picked => ?_
  rcases decisionOf env picked with _ | given
  · exact hW.setPhase _ _
  · exact hW.fail _ _ _

theorem runApprovalGate : W (runApprovalGate env input) := by
  have hreviews : W (reviews env input) := by
    unfold reviews
    dsimp only
    split_ifs
    · exact hW.pure _
    · refine hW.bind (hW.when hW.judgeReview) fun _ => hW.bind (hW.when hW.humanReview) fun _ => ?_
      exact hW.pure _
  exact hW.bind (hW.call hreviews) fun _ => hW.bind (hW.mark _) fun _ => hW.pure _

/-! ## The single-agent workflow -/

theorem startSingleAgent : W (startSingleAgent input) := by
  refine hW.bind (hW.setPhase _ _) fun _ => hW.readPlain (fun _ => rfl) fun _ r => ?_
  exact hW.bind (hW.required r) fun _ => hW.setMessage _

theorem handlePolled (errors : ℕ) (picked : Picked temporal) :
    W (handlePolled input errors picked) := by
  have hnote : ∀ r, W (noteStatus errors r) := by
    rintro (err | status)
    · exact hW.bind (hW.when (hW.setPhase _ _)) fun _ => hW.pure _
    · refine hW.bind ?_ fun _ => hW.pure _
      unfold applyStatus
      split
      · exact hW.setPhase _ _
      · exact hW.setPhase _ _
      · exact hW.setPhase _ _
      · exact hW.pure _
  unfold Uncworks.handlePolled
  split
  · refine hW.bind (hW.setPhase _ _) fun _ => hW.bind hW.stopAgent fun _ => ?_
    exact hW.bind (hW.setPhase _ _) fun _ => hW.pure _
  · exact hW.bind hW.forwardHumanInput fun _ => hW.pure _
  · exact hW.bind hW.exceedTTL fun _ => hW.pure _
  · refine hW.bind hW.getAgentStatus fun r => hW.bind (hnote r) fun _ => ?_
    exact hW.bind (hW.start _) fun _ => hW.pure _
  · exact hW.pure _

theorem pushAndPR (hpush : ∀ i, commands (.pushChanges i)) (hpr : ∀ i, commands (.createPR i)) :
    W (pushAndPR env input) := by
  refine hW.readExecute (fun _ => hpush _) fun v r => ?_
  rcases r with err | pushed
  · exact hW.pure _
  · dsimp only
    split_ifs
    · exact hW.setMessage _
    · split
      · unfold openPullRequest
        split
        · exact hW.pure _
        · refine hW.bind (hW.execute (hpr _)) fun r => ?_
          rcases r with err | url
          · exact hW.pure _
          · exact hW.state _
      · exact hW.setMessage _

theorem pollRounds (hpush : ∀ i, commands (.pushChanges i)) (hpr : ∀ i, commands (.createPR i)) :
    W (Flow.loop (pollRound env input) 0) := by
  have hfinish : W (finishSingleAgent env input) := by
    refine hW.bind (hW.call hW.runApprovalGate) fun err => ?_
    rcases err with _ | err
    · refine hW.bind hW.enrichRunTags fun _ => ?_
      exact hW.bind (hW.when (hW.pushAndPR hpush hpr)) fun _ => hW.pure _
    · exact hW.pure _
  refine hW.loop _ fun errors => hW.bind (hW.select _) fun picked => ?_
  refine hW.bind (hW.handlePolled errors picked) fun errors => hW.bind hW.read fun v => ?_
  split
  · exact hW.bind hfinish fun _ => hW.pure _
  all_goals exact hW.pure _

/-! ## The spec-driven pipeline -/

theorem writeStageSpan (name status : String) : W (writeStageSpan input name status) :=
  hW.readPlain (fun _ => rfl) fun _ _ => hW.pure _

theorem checkCancel : W checkCancel := by
  refine hW.bind (hW.poll _) fun signal => ?_
  rcases signal with _ | x
  · exact hW.pure _
  · exact hW.bind (hW.setPhase _ _) fun _ => hW.pure _

theorem handleAttemptPolled (errors : ℕ) (picked : Picked temporal) :
    W (handleAttemptPolled input errors picked) := by
  have hnote : ∀ r, W (noteAttemptStatus errors r) := by
    rintro (err | status)
    · exact hW.bind (hW.when (hW.setPhase _ _)) fun _ => hW.pure _
    · refine hW.bind ?_ fun _ => hW.pure _
      unfold applyAttemptStatus
      split
      · exact hW.setPhase _ _
      · exact hW.setPhase _ _
      · exact hW.setPhase _ _
      · exact hW.pure _
  unfold Uncworks.handleAttemptPolled
  split
  · exact hW.bind (hW.setPhase _ _) fun _ => hW.bind hW.stopAgent fun _ => hW.pure _
  · exact hW.bind hW.forwardHumanInput fun _ => hW.pure _
  · exact hW.bind hW.exceedTTL fun _ => hW.pure _
  · refine hW.bind hW.getAgentStatus fun r => hW.bind (hnote r) fun _ => ?_
    exact hW.bind (hW.start _) fun _ => hW.pure _
  · exact hW.pure _

theorem pollAgentStatus : W (pollAgentStatus input) := by
  refine hW.bind hW.startPolling fun _ => hW.loop _ fun errors => ?_
  refine hW.bind (hW.select _) fun picked => hW.bind (hW.handleAttemptPolled _ _) fun _ => ?_
  refine hW.bind hW.read fun v => ?_
  split
  · exact hW.bind (hW.state _) fun _ => hW.pure _
  all_goals exact hW.pure _

theorem executeStage (r : Retry) : W (executeStage input changeName r) := by
  refine hW.bind (hW.setMessage _) fun _ => hW.bind (hW.writeStageSpan _ _) fun _ => ?_
  refine hW.readPlain (fun _ => rfl) fun v reply => ?_
  rcases reply with err | _
  · exact hW.bind (hW.writeStageSpan _ _) fun _ => hW.required _
  · refine hW.bind hW.pollAgentStatus fun _ => hW.bind hW.read fun _ => ?_
    exact hW.bind (hW.writeStageSpan _ _) fun _ => hW.when (hW.exit _)

section SpecDriven

variable (hpush : ∀ i, i.branchName = branchName input → commands (.pushChanges i))
  (hpr : ∀ i, commands (.createPR i))

include hpush hpr

theorem postVerifyPushAndPR : W (postVerifyPushAndPR env input changeName) := by
  refine hW.when (hW.bind (hW.setMessage _) fun _ => hW.readExecute (fun _ => hpush _ rfl) ?_)
  rintro v (err | pushed)
  · exact hW.pure _
  · refine hW.when ?_
    split
    · exact hW.pure _
    · refine hW.bind (hW.setMessage _) fun _ => hW.bind (hW.execute (hpr _)) fun r => ?_
      rcases r with err | url
      · exact hW.pure _
      · exact hW.state _

theorem finishSpecDriven (attempt : ℤ) : W (finishSpecDriven env input changeName attempt) := by
  refine hW.bind (hW.writeStageSpan _ _) fun _ => hW.bind hW.enrichRunTags fun _ => ?_
  refine hW.bind (hW.postVerifyPushAndPR hpush hpr) fun _ => hW.bind (hW.writeStageSpan _ _) fun _ => ?_
  refine hW.bind (hW.call hW.runApprovalGate) fun err => ?_
  rcases err with _ | err
  · exact hW.bind (hW.state _) fun _ => hW.pure _
  · exact hW.pure _

theorem attemptRounds (hverify : ∀ i, i.changeName = changeName → commands (.verifyRun i)) :
    W (Flow.loop (attemptRound env input changeName) {}) := by
  have hverified : ∀ r, W (verifyStage env input changeName r) := by
    intro r
    refine hW.bind (hW.setMessage _) fun _ => hW.bind (hW.writeStageSpan _ _) fun _ => ?_
    refine hW.readExecute (fun _ => hverify _ rfl) fun v reply => ?_
    rcases reply with (_ | text) | result
    · exact hW.bind (hW.writeStageSpan _ _) fun _ => hW.fail _ _ _
    · exact hW.bind (hW.writeStageSpan _ _) fun _ => hW.pure _
    · dsimp only
      split_ifs
      · exact hW.bind (hW.finishSpecDriven hpush hpr _) fun _ => hW.exit _
      · exact hW.bind (hW.writeStageSpan _ _) fun _ => hW.pure _
  refine hW.loop _ fun r => ?_
  unfold attemptRound
  split_ifs
  · refine hW.bind hW.checkCancel fun _ => hW.bind hW.read fun _ => ?_
    refine hW.bind (hW.when (hW.exit _)) fun _ => hW.bind (hW.executeStage r) fun _ => ?_
    exact hW.bind (hverified r) fun _ => hW.pure _
  · exact hW.pure _

end SpecDriven

section Pipeline

variable (hupdate : ∀ f, W (update f : Workflow Unit))
  (hother : ∀ c : Command, c.isStage = false → commands c)

include hupdate hother

theorem prepareSpecDriven : W (prepareSpecDriven input) := by
  have hkey : W (provisionLLMKey "spec driven pipeline" input) :=
    hW.bind (hW.execute (hother _ rfl)) fun r => hW.bind (hW.required r) fun _ => hupdate _
  have hdeploy : W (createAgentDeployment "spec driven pipeline" input) :=
    hW.bind (hW.setMessage _) fun _ => hW.readExecute (fun _ => hother _ rfl) fun _ r =>
      hW.bind (hW.required r) fun _ => hupdate _
  refine hW.bind (hW.setPhase _ _) fun _ => hW.bind hkey fun _ => hW.bind hdeploy fun _ => ?_
  refine hW.bind hW.checkEviction fun _ => hW.bind (hW.setMessage _) fun _ => ?_
  exact hW.waitForHydration

omit hupdate hother

theorem planStage (hplan : ∀ i, commands (.planRun i)) : W (planStage input) := by
  have hobtain : W (obtainPlan input) := by
    unfold obtainPlan
    split_ifs
    · exact hW.bind (hW.writeStageSpan _ _) fun _ => hW.pure _
    · refine hW.readExecute (fun _ => hplan _) fun v r => ?_
      rcases r with err | plan
      · exact hW.bind (hW.writeStageSpan _ _) fun _ => hW.required _
      · exact hW.pure _
  refine hW.bind (hW.setMessage _) fun _ => hW.bind (hW.writeStageSpan _ _) fun _ => ?_
  refine hW.bind hobtain fun plan => ?_
  split_ifs
  · exact hW.bind (hW.writeStageSpan _ _) fun _ => hW.pure _
  · exact hW.bind (hW.writeStageSpan _ _) fun _ => hW.fail _ _ _

theorem specDrivenCleanup (hclean : ∀ c : Command, c.retires → W (cleanUp c)) :
    W (specDrivenCleanup input) := by
  have hretire : W (retireDeployment input (24 * 3600)) := by
    refine hW.bind hW.read fun _ => hW.when (hW.bind (hclean _ rfl) fun _ => ?_)
    refine hW.bind (hclean _ rfl) fun _ => hW.bind (hclean _ rfl) fun _ => ?_
    exact hclean _ rfl
  exact hW.bind (hW.bind hW.read fun _ => hW.when (hclean _ rfl)) fun _ => hretire

include hupdate hother

theorem runSpecDrivenPipeline (hclean : ∀ c : Command, c.retires → W (cleanUp c))
    (hplan : ∀ i, commands (.planRun i)) (hverify : ∀ i, commands (.verifyRun i))
    (hpush : ∀ i, i.branchName = branchName input → commands (.pushChanges i))
    (hpr : ∀ i, commands (.createPR i)) : W (runSpecDrivenPipeline env input) := by
  have hbody : W (specDrivenBody env input) := by
    refine hW.bind (hW.prepareSpecDriven hupdate hother) fun _ => ?_
    refine hW.bind (hW.writeStageSpan _ _) fun _ => hW.bind hW.checkCancel fun _ => ?_
    refine hW.bind (hW.when (hW.exit _)) fun _ => hW.bind (hW.planStage hplan) fun plan => ?_
    refine hW.bind (hW.attemptRounds hpush hpr fun i _ => hverify i) fun last => ?_
    refine hW.bind (hW.mark _) fun _ => hW.bind (hW.writeStageSpan _ _) fun _ => ?_
    exact hW.bind (hW.setPhase _ _) fun _ => hW.pure _
  refine hW.bind (hupdate _) fun _ => hW.bind (hW.call hbody) fun _ => hW.bind (hW.mark _) fun _ => ?_
  exact hW.bind (hW.specDrivenCleanup hclean) fun _ => hW.pure _

end Pipeline

end CodeWalk

end Uncworks
