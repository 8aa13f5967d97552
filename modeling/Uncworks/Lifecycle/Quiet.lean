import Uncworks.Durable.Logic
import Uncworks.Temporal.Workflow

/-!
# Steps that are no part of an attempt

A monitor that looks only at the agent of an attempt and at its verification takes no notice of the
rest of a spec-driven run (`Quiet`); of these steps only what they do to the phase matters.
-/

namespace Uncworks

open Durable Flow

/-- The commands that make up an attempt: start the agent, poll it, stop it, verify its work. -/
def Command.isAttempt : Command → Bool
  | .startAgent _ => true
  | .getAgentStatus _ => true
  | .stopAgent _ => true
  | .verifyRun _ => true
  | _ => false

/-- A state in which a monitor is content, and which nothing but an attempt or a passed gate
changes. -/
structure Quiet (O : Monitor temporal Vars) (m : O.State) : Prop where
  rest : ∀ v, O.rest v m
  ignores : ∀ c : Command, c.isAttempt = false → O.Ignores m c
  waiting : ∀ gs v, O.step m (.waiting gs v) = m
  received : ∀ gs ch k x, O.step m (.received gs ch k x) = m
  marked : ∀ x, x ≠ .gatePassed → O.step m (.marked x) = m

namespace Quiet

variable {O : Monitor temporal Vars} {m : O.State} {env : Env} {input : WorkflowInput} {v : Vars}
  {α : Type} {Q : α → Vars → O.State → Prop} {E : Option WorkflowError → Vars → O.State → Prop}

@[simp] theorem setPhase_wp {Q p message} :
    (setPhase p message).wp O Q E v m ↔
      Q () { v with state := { v.state with phase := p, message } } m := wp_update _

@[simp] theorem setMessage_wp {Q message} :
    (setMessage message).wp O Q E v m ↔
      Q () { v with state := { v.state with message } } m := wp_update _

theorem required_wp {r context cancelMessage failMessage} (hQ : ∀ a, r = .ok a → Q a v m)
    (hE : ∀ err v', v'.state.phase ≠ .succeeded → E err v' m) :
    (required context cancelMessage failMessage r).wp O Q E v m := by
  rcases r with (_ | text) | a <;>
    simp [required]
  · exact hE _ _ (by simp)
  · exact hE _ _ (by simp)
  · exact hQ a rfl

theorem forwardHumanInput_wp {Q text}
    (hm : ∀ agentRunID pod, O.Ignores m (.forwardHumanInput agentRunID pod text)) (hr : O.rest v m)
    (hQ : ∀ v', v'.state.phase = .running → Q () v' m) :
    (forwardHumanInput input text).wp O Q E v m := by
  simp only [forwardHumanInput, wp_bind, wp_read, setPhase_wp]
  exact wp_exec_of_ignores (hm _ _) hr fun _ => hQ _ rfl

variable (hq : Quiet O m)

include hq

theorem safe : O.safe m := O.safe_of_rest noVars m (hq.rest noVars)

theorem execute_wp {c Q} (hc : c.isAttempt = false) (hQ : ∀ r, Q r v m) :
    (execute c).wp O Q E v m :=
  wp_exec_of_ignores (hq.ignores c hc) (hq.rest v) hQ

theorem cleanUp_wp {c Q} (hc : c.isAttempt = false) (hQ : Q () v m) : (cleanUp c).wp O Q E v m := by
  simp only [cleanUp, wp_bind, wp_pure]
  exact wp_execDetached_of_ignores (hq.ignores c hc) (hq.rest v) fun _ => hQ

theorem writeStageSpan_wp {Q name status} (hQ : Q () v m) :
    (writeStageSpan input name status).wp O Q E v m := by
  simp only [writeStageSpan, wp_bind, wp_read, wp_pure]
  exact hq.execute_wp rfl fun _ => hQ

/-! ## Preparation and planning -/

section Preparing

variable {Q : Unit → Vars → O.State → Prop}
  (hQ : ∀ v', v'.state.phase = v.state.phase → Q () v' m)
  (hE : ∀ err v', v'.state.phase ≠ .succeeded → E err v' m) {context : String}

include hQ hE

theorem provisionLLMKey_wp : (provisionLLMKey context input).wp O Q E v m := by
  simp only [provisionLLMKey, wp_bind, wp_update]
  exact hq.execute_wp rfl fun r => required_wp (fun key _ => hQ _ rfl) hE

theorem createAgentDeployment_wp :
    (createAgentDeployment context input).wp O Q E v m := by
  simp only [createAgentDeployment, wp_bind, wp_update, wp_read, setMessage_wp]
  exact hq.execute_wp rfl fun r => required_wp (fun name _ => hQ _ rfl) hE

theorem checkEviction_wp : (checkEviction input).wp O Q E v m := by
  simp only [checkEviction, wp_bind, wp_read, setMessage_wp]
  refine hq.execute_wp rfl fun r => ?_
  rcases r with err | status
  · exact (wp_pure _).2 (hQ _ rfl)
  · refine wp_when (fun _ => ?_) fun _ => hQ _ rfl
    simp only [wp_bind, setPhase_wp, wp_exit]
    exact hE _ _ (by simp)

theorem waitForHydration_wp : (waitForHydration context input).wp O Q E v m := by
  simp only [waitForHydration, wp_bind, wp_update, wp_read]
  exact hq.execute_wp rfl fun r => required_wp (fun podIP _ => hQ _ rfl) hE

end Preparing

theorem prepareSpecDriven_wp {Q} (hQ : ∀ v', v'.state.phase = .running → Q () v' m)
    (hE : ∀ err v', v'.state.phase ≠ .succeeded → E err v' m) :
    (prepareSpecDriven input).wp O Q E v m := by
  simp only [prepareSpecDriven, wp_bind, setPhase_wp, setMessage_wp]
  refine hq.provisionLLMKey_wp (fun v₁ h₁ => ?_) hE
  refine hq.createAgentDeployment_wp (fun v₂ h₂ => ?_) hE
  refine hq.checkEviction_wp (fun v₃ h₃ => ?_) hE
  refine hq.waitForHydration_wp (fun v₄ h₄ => ?_) hE
  exact hQ v₄ (h₄.trans (h₃.trans (h₂.trans h₁)))

theorem checkCancel_wp {Q} (hgo : Q false v m)
    (hquit : ∀ v', v'.state.phase = .cancelled → Q true v' m) : checkCancel.wp O Q E v m := by
  simp only [checkCancel, wp_bind]
  refine wp_poll.2 ⟨(wp_pure _).2 hgo, fun _ _ => ?_⟩
  rw [hq.received]
  refine ⟨hq.safe, ?_⟩
  simp only [wp_bind, wp_pure, setPhase_wp]
  exact hquit _ rfl

theorem obtainPlan_wp {Q} (hQ : ∀ plan, Q plan v m)
    (hE : ∀ err v', v'.state.phase ≠ .succeeded → E err v' m) :
    (obtainPlan input).wp O Q E v m := by
  unfold obtainPlan
  split_ifs
  · simp only [wp_bind, wp_pure]
    exact hq.writeStageSpan_wp (hQ _)
  · simp only [wp_bind, wp_read]
    refine hq.execute_wp rfl fun r => ?_
    rcases r with err | plan
    · simp only [wp_bind]
      exact hq.writeStageSpan_wp (required_wp (by simp) hE)
    · exact (wp_pure _).2 (hQ plan)

theorem planStage_wp {Q} (hQ : ∀ plan v', v'.state.phase = v.state.phase → Q plan v' m)
    (hE : ∀ err v', v'.state.phase ≠ .succeeded → E err v' m) : (planStage input).wp O Q E v m := by
  simp only [planStage, wp_bind, setMessage_wp]
  refine hq.writeStageSpan_wp (hq.obtainPlan_wp (fun plan => ?_) hE)
  split_ifs <;> simp
  · exact hq.writeStageSpan_wp (hQ plan _ rfl)
  · exact hq.writeStageSpan_wp (hE _ _ (by simp))

theorem specDrivenCleanup_wp {Q} (hQ : Q () v m) : (specDrivenCleanup input).wp O Q E v m := by
  have hretire : (retireDeployment input (24 * 3600)).wp O Q E v m := by
    simp only [retireDeployment, wp_bind, wp_read]
    refine wp_when (fun _ => ?_) fun _ => hQ
    simp only [wp_bind]
    exact hq.cleanUp_wp rfl (hq.cleanUp_wp rfl (hq.cleanUp_wp rfl (hq.cleanUp_wp rfl hQ)))
  simp only [specDrivenCleanup, revokeLLMKey, wp_bind, wp_read]
  exact wp_when (fun _ => hq.cleanUp_wp rfl hretire) fun _ => hretire

/-! ## After the verification -/

theorem postVerifyPushAndPR_wp {Q changeName} (hQ : ∀ v', Q () v' m) :
    (postVerifyPushAndPR env input changeName).wp O Q E v m := by
  refine wp_when (fun _ => ?_) fun _ => hQ v
  simp only [wp_bind, setMessage_wp, wp_read]
  refine hq.execute_wp rfl fun r => ?_
  rcases r with err | pushed
  · exact (wp_pure _).2 (hQ _)
  refine wp_when (fun _ => ?_) fun _ => hQ _
  split
  · exact (wp_pure _).2 (hQ _)
  · simp only [wp_bind, setMessage_wp]
    refine hq.execute_wp rfl fun r => ?_
    rcases r with err | url
    · exact (wp_pure _).2 (hQ _)
    · exact (wp_update _).2 (hQ _)

section Gate

variable {Q : Unit → Vars → O.State → Prop} (hQ : ∀ v', Q () v' m)
  (hE : ∀ err v', v'.state.phase = .failed → E (some err) v' m)

include hQ hE

theorem judgeReview_wp : (judgeReview env input).wp O Q E v m := by
  simp only [judgeReview, wp_bind, wp_read, setMessage_wp]
  refine hq.execute_wp rfl fun r => ?_
  rcases r with err | verdict
  · exact setMessage_wp.2 (hQ _)
  · simp only [wp_bind, wp_update]
    split_ifs <;> simp
    · exact hQ _
    · exact hE _ _ rfl

theorem humanReview_wp : (humanReview env).wp O Q E v m := by
  have hdecide : ∀ d v', (applyDecision d).wp O Q E v' m := by
    intro d v'
    rcases d with _ | given <;> simp [applyDecision]
    · exact hQ _
    · exact hE _ _ rfl
  simp only [humanReview, wp_bind, setPhase_wp, wp_mark, wp_select,
    hq.marked Mark.gateWait (by simp), hq.waiting, or_self, forall_eq, hq.received]
  exact ⟨hq.safe, hq.rest _, fun _ _ _ _ => ⟨hq.safe, hdecide _ _⟩,
    fun _ ht => by simp [gateGuards] at ht⟩

end Gate

theorem reviews_wp {Q} (hpass : ∀ v', Q none v' m)
    (hrej : ∀ err v', v'.state.phase = .failed → E (some err) v' m) :
    (reviews env input).wp O Q E v m := by
  simp only [reviews]
  split_ifs
  · exact (wp_pure _).2 (hpass v)
  · simp only [wp_bind, wp_pure]
    have hhuman : ∀ v', (when (asksHuman (approvalMode env input)) (humanReview env)).wp O
        (fun _ v m => Q none v m) E v' m := fun v' =>
      wp_when (fun _ => hq.humanReview_wp hpass hrej) fun _ => hpass v'
    exact wp_when (fun _ => hq.judgeReview_wp hhuman hrej) fun _ => hhuman v

theorem runApprovalGate_wp {Q} (hsafe : O.safe (O.step m (.marked .gatePassed)))
    (hpass : ∀ v', Q none v' (O.step m (.marked .gatePassed)))
    (hrej : ∀ err v', v'.state.phase = .failed → Q (some err) v' m) :
    (runApprovalGate env input).wp O Q E v m := by
  simp only [runApprovalGate, wp_bind, wp_call, wp_mark, wp_pure]
  refine hq.reviews_wp (fun v' => ⟨hsafe, hpass v'⟩) fun err v' h => ?_
  simp only [Option.isNone_some, Bool.false_eq_true, if_false, hq.marked Mark.gateRejected (by simp)]
  exact ⟨hq.safe, hrej err v' h⟩

end Quiet

end Uncworks
