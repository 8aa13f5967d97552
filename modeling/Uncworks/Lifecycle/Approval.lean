import Uncworks.Lifecycle.Outcome

/-!
# What the approval gate guarantees

Three results about the gate, for every run of both pipelines: work is pushed only behind the gate
(single-agent runs), a run that succeeds was reviewed as its mode asks, and an approval answers a
question that was asked (if nothing of the kind was buffered before).
-/

namespace Uncworks

open Durable List

variable {env : Env} {input : WorkflowInput} {P : Pipeline} {c c₁ c₂ : Run} {log : History}

theorem pipeline?_env (hP : pipeline? env input = some P) : P.env = env := by
  unfold pipeline? at hP
  split at hP <;> cases hP <;> rfl

theorem pipeline?_mode (hP : pipeline? env input = some P) : P.mode = approvalMode env input := by
  unfold pipeline? at hP
  split at hP <;> cases hP <;> rfl

theorem Run.stage_prefix_ne_stray (hP : pipeline? env input = some P)
    (h : (Run.start env input).Reaches c) (hlog : log <+: c.world.log) : P.stage log ≠ .stray :=
  Pipeline.stage_ne_stray_of_longer hlog (Run.stage_ne_stray hP h)

/-! ## Push -/

theorem Stage.eq_passed_of_onPush {st : Stage} (h : st.onPush P ≠ .stray)
    (hs : P.specDriven = false ∨ ¬ P.publishes) : st = .passed := by
  cases st
  case passed => rfl
  case done =>
    have hno : ¬ (P.publishes ∧ P.specDriven = true) := by
      rintro ⟨hp, hspec⟩
      rcases hs with hs | hs
      · simp [hs] at hspec
      · exact hs hp
    exact absurd (if_neg hno) h
  all_goals exact absurd rfl h

theorem Pipeline.gatePassed_of_passed (h : P.stage log = .passed) : .marked .gatePassed ∈ log := by
  obtain ⟨pre, x, post, rfl, hx⟩ := Pipeline.exists_decides (e := .passed) (by rw [h]; rfl)
  generalize P.stage pre = st at hx
  cases hx with
  | passed hst => simp

/-- A run that is not spec-driven, or asks for no push, pushes only what the gate has let pass. -/
theorem push_after_gate (hP : pipeline? env input = some P)
    (hcond : P.specDriven = false ∨ ¬ P.publishes)
    (h : (Run.start env input).Reaches c) {pre post : History} {cmd : Command} {v : Vars}
    (hlog : c.world.log = pre ++ .scheduled cmd v :: post) (hpush : cmd.isPush) :
    .marked .gatePassed ∈ pre := by
  have hne : P.stage (pre ++ [.scheduled cmd v]) ≠ .stray :=
    Run.stage_prefix_ne_stray hP h ⟨post, by simp [hlog]⟩
  have hstep : (P.stage pre).onPush P ≠ .stray := by
    rw [Pipeline.stage_append] at hne
    intro hstray
    refine hne ?_
    simp only [Stage.step]
    cases cmd <;> cases hpush <;> simp [Stage.onScheduled, hstray] <;>
      cases P.stage pre <;> rfl
  exact Pipeline.gatePassed_of_passed (Stage.eq_passed_of_onPush hstep hcond)

def marks (m : Mark) (log : History) : Bool :=
  log.any fun
    | .marked m' => m' = m
    | _ => false

theorem marks_iff {m} : marks m log ↔ .marked m ∈ log := by
  simp only [marks, any_eq_true]
  refine ⟨?_, fun h => ⟨_, h, by simp⟩⟩
  rintro ⟨x, hx, hm⟩
  cases x <;> simp_all

def judgedPush : Run :=
  Run.after { approvalMode := "llm-judge", autoPush := true }
    (smoothly 6 ++ [.fire (Timer.poll 5)] ++ smoothly 3)

def samplePush : Command := .pushChanges
  { agentRunName := "", podIP := "10.0.0.1", repoPath := "/workspace", branchName := "aot/"
    baseBranch := "", repoURL := "" }

theorem push_after_gate_judgedPush :
    judgedPush.world.log =
        judgedPush.world.log.dropLast ++ [.scheduled samplePush judgedPush.world.st] ∧
      .marked .gatePassed ∈ judgedPush.world.log.dropLast := by
  have hlog : judgedPush.world.log =
      judgedPush.world.log.dropLast ++ .scheduled samplePush judgedPush.world.st :: [] := rfl
  exact ⟨rfl, push_after_gate (P := ⟨false, sampleEnv, preamble _⟩) rfl (.inl rfl)
    (Run.reaches_after _ _) hlog rfl⟩

def schedulesPush : Entry temporal Vars → Bool
  | .scheduled cmd _ => cmd.isPush
  | _ => false

theorem exists_push (h : log.any schedulesPush) :
    ∃ pre cmd v post, log = pre ++ .scheduled cmd v :: post ∧ cmd.isPush := by
  obtain ⟨x, hx, hpush⟩ := any_eq_true.1 h
  obtain ⟨pre, post, rfl⟩ := append_of_mem hx
  cases x <;> simp [schedulesPush] at hpush
  exact ⟨pre, _, _, post, rfl, hpush⟩

def specDrivenInput : WorkflowInput :=
  { orchestrationMode := .specDriven, approvalMode := "hitl", autoPush := true }

def rejectedAfterPush : Run :=
  Run.after specDrivenInput (smoothly 10 ++ [.fire (Timer.poll 5)] ++ smoothly 8 ++
    [.signal Channel.approvalDecision { approved := false }])

/-- A spec-driven run pushes before the gate, also what the gate then rejects. -/
theorem specDriven_pushes_before_gate :
    (Run.start sampleEnv specDrivenInput).Reaches rejectedAfterPush ∧
      approvalMode sampleEnv specDrivenInput ≠ "none" ∧
      .marked .gateRejected ∈ rejectedAfterPush.world.log ∧
      ∃ pre cmd v post, rejectedAfterPush.world.log = pre ++ .scheduled cmd v :: post ∧
        cmd.isPush ∧ .marked .gatePassed ∉ pre := by
  have hrun : rejectedAfterPush.world.log.any schedulesPush ∧
      marks .gatePassed rejectedAfterPush.world.log = false ∧
      marks .gateRejected rejectedAfterPush.world.log := by decide +kernel
  obtain ⟨hpush, hpassed, hrejected⟩ := hrun
  obtain ⟨pre, cmd, v, post, hlog, hcmd⟩ := exists_push hpush
  refine ⟨Run.reaches_after _ _, by decide, marks_iff.1 hrejected, pre, cmd, v, post, hlog, hcmd, ?_⟩
  intro hmem
  have hmark := marks_iff.2 (hlog ▸ mem_append_left _ hmem)
  simp [hpassed] at hmark

/-! ## Review -/

def JudgeApproved (log : History) : Prop :=
  ∃ i verdict, .completed (.llmJudgeChanges i) (.ok verdict) ∈ log ∧ verdict.approved

/-- The judge gave no verdict: its activity failed or was refused on a cancelled context. -/
def JudgeFailed (log : History) : Prop :=
  ∃ i, (∃ err, .completed (.llmJudgeChanges i) (.error err) ∈ log) ∨
    .refused (.llmJudgeChanges i) ∈ log

def HumanApproved (env : Env) (log : History) : Prop :=
  ∃ pre gs ch n m post, log = pre ++ .received gs ch n m :: post ∧ .marked .gateWait ∈ pre ∧
    decisionOf env (.received ch m) = none

def JudgeRejected (log : History) : Prop :=
  ∃ i verdict, .completed (.llmJudgeChanges i) (.ok verdict) ∈ log ∧ ¬ verdict.approved

def approvalForm (env : Env) (input : WorkflowInput) : String :=
  env.toLower (Go.trimSpace input.approvalMode)

namespace Pipeline

theorem gateWait_of_awaiting (h : P.stage log = .awaiting) : .marked .gateWait ∈ log := by
  obtain ⟨pre, x, post, st', rfl, -, rfl, -, hc⟩ :=
    exists_change (S := (· = .awaiting)) nofun h (by rw [h]; nofun)
  simp [hc.into_awaiting]

theorem humanApproved_of_approved (h : P.stage log = .approved) : HumanApproved P.env log := by
  obtain ⟨pre, x, post, st', rfl, -, rfl, -, hc⟩ :=
    exists_change (S := (· = .approved)) nofun h (by rw [h]; nofun)
  obtain ⟨hwait, ch, n, m, rfl, hd⟩ := hc.into_approved
  exact ⟨pre, _, ch, n, m, post, rfl, gateWait_of_awaiting hwait, hd⟩

theorem judgeAnswered_of_judged {b} (h : P.stage log = .judged b) :
    JudgeApproved log ∨ JudgeFailed log := by
  obtain ⟨pre, x, post, st', rfl, -, rfl, -, hc⟩ :=
    exists_change (S := (· = .judged b)) nofun h (by rw [h]; nofun)
  obtain ⟨i, r, hx, hr⟩ := hc.into_judged
  rcases r with err | verdict
  · right
    cases hx with
    | completed => exact ⟨i, .inl ⟨err, by simp⟩⟩
    | refused => exact ⟨i, .inr (by simp)⟩
  · left
    cases hx
    refine ⟨i, verdict, by simp, ?_⟩
    by_contra hno
    simp [Stage.afterJudge, hno] at hr

theorem isDenied_of_rejected (h : JudgeRejected log) : (P.stage log).IsDenied := by
  obtain ⟨i, verdict, hmem, hno⟩ := h
  refine stage_of_entry (S := Stage.IsDenied) (fun h x => h.step x) (fun st => ?_) hmem
  cases st
  case done => left; simp [Stage.step, Stage.unlessAwaiting, Stage.onReply, Stage.afterJudge, hno]
  all_goals exact .inr (.inl rfl)

end Pipeline

theorem HumanApproved.append {log'} (h : HumanApproved env log) :
    HumanApproved env (log ++ log') := by
  obtain ⟨pre, gs, ch, n, m, post, rfl, hwait, hd⟩ := h
  exact ⟨pre, gs, ch, n, m, post ++ log', by simp, hwait, hd⟩

theorem JudgeApproved.append {log'} (h : JudgeApproved log) : JudgeApproved (log ++ log') := by
  obtain ⟨i, verdict, hmem, ha⟩ := h
  exact ⟨i, verdict, mem_append_left _ hmem, ha⟩

theorem JudgeFailed.append {log'} (h : JudgeFailed log) : JudgeFailed (log ++ log') := by
  obtain ⟨i, hi⟩ := h
  refine ⟨i, hi.imp ?_ (mem_append_left _)⟩
  rintro ⟨err, hmem⟩
  exact ⟨err, mem_append_left _ hmem⟩

theorem Pipeline.reviewed_of_ending (h : (P.stage log).ending? = some .passed) :
    HumanApproved P.env log ∨
      ¬ asksHuman P.mode ∧ (asksJudge P.mode → JudgeApproved log ∨ JudgeFailed log) := by
  obtain ⟨pre, x, post, rfl, hx⟩ := Pipeline.exists_decides h
  generalize hst₀ : P.stage pre = st at hx
  cases hx with
  | passed hst =>
    rcases hst with ⟨rfl, hh, hj⟩ | ⟨b, rfl, hh⟩ | rfl
    · exact .inr ⟨hh, fun h => absurd h hj⟩
    · refine .inr ⟨hh, fun _ => ?_⟩
      exact (Pipeline.judgeAnswered_of_judged hst₀).imp JudgeApproved.append JudgeFailed.append
    · exact .inl (Pipeline.humanApproved_of_approved hst₀).append

theorem Run.passed_of_succeeded (hP : pipeline? env input = some P)
    (h : (Run.start env input).Reaches c) {err} (hc : c.returned? = some err)
    (hphase : c.world.st.state.phase = .succeeded) : P.stage c.world.log = .closing .passed := by
  obtain ⟨e, hst, hv, -⟩ := Run.ends hP h hc
  rw [hphase] at hv
  rcases e with (_ | _) | _ | _ | _ | _ | _ <;> cases hv
  exact hst

theorem asksHuman_of_form (h : approvalForm env input = "" ∨ approvalForm env input = "hybrid" ∨
    approvalForm env input = "hitl") : asksHuman (approvalMode env input) := by
  change asksHuman (if approvalForm env input = "" then "hybrid" else approvalForm env input)
  rcases h with h | h | h <;> rw [h] <;> decide

theorem asksJudge_of_form (h : approvalForm env input = "llm-judge") :
    asksJudge (approvalMode env input) := by
  change asksJudge (if approvalForm env input = "" then "hybrid" else approvalForm env input)
  rw [h]
  decide

/-- A run of a known mode that succeeds was approved by a human, or by the judge where the mode asks
for no human, unless the judge fails.  In the hybrid mode a human has approved it and the judge has
not rejected it. -/
theorem succeeded_reviewed (hP : pipeline? env input = some P)
    (h : (Run.start env input).Reaches c) {err : Option WorkflowError}
    (hc : c.returned? = some err) (hphase : c.world.st.state.phase = .succeeded)
    (hform : approvalForm env input ∈ ["", "hybrid", "hitl", "llm-judge"]) :
    (JudgeApproved c.world.log ∨ HumanApproved env c.world.log ∨
        approvalForm env input = "llm-judge" ∧ JudgeFailed c.world.log) ∧
      (approvalForm env input = "" ∨ approvalForm env input = "hybrid" →
        HumanApproved env c.world.log ∧ ¬ JudgeRejected c.world.log) := by
  have hst := Run.passed_of_succeeded hP h hc hphase
  have hend : (P.stage c.world.log).ending? = some .passed := by rw [hst]; rfl
  have hreview := Pipeline.reviewed_of_ending hend
  rw [pipeline?_env hP, pipeline?_mode hP] at hreview
  have hdenied : ¬ JudgeRejected c.world.log := by
    intro hrej
    have hden := Pipeline.isDenied_of_rejected (P := P) hrej
    rw [hst] at hden
    rcases hden with h | h | h <;> cases h
  have hhuman : approvalForm env input = "" ∨ approvalForm env input = "hybrid" ∨
      approvalForm env input = "hitl" → HumanApproved env c.world.log := by
    intro hf
    rcases hreview with hr | ⟨hno, -⟩
    · exact hr
    · exact absurd (asksHuman_of_form hf) hno
  simp only [mem_cons, not_mem_nil, or_false] at hform
  refine ⟨?_, fun hf => ⟨hhuman (hf.imp_right .inl), hdenied⟩⟩
  rcases hform with hf | hf | hf | hf
  · exact .inr (.inl (hhuman (.inl hf)))
  · exact .inr (.inl (hhuman (.inr (.inl hf))))
  · exact .inr (.inl (hhuman (.inr (.inr hf))))
  · rcases hreview with hr | ⟨-, hj⟩
    · exact .inr (.inl hr)
    · exact (hj (asksJudge_of_form hf)).imp_right fun hfail => .inr ⟨hf, hfail⟩

def approvedRun : Run :=
  Run.after {} (smoothly 6 ++ [.fire (Timer.poll 5)] ++ smoothly 2 ++
    [.signal Channel.approvalDecision { approved := true }] ++ smoothly 8)

theorem succeeded_reviewed_approvedRun :
    HumanApproved sampleEnv approvedRun.world.log ∧ ¬ JudgeRejected approvedRun.world.log := by
  have hret : approvedRun.returned? = some none := rfl
  exact (succeeded_reviewed (P := ⟨false, sampleEnv, preamble {}⟩) rfl (Run.reaches_after _ _) hret
    rfl (by decide)).2 (.inl (by decide))

def judgeApproves : Entry temporal Vars → Bool
  | .completed (.llmJudgeChanges _) (.ok verdict) => verdict.approved
  | _ => false

def judgeDown : (c : Command) → Except Failure c.Reply
  | .llmJudgeChanges _ => .error (.other "connection refused")
  | c => smooth c

def unjudgedInput : WorkflowInput := { approvalMode := "llm-judge" }

def unjudgedRun : Run :=
  Run.after unjudgedInput (smoothly 6 ++ [.fire (Timer.poll 5)] ++ smoothly 1 ++
    [.settle judgeDown] ++ smoothly 8)

/-- A judge that cannot be reached lets a run succeed that nobody has approved. -/
theorem unjudgedRun_succeeds :
    (Run.start sampleEnv unjudgedInput).Reaches unjudgedRun ∧
      approvalForm sampleEnv unjudgedInput ≠ "none" ∧ unjudgedRun.returned? = some none ∧
      unjudgedRun.world.st.state.phase = .succeeded ∧
      ¬ (JudgeApproved unjudgedRun.world.log ∨ HumanApproved sampleEnv unjudgedRun.world.log) := by
  have hlog : unjudgedRun.world.log.any judgeApproves = false ∧
      marks .gateWait unjudgedRun.world.log = false := by decide +kernel
  refine ⟨Run.reaches_after _ _, by decide, rfl, rfl, ?_⟩
  rintro (⟨i, verdict, hmem, ha⟩ | ⟨pre, gs, ch, n, m, post, hsplit, hwait, -⟩)
  · have hno := any_eq_false.1 hlog.1 _ hmem
    exact hno ha
  · have hmark := marks_iff.2 (hsplit ▸ mem_append_left _ hwait)
    simp [hlog.2] at hmark

/-! ## When an approval was sent -/

theorem Run.running_of_marked {m : Mark} {pre : History} (h : (Run.start env input).Reaches c)
    (hlog : c.world.log = pre ++ [.marked m]) : ∃ p, c.control = .running p := by
  have hparked := Config.Reaches.parked h
  unfold Config.Parked at hparked
  rcases hctl : c.control with p | _ | _ | _ <;> simp [hctl] at hparked
  · exact ⟨p, rfl⟩
  · obtain ⟨pre', h'⟩ := hparked
    simp [hlog] at h'
  · obtain ⟨pre', h'⟩ := hparked
    simp [hlog] at h'
  · simp [hlog] at hparked

theorem Stage.awaiting_of_gateWait {st : Stage} (h : st.onMark P .gateWait ≠ .stray) :
    st.onMark P .gateWait = .awaiting := by
  cases st
  case done =>
    simp only [Stage.onMark] at h ⊢
    split_ifs at h ⊢ with hm
    · rfl
    · exact absurd rfl h
  case judged b =>
    simp only [Stage.onMark] at h ⊢
    split_ifs at h ⊢ with hm
    · rfl
    · exact absurd rfl h
  all_goals exact absurd rfl h

theorem Stage.step_awaiting {x} (h : Stage.step P .awaiting x ≠ .stray) :
    (∃ v, x = .waiting gateGuards v) ∨ ∃ ch n m, x = .received gateGuards ch n m := by
  cases x
  case waiting gs v =>
    by_cases hgs : gs = gateGuards
    · exact .inl ⟨v, by rw [hgs]⟩
    · exact absurd (if_neg hgs) h
  case received gs ch n m =>
    by_cases hch : ch = Channel.cancel
    · subst hch
      exact absurd rfl h
    · simp only [Stage.step, Stage.onReceived_awaiting hch] at h
      by_cases hgs : gs = gateGuards
      · exact .inr ⟨ch, n, m, by rw [hgs]⟩
      · exact absurd (if_neg hgs) h
  case marked m => cases m <;> exact absurd rfl h
  all_goals exact absurd rfl h

theorem mem_gateGuards {ch : Channel} {m : ch.Message}
    (h : decisionOf env (.received ch m) = none) : .receive ch ∈ gateGuards := by
  cases ch
  · cases h
  all_goals simp [gateGuards]

/-- An approval that the gate receives was sent after the gate began to wait, if none was buffered
by then. -/
theorem approval_sent_after_wait (hP : pipeline? env input = some P)
    (h₁ : (Run.start env input).Reaches c₁) {pre : History}
    (hentry : c₁.world.log = pre ++ [.marked .gateWait])
    (hbuf : ∀ picked, c₁.world.choice gateGuards = some picked → decisionOf env picked ≠ none)
    (h₂ : c₁.Reaches c₂) {mid post : History} {gs : List (Guard temporal)} {ch : Channel} {n : ℕ}
    {m : ch.Message}
    (hlog : c₂.world.log = pre ++ .marked .gateWait :: (mid ++ .received gs ch n m :: post))
    (hmid : ∀ gs' ch' n' m', .received gs' ch' n' m' ∉ mid)
    (happ : decisionOf env (.received ch m) = none) : pre.length < n := by
  have hrun := h₁.trans h₂
  have hwait : P.stage (pre ++ [.marked .gateWait]) = .awaiting := by
    rw [Pipeline.stage_append]
    refine Stage.awaiting_of_gateWait ?_
    have hne := Run.stage_ne_stray hP h₁
    rwa [hentry, Pipeline.stage_append] at hne
  -- what the gate does first decides: it finds a signal, or it waits
  have hnext : ∀ x rest, mid ++ .received gs ch n m :: post = x :: rest →
      (∃ v, x = .waiting gateGuards v) ∨ ∃ ch' n' m', x = .received gateGuards ch' n' m' := by
    intro x rest hx
    have hne : P.stage (pre ++ [.marked .gateWait] ++ [x]) ≠ .stray :=
      Run.stage_prefix_ne_stray hP hrun ⟨rest, by simp [hlog, hx]⟩
    rw [Pipeline.stage_append, hwait] at hne
    exact Stage.step_awaiting hne
  rcases mid with _ | ⟨x, mid⟩
  · rcases hnext _ _ rfl with ⟨v, hv⟩ | ⟨ch', n', m', hx⟩
    · cases hv
    · cases hx
      obtain ⟨p, hp⟩ := Run.running_of_marked h₁ hentry
      have hfirst : c₂.world.log = c₁.world.log ++ .received gateGuards ch n m :: post := by
        simp [hlog, hentry]
      exact absurd happ (hbuf _ (Config.Reaches.chosen h₂ hp hfirst))
  · rcases hnext _ _ rfl with ⟨v, rfl⟩ | ⟨ch', n', m', rfl⟩
    · have hsplit : c₂.world.log = (pre ++ [.marked .gateWait]) ++
          .waiting gateGuards v :: (mid ++ .received gs ch n m :: post) := by simp [hlog]
      have hmem : .received gs ch n m ∈ mid ++ .received gs ch n m :: post := by simp
      have hlt := Config.Reaches.sent_after_wait hrun hsplit (mem_gateGuards happ) hmem
      simp only [length_append] at hlt
      omega
    · exact absurd (mem_cons_self ..) (hmid gateGuards ch' n' m')

def hitlInput : WorkflowInput := { approvalMode := "hitl" }

def hitlPolled : Run := Run.after hitlInput (smoothly 6 ++ [.fire (Timer.poll 5)])

def hitlDone : Run := (hitlPolled.deliver (.settle smooth)).getD hitlPolled

def hitlGate : Run := hitlDone.settleDown 6

def hitlApproved : Run :=
  Config.after 60 hitlGate [.signal Channel.approvalDecision { approved := true }]

theorem reaches_hitlGate : (Run.start sampleEnv hitlInput).Reaches hitlGate := by
  have hpolled : (Run.start sampleEnv hitlInput).Reaches hitlPolled := Run.reaches_after _ _
  have hdone : hitlPolled.Step hitlDone := .deliver (.settle smooth) rfl
  exact (hpolled.tail hdone).trans (Config.reaches_settleDown 6 hitlDone)

theorem approval_sent_after_wait_hitl :
    hitlGate.world.log = hitlGate.world.log.dropLast ++ [.marked .gateWait] ∧
      hitlApproved.world.log = hitlGate.world.log.dropLast ++ .marked .gateWait ::
        ([.waiting gateGuards hitlGate.world.st] ++
          .received gateGuards Channel.approvalDecision 21 { approved := true } ::
            hitlApproved.world.log.drop 22) ∧
      hitlGate.world.log.dropLast.length < 21 := by
  have hlog : hitlApproved.world.log = hitlGate.world.log.dropLast ++ .marked .gateWait ::
      ([.waiting gateGuards hitlGate.world.st] ++
        .received gateGuards Channel.approvalDecision 21 { approved := true } ::
          hitlApproved.world.log.drop 22) := rfl
  exact ⟨rfl, hlog, approval_sent_after_wait (P := ⟨false, sampleEnv, preamble hitlInput⟩) rfl
    reaches_hitlGate rfl nofun (Config.reaches_after _ _ _) hlog (by simp) rfl⟩

def hitlEarly : Run :=
  Run.after hitlInput (smoothly 6 ++ [.fire (Timer.poll 5),
    .signal Channel.humanInput "Please use tabs.", .settle smooth])

/-- The input for the agent approves the run. -/
theorem early_input_approves :
    (Run.start sampleEnv hitlInput).Reaches hitlEarly ∧
      asksHuman (approvalMode sampleEnv hitlInput) ∧
      hitlEarly.world.log = hitlEarly.world.log.take 19 ++ .marked .gateWait ::
        .received gateGuards Channel.humanInput 17 "Please use tabs." ::
          hitlEarly.world.log.drop 21 ∧
      decisionOf sampleEnv (.received Channel.humanInput "Please use tabs.") = none ∧
      ¬ (hitlEarly.world.log.take 19).length < 17 ∧
      .marked .gatePassed ∈ hitlEarly.world.log :=
  ⟨Run.reaches_after _ _, by decide, rfl, by decide, by decide +kernel,
    marks_iff.1 (by decide +kernel)⟩

end Uncworks
