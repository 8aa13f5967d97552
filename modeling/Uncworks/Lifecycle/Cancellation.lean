import Uncworks.Lifecycle.Approval

/-!
# Cancelling a run

A cancel signal, or the cancellation of the workflow's context, for a run whose agent has been
started.  It can come too late (`Missed`): the work is done and the gate does not look at
cancellations, or the run has failed on its own account.
-/

namespace Uncworks

open Durable Config List

variable {env : Env} {input : WorkflowInput} {P : Pipeline} {c c₁ c₂ c₃ : Run} {log post : History}
  {st : Stage} {x : Entry temporal Vars}

def AgentStarted (log : History) : Prop := ∃ i r, .completed (.startAgent i) (.ok r) ∈ log

def StartFailed (log : History) : Prop :=
  ∃ i text, .completed (.startAgent i) (.error (.other text)) ∈ log

/-- The run is beyond cancelling: its work is done, or it has failed on its own account. -/
def Missed (P : Pipeline) (log : History) : Prop :=
  WorkDone P log ∨ .marked .retriesExhausted ∈ log ∨ StartFailed log ∨
    P.specDriven = false ∧ AgentFailed log

def Phase.isFinal (p : Phase) : Prop := p = .succeeded ∨ p = .failed ∨ p = .cancelled

/-- A cancellation is delivered: a cancel signal, or for a spec-driven run also the cancellation of
the workflow's context. -/
def DeliversCancel (P : Pipeline) (c c' : Run) : Prop :=
  c.deliver (.signal Channel.cancel ()) = some c' ∨ P.specDriven ∧ c.deliver .cancel = some c'

/-! ## After the start of an agent -/

namespace Stage

theorem ne_idle_step (h : st ≠ .idle) (x : Entry temporal Vars) : step P st x ≠ .idle := by
  rcases step_cases P st x with heq | heq | hc
  · rwa [heq]
  · rw [heq]; nofun
  · intro heq
    rw [heq] at hc
    cases hc with
    | status _ hr => exact absurd hr (afterStatus_ne nofun nofun nofun)
    | verified _ _ hr => exact absurd hr (afterVerify_ne nofun nofun nofun)
    | judge _ hr => exact absurd hr (afterJudge_ne nofun nofun)

theorem answers_of_abort {cmd r} (h : onReply P .retrying cmd r = .aborted false) :
    ∃ i text, (⟨cmd, r⟩ : (c : Command) × Except Failure c.Reply) =
      ⟨.startAgent i, .error (.other text)⟩ := by
  cases cmd <;> try cases h
  case startAgent i =>
    rcases r with (_ | text) | u
    · cases h
    · exact ⟨i, text, rfl⟩
    · cases h

def IsOverdue (st : Stage) : Prop := st = .stray ∨ st = .overdue ∨ st = .closing .failed

theorem IsOverdue.step (h : st.IsOverdue) (x : Entry temporal Vars) : (step P st x).IsOverdue := by
  have hend : ∀ {st : Stage}, st = .overdue ∨ st = .closing .failed →
      (Stage.step P st x).IsOverdue := by
    intro st hst
    have he : st.ending? = some .failed := by rcases hst with rfl | rfl <;> rfl
    rcases step_cases P st x with heq | heq | hc
    · rw [heq]; exact .inr hst
    · exact .inl heq
    · exact .inr (.inr (hc.of_ending he))
  rcases h with rfl | h
  · exact .inl step_stray
  · exact hend h

end Stage

namespace Pipeline

theorem stage_of_started {i} {r : Unit}
    (h : P.stage (log ++ [.completed (.startAgent i) (.ok r)]) ≠ .stray) :
    P.stage (log ++ [.completed (.startAgent i) (.ok r)]) = .launched := by
  rw [stage_append] at h ⊢
  cases hst : P.stage log <;> rw [hst] at h <;> first
    | rfl
    | exact absurd rfl h

theorem startFailed_of_ending (hstart : AgentStarted log)
    (h : (P.stage log).ending? = some (.aborted false)) : StartFailed log := by
  have hns : P.stage log ≠ .stray := by
    intro hstray
    rw [hstray] at h
    cases h
  obtain ⟨i, r, hmem⟩ := hstart
  obtain ⟨old, new, rfl⟩ := append_of_mem hmem
  have hsplit : old ++ .completed (.startAgent i) (.ok r) :: new =
      old ++ [.completed (.startAgent i) (.ok r)] ++ new := by simp
  rw [hsplit] at h hns ⊢
  have hlaunched := stage_of_started (stage_ne_stray_of_longer (prefix_append _ _) hns)
  obtain ⟨pre, y, post, st', rfl, hpre, hst', -, hchange⟩ :=
    exists_change_after (S := fun st => st.ending? = some (.aborted false)) _
      (by rw [hlaunched]; nofun) h hns
  have hidle := stage_of_longer (S := (· ≠ .idle)) (fun h x => Stage.ne_idle_step h x)
    (prefix_append _ pre) (by rw [hlaunched]; nofun)
  have hdecides := hchange.decides hpre hst'
  generalize P.stage (old ++ [.completed (.startAgent i) (.ok r)] ++ pre) = st at hidle hdecides
  cases hdecides with
  | @abort _ _ cmd r' _ hst hy habort =>
    obtain rfl := hst.resolve_left hidle
    obtain ⟨j, text, heq⟩ := Stage.answers_of_abort habort
    cases heq
    cases hy
    exact ⟨j, text, by simp⟩

theorem fired_isOverdue (hs : P.specDriven = false) {gs d} (h : .fired gs (Timer.ttl d) ∈ log) :
    (P.stage log).IsOverdue := by
  refine stage_of_entry (S := Stage.IsOverdue) (fun h x => h.step x) (fun st => ?_) h
  cases st
  case polling errors =>
    simp only [Stage.step, Stage.onFired, hs, Bool.false_eq_true, if_false]
    split_ifs <;> simp [Stage.IsOverdue]
  all_goals exact .inl rfl

theorem started_of_polling {errors} (h : P.stage log = .polling errors) :
    .started (Timer.ttl (ttlDuration P.input)) ∈ log := by
  obtain ⟨pre, x, post, st', rfl, hpre, ⟨n, rfl⟩, -, hc⟩ :=
    exists_change (S := fun st => ∃ n, st = .polling n) (by simp) ⟨errors, h⟩ (by rw [h]; nofun)
  generalize P.stage pre = st at hpre hc
  cases hc with
  | poll => simp
  | status => exact absurd ⟨_, rfl⟩ hpre
  | verified _ _ hr => exact absurd hr (Stage.afterVerify_ne nofun nofun nofun)
  | judge _ hr => exact absurd hr (Stage.afterJudge_ne nofun nofun)

theorem polling_of_waiting {gs v} (h : P.stage (log ++ [.waiting gs v]) ≠ .stray) :
    (gs = pollGuards P.input ∧ ∃ errors, P.stage (log ++ [.waiting gs v]) = .polling errors) ∨
      (P.stage (log ++ [.waiting gs v])).IsFinished := by
  rw [stage_append] at h ⊢
  rcases hst : P.stage log <;> rw [hst] at h <;> simp only [Stage.step, Stage.onWaiting] at h ⊢
  case polling errors =>
    split_ifs at h ⊢ with hgs
    · exact .inl ⟨hgs, errors, rfl⟩
    · exact absurd rfl h
  case awaiting =>
    split_ifs at h ⊢ with hgs
    · exact .inr trivial
    · exact absurd rfl h
  all_goals exact absurd rfl h

theorem isFinished_of_push {cmd : Command} {v} (hpush : cmd.isPush)
    (h : P.stage (log ++ [.scheduled cmd v]) ≠ .stray) : (P.stage log).IsFinished := by
  rw [stage_append] at h
  cases hst : P.stage log <;> rw [hst] at h <;> first
    | exact trivial
    | (cases cmd <;> cases hpush <;> exact absurd rfl h)

end Pipeline

theorem WorkDone.of_longer {log' : History} (h : WorkDone P log) (hlog : log <+: log') :
    WorkDone P log' := by
  unfold WorkDone at h ⊢
  split_ifs at h ⊢
  all_goals
    obtain ⟨i, s, hmem, hs⟩ := h
    exact ⟨i, s, hlog.subset hmem, hs⟩

/-! ## Cancelling -/

/-- What a delivered cancellation leaves behind: a cancel signal in the buffer, or a cancelled
context. -/
theorem DeliversCancel.cases (h : DeliversCancel P c₁ c₂) (h₁ : (Run.start env input).Reaches c₁) :
    (c₁.control.atRest ∧ c₂.world.log = c₁.world.log ∧ c₂.world.buffer Channel.cancel ≠ []) ∨
      P.specDriven ∧ c₂.world.canceled := by
  rcases h with h | ⟨hs, h⟩
  · simp only [deliver] at h
    split_ifs at h with hrest
    cases h
    exact .inl ⟨hrest, rfl, Reaches.buffer_send h₁⟩
  · refine .inr ⟨hs, ?_⟩
    simp only [deliver] at h
    split at h <;> cases h <;> rfl

theorem DeliversCancel.reaches (h : DeliversCancel P c₁ c₂) : c₁.Reaches c₂ := by
  rcases h with h | ⟨-, h⟩ <;> exact .single (.deliver _ h)

/-- A cancel signal that is buffered before the time to live is over ends the polling of a single
agent. -/
theorem Run.not_fired (hP : pipeline? env input = some P) (hs : P.specDriven = false)
    (h₁ : (Run.start env input).Reaches c₁) (hphase : ¬ c₁.world.st.state.phase.isFinal)
    (hrest : c₁.control.atRest) (hlog : c₂.world.log = c₁.world.log)
    (hbuf : c₂.world.buffer Channel.cancel ≠ []) (h₂ : c₂.Reaches c₃)
    (hquit : ¬ (P.stage c₃.world.log).LeadsTo .quit) {d} :
    .fired (pollGuards P.input) (Timer.ttl d) ∉ c₃.world.log := by
  intro hfired
  obtain ⟨post, hpost⟩ := Reaches.log_grows h₂
  rw [← hpost, hlog] at hfired
  rcases mem_append.1 hfired with hold | hnew
  · have hshows := Run.shows hP h₁ hrest
    rcases Pipeline.fired_isOverdue hs hold with hst | hst | hst <;> rw [hst] at hshows
    · exact hshows
    all_goals exact hphase (.inr (.inl hshows))
  · rcases Reaches.pending h₂ hbuf hpost.symm with ⟨gs, n, u, hmem⟩ | ⟨-, hno⟩
    · exact hquit (Pipeline.leadsTo_quit ⟨gs, n, u, hpost ▸ mem_append_right _ hmem⟩)
    · exact hno _ _ hnew

theorem Run.phase_of_cancelled (hP : pipeline? env input = some P)
    (h₁ : (Run.start env input).Reaches c₁) (hstart : AgentStarted c₁.world.log)
    (hphase : ¬ c₁.world.st.state.phase.isFinal) (hd : DeliversCancel P c₁ c₂) (h₂ : c₂.Reaches c₃)
    (hmiss : ¬ Missed P c₃.world.log) {err} (hret : c₃.returned? = some err) :
    c₃.world.st.state.phase = .cancelled := by
  have h₁₃ := hd.reaches.trans h₂
  obtain ⟨e, hst, hv, -⟩ := Run.ends hP (h₁.trans h₁₃) hret
  have hend : (P.stage c₃.world.log).ending? = some e := by rw [hst]; rfl
  have hwork : ¬ (P.stage c₃.world.log).IsFinished := fun h =>
    hmiss (.inl (Pipeline.workDone_of_finished h))
  rw [hv]
  cases e with
  | aborted canceled =>
    cases canceled
    · have hstart₃ : AgentStarted c₃.world.log := by
        obtain ⟨i, r, hmem⟩ := hstart
        exact ⟨i, r, (Reaches.log_grows h₁₃).subset hmem⟩
      exact absurd (.inr (.inr (.inl (Pipeline.startFailed_of_ending hstart₃ hend)))) hmiss
    · rfl
  | quit => rfl
  | failed =>
    obtain ⟨hs, hfailed | ⟨d, hfired⟩⟩ := Pipeline.agentFailed_or_fired_of_ending hend
    · exact absurd (.inr (.inr (.inr ⟨hs, hfailed⟩))) hmiss
    · rcases hd.cases h₁ with ⟨hrest, hlog, hbuf⟩ | ⟨hspec, -⟩
      · refine absurd hfired (Run.not_fired hP hs h₁ hphase hrest hlog hbuf h₂ ?_)
        rw [hst]
        rintro (h | h) <;> cases h
      · simp [hs] at hspec
  | passed | rejected => exact absurd (by rw [hst]; trivial) hwork
  | exhausted =>
    exact absurd (.inr (.inl (Pipeline.retriesExhausted_of_ending hend))) hmiss

theorem Run.resumes_of_cancelled (hP : pipeline? env input = some P)
    (h₁ : (Run.start env input).Reaches c₁) (hd : DeliversCancel P c₁ c₂) (h₂ : c₂.Reaches c₃)
    (hmiss : ¬ Missed P c₃.world.log) {gs k} (hctl : c₃.control = .blocked gs k) :
    c₃.resume ≠ none := by
  have hrun := h₁.trans (hd.reaches.trans h₂)
  have hparked := Reaches.parked hrun
  simp only [Parked, hctl] at hparked
  obtain ⟨pre, hlog₃⟩ := hparked
  have hne := Run.stage_ne_stray hP hrun
  rw [hlog₃] at hne
  rcases Pipeline.polling_of_waiting hne with ⟨rfl, errors, hpoll⟩ | hfin
  · rw [← hlog₃] at hpoll
    have hpick : c₃.world.pick (pollGuards P.input) ≠ none := by
      intro hnone
      rcases hd.cases h₁ with ⟨-, hlog, hbuf⟩ | ⟨-, hcan⟩
      · obtain ⟨post, hpost⟩ := Reaches.log_grows h₂
        rcases Reaches.pending h₂ hbuf hpost.symm with ⟨gs, n, u, hmem⟩ | ⟨hb, -⟩
        · have hquit : (P.stage c₃.world.log).LeadsTo .quit :=
            Pipeline.leadsTo_quit ⟨gs, n, u, hpost ▸ mem_append_right _ hmem⟩
          rw [hpoll] at hquit
          rcases hquit with h | h <;> cases h
        · exact hb (World.buffer_of_pickFrom hnone _ (by simp [pollGuards]))
      · have hready := Reaches.timer_ready hrun (Reaches.canceled h₂ hcan)
          (Pipeline.started_of_polling hpoll)
        exact World.timer_of_pickFrom hnone _ (by simp [pollGuards]) hready
    simpa [resume, hctl] using hpick
  · rw [← hlog₃] at hfin
    exact absurd (.inl (Pipeline.workDone_of_finished hfin)) hmiss

/-- A run whose agent has been started and that is cancelled in time ends as cancelled, pushes
nothing after that, and waits nowhere where the cancellation cannot reach it. -/
theorem cancellation_ends_run (hP : pipeline? env input = some P)
    (h₁ : (Run.start env input).Reaches c₁) (hstart : AgentStarted c₁.world.log)
    (hphase : ¬ c₁.world.st.state.phase.isFinal) (hd : DeliversCancel P c₁ c₂)
    (h₂ : c₂.Reaches c₃) (hmiss : ¬ Missed P c₃.world.log) :
    (∀ err, c₃.returned? = some err → c₃.world.st.state.phase = .cancelled) ∧
      (∀ post cmd v, c₃.world.log = c₁.world.log ++ post → .scheduled cmd v ∈ post →
        ¬ cmd.isPush) ∧
      ∀ gs k, c₃.control = .blocked gs k → c₃.resume ≠ none := by
  have hrun := h₁.trans (hd.reaches.trans h₂)
  refine ⟨fun err hret => Run.phase_of_cancelled hP h₁ hstart hphase hd h₂ hmiss hret, ?_,
    fun gs k hctl => Run.resumes_of_cancelled hP h₁ hd h₂ hmiss hctl⟩
  intro post cmd v hlog hmem hpush
  obtain ⟨pre, rest, rfl⟩ := append_of_mem hmem
  have hpre : c₁.world.log ++ pre ++ [.scheduled cmd v] <+: c₃.world.log :=
    ⟨rest, by simp [hlog]⟩
  have hfin := Pipeline.isFinished_of_push hpush (Run.stage_prefix_ne_stray hP hrun hpre)
  exact hmiss (.inl ((Pipeline.workDone_of_finished hfin).of_longer
    ((prefix_append _ _).trans hpre)))

/-! ### Sample runs -/

def polledRun : Run := Run.after {} (smoothly 6)

def polledCancelled : Run := (polledRun.deliver (.signal Channel.cancel ())).getD polledRun

def cancelledRun : Run := after 60 polledCancelled (smoothly 8)

def startsAgent : Entry temporal Vars → Bool
  | .completed (.startAgent _) (.ok _) => true
  | _ => false

theorem agentStarted_of_any (h : log.any startsAgent) : AgentStarted log := by
  obtain ⟨x, hx, hs⟩ := any_eq_true.1 h
  unfold startsAgent at hs
  split at hs
  · exact ⟨_, _, hx⟩
  · cases hs

def missedBy : Entry temporal Vars → Bool
  | .completed (.startAgent _) (.error _) => true
  | .completed (.getAgentStatus _) _ => true
  | .refused (.getAgentStatus _) => true
  | .marked .retriesExhausted => true
  | _ => false

theorem countError_of_not_missedBy {n} (h : missedBy x = false) : countError n x = n := by
  unfold countError
  split <;> first
    | cases h
    | rfl

theorem statusErrors_of_not_missedBy (h : ∀ x ∈ log, missedBy x = false) : statusErrors log = 0 := by
  induction log using reverseRecOn with
  | nil => rfl
  | append_singleton log x ih =>
    rw [statusErrors_append, countError_of_not_missedBy (h x (by simp))]
    exact ih fun y hy => h y (mem_append_left _ hy)

theorem not_missed_of_any (hs : P.specDriven = false) (h : log.any missedBy = false) :
    ¬ Missed P log := by
  have hall : ∀ x ∈ log, missedBy x = false := by simpa using h
  rintro (hwork | hmem | ⟨i, text, hmem⟩ | ⟨-, ⟨i, s, hmem, -⟩ | ⟨pre, hpre, hmany⟩⟩)
  · simp only [WorkDone, hs, Bool.false_eq_true, if_false] at hwork
    obtain ⟨i, s, hmem, -⟩ := hwork
    cases hall _ hmem
  · cases hall _ hmem
  · cases hall _ hmem
  · cases hall _ hmem
  · rw [statusErrors_of_not_missedBy fun x hx => hall x (hpre.subset hx)] at hmany
    cases hmany

theorem cancellation_ends_run_polledRun :
    polledRun.world.st.state.phase = .running ∧ cancelledRun.returned? = some none ∧
      cancelledRun.world.st.state.phase = .cancelled := by
  have hlog : polledRun.world.log.any startsAgent ∧
      cancelledRun.world.log.any missedBy = false := by decide +kernel
  have hrunning : polledRun.world.st.state.phase = .running := rfl
  have hphase : ¬ polledRun.world.st.state.phase.isFinal := by
    rintro (h | h | h) <;> cases h
  have hret : cancelledRun.returned? = some none := rfl
  exact ⟨hrunning, hret, (cancellation_ends_run (P := ⟨false, sampleEnv, preamble {}⟩) rfl
    (Run.reaches_after {} (smoothly 6)) (agentStarted_of_any hlog.1) hphase (.inl rfl)
    (Config.reaches_after 60 polledCancelled (smoothly 8)) (not_missed_of_any rfl hlog.2)).1 _ hret⟩

def gateWaiting : Run := Run.after hitlInput (smoothly 6 ++ [.fire (Timer.poll 5)] ++ smoothly 1)

def gateCancelled : Run := (gateWaiting.deliver (.signal Channel.cancel ())).getD gateWaiting

def gateApproved : Run :=
  after 60 gateCancelled
    (.signal Channel.approvalDecision { approved := true } :: smoothly 8)

/-- The gate does not look at a cancel signal: the run is not woken, and it can still succeed. -/
theorem gate_ignores_cancel :
    (Run.start sampleEnv hitlInput).Reaches gateWaiting ∧ AgentStarted gateWaiting.world.log ∧
      ¬ gateWaiting.world.st.state.phase.isFinal ∧
      gateWaiting.deliver (.signal Channel.cancel ()) = some gateCancelled ∧
      (∃ gs k, gateCancelled.control = .blocked gs k) ∧ gateCancelled.resume.isNone ∧
      gateCancelled.Reaches gateApproved ∧ gateApproved.returned? = some none ∧
      gateApproved.world.st.state.phase = .succeeded := by
  have hphase : gateWaiting.world.st.state.phase = .waitingForInput := rfl
  refine ⟨Run.reaches_after _ _, agentStarted_of_any (by decide +kernel), ?_, rfl, ⟨_, _, rfl⟩, rfl,
    Config.reaches_after _ _ _, rfl, rfl⟩
  rintro (h | h | h) <;> cases h

end Uncworks
