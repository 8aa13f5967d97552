import Uncworks.Lifecycle.Pipelines

/-!
# What a history shows

`Stage.Change` lists every way a stage gives way to another one; a step that is none of these leaves
the stage as it is or goes astray (`Stage.step_cases`).  With it the stage a run has come to tells
what its history contains, and an entry of the history tells which stages are still open.
-/

namespace Uncworks

open Durable

/-- The entry answers a command: its reply, or the refusal on a cancelled context. -/
inductive Answers : Entry temporal Vars → (c : Command) → Except Failure c.Reply → Prop
  | completed (c : Command) (r : Except Failure c.Reply) : Answers (.completed c r) c r
  | refused (c : Command) : Answers (.refused c) c (.error .canceled)

namespace Stage

inductive Change (P : Pipeline) : Stage → Entry temporal Vars → Stage → Prop
  | abort {st x c r canceled} (hst : st = .idle ∨ st = .retrying) (hx : Answers x c r)
      (h : onReply P st c r = .aborted canceled) : Change P st x (.aborted canceled)
  | launch {st x i r} (hst : st = .idle ∨ st = .retrying) (hx : Answers x (.startAgent i) (.ok r)) :
      Change P st x .launched
  | poll : Change P .launched (.started (Timer.ttl (ttlDuration P.input))) (.polling 0)
  | status {x i r errors st'} (hx : Answers x (.getAgentStatus i) r)
      (h : afterStatus P errors r = st') : Change P (.polling errors) x st'
  | overdue {errors d} (hs : P.specDriven = false) :
      Change P (.polling errors) (.fired (pollGuards P.input) (Timer.ttl d)) .overdue
  | quit {st gs n u}
      (hst : (st = .idle ∧ P.specDriven) ∨ st = .retrying ∨ ∃ errors, st = .polling errors) :
      Change P st (.received gs Channel.cancel n u) .quit
  | verify {errors i v} (hs : P.specDriven) :
      Change P (.polling errors) (.scheduled (.verifyRun i) v) .verifying
  | verified {st x i r st'}
      (hst : st = .verifying ∨ ∃ errors, st = .polling errors ∧ P.specDriven)
      (hx : Answers x (.verifyRun i) r) (h : afterVerify r = st') : Change P st x st'
  | judge {x i r st'} (hx : Answers x (.llmJudgeChanges i) r) (h : afterJudge r = st') :
      Change P .done x st'
  | await {st} (hst : st = .done ∧ ¬ asksJudge P.mode ∨ ∃ b, st = .judged b)
      (hm : asksHuman P.mode) : Change P st (.marked .gateWait) .awaiting
  | approve {ch n m} (hch : ch ≠ Channel.cancel) (h : decisionOf P.env (.received ch m) = none) :
      Change P .awaiting (.received gateGuards ch n m) .approved
  | decline {ch n m reason} (hch : ch ≠ Channel.cancel)
      (h : decisionOf P.env (.received ch m) = some reason) :
      Change P .awaiting (.received gateGuards ch n m) .declined
  | pass {st} (hst : (st = .done ∧ ¬ asksHuman P.mode ∧ ¬ asksJudge P.mode) ∨
        (∃ b, st = .judged b ∧ ¬ asksHuman P.mode) ∨ st = .approved) :
      Change P st (.marked .gatePassed) .passed
  | reject {st} (hst : st = .denied ∨ st = .declined) :
      Change P st (.marked .gateRejected) .rejected
  | exhaust {st} (hst : (st = .idle ∧ P.specDriven) ∨ st = .retrying) :
      Change P st (.marked .retriesExhausted) .exhausted
  | close {st e} (hst : st.ending? = some e) (hne : ∀ e', st ≠ .closing e') :
      Change P st (.marked .bodyReturned) (.closing e)

/-- What a step does to the stage: nothing, one of the changes, or it goes astray. -/
def Moves (P : Pipeline) (st : Stage) (x : Entry temporal Vars) (st' : Stage) : Prop :=
  st' = st ∨ st' = .stray ∨ Change P st x st'

variable {P : Pipeline} {st : Stage} {x : Entry temporal Vars} {st' : Stage} {c : Command}

theorem need_cases {α : Type} (next : Stage) (r : Except Failure α) :
    (∃ a, r = .ok a ∧ need next r = next) ∨ ∃ b, need next r = .aborted b := by
  rcases r with (_ | _) | a
  · exact .inr ⟨true, rfl⟩
  · exact .inr ⟨false, rfl⟩
  · exact .inl ⟨a, rfl, rfl⟩

theorem afterStatus_cases {errors} (r : Except Failure GetAgentStatusOutput) :
    (∃ n, afterStatus P errors r = .polling n) ∨ afterStatus P errors r = .failed ∨
      afterStatus P errors r = .done := by
  rcases r with err | status <;> simp [afterStatus]
  · split_ifs <;> simp
  · split_ifs
    · simp
    · rcases status.state <;> simp

theorem afterVerify_cases (r : Except Failure VerificationResult) :
    afterVerify r = .aborted true ∨ afterVerify r = .retrying ∨ afterVerify r = .done := by
  rcases r with (_ | _) | result <;> simp only [afterVerify]
  · simp
  · simp
  · split_ifs <;> simp

theorem afterJudge_cases (r : Except Failure LLMJudgeOutput) :
    (∃ b, afterJudge r = .judged b) ∨ afterJudge r = .denied := by
  rcases r with err | verdict <;> simp only [afterJudge]
  · simp
  · split_ifs <;> simp

theorem afterStatus_ne {errors r} (hpolling : ∀ n, .polling n ≠ st') (hfailed : .failed ≠ st')
    (hdone : .done ≠ st') : afterStatus P errors r ≠ st' := by
  rcases afterStatus_cases (P := P) r with ⟨n, h⟩ | h | h
  · rw [h]
    exact hpolling n
  · rwa [h]
  · rwa [h]

theorem afterVerify_ne {r} (haborted : .aborted true ≠ st') (hretrying : .retrying ≠ st')
    (hdone : .done ≠ st') : afterVerify r ≠ st' := by
  rcases afterVerify_cases r with h | h | h
  all_goals rwa [h]

theorem afterJudge_ne {r} (hjudged : ∀ b, .judged b ≠ st') (hdenied : .denied ≠ st') :
    afterJudge r ≠ st' := by
  rcases afterJudge_cases r with ⟨b, h⟩ | h
  · rw [h]
    exact hjudged b
  · rwa [h]

theorem moves_need {r} (hx : Answers x c r) (h : onReply P .idle c r = need .idle r) :
    Moves P .idle x (onReply P .idle c r) := by
  rcases need_cases .idle r with ⟨a, -, hr⟩ | ⟨b, hr⟩
  · exact .inl (h.trans hr)
  · have habort := h.trans hr
    rw [habort]
    exact .inr (.inr (.abort (.inl rfl) hx habort))

theorem moves_onReply {r} (hx : Answers x c r) : Moves P st x (onReply P st c r) := by
  cases c
  case provisionLLMKey i => cases st <;> first
    | exact .inr (.inl rfl)
    | exact moves_need hx rfl
  case createAgentDeployment i => cases st <;> first
    | exact .inr (.inl rfl)
    | exact moves_need hx rfl
  case waitForHydration p n a => cases st <;> first
    | exact .inr (.inl rfl)
    | exact moves_need hx rfl
  case checkPodStatus p n =>
    rcases r with err | status <;> cases st <;> try exact .inr (.inl rfl)
    · exact .inl rfl
    · by_cases hev : status.reason = "Evicted"
      · have habort : onReply P .idle (.checkPodStatus p n) (.ok status) = .aborted false :=
          if_pos hev
        rw [habort]
        exact .inr (.inr (.abort (.inl rfl) hx habort))
      · exact .inl (if_neg hev)
  case planRun i =>
    cases st <;> try exact .inr (.inl rfl)
    rcases r with (_ | _) | plan
    · exact .inr (.inr (.abort (.inl rfl) hx rfl))
    · exact .inr (.inr (.abort (.inl rfl) hx rfl))
    · by_cases hvalid : plan.specsValid
      · exact .inl (if_pos hvalid)
      · have habort : onReply P .idle (.planRun i) (.ok plan) = .aborted false := if_neg hvalid
        rw [habort]
        exact .inr (.inr (.abort (.inl rfl) hx habort))
  case startAgent i =>
    cases st
    case idle =>
      rcases r with (_ | _) | u
      · exact .inr (.inr (.abort (.inl rfl) hx rfl))
      · exact .inr (.inr (.abort (.inl rfl) hx rfl))
      · exact .inr (.inr (.launch (.inl rfl) hx))
    case retrying =>
      rcases r with (_ | _) | u
      · exact .inr (.inr (.abort (.inr rfl) hx rfl))
      · exact .inr (.inr (.abort (.inr rfl) hx rfl))
      · exact .inr (.inr (.launch (.inr rfl) hx))
    all_goals exact .inr (.inl rfl)
  case getAgentStatus i =>
    cases st <;> try exact .inr (.inl rfl)
    exact .inr (.inr (.status hx rfl))
  case verifyRun i =>
    cases st <;> try exact .inr (.inl rfl)
    · simp only [onReply]
      split_ifs with hs
      · exact .inr (.inr (.verified (.inr ⟨_, rfl, hs⟩) hx rfl))
      · exact .inr (.inl rfl)
    · exact .inr (.inr (.verified (.inl rfl) hx rfl))
  case llmJudgeChanges i =>
    cases st <;> try exact .inr (.inl rfl)
    exact .inr (.inr (.judge hx rfl))
  all_goals exact .inl rfl

theorem moves_onPush : onPush P st = st ∨ onPush P st = .stray := by
  cases st <;> first
    | exact .inr rfl
    | (simp only [onPush]; split_ifs <;> simp)

theorem moves_onScheduled {v} : Moves P st (.scheduled c v) (onScheduled P st c) := by
  cases c
  case verifyRun i =>
    cases st <;> try exact .inr (.inl rfl)
    simp only [onScheduled]
    split_ifs with hs
    · exact .inr (.inr (.verify hs))
    · exact .inr (.inl rfl)
  case pushChanges i => exact moves_onPush.imp_right .inl
  case createPR i => exact moves_onPush.imp_right .inl
  all_goals exact .inl rfl

theorem moves_onReceived {gs} {ch : Channel} {n} {m : ch.Message} :
    Moves P st (.received gs ch n m) (onReceived P st gs (.received ch m)) := by
  cases st
  case awaiting =>
    by_cases hch : ch = .cancel
    · subst hch
      exact .inr (.inl rfl)
    · rw [onReceived_awaiting hch]
      split_ifs with hgs
      · subst hgs
        rcases hd : decisionOf P.env (.received ch m) with _ | reason
        · exact .inr (.inr (.approve hch hd))
        · exact .inr (.inr (.decline hch hd))
      · exact .inr (.inl rfl)
  case idle =>
    cases ch <;> try exact .inr (.inl rfl)
    simp only [onReceived]
    split_ifs with hs
    · exact .inr (.inr (.quit (.inl ⟨rfl, hs⟩)))
    · exact .inr (.inl rfl)
  case retrying =>
    cases ch <;> try exact .inr (.inl rfl)
    exact .inr (.inr (.quit (.inr (.inl rfl))))
  case polling errors =>
    cases ch
    · exact .inr (.inr (.quit (.inr (.inr ⟨errors, rfl⟩))))
    · exact .inl rfl
    · exact .inr (.inl rfl)
  all_goals exact .inr (.inl rfl)

theorem moves_onFired {gs} {t : Timer} : Moves P st (.fired gs t) (onFired P st gs t) := by
  cases st
  case polling errors =>
    cases t with
    | poll d => exact .inl rfl
    | ttl d =>
      simp only [onFired]
      split_ifs with hgs hs
      · exact .inl rfl
      · subst hgs
        exact .inr (.inr (.overdue (by simpa using hs)))
      · exact .inr (.inl rfl)
  all_goals exact .inr (.inl rfl)

theorem moves_gateWait : Moves P st (.marked .gateWait) (onMark P st .gateWait) := by
  cases st
  case done =>
    simp only [onMark]
    split_ifs with h
    · exact .inr (.inr (.await (.inl ⟨rfl, h.2⟩) h.1))
    · exact .inr (.inl rfl)
  case judged b =>
    simp only [onMark]
    split_ifs with h
    · exact .inr (.inr (.await (.inr ⟨b, rfl⟩) h))
    · exact .inr (.inl rfl)
  all_goals exact .inr (.inl rfl)

theorem moves_gatePassed : Moves P st (.marked .gatePassed) (onMark P st .gatePassed) := by
  cases st
  case done =>
    simp only [onMark]
    split_ifs with h
    · exact .inr (.inl rfl)
    · rw [not_or] at h
      exact .inr (.inr (.pass (.inl ⟨rfl, h⟩)))
  case judged b =>
    simp only [onMark]
    split_ifs with h
    · exact .inr (.inl rfl)
    · exact .inr (.inr (.pass (.inr (.inl ⟨b, rfl, h⟩))))
  case approved => exact .inr (.inr (.pass (.inr (.inr rfl))))
  all_goals exact .inr (.inl rfl)

theorem moves_onMark {m : Mark} : Moves P st (.marked m) (onMark P st m) := by
  cases m
  case gateWait => exact moves_gateWait
  case gatePassed => exact moves_gatePassed
  case gateRejected =>
    cases st
    case denied => exact .inr (.inr (.reject (.inl rfl)))
    case declined => exact .inr (.inr (.reject (.inr rfl)))
    all_goals exact .inr (.inl rfl)
  case retriesExhausted =>
    cases st
    case idle =>
      simp only [onMark]
      split_ifs with hs
      · exact .inr (.inr (.exhaust (.inl ⟨rfl, hs⟩)))
      · exact .inr (.inl rfl)
    case retrying => exact .inr (.inr (.exhaust (.inr rfl)))
    all_goals exact .inr (.inl rfl)
  case bodyReturned =>
    cases st <;> first
      | exact .inr (.inl rfl)
      | exact .inr (.inr (.close rfl (by simp)))

theorem moves_unlessAwaiting (h : Moves P st x st') : Moves P st x (st.unlessAwaiting st') := by
  cases st <;> first
    | exact h
    | exact .inr (.inl rfl)

theorem step_cases (P : Pipeline) (st : Stage) (x : Entry temporal Vars) :
    Moves P st x (step P st x) := by
  cases x with
  | scheduled c v => exact moves_unlessAwaiting moves_onScheduled
  | refused c => exact moves_unlessAwaiting (moves_onReply (.refused c))
  | completed c r => exact moves_unlessAwaiting (moves_onReply (.completed c r))
  | waiting gs v =>
    simp only [step]
    cases st <;> first
      | exact .inr (.inl rfl)
      | (simp [onWaiting]; split_ifs <;> simp [Moves])
  | received gs ch n m => exact moves_onReceived
  | fired gs t => exact moves_onFired
  | started t =>
    refine moves_unlessAwaiting ?_
    cases st <;> try exact .inl rfl
    simp only [onStarted]
    split_ifs with ht
    · subst ht
      exact .inr (.inr .poll)
    · exact .inr (.inl rfl)
  | issued c => exact moves_unlessAwaiting (.inl rfl)
  | marked m => exact moves_onMark

/-! ## Changes into a stage -/

theorem Change.into_awaiting (h : Change P st x .awaiting) : x = .marked .gateWait := by
  cases h with
  | status _ hr => exact absurd hr (afterStatus_ne nofun nofun nofun)
  | verified _ _ hr => exact absurd hr (afterVerify_ne nofun nofun nofun)
  | judge _ hr => exact absurd hr (afterJudge_ne nofun nofun)
  | await => rfl

theorem Change.into_approved (h : Change P st x .approved) :
    st = .awaiting ∧ ∃ ch n m, x = .received gateGuards ch n m ∧
      decisionOf P.env (.received ch m) = none := by
  cases h with
  | status _ hr => exact absurd hr (afterStatus_ne nofun nofun nofun)
  | verified _ _ hr => exact absurd hr (afterVerify_ne nofun nofun nofun)
  | judge _ hr => exact absurd hr (afterJudge_ne nofun nofun)
  | approve _ hd => exact ⟨rfl, _, _, _, rfl, hd⟩

theorem Change.into_judged {b} (h : Change P st x (.judged b)) :
    ∃ i r, Answers x (.llmJudgeChanges i) r ∧ afterJudge r = .judged b := by
  cases h with
  | status _ hr => exact absurd hr (afterStatus_ne nofun nofun nofun)
  | verified _ _ hr => exact absurd hr (afterVerify_ne nofun nofun nofun)
  | judge hx hr => exact ⟨_, _, hx, hr⟩

end Stage

end Uncworks
