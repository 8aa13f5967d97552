import Uncworks.Lifecycle.Evidence

/-!
# How a run ends, read from its history

Sets of stages that no entry leads out of, and the entries that lead into them: the ending of a run is
decided by one entry of its history, a run whose work is done stays done, and a stage that can only
show one phase gives way only to such stages.
-/

namespace Uncworks

open Durable Bool

/-! ## Predicates on histories -/

def countError (n : ℕ) : Entry temporal Vars → ℕ
  | .completed (.getAgentStatus _) (.error _) => n + 1
  | .refused (.getAgentStatus _) => n + 1
  | .completed (.getAgentStatus _) (.ok _) => 0
  | _ => n

def statusErrors (log : History) : ℕ := log.foldl countError 0

theorem statusErrors_append {log x} :
    statusErrors (log ++ [x]) = countError (statusErrors log) x := by
  simp [statusErrors]

/-- The agent of a single-agent run reported a failure, or its sidecar could not be reached. -/
def AgentFailed (log : History) : Prop :=
  (∃ i s, .completed (.getAgentStatus i) (.ok s) ∈ log ∧ s.state = .failed) ∨
    ∃ pre, pre <+: log ∧ maxConsecutiveStatusErrors ≤ statusErrors pre

/-- The polling of a single agent ended with a failure: of the agent, or by its time to live. -/
def PollingFailed (log : History) : Prop := AgentFailed log ∨ ∃ gs d, .fired gs (Timer.ttl d) ∈ log

def CancelReceived (log : History) : Prop := ∃ gs n u, .received gs Channel.cancel n u ∈ log

/-- The agent reported that it is done (single-agent run), or a verification passed. -/
def WorkDone (P : Pipeline) (log : History) : Prop :=
  if P.specDriven then ∃ i s, .completed (.verifyRun i) (.ok s) ∈ log ∧ s.pass
  else ∃ i s, .completed (.getAgentStatus i) (.ok s) ∈ log ∧ s.state = .completed

variable {P : Pipeline} {log log' : History} {st : Stage} {x : Entry temporal Vars} {e : Ending}

namespace Stage

/-- A change closes a stage with an ending, or starts in a stage without one. -/
theorem Change.source {st'} (h : Change P st x st') :
    (∃ e, st.ending? = some e ∧ st' = .closing e) ∨
      st.ending? = none ∧ st ≠ .stray ∧ (st = .denied → st' = .rejected) := by
  cases h with
  | close hst => exact .inl ⟨_, hst, rfl⟩
  | abort hst | launch hst | reject hst => right; rcases hst with rfl | rfl <;> simp [ending?]
  | quit hst => right; rcases hst with ⟨rfl, _⟩ | rfl | ⟨_, rfl⟩ <;> simp [ending?]
  | exhaust hst => right; rcases hst with ⟨rfl, _⟩ | rfl <;> simp [ending?]
  | verified hst => right; rcases hst with rfl | ⟨_, rfl, _⟩ <;> simp [ending?]
  | await hst => right; rcases hst with ⟨rfl, _⟩ | ⟨_, rfl⟩ <;> simp [ending?]
  | pass hst => right; rcases hst with ⟨rfl, _⟩ | ⟨_, rfl, _⟩ | rfl <;> simp [ending?]
  | _ => simp [ending?]

@[simp] theorem step_stray : step P .stray x = .stray := by
  rcases step_cases P .stray x with h | h | h
  · exact h
  · exact h
  · rcases h.source with ⟨e, he, -⟩ | ⟨-, hne, -⟩
    · cases he
    · exact absurd rfl hne

/-! ## Endings -/

def LeadsTo (e : Ending) (st : Stage) : Prop := st = .stray ∨ st.ending? = some e

theorem Change.of_ending {st'} (h : Change P st x st') (he : st.ending? = some e) :
    st' = .closing e := by
  rcases h.source with ⟨e', he', rfl⟩ | ⟨hnone, -⟩
  · rw [he] at he'; cases he'; rfl
  · rw [he] at hnone; cases hnone

theorem LeadsTo.step (h : LeadsTo e st) (x : Entry temporal Vars) : LeadsTo e (step P st x) := by
  rcases h with rfl | he
  · exact .inl step_stray
  · rcases step_cases P st x with h | h | h
    · rw [h]; exact .inr he
    · exact .inl h
    · rw [h.of_ending he]; exact .inr rfl

def IsDenied (st : Stage) : Prop := st = .denied ∨ st.LeadsTo .rejected

theorem IsDenied.step (h : st.IsDenied) (x : Entry temporal Vars) : (step P st x).IsDenied := by
  rcases h with rfl | h
  · rcases step_cases P .denied x with h | h | h
    · exact .inl h
    · exact .inr (.inl h)
    · rcases h.source with ⟨e, he, -⟩ | ⟨-, -, hrej⟩
      · cases he
      · rw [hrej rfl]; exact .inr (.inr rfl)
  · exact .inr (h.step x)

def IsClosing (st : Stage) : Prop := st = .stray ∨ ∃ e, st = .closing e

theorem IsClosing.step (h : st.IsClosing) (x : Entry temporal Vars) : (step P st x).IsClosing := by
  rcases h with rfl | ⟨e, rfl⟩
  · exact .inl step_stray
  · rcases step_cases P (.closing e) x with h | h | h
    · exact .inr ⟨e, h⟩
    · exact .inl h
    · exact .inr ⟨e, h.of_ending rfl⟩

def IsFinished : Stage → Prop
  | .done => True
  | .judged _ => True
  | .denied => True
  | .awaiting => True
  | .approved => True
  | .declined => True
  | .passed => True
  | .rejected => True
  | .closing .passed => True
  | .closing .rejected => True
  | _ => False

end Stage

/-! ## Stages and entries -/

namespace Pipeline

theorem stage_append : P.stage (log ++ [x]) = Stage.step P (P.stage log) x :=
  (course P).observe_append log x

variable {S : Stage → Prop}

theorem stage_of_longer (hS : ∀ {st}, S st → ∀ x, S (Stage.step P st x))
    (hlog : log <+: log') (h : S (P.stage log)) : S (P.stage log') :=
  Monitor.observe_of_longer (O := course P) (fun _ => hS) hlog h

theorem stage_ne_stray_of_longer (hlog : log <+: log') (h : P.stage log' ≠ .stray) :
    P.stage log ≠ .stray := by
  intro hstray
  refine h (stage_of_longer (S := (· = .stray)) ?_ hlog hstray)
  rintro _ rfl x
  exact Stage.step_stray

theorem stage_of_entry (hS : ∀ {st}, S st → ∀ x, S (Stage.step P st x))
    (hx : ∀ st, S (Stage.step P st x)) (hmem : x ∈ log) : S (P.stage log) := by
  obtain ⟨pre, post, rfl⟩ := List.append_of_mem hmem
  have hpre : S (P.stage (pre ++ [x])) := by
    rw [stage_append]
    exact hx _
  exact stage_of_longer hS ⟨post, by simp⟩ hpre

theorem exists_change_after (old : History) (h₀ : ¬ S (P.stage old))
    (h : S (P.stage (old ++ log))) (hns : P.stage (old ++ log) ≠ .stray) :
    ∃ pre x post st', log = pre ++ x :: post ∧ ¬ S (P.stage (old ++ pre)) ∧ S st' ∧
      P.stage (old ++ pre ++ [x]) = st' ∧ Stage.Change P (P.stage (old ++ pre)) x st' := by
  obtain ⟨pre, x, post, rfl, hpre, hstep⟩ :=
    Monitor.exists_entering (O := course P) (S := S) h₀ h
  have hne : P.stage (old ++ pre ++ [x]) ≠ .stray :=
    stage_ne_stray_of_longer ⟨post, by simp⟩ hns
  refine ⟨pre, x, post, _, rfl, hpre, hstep, stage_append, ?_⟩
  rw [stage_append] at hne
  rcases Stage.step_cases P (P.stage (old ++ pre)) x with heq | heq | hchange
  · exact absurd (heq ▸ hstep : S (P.stage (old ++ pre))) hpre
  · exact absurd heq hne
  · exact hchange

theorem exists_change (h₀ : ¬ S .idle) (h : S (P.stage log))
    (hns : P.stage log ≠ .stray) :
    ∃ pre x post st', log = pre ++ x :: post ∧ ¬ S (P.stage pre) ∧ S st' ∧
      P.stage (pre ++ [x]) = st' ∧ Stage.Change P (P.stage pre) x st' :=
  exists_change_after [] h₀ h hns

end Pipeline

namespace Stage

/-! ## Status errors -/

/-- How many status errors in a row the history of a single-agent run can end with. -/
def Counted (n : ℕ) : Stage → Prop
  | .idle => n = 0
  | .launched => n = 0
  | .polling errors => n = errors ∧ n < maxConsecutiveStatusErrors
  | .retrying => False
  | .verifying => False
  | .failed => True
  | .closing .failed => True
  | .stray => True
  | _ => n < maxConsecutiveStatusErrors

variable {n : ℕ}

theorem countError_of_answers {c r} (hx : Answers x c r) (hc : ∀ i, c ≠ .getAgentStatus i) :
    countError n x = n := by
  cases hx <;> cases c <;> first
    | rfl
    | exact absurd rfl (hc _)

theorem Counted.lt (h : Counted n st) (he : ¬ st.LeadsTo .failed) :
    n < maxConsecutiveStatusErrors := by
  have hpos : 0 < maxConsecutiveStatusErrors := by decide
  cases st
  case idle => exact h ▸ hpos
  case launched => exact h ▸ hpos
  case polling errors => exact h.2
  case retrying => exact h.elim
  case verifying => exact h.elim
  case failed => exact absurd (.inr rfl) he
  case stray => exact absurd (.inl rfl) he
  case closing e =>
    cases e
    case failed => exact absurd (.inr rfl) he
    all_goals exact h
  all_goals exact h

theorem Counted.afterStatus (hs : P.specDriven = false) {i}
    {r : Except Failure GetAgentStatusOutput} (hx : Answers x (.getAgentStatus i) r) :
    Counted (countError n x) (Stage.afterStatus P n r) := by
  have hpos : 0 < maxConsecutiveStatusErrors := by decide
  have herr : Counted (n + 1) (Stage.afterStatus P n (.error .canceled)) := by
    simp only [Stage.afterStatus, hs, false_eq_true, if_false]
    split_ifs with h
    · trivial
    · exact ⟨rfl, by omega⟩
  cases hx with
  | refused => exact herr
  | completed =>
    rcases r with err | status
    · exact herr
    · simp only [Stage.afterStatus, hs, false_eq_true, if_false, countError]
      rcases status.state <;> trivial

theorem Counted.change {st'} (hs : P.specDriven = false) (h : Counted n st)
    (hc : Change P st x st') : Counted (countError n x) st' := by
  have hpos : 0 < maxConsecutiveStatusErrors := by decide
  cases hc with
  | abort hst hx habort =>
    rcases hst with rfl | rfl
    · rw [countError_of_answers hx (by rintro i rfl; cases habort)]
      subst h
      exact hpos
    · exact h.elim
  | launch hst hx =>
    rcases hst with rfl | rfl
    · rw [countError_of_answers hx nofun]
      exact h
    · exact h.elim
  | poll => exact ⟨h, h ▸ hpos⟩
  | status hx hst =>
    obtain ⟨rfl, -⟩ := h
    subst hst
    exact .afterStatus hs hx
  | overdue => exact h.2
  | quit hst =>
    rcases hst with ⟨-, hs'⟩ | rfl | ⟨_, rfl⟩
    · simp [hs] at hs'
    · exact h.elim
    · exact h.2
  | verify hs' => simp [hs] at hs'
  | verified hst =>
    rcases hst with rfl | ⟨_, rfl, hs'⟩
    · exact h.elim
    · simp [hs] at hs'
  | judge hx hst =>
    rw [countError_of_answers hx nofun]
    subst hst
    rename_i i r
    rcases r with err | verdict
    · exact h
    · simp only [afterJudge]
      split_ifs <;> exact h
  | await hst => rcases hst with ⟨rfl, _⟩ | ⟨_, rfl⟩ <;> exact h
  | approve | decline => exact h
  | pass hst => rcases hst with ⟨rfl, _⟩ | ⟨_, rfl, _⟩ | rfl <;> exact h
  | reject hst => rcases hst with rfl | rfl <;> exact h
  | exhaust hst =>
    rcases hst with ⟨-, hs'⟩ | rfl
    · simp [hs] at hs'
    · exact h.elim
  | @close st e hst hne =>
    by_cases he : e = .failed
    · subst he; trivial
    · have hlt : n < maxConsecutiveStatusErrors := by
        refine h.lt ?_
        rintro (rfl | hf)
        · cases hst
        · exact he (Option.some.inj (hst.symm.trans hf))
      cases e <;> first
        | exact hlt
        | exact absurd rfl he

theorem Counted.step (hs : P.specDriven = false) (h : Counted n st)
    (x : Entry temporal Vars) : Counted (countError n x) (step P st x) := by
  by_cases hx : ∃ i r, Answers x (.getAgentStatus i) r
  · obtain ⟨i, r, hx⟩ := hx
    have hstep : Stage.step P st x = st.unlessAwaiting (onReply P st (.getAgentStatus i) r) := by
      cases hx <;> rfl
    rw [hstep]
    cases st
    case polling errors =>
      obtain ⟨rfl, -⟩ := h
      exact .afterStatus hs hx
    all_goals trivial
  · have hcount : countError n x = n := by
      unfold countError
      split
      · exact absurd ⟨_, _, .completed _ _⟩ hx
      · exact absurd ⟨_, _, .refused _⟩ hx
      · exact absurd ⟨_, _, .completed _ _⟩ hx
      · rfl
    rcases step_cases P st x with heq | heq | hc
    · rwa [heq, hcount]
    · rw [heq]; trivial
    · exact h.change hs hc

end Stage

namespace Pipeline

theorem counted (hs : P.specDriven = false) (log : History) :
    (P.stage log).Counted (statusErrors log) := by
  induction log using List.reverseRecOn with
  | nil => rfl
  | append_singleton log x ih =>
    rw [stage_append, statusErrors_append]
    exact ih.step hs x

end Pipeline

/-! ## What decides a run -/

namespace Stage

inductive Decides (P : Pipeline) : Stage → Entry temporal Vars → Ending → Prop
  | abort {s x c r canceled} (hst : s = .idle ∨ s = .retrying) (hx : Answers x c r)
      (h : onReply P s c r = .aborted canceled) : Decides P s x (.aborted canceled)
  | verifyCanceled {s y i} (hx : Answers y (.verifyRun i) (.error .canceled)) :
      Decides P s y (.aborted true)
  | quit {s gs n u} : Decides P s (.received gs Channel.cancel n u) .quit
  | failed {x i r errors} (hx : Answers x (.getAgentStatus i) r)
      (h : afterStatus P errors r = .failed) : Decides P (.polling errors) x .failed
  | overdue {errors d} (hs : P.specDriven = false) :
      Decides P (.polling errors) (.fired (pollGuards P.input) (Timer.ttl d)) .failed
  | passed {s} (hst : (s = .done ∧ ¬ asksHuman P.mode ∧ ¬ asksJudge P.mode) ∨
        (∃ b, s = .judged b ∧ ¬ asksHuman P.mode) ∨ s = .approved) :
      Decides P s (.marked .gatePassed) .passed
  | rejected {s} : Decides P s (.marked .gateRejected) .rejected
  | exhausted {s} : Decides P s (.marked .retriesExhausted) .exhausted

theorem afterStatus_ending {errors r} (h : (afterStatus P errors r).ending? = some e) :
    afterStatus P errors r = .failed ∧ e = .failed := by
  by_cases hs : P.specDriven = true <;> rcases r with err | status <;>
    simp only [afterStatus, hs, if_false, false_eq_true] at h ⊢
  · cases h
  · cases h
  · split_ifs at h ⊢ <;> cases h
    exact ⟨rfl, rfl⟩
  · rcases hst : status.state <;> simp only [hst] at h ⊢ <;> cases h
    exact ⟨trivial, rfl⟩

theorem afterVerify_ending {r} (h : (afterVerify r).ending? = some e) :
    r = .error .canceled ∧ e = .aborted true := by
  rcases r with (_ | _) | result
  · cases h; exact ⟨rfl, rfl⟩
  · cases h
  · simp only [afterVerify] at h
    split_ifs at h <;> cases h

theorem afterJudge_ending {r} : (afterJudge r).ending? = none := by
  rcases r with err | verdict
  · rfl
  · simp only [afterJudge]
    split_ifs <;> rfl

theorem Change.decides {st'} (h : Change P st x st') (hn : st.ending? ≠ some e)
    (he : st'.ending? = some e) : Decides P st x e := by
  cases h with
  | abort hst hx habort => cases he; exact .abort hst hx habort
  | status hx hst =>
    subst hst
    obtain ⟨hfailed, rfl⟩ := afterStatus_ending he
    exact .failed hx hfailed
  | overdue hs => cases he; exact .overdue hs
  | quit => cases he; exact .quit
  | verified hst hx hr =>
    subst hr
    obtain ⟨rfl, rfl⟩ := afterVerify_ending he
    exact .verifyCanceled hx
  | judge hx hr =>
    subst hr
    rw [afterJudge_ending] at he
    cases he
  | pass hst => cases he; exact .passed hst
  | reject => cases he; exact .rejected
  | exhaust => cases he; exact .exhausted
  | close hst => cases he; exact absurd hst hn
  | _ => cases he

end Stage

namespace Pipeline

theorem exists_decides (h : (P.stage log).ending? = some e) :
    ∃ pre x post, log = pre ++ x :: post ∧ Stage.Decides P (P.stage pre) x e := by
  have hns : P.stage log ≠ .stray := by
    intro hstray
    rw [hstray] at h
    cases h
  obtain ⟨pre, x, post, st', hlog, hpre, hst', -, hchange⟩ :=
    exists_change (S := fun st => st.ending? = some e) nofun h hns
  exact ⟨pre, x, post, hlog, hchange.decides hpre hst'⟩

theorem cancelReceived_of_ending (h : (P.stage log).ending? = some .quit) : CancelReceived log := by
  obtain ⟨pre, x, post, rfl, hx⟩ := exists_decides h
  generalize P.stage pre = st at hx
  cases hx with
  | @quit _ gs n u => exact ⟨gs, n, u, by simp⟩

theorem retriesExhausted_of_ending (h : (P.stage log).ending? = some .exhausted) :
    .marked .retriesExhausted ∈ log := by
  obtain ⟨pre, x, post, rfl, hx⟩ := exists_decides h
  generalize P.stage pre = st at hx
  cases hx with
  | exhausted => simp

theorem agentFailed_or_fired_of_ending (h : (P.stage log).ending? = some .failed) :
    P.specDriven = false ∧
      (AgentFailed log ∨ ∃ d, .fired (pollGuards P.input) (Timer.ttl d) ∈ log) := by
  obtain ⟨pre, x, post, rfl, hx⟩ := exists_decides h
  generalize hst : P.stage pre = st at hx
  cases hx with
  | @overdue errors d hs => exact ⟨hs, .inr ⟨d, by simp⟩⟩
  | @failed x i r errors hx hfailed =>
    have hs : P.specDriven = false := by
      by_contra hs
      rw [not_eq_false] at hs
      rcases r with err | status <;> simp [Stage.afterStatus, hs] at hfailed
    refine ⟨hs, .inl ?_⟩
    have hcount : statusErrors pre = errors := by
      have h := counted hs pre
      rw [hst] at h
      exact h.1
    have hmany (h : maxConsecutiveStatusErrors ≤ statusErrors (pre ++ [x])) :
        AgentFailed (pre ++ x :: post) := .inr ⟨pre ++ [x], ⟨post, by simp⟩, h⟩
    rw [statusErrors_append, hcount] at hmany
    rcases r with err | status
    · simp only [Stage.afterStatus, hs, false_eq_true, if_false] at hfailed
      split_ifs at hfailed with hmax
      cases hx <;> exact hmany hmax
    · cases hx with
      | completed =>
        refine .inl ⟨i, status, by simp, ?_⟩
        simp only [Stage.afterStatus, hs, false_eq_true, if_false] at hfailed
        rcases hstate : status.state <;> simp [hstate] at hfailed
        rfl

theorem pollingFailed_of_ending (h : (P.stage log).ending? = some .failed) :
    P.specDriven = false ∧ PollingFailed log := by
  obtain ⟨hs, hfailed⟩ := agentFailed_or_fired_of_ending h
  exact ⟨hs, hfailed.imp_right fun ⟨d, hd⟩ => ⟨_, d, hd⟩⟩

theorem specDriven_of_verifying (h : P.stage log = .verifying) : P.specDriven = true := by
  by_contra hs
  have hcount := counted (by simpa using hs) log
  rw [h] at hcount
  exact hcount

theorem workDone_of_finished (h : (P.stage log).IsFinished) : WorkDone P log := by
  have hns : P.stage log ≠ .stray := by
    intro hstray
    rw [hstray] at h
    exact h
  obtain ⟨pre, x, post, st', rfl, hpre, hst', -, hchange⟩ :=
    exists_change (S := Stage.IsFinished) nofun h hns
  generalize hst₀ : P.stage pre = st at hpre hchange
  cases hchange with
  | status hx hst =>
    rename_i i r errors
    subst hst
    by_cases hs : P.specDriven = true
    · rcases r with err | status <;> simp [Stage.afterStatus, hs, Stage.IsFinished] at hst'
    · rcases r with err | status
      · simp only [Stage.afterStatus, hs, false_eq_true, if_false] at hst'
        split_ifs at hst' <;> exact hst'.elim
      · cases hx
        simp only [WorkDone, hs, false_eq_true, if_false]
        refine ⟨i, status, by simp, ?_⟩
        simp only [Stage.afterStatus, hs, false_eq_true, if_false] at hst'
        rcases hstate : status.state <;> simp [hstate, Stage.IsFinished] at hst'
        rfl
  | verified hst hx hr =>
    rename_i i r
    subst hr
    have hs : P.specDriven = true := by
      rcases hst with rfl | ⟨_, _, hs⟩
      · exact specDriven_of_verifying hst₀
      · exact hs
    rcases r with (_ | _) | result
    · exact hst'.elim
    · exact hst'.elim
    · cases hx
      simp only [WorkDone, hs]
      refine ⟨i, result, by simp, ?_⟩
      by_contra hfail
      simp [Stage.afterVerify, hfail, Stage.IsFinished] at hst'
  | judge | approve | decline => exact absurd trivial hpre
  | await hst => rcases hst with ⟨rfl, _⟩ | ⟨_, rfl⟩ <;> exact absurd trivial hpre
  | pass hst => rcases hst with ⟨rfl, _⟩ | ⟨_, rfl, _⟩ | rfl <;> exact absurd trivial hpre
  | reject hst => rcases hst with rfl | rfl <;> exact absurd trivial hpre
  | close hst hne =>
    cases st <;> cases hst <;> first
      | exact hst'.elim
      | exact absurd trivial hpre
      | exact absurd rfl (hne _)
  | _ => exact hst'.elim

/-! ## What an entry decides -/

theorem leadsTo_of_entry (hx : ∀ st, (Stage.step P st x).LeadsTo e) (hmem : x ∈ log) :
    (P.stage log).LeadsTo e :=
  stage_of_entry (S := Stage.LeadsTo e) (fun h x => h.step x) hx hmem

theorem leadsTo_quit (h : CancelReceived log) : (P.stage log).LeadsTo .quit := by
  obtain ⟨gs, n, u, hmem⟩ := h
  refine leadsTo_of_entry (fun st => ?_) hmem
  cases st <;> first
    | exact .inl rfl
    | exact .inr rfl
    | (simp [Stage.step, Stage.onReceived]; split_ifs <;> simp [Stage.LeadsTo, Stage.ending?])

theorem leadsTo_passed (h : .marked .gatePassed ∈ log) : (P.stage log).LeadsTo .passed := by
  refine leadsTo_of_entry (fun st => ?_) h
  cases st
  case done =>
    simp only [Stage.step, Stage.onMark]
    split_ifs <;> simp [Stage.LeadsTo, Stage.ending?]
  case judged b =>
    simp only [Stage.step, Stage.onMark]
    split_ifs <;> simp [Stage.LeadsTo, Stage.ending?]
  case approved => exact .inr rfl
  all_goals exact .inl rfl

theorem leadsTo_rejected (h : .marked .gateRejected ∈ log) : (P.stage log).LeadsTo .rejected := by
  refine leadsTo_of_entry (fun st => ?_) h
  cases st <;> first
    | exact .inl rfl
    | exact .inr rfl

theorem leadsTo_exhausted (h : .marked .retriesExhausted ∈ log) :
    (P.stage log).LeadsTo .exhausted := by
  refine leadsTo_of_entry (fun st => ?_) h
  cases st
  case idle =>
    simp only [Stage.step, Stage.onMark]
    split_ifs <;> simp [Stage.LeadsTo, Stage.ending?]
  case retrying => exact .inr rfl
  all_goals exact .inl rfl

theorem leadsTo_failed (hs : P.specDriven = false) (h : PollingFailed log) :
    (P.stage log).LeadsTo .failed := by
  rcases h with (⟨i, s, hmem, hfailed⟩ | ⟨pre, hpre, hmany⟩) | ⟨gs, d, hmem⟩
  · refine leadsTo_of_entry (fun st => ?_) hmem
    cases st
    case polling errors =>
      right
      simp [Stage.step, Stage.unlessAwaiting, Stage.onReply, Stage.afterStatus, hs, hfailed,
        Stage.ending?]
    all_goals exact .inl rfl
  · refine stage_of_longer (S := Stage.LeadsTo .failed) (fun h x => h.step x) hpre ?_
    by_contra hne
    have hlt := (counted hs pre).lt hne
    omega
  · refine leadsTo_of_entry (fun st => ?_) hmem
    cases st
    case polling errors =>
      simp only [Stage.step, Stage.onFired, hs, false_eq_true, if_false]
      split_ifs <;> simp [Stage.LeadsTo, Stage.ending?]
    all_goals exact .inl rfl

theorem isClosing_of_returned (h : .marked .bodyReturned ∈ log) : (P.stage log).IsClosing := by
  refine stage_of_entry (S := Stage.IsClosing) (fun h x => h.step x) (fun st => ?_) h
  cases st <;> first
    | exact .inl rfl
    | exact .inr ⟨_, rfl⟩

end Pipeline

end Uncworks
