import Uncworks.Durable.Frame
import Uncworks.Lifecycle.Outcome
import Uncworks.Lifecycle.Rounds

/-!
# The attempts of a spec-driven run

A spec-driven run starts an implement agent, polls it and verifies its work, and does so again when
the verification fails.  The phase is shared by all attempts: polling that ends with a failure
leaves `Failed` behind, the verification follows all the same, and the polling of the next attempt
may take the old phase for its own.
-/

namespace Uncworks

open Durable Flow List

/-! ## Reading the attempts from a history -/

structure Attempts where
  /-- The implement agents that were started. -/
  started : ℕ := 0
  /-- Whether the last of them was reported completed. -/
  completed : Bool := false
  /-- Whether the verification of its work passed. -/
  verified : Bool := false
  /-- Whether the gate passed its work. -/
  passed : Bool := false
  deriving DecidableEq, Repr

def Attempts.step (a : Attempts) : Entry temporal Vars → Attempts
  | .scheduled (.startAgent _) _ => { started := a.started + 1 }
  | .completed (.getAgentStatus _) (.ok status) =>
    { a with completed := decide (status.state = .completed) || a.completed }
  | .completed (.verifyRun _) (.ok result) => { a with verified := result.pass }
  | .marked .gatePassed => { a with passed := true }
  | _ => a

def attempts (log : History) : Attempts := log.foldl Attempts.step {}

/-- Whether an entry is one at which polling fails, after so many status errors in a row. -/
def failsPolling (errors : ℕ) : Entry temporal Vars → Bool
  | .completed (.getAgentStatus _) (.ok status) => status.state = .failed
  | .completed (.getAgentStatus _) (.error _) => maxConsecutiveStatusErrors ≤ errors + 1
  | .refused (.getAgentStatus _) => maxConsecutiveStatusErrors ≤ errors + 1
  | .fired _ (Timer.ttl _) => true
  | _ => false

structure Tally where
  seen : Attempts := {}
  errors : ℕ := 0
  failed : Bool := false

def Tally.step (t : Tally) (x : Entry temporal Vars) : Tally where
  seen := t.seen.step x
  errors := countError t.errors x
  failed := failsPolling t.errors x || t.failed

/-- The monitor that keeps the tally and insists on at most `n` agents. -/
abbrev tally (n : ℕ) : Monitor temporal Vars where
  State := Tally
  init := {}
  step := Tally.step
  safe t := t.seen.started ≤ n
  rest _ t := t.seen.started ≤ n
  safe_of_rest _ _ h := h

theorem observe_tally {n} {log : History} : ((tally n).observe log).seen = attempts log ∧
    ((tally n).observe log).errors = statusErrors log := by
  induction log using reverseRecOn with
  | nil => exact ⟨rfl, rfl⟩
  | append_singleton log x ih =>
    rw [Monitor.observe_append, statusErrors_append, ← ih.2]
    refine ⟨?_, rfl⟩
    simp [Tally.step, ih.1, attempts, foldl_cons, foldl_nil]

theorem PollingFailed.append {log log'} (h : PollingFailed log) : PollingFailed (log ++ log') := by
  rcases h with (⟨i, s, hmem, hs⟩ | ⟨pre, hpre, hle⟩) | ⟨gs, d, hmem⟩
  · exact .inl (.inl ⟨i, s, mem_append_left _ hmem, hs⟩)
  · exact .inl (.inr ⟨pre, hpre.trans (prefix_append _ _), hle⟩)
  · exact .inr ⟨gs, d, mem_append_left _ hmem⟩

theorem failsPolling_of_countError {k x} (h : maxConsecutiveStatusErrors ≤ countError k x) :
    failsPolling k x ∨ maxConsecutiveStatusErrors ≤ k := by
  unfold countError at h
  split at h
  · exact .inl (decide_eq_true h)
  · exact .inl (decide_eq_true h)
  · exact absurd h (by decide)
  · exact .inr h

theorem tally_failed_iff {n} {log : History} :
    ((tally n).observe log).failed ↔ PollingFailed log := by
  have hstep : ∀ {log x}, ((tally n).observe (log ++ [x])).failed ↔
      failsPolling (statusErrors log) x ∨ ((tally n).observe log).failed := by
    intro log x
    rw [Monitor.observe_append, ← (observe_tally (n := n)).2]
    simp [Tally.step]
  constructor
  · intro h
    induction log using reverseRecOn with
    | nil => cases h
    | append_singleton log x ih =>
      have hlast : x ∈ log ++ [x] := mem_append_right _ (mem_singleton_self _)
      have herrors : maxConsecutiveStatusErrors ≤ countError (statusErrors log) x →
          PollingFailed (log ++ [x]) := fun hle =>
        .inl (.inr ⟨_, prefix_rfl, by rwa [statusErrors_append]⟩)
      rcases hstep.1 h with h | h
      · unfold failsPolling at h
        split at h
        · exact .inl (.inl ⟨_, _, hlast, of_decide_eq_true h⟩)
        · exact herrors (of_decide_eq_true h)
        · exact herrors (of_decide_eq_true h)
        · exact .inr ⟨_, _, hlast⟩
        · cases h
      · exact (ih h).append
  · -- An entry at which polling fails, and every history that goes on from there.
    have hkeep : ∀ {log log' : History}, log <+: log' → ((tally n).observe log).failed →
        ((tally n).observe log').failed := fun hlog =>
      Monitor.observe_of_longer (O := tally n) (S := fun t => t.failed)
        (fun t ht x => by simp [Tally.step, ht]) hlog
    have hentry : ∀ {x}, x ∈ log → (∀ k, failsPolling k x) → ((tally n).observe log).failed := by
      intro x hx hfails
      obtain ⟨pre, post, rfl⟩ := append_of_mem hx
      have hlog : pre ++ [x] <+: pre ++ x :: post := ⟨post, by simp⟩
      exact hkeep hlog (hstep.2 (.inl (hfails _)))
    rintro ((⟨i, s, hmem, hs⟩ | ⟨pre, hpre, hle⟩) | ⟨gs, d, hmem⟩)
    · exact hentry hmem fun k => decide_eq_true hs
    · refine hkeep hpre ?_
      induction pre using reverseRecOn with
      | nil => exact absurd hle (by decide)
      | append_singleton pre x ih =>
        rw [statusErrors_append] at hle
        refine hstep.2 ((failsPolling_of_countError hle).imp_right fun hle => ih ?_ hle)
        exact (prefix_append _ _).trans hpre
    · exact hentry hmem fun k => rfl

/-! ## Steps that are no part of an attempt -/

def Command.isTallied : Command → Bool
  | .startAgent _ => true
  | .getAgentStatus _ => true
  | .verifyRun _ => true
  | _ => false

namespace Tallied

variable {input : WorkflowInput} {n m errors : ℕ} {v v' : Vars} {t : Tally} {r : Retry}

theorem ignores {c : Command} (hc : c.isTallied = false) : (tally n).Ignores t c := by
  cases c <;> first
    | exact ⟨fun _ => rfl, rfl, fun _ => rfl⟩
    | cases hc

theorem quiet (hn : t.seen.started ≤ n) : Quiet (tally n) t where
  rest _ := hn
  ignores c hc := ignores (by cases c <;> first | rfl | cases hc)
  waiting _ _ := rfl
  received _ _ _ _ := rfl
  marked x hx := by cases x <;> first | rfl | exact absurd rfl hx

/-! ## Polling an attempt -/

/-- While the agent of an attempt is polled and polling has not failed, the phase is that of a
polled run, and the tally counts the same errors as the loop. -/
structure Polled (started errors : ℕ) (v : Vars) (t : Tally) : Prop where
  started : t.seen.started = started
  unfinished : v.state.phase ≠ .succeeded
  phase : t.failed = false → v.state.phase = .running ∨ v.state.phase = .waitingForInput
  errors : t.failed = false → t.errors = errors

/-- When polling has ended without a failure, the agent completed or the run is cancelled. -/
structure PollEnded (started : ℕ) (v : Vars) (t : Tally) : Prop where
  started : t.seen.started = started
  unfinished : v.state.phase ≠ .succeeded
  completed : t.failed = false →
    v.state.phase = .cancelled ∨ v.state.phase = .running ∧ t.seen.completed ∧ t.errors = 0

def noted (t : Tally) : Except Failure GetAgentStatusOutput → Tally
  | .ok status =>
    { seen := { t.seen with completed := decide (status.state = .completed) || t.seen.completed }
      errors := 0
      failed := decide (status.state = .failed) || t.failed }
  | .error _ =>
    { t with
      errors := t.errors + 1
      failed := decide (maxConsecutiveStatusErrors ≤ t.errors + 1) || t.failed }

/-- After a handler of the polling selector, if polling has not failed, it goes on, the run is
cancelled, or the agent has completed. -/
structure Handled (started errors : ℕ) (v : Vars) (t : Tally) : Prop where
  started : t.seen.started = started
  unfinished : v.state.phase ≠ .succeeded
  outcome : t.failed = false →
    (v.state.phase = .running ∨ v.state.phase = .waitingForInput) ∧ t.errors = errors ∨
      v.state.phase = .cancelled ∨
      v.state.phase = .agentCompleted ∧ t.seen.completed ∧ t.errors = 0

theorem Polled.noted (h : Polled m errors v t) {reply}
    (hv : v'.state.phase = attemptPhase errors v.state.phase reply) :
    Handled m (attemptErrors errors reply) v' (noted t reply) := by
  rcases reply with f | status
  · have hok : (Tallied.noted t (.error f)).failed = false →
        ¬ maxConsecutiveStatusErrors ≤ errors + 1 ∧ t.failed = false := by
      intro hok
      simp only [Tallied.noted, Bool.or_eq_false_iff, decide_eq_false_iff_not] at hok
      exact ⟨h.errors hok.2 ▸ hok.1, hok.2⟩
    by_cases hmany : maxConsecutiveStatusErrors ≤ errors + 1 <;>
      simp only [attemptPhase, hmany, if_true, if_false] at hv
    · exact ⟨h.started, by simp [hv], fun hf => absurd hmany (hok hf).1⟩
    · refine ⟨h.started, hv ▸ h.unfinished, fun hf => .inl ⟨hv ▸ h.phase (hok hf).2, ?_⟩⟩
      exact congrArg (· + 1) (h.errors (hok hf).2)
  · rcases hs : status.state <;> simp only [attemptPhase, hs] at hv
    case completed =>
      refine ⟨h.started, by simp [hv], fun _ => .inr (.inr ⟨hv, ?_, rfl⟩)⟩
      simp [Tallied.noted, hs]
    case failed => exact ⟨h.started, by simp [hv], fun hok => by simp [Tallied.noted, hs] at hok⟩
    case waitingForInput => exact ⟨h.started, by simp [hv], fun _ => .inl ⟨.inr hv, rfl⟩⟩
    all_goals
      refine ⟨h.started, hv ▸ h.unfinished, fun hok => .inl ⟨hv ▸ h.phase ?_, rfl⟩⟩
      simpa [Tallied.noted, hs] using hok

theorem Handled.goes (h : Handled m errors v t) (hv : endsPolling v.state.phase = false) :
    Polled m errors v t := by
  have hgo : t.failed = false →
      (v.state.phase = .running ∨ v.state.phase = .waitingForInput) ∧ t.errors = errors := fun hok =>
    (h.outcome hok).resolve_right fun hend => by
      rcases hend with hc | ⟨hc, -⟩ <;> rw [hc] at hv <;> cases hv
  exact ⟨h.started, h.unfinished, fun hok => (hgo hok).1, fun hok => (hgo hok).2⟩

theorem Handled.ends (h : Handled m errors v t) (hv : endsPolling v.state.phase)
    (hv' : v'.state.phase = if v.state.phase = .agentCompleted then .running else v.state.phase) :
    PollEnded m v' t := by
  refine ⟨h.started, ?_, fun hok => ?_⟩
  · rw [hv']
    split_ifs
    · simp
    · exact h.unfinished
  · rcases h.outcome hok with ⟨hc | hc, -⟩ | hc | ⟨hc, hdone⟩ <;> rw [hc] at hv hv'
    · cases hv
    · cases hv
    · exact .inl hv'
    · exact .inr ⟨hv', hdone⟩

/-! ## Execute, verify, retry -/

/-- How the body of a run returns: if it succeeded and polling never failed, its last attempt did.
-/
structure Settled (n : ℕ) (v : Vars) (t : Tally) : Prop where
  started : t.seen.started ≤ n
  attempt : v.state.phase = .succeeded → t.failed = false →
    t.seen.completed ∧ t.seen.verified ∧ t.seen.passed

structure Ready (n : ℕ) (r : Retry) (v : Vars) (t : Tally) : Prop where
  started : t.seen.started ≤ n
  attempt : (t.seen.started : ℤ) + 1 = r.attempt
  unfinished : v.state.phase ≠ .succeeded
  phase : t.failed = false → v.state.phase = .running
  errors : t.failed = false → t.errors = 0

structure Executed (n : ℕ) (r : Retry) (v : Vars) (t : Tally) : Prop where
  started : t.seen.started ≤ n
  attempt : (t.seen.started : ℤ) = r.attempt
  unfinished : v.state.phase ≠ .succeeded
  phase : t.failed = false → v.state.phase = .running
  completed : t.failed = false → t.seen.completed
  errors : t.failed = false → t.errors = 0

theorem Executed.ready (h : Executed n r v t) {t' r'} (hv : v'.state.phase = v.state.phase)
    (hs : t'.seen.started = t.seen.started) (hf : t'.failed = t.failed) (he : t'.errors = t.errors)
    (hr : r'.attempt = r.attempt + 1) : Ready n r' v' t' := by
  refine ⟨hs.trans_le h.started, by rw [hs, hr, h.attempt], hv ▸ h.unfinished, ?_, ?_⟩
  · rw [hf, hv]; exact h.phase
  · rw [hf, he]; exact h.errors

/-- The agents that were started are those of the attempts up to this one. -/
def Counted (n : ℕ) (r : Retry) (t : Tally) : Prop :=
  (t.seen.started : ℤ) = r.attempt ∧ t.seen.started ≤ n

def rounds (input : WorkflowInput) : Rounds (tally (maxRetries input).toNat) input where
  Calm t := t.seen.started ≤ (maxRetries input).toNat
  Ready := Ready (maxRetries input).toNat
  Polled r e v t := Counted (maxRetries input).toNat r t ∧ Polled t.seen.started e v t
  Handled r e v t := Counted (maxRetries input).toNat r t ∧ Handled t.seen.started e v t
  Ended r v t := Counted (maxRetries input).toNat r t ∧ PollEnded t.seen.started v t
  Executed := Executed (maxRetries input).toNat
  Settled := Settled (maxRetries input).toNat
  rest h := h
  waiting := rfl
  received := rfl
  started := rfl
  asked := rfl
  stopped := rfl
  polled := rfl
  forwards := ignores rfl
  quiet := quiet
  calm_init := Nat.zero_le _
  ready_init hv := ⟨Nat.zero_le _, rfl, by simp [hv], fun _ => hv, fun _ => rfl⟩
  calm_of_ready h := h.started
  start {r v v' t i} h hr hv := by
    have hroom : t.seen.started + 1 ≤ (maxRetries input).toNat := by
      have := h.attempt
      omega
    refine ⟨h.started, hroom, fun reply => ⟨hroom, ?_⟩⟩
    rcases reply with f | u
    · exact hroom
    · exact ⟨⟨h.attempt, hroom⟩, rfl, hv ▸ h.unfinished, fun hok => .inl (hv ▸ h.phase hok), h.errors⟩
  safe_of_polled h := h.1.2
  cancel h hv := ⟨⟨h.1, rfl, by simp [hv], fun _ => .inr (.inl hv)⟩, h.1, rfl, by simp [hv],
    fun _ => .inr (.inl hv)⟩
  safe_fired h := h
  exceed h hv := ⟨⟨h.1, rfl, by simp [hv], by rintro ⟨⟩⟩, h.1, rfl, by simp [hv], by rintro ⟨⟩⟩
  forward h hv := ⟨h.1, rfl, by simp [hv], fun hok => .inl ⟨.inl hv, h.2.errors hok⟩⟩
  unanswered := rfl
  status {r e v v' t i reply} h hv := by
    have hnoted := h.2.noted hv
    rcases reply with f | status <;> exact ⟨h.1, hnoted⟩
  safe_of_handled h := h.1.2
  goes h hv := ⟨h.1, h.2.goes hv⟩
  ends h hv hv' := ⟨h.1, h.2.ends hv hv'⟩
  calm_of_ended h := h.1.2
  executed h hlive := by
    have hdone := fun hok => (h.2.completed hok).resolve_left hlive
    exact ⟨h.1.2, h.1.1, h.2.unfinished, fun hok => (hdone hok).1, fun hok => (hdone hok).2.1,
      fun hok => (hdone hok).2.2⟩
  calm_of_executed h := h.started
  verify {r v v' t i} h := by
    refine ⟨h.started, h.started, fun reply => ?_⟩
    rcases reply with f | result
    · exact ⟨h.started, fun _ _ hr hv => h.ready hv rfl rfl rfl hr, by simp⟩
    · refine ⟨h.started, fun _ _ hr hv => h.ready hv rfl rfl rfl hr, ?_⟩
      rintro _ ⟨⟩ hpass v'
      exact ⟨h.started, fun _ hok => ⟨h.completed hok, hpass, rfl⟩⟩
  calm_of_settled h := h.started
  settled_of_calm hn hv := ⟨hn, fun h => absurd h hv⟩

end Tallied

/-! ## Runs -/

variable {env : Env} {input : WorkflowInput} {c : Run}

/-- A spec-driven run starts at most `maxRetries` implement agents.  If polling never fails, a run
that ends in the phase `Succeeded` has seen the last of them complete, its verification and the gate
passed. -/
theorem succeeded_attempt (h : (Run.of (runSpecDrivenPipeline env input)).Reaches c) :
    (attempts c.world.log).started ≤ (maxRetries input).toNat ∧
      (¬ PollingFailed c.world.log → ∀ err, c.returned? = some err →
        c.world.st.state.phase = .succeeded → (attempts c.world.log).completed ∧
          (attempts c.world.log).verified ∧ (attempts c.world.log).passed) := by
  have hwp : (runSpecDrivenPipeline env input).prog.wp (tally (maxRetries input).toNat)
      (fun _ => Tallied.Settled (maxRetries input).toNat) noVars {} :=
    Flow.wp_prog.2 (Flow.wp_mono
      ((Tallied.rounds input).runSpecDrivenPipeline_wp (E := fun _ _ _ => False))
      (fun _ _ _ hr => hr) fun _ _ _ hf => hf.elim)
  have hok := Prog.wp_sound (O := tally (maxRetries input).toNat) (Nat.zero_le _) hwp h
  refine ⟨observe_tally.1 ▸ hok.safe, fun hpoll err hret hphase => ?_⟩
  simp only [Run.returned?, Option.map_eq_some_iff] at hret
  obtain ⟨r, hr, -⟩ := hret
  have hfailed : ((tally (maxRetries input).toNat).observe c.world.log).failed = false :=
    Bool.eq_false_iff.2 fun hf => hpoll (tally_failed_iff.1 hf)
  have hlast := (hok.result hr).attempt hphase hfailed
  rwa [observe_tally.1] at hlast

def toPolling : List (Event temporal) := smoothly 10

def fromVerify : List (Event temporal) :=
  smoothly 6 ++ [.signal Channel.approvalDecision { approved := true }] ++ smoothly 5

def completedAttempt : Run :=
  Config.after 60 (Run.of (runSpecDrivenPipeline sampleEnv {}))
    (toPolling ++ [.fire (Timer.poll 5)] ++ smoothly 2 ++ fromVerify)

theorem succeeded_attempt_completed : completedAttempt.world.st.state.phase = .succeeded ∧
    ¬ PollingFailed completedAttempt.world.log ∧ (attempts completedAttempt.world.log).completed := by
  have hpoll : ¬ PollingFailed completedAttempt.world.log := fun h => by
    have hfailed := (tally_failed_iff (n := 0)).2 h
    cases hfailed
  exact ⟨rfl, hpoll, ((succeeded_attempt (Config.reaches_after _ _ _)).2 hpoll none rfl rfl).1⟩

def overdueAttempt : Run :=
  Config.after 60 (Run.of (runSpecDrivenPipeline sampleEnv {}))
    (toPolling ++ [.fire (Timer.ttl 3600)] ++ smoothly 2 ++ fromVerify)

/-- It is verified and succeeds, and its agent was never seen to complete. -/
theorem overdueAttempt_succeeds :
    (Run.of (runSpecDrivenPipeline sampleEnv {})).Reaches overdueAttempt ∧
      overdueAttempt.returned? = some none ∧ overdueAttempt.world.st.state.phase = .succeeded ∧
      (attempts overdueAttempt.world.log).completed = false :=
  ⟨Config.reaches_after _ _ _, rfl, rfl, rfl⟩

end Uncworks
