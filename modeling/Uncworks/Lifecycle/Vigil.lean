import Uncworks.Durable.Detached
import Uncworks.Lifecycle.Attempts
import Uncworks.Lifecycle.Walk

/-!
# The agent of an attempt and its verification

`VerifyRun` starts an agent of its own in the pod, so the implement agent of the attempt should be done
by then.  `vigil` reads from a history what is known about the agent of the last attempt.
-/

namespace Uncworks

open Durable Flow List Bool

/-! ## Commands on a disconnected context -/

namespace Scopes

open Detaches

/-- The code gives no command but those of the cleanup on a disconnected context. -/
abbrev Attached {α : Type} (p : Workflow α) : Prop := p.Detaches fun c : Command => c.retires

theorem attached_walk : CodeWalk (fun _ => True) fun p => Attached p where
  plain _ _ := trivial
  pure := detaches_pure
  exit := detaches_exit
  bind hp hf := hp.bind hf
  call hp := hp.call
  loop b hbody := detaches_loop hbody b
  read := detaches_read
  select := detaches_select
  poll := detaches_poll
  mark := detaches_mark
  start := detaches_start
  state _ := detaches_update _
  podIP _ := detaches_update _
  execute _ := detaches_exec (I := temporal) _

theorem attached_runSpecDrivenPipeline {env input} : Attached (runSpecDrivenPipeline env input) :=
  attached_walk.runSpecDrivenPipeline detaches_update (fun _ _ => trivial)
    (fun _ hc => (detaches_execDetached hc).bind fun _ => detaches_pure _)
    (fun _ => trivial) (fun _ => trivial) (fun _ _ => trivial) fun _ => trivial

end Scopes

theorem retires_of_refused {env input} {c : Run}
    (h : (Run.of (runSpecDrivenPipeline env input)).Reaches c) {pre post : History}
    {cmd cmd' : Command} {v} (hlog : c.world.log = pre ++ .scheduled cmd v :: post)
    (hr : .refused cmd' ∈ pre) : cmd.retires :=
  h.detached_of_refused Scopes.attached_runSpecDrivenPipeline.prog hlog hr

/-! ## Reading the last attempt from a history -/

structure Vigil where
  active : Bool := false
  /-- The status errors in a row, in this attempt. -/
  errors : ℕ := 0
  /-- Whether it was reported completed or failed, declared unreachable, or sent `StopAgent`. -/
  settled : Bool := false
  /-- Whether a cancelled context has refused to send `StopAgent`. -/
  refused : Bool := false
  deriving DecidableEq, Repr

namespace Vigil

def ended (a : Vigil) : Bool := a.settled || a.refused

def report (a : Vigil) : Except Failure GetAgentStatusOutput → Vigil
  | .ok status =>
    { a with
      errors := 0
      settled := decide (status.state = .completed ∨ status.state = .failed) || a.settled }
  | .error _ =>
    { a with
      errors := a.errors + 1
      settled := decide (maxConsecutiveStatusErrors ≤ a.errors + 1) || a.settled }

def step (a : Vigil) : Entry temporal Vars → Vigil
  | .scheduled (.startAgent _) _ => {}
  | .refused (.startAgent _) => {}
  | .completed (.startAgent _) (.ok _) => { a with active := true }
  | .completed (.getAgentStatus _) r => a.report r
  | .refused (.getAgentStatus _) => a.report (.error .canceled)
  | .scheduled (.stopAgent _) _ => { a with settled := true }
  | .refused (.stopAgent _) => { a with refused := true }
  | _ => a

end Vigil

def vigil (log : History) : Vigil := log.foldl Vigil.step {}

/-- Whether an entry writes a span; the first one after an agent is started closes its stage. -/
def writesSpan : Entry temporal Vars → Bool
  | .scheduled (.writeTraceSpan _ _ _) _ => true
  | .refused (.writeTraceSpan _ _ _) => true
  | _ => false

/-- In every attempt the agent is done before its work is verified, and its polling ends for a
reason of that attempt. -/
structure Attended (log : History) : Prop where
  verified : ∀ pre i v post, log = pre ++ .scheduled (.verifyRun i) v :: post →
    (vigil pre).active ∧ (vigil pre).settled
  polled : ∀ pre e post, log = pre ++ e :: post → writesSpan e → (vigil pre).active →
    (vigil pre).ended

/-! ## Watching a run -/

def startsStale : Entry temporal Vars → Bool
  | .scheduled (.startAgent _) v => endsPolling v.state.phase
  | _ => false

def untimely (a : Vigil) : Entry temporal Vars → Bool
  | .scheduled (.verifyRun _) _ => !(a.active && a.ended)
  | .scheduled (.writeTraceSpan _ _ _) _ => a.active && !a.ended
  | .refused (.writeTraceSpan _ _ _) => a.active && !a.ended
  | _ => false

/-- The last attempt, whether an agent was started in a phase that ends polling, and whether an
entry came too early before that. -/
structure Watch where
  vigil : Vigil := {}
  stale : Bool := false
  missed : Bool := false

def Watch.step (w : Watch) (e : Entry temporal Vars) : Watch where
  vigil := w.vigil.step e
  stale := startsStale e || w.stale
  missed := (untimely w.vigil e && !w.stale) || w.missed

abbrev watch : Monitor temporal Vars where
  State := Watch
  init := {}
  step := Watch.step
  safe w := w.missed = false
  rest _ w := w.missed = false
  safe_of_rest _ _ h := h

theorem observe_watch_vigil (log : History) : (watch.observe log).vigil = vigil log := by
  induction log using reverseRecOn with
  | nil => rfl
  | append_singleton log e ih =>
    rw [Monitor.observe_append, vigil, foldl_append, ← vigil, ← ih]
    rfl

theorem stale_of_observe {log : History} (h : (watch.observe log).stale) :
    ∃ e ∈ log, startsStale e := by
  induction log using reverseRecOn with
  | nil => cases h
  | append_singleton log e ih =>
    rw [Monitor.observe_append] at h
    rcases or_eq_true_iff.1 h with h | h
    · exact ⟨e, by simp, h⟩
    · obtain ⟨e', he', hs⟩ := ih h
      exact ⟨e', mem_append_left _ he', hs⟩

theorem not_untimely {pre post : History} {e}
    (h : (watch.observe (pre ++ e :: post)).missed = false)
    (hfresh : ∀ e' ∈ pre, startsStale e' = false) : untimely (vigil pre) e = false := by
  have hstale : (watch.observe pre).stale = false := by
    refine eq_false_iff.2 fun hs => ?_
    obtain ⟨e', he', hs'⟩ := stale_of_observe hs
    rw [hfresh e' he'] at hs'
    cases hs'
  refine eq_false_iff.2 fun hu => ?_
  have hmissed : (watch.observe (pre ++ [e])).missed := by
    rw [Monitor.observe_append]
    simp [Watch.step, observe_watch_vigil, hu, hstale, Bool.and_self, Bool.true_or]
  have hlater := Monitor.observe_of_longer (O := watch) (S := fun w => w.missed = true)
    (fun w hw e' => by simp [Watch.step, hw])
    (⟨post, by simp⟩ : pre ++ [e] <+: pre ++ e :: post) hmissed
  rw [h] at hlater
  cases hlater

namespace Watched

variable {input : WorkflowInput} {v v' : Vars} {w : Watch} {r : Retry} {errors : ℕ}

/-- No agent is polled, or it is known to be done; a stale start excuses everything after it. -/
structure Calm (w : Watch) : Prop where
  missed : w.missed = false
  ended : w.stale = false → w.vigil.active → w.vigil.ended

structure Done (w : Watch) : Prop where
  missed : w.missed = false
  active : w.vigil.active
  ended : w.stale = false → w.vigil.ended

theorem Done.calm (h : Done w) : Calm w := ⟨h.missed, fun hs _ => h.ended hs⟩

/-- Commands that are no part of an attempt leave the watch alone, but for spans that come too
early. -/
theorem ignores {c : Command} (hc : c.isAttempt = false)
    (hspan : ∀ name ip span, c = .writeTraceSpan name ip span → Calm w) : watch.Ignores w c := by
  cases c with
  | writeTraceSpan name ip span =>
    have hcalm := hspan name ip span rfl
    have htimely : ((w.vigil.active && !w.vigil.ended) && !w.stale) = false := by
      rcases hs : w.stale with _ | _
      · rcases ha : w.vigil.active with _ | _
        · rfl
        · simp [hcalm.ended hs ha]
      · simp
    have hsame : { w with missed := ((w.vigil.active && !w.vigil.ended) && !w.stale) || w.missed } =
        w := by rw [htimely, Bool.false_or]
    exact ⟨fun _ => hsame, hsame, fun _ => rfl⟩
  | startAgent _ | getAgentStatus _ | stopAgent _ | verifyRun _ => cases hc
  | _ => exact ⟨fun _ => rfl, rfl, fun _ => rfl⟩

theorem quiet (h : Calm w) : Quiet watch w where
  rest _ := h.missed
  ignores _ hc := ignores hc fun _ _ _ _ => h
  waiting _ _ := rfl
  received _ _ _ _ := rfl
  marked _ _ := rfl

/-! ## Polling an attempt -/

/-- While an agent is polled, the phase does not end polling, and the watch counts the same errors
as the loop. -/
structure Polled (errors : ℕ) (v : Vars) (w : Watch) : Prop where
  missed : w.missed = false
  active : w.vigil.active
  phase : w.stale = false → endsPolling v.state.phase = false
  errors : w.stale = false → w.vigil.errors = errors

/-- What holds after a handler of the polling selector: a phase that ends polling has a reason. -/
structure Handled (errors : ℕ) (v : Vars) (w : Watch) : Prop where
  missed : w.missed = false
  active : w.vigil.active
  ended : w.stale = false → endsPolling v.state.phase → w.vigil.ended
  errors : w.stale = false → endsPolling v.state.phase = false → w.vigil.errors = errors

theorem Handled.of_ended (hm : w.missed = false) (ha : w.vigil.active)
    (hended : w.vigil.ended) (hv : endsPolling v.state.phase) : Handled errors v w :=
  ⟨hm, ha, fun _ _ => hended, fun _ hno => absurd hv (by simp [hno])⟩

theorem Handled.of_open (hm : w.missed = false) (ha : w.vigil.active)
    (hv : w.stale = false → endsPolling v.state.phase = false)
    (he : w.stale = false → w.vigil.errors = errors) : Handled errors v w :=
  ⟨hm, ha, fun hs hyes => absurd hyes (by simp [hv hs]), fun hs _ => he hs⟩

def noted (w : Watch) (r : Except Failure GetAgentStatusOutput) : Watch :=
  { w with vigil := w.vigil.report r }

theorem noted_ended {status} (hs : status.state = .completed ∨ status.state = .failed) :
    (noted w (.ok status)).vigil.ended := by
  simp [noted, Vigil.report, Vigil.ended, hs]

theorem Polled.noted (h : Polled errors v w) {reply}
    (hv : v'.state.phase = attemptPhase errors v.state.phase reply) :
    Handled (attemptErrors errors reply) v' (noted w reply) := by
  have hactive : (Watched.noted w reply).vigil.active := by
    rcases reply with err | status <;> exact h.active
  rcases reply with err | status
  · by_cases hmany : maxConsecutiveStatusErrors ≤ errors + 1 <;>
      simp only [attemptPhase, hmany, if_true, if_false] at hv
    · refine ⟨h.missed, hactive, fun hs _ => ?_, fun _ hno => by rw [hv] at hno; cases hno⟩
      have hcount : maxConsecutiveStatusErrors ≤ w.vigil.errors + 1 := by rwa [h.errors hs]
      simp [Watched.noted, Vigil.report, Vigil.ended, hcount]
    · exact .of_open h.missed hactive (hv ▸ h.phase) fun hs => congrArg (· + 1) (h.errors hs)
  · rcases hs : status.state <;> simp only [attemptPhase, hs] at hv
    case completed => exact .of_ended h.missed hactive (noted_ended (.inl hs)) (by rw [hv]; rfl)
    case failed => exact .of_ended h.missed hactive (noted_ended (.inr hs)) (by rw [hv]; rfl)
    case waitingForInput =>
      exact .of_open h.missed hactive (fun _ => by rw [hv]; rfl) fun _ => rfl
    all_goals exact .of_open h.missed hactive (hv ▸ h.phase) fun _ => rfl

/-! ## Execute, verify, retry -/

theorem Done.verifies (h : Done w) (i : VerifyRunInput) (v : Vars) :
    watch.step w (.scheduled (.verifyRun i) v) = w := by
  have htimely : (!(w.vigil.active && w.vigil.ended) && !w.stale) = false := by
    rcases hs : w.stale with _ | _
    · simp [h.active, h.ended hs]
    · simp
  show { w with missed := (!(w.vigil.active && w.vigil.ended) && !w.stale) || w.missed } = w
  rw [htimely, Bool.false_or]

theorem Polled.stopped (h : Polled errors v w) (hv : endsPolling v'.state.phase)
    (i : SidecarRPCInput) :
    Handled errors v' (watch.step w (.refused (.stopAgent i))) ∧
      Handled errors v' (watch.step w (.scheduled (.stopAgent i) v')) :=
  ⟨.of_ended h.missed h.active (or_true _) hv, .of_ended h.missed h.active rfl hv⟩

def rounds (input : WorkflowInput) : Rounds watch input where
  Calm := Calm
  Ready _ _ := Calm
  Polled _ := Polled
  Handled _ := Handled
  Ended _ _ := Done
  Executed _ _ := Done
  Settled _ := Calm
  rest h := h
  waiting := rfl
  received := rfl
  started := rfl
  asked := rfl
  stopped := rfl
  polled := rfl
  forwards := ignores rfl (by simp)
  quiet := quiet
  calm_init := ⟨rfl, by simp⟩
  ready_init _ := ⟨rfl, by simp⟩
  calm_of_ready h := h
  start {r v v' w i} h hr hv := by
    refine ⟨⟨h.missed, nofun⟩, h.missed, fun reply => ?_⟩
    rcases reply with err | u
    · exact ⟨h.missed, h.missed, nofun⟩
    · exact ⟨h.missed, h.missed, rfl, fun hs => (or_eq_false_iff.1 hs).1, fun _ => rfl⟩
  safe_of_polled h := h.missed
  cancel h hv := h.stopped (by rw [hv]; rfl) _
  safe_fired h := h
  exceed h hv := h.stopped (by rw [hv]; rfl) _
  forward h hv := .of_open h.missed h.active (fun _ => by rw [hv]; rfl) h.errors
  unanswered := rfl
  status h hv := h.noted hv
  safe_of_handled h := h.missed
  goes h hv := ⟨h.missed, h.active, fun _ => hv, fun hs => h.errors hs hv⟩
  ends h hv _ := ⟨h.missed, h.active, fun hs => h.ended hs hv⟩
  calm_of_ended := Done.calm
  executed h _ := h
  calm_of_executed := Done.calm
  verify {r v v' w i} h := by
    rw [h.verifies]
    exact ⟨h.calm, h.missed, fun reply => ⟨h.calm, fun _ _ _ _ => h.calm, fun _ _ _ _ => h.calm⟩⟩
  calm_of_settled h := h
  settled_of_calm h _ := h

end Watched

/-! ## Runs -/

variable {env : Env} {input : WorkflowInput} {c : Run}

theorem watch_safe (h : (Run.of (runSpecDrivenPipeline env input)).Reaches c) :
    (watch.observe c.world.log).missed = false := by
  have hwp : (runSpecDrivenPipeline env input).prog.wp watch (fun _ _ _ => True) noVars {} :=
    wp_prog.2 (wp_mono ((Watched.rounds input).runSpecDrivenPipeline_wp (E := fun _ _ _ => False))
      (fun _ _ _ _ => trivial) fun _ _ _ hf => hf.elim)
  exact (Prog.wp_sound (O := watch) rfl hwp h).safe

theorem exists_refused_of_vigil {log} (h : (vigil log).refused) :
    ∃ i, .refused (.stopAgent i) ∈ log := by
  induction log using reverseRecOn with
  | nil => cases h
  | append_singleton log e ih =>
    have hold : (vigil log).refused → ∃ i, .refused (.stopAgent i) ∈ log ++ [e] := fun h =>
      (ih h).imp fun _ hi => mem_append_left _ hi
    rw [vigil, foldl_append] at h
    simp only [foldl_cons] at h
    unfold Vigil.step at h
    split at h
    · cases h
    · cases h
    · exact hold h
    · rename_i r
      rcases r with err | status <;> exact hold h
    · exact hold h
    · exact hold h
    · rename_i i
      exact ⟨i, by simp⟩
    · exact hold h

/-- If all agents are started in a phase that does not end polling, the work of an agent is verified
only after it was reported completed or failed, declared unreachable or sent `StopAgent`, and its
polling ends only for such a reason, or because a cancelled context has refused `StopAgent`. -/
theorem verification_after_agent (h : (Run.of (runSpecDrivenPipeline env input)).Reaches c)
    (hfresh : ∀ i v, .scheduled (.startAgent i) v ∈ c.world.log →
      endsPolling v.state.phase = false) : Attended c.world.log := by
  have htimely : ∀ {pre e post}, c.world.log = pre ++ e :: post →
      untimely (vigil pre) e = false := by
    intro pre e post hlog
    refine not_untimely (hlog ▸ watch_safe h) fun e' he' => ?_
    unfold startsStale
    split
    · exact hfresh _ _ (hlog ▸ mem_append_left _ he')
    · rfl
  constructor
  · intro pre i v post hlog
    have hboth : ((vigil pre).active && (vigil pre).ended) = true := by
      simpa [untimely] using htimely hlog
    obtain ⟨hactive, hended⟩ := and_eq_true_iff.1 hboth
    refine ⟨hactive, (or_eq_true_iff.1 hended).resolve_right fun hrefused => ?_⟩
    -- Once `StopAgent` is refused, so is `VerifyRun`.
    obtain ⟨j, hj⟩ := exists_refused_of_vigil hrefused
    cases retires_of_refused h hlog hj
  · intro pre e post hlog hspan hactive
    have hu := htimely hlog
    unfold writesSpan at hspan
    split at hspan
    · simpa [untimely, hactive] using hu
    · simpa [untimely, hactive] using hu
    · cases hspan

def unverified (state : AgentProcessState) : (c : Command) → Except Failure c.Reply
  | .getAgentStatus _ => .ok { state }
  | .verifyRun _ => .ok { pass := false, failureReport := "2 tasks are not done" }
  | c => smooth c

def firstAttempt (state : AgentProcessState) : List (Event temporal) :=
  toPolling ++ Event.fire (Timer.poll 5) :: replicate 7 (.settle (unverified state))

def retried : Run :=
  Config.after 60 (Run.of (runSpecDrivenPipeline sampleEnv {}))
    (firstAttempt .completed ++ Event.fire (Timer.poll 5) :: smoothly 3)

/-- Both of its agents are done before they are verified. -/
theorem verification_after_agent_retried :
    (∀ i v, .scheduled (.startAgent i) v ∈ retried.world.log → endsPolling v.state.phase = false) ∧
      Attended retried.world.log := by
  have hany : retried.world.log.any startsStale = false := rfl
  have hfresh : ∀ i v, .scheduled (.startAgent i) v ∈ retried.world.log →
      endsPolling v.state.phase = false := fun i v hmem =>
    eq_false_iff.2 (any_eq_false.1 hany _ hmem)
  exact ⟨hfresh, verification_after_agent (Config.reaches_after _ _ _) hfresh⟩

/-- A run whose first agent fails, and whose second agent is reported running when it is first
polled. -/
def overtaken : Run :=
  Config.after 60 (Run.of (runSpecDrivenPipeline sampleEnv {}))
    (firstAttempt .failed ++
      Event.fire (Timer.poll 5) :: .settle (unverified .running) :: smoothly 2)

/-- Polling ends all the same, and the work of the second agent is verified while it runs. -/
theorem overtaken_agent :
    (Run.of (runSpecDrivenPipeline sampleEnv {})).Reaches overtaken ∧
      (∃ pre i v post, overtaken.world.log = pre ++ .scheduled (.verifyRun i) v :: post ∧
        (vigil pre).active ∧ (vigil pre).settled = false) ∧
      ∃ pre e post, overtaken.world.log = pre ++ e :: post ∧ writesSpan e ∧
        (vigil pre).active ∧ (vigil pre).ended = false := by
  refine ⟨Config.reaches_after _ _ _, ?_, ?_⟩
  · exact ⟨overtaken.world.log.take 50, _, _, [], rfl, rfl, rfl⟩
  · exact ⟨overtaken.world.log.take 46, _, overtaken.world.log.drop 47, rfl, rfl, rfl, rfl⟩

end Uncworks
