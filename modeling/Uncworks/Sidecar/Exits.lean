import Uncworks.Sidecar.Supervision

/-!
# The final state of an agent process

`waitForProcess` writes COMPLETED or FAILED once a process has exited for good.  `SendInput` and
`NotifyEvent` write RUNNING or WAITING_FOR_INPUT without looking at the state.  And the goroutine
of a `StartAgent` may read `g.process` only after another `StartAgent` has replaced it: then two
goroutines wait for one process.
-/

namespace Uncworks

namespace Supervisor

/-- A call sets the state only of a process that is not finished, and a goroutine that begins to
wait finds the process of its own `StartAgent`. -/
def heeds (s : Supervisor) : GatewayEvent → Bool
  | .enter k => s.process.all fun p => s.procs[p]?.any (·.owner = k)
  | .write i => s.calls[i]?.all fun call =>
      !call.2.setsState || s.procs[call.1]?.all fun proc => !proc.state.isFinal
  | _ => true

def entersOwn (s : Supervisor) : GatewayEvent → Bool
  | .enter k => s.process.all fun p => s.procs[p]?.any (·.owner = k)
  | _ => true

theorem entersOwn_of_heeds {s : Supervisor} {e} (h : s.heeds e) : s.entersOwn e := by
  cases e with
  | enter k => exact h
  | _ => rfl

/-- Each goroutine has processes of its own, and it has ended when one of them is finished. -/
structure Owned (s : Supervisor) : Prop where
  holds : ∀ {k : ℕ} {phase : WaitPhase} {p : ℕ}, s.waiters[k]? = some phase → phase.proc? = some p →
    ∃ proc, s.procs[p]? = some proc ∧ proc.owner = k
  finished : ∀ {p : ℕ} {proc : Proc}, s.procs[p]? = some proc → proc.state.isFinal →
    s.waiters[proc.owner]? = some .done

section Step

variable {env : GatewayEnv} {s s' : Supervisor} {e : GatewayEvent}

theorem step_owner {p k : ℕ} (h : s.step env e = some s')
    (hp : ∃ proc, s.procs[p]? = some proc ∧ proc.owner = k) :
    ∃ proc, s'.procs[p]? = some proc ∧ proc.owner = k := by
  obtain ⟨proc, hp, rfl⟩ := hp
  obtain ⟨proc', hp', hpres⟩ := step_procs h hp
  exact ⟨proc', hp', hpres.owner⟩

theorem Owned.holds_step (hs : s.Owned) (he : s.entersOwn e) (h : s.step env e = some s') {k p}
    {phase : WaitPhase} (hk : s'.waiters[k]? = some phase) (hp : phase.proc? = some p) :
    ∃ proc, s'.procs[p]? = some proc ∧ proc.owner = k := by
  rcases step_waiters h with heq | ⟨rfl, rfl⟩ | ⟨k₀, phase₀, phase', hk₀, heq, hpro⟩
  · rw [heq] at hk
    exact step_owner h (hs.holds hk hp)
  · have hk' : (s.waiters ++ [.entering])[k]? = some phase := hk
    rw [List.getElem?_append] at hk'
    split_ifs at hk' with hlt
    · exact step_owner h (hs.holds hk' hp)
    · cases List.mem_singleton.1 (List.mem_of_getElem? hk')
      cases hp
  · by_cases hne : k₀ = k
    · subst hne
      rw [heq, List.getElem?_set_self (List.getElem?_eq_some_iff.1 hk₀).1] at hk
      cases hk
      rcases hpro.proc? with hnone | hsame | ⟨rfl, hprocess⟩ | ⟨hprocs, hnew⟩
      · cases hnone.symm.trans hp
      · exact step_owner h (hs.holds hk₀ (hsame ▸ hp))
      · rw [hp] at hprocess
        simp only [entersOwn, ← hprocess, Option.all_some, Option.any_eq_true, decide_eq_true_eq] at he
        exact step_owner h he
      · cases hnew.symm.trans hp
        exact ⟨_, by rw [hprocs, List.getElem?_concat_length], rfl⟩
    · rw [heq, List.getElem?_set_ne hne] at hk
      exact step_owner h (hs.holds hk hp)

theorem Owned.step (hs : s.Owned) (he : s.entersOwn e) (h : s.step env e = some s') : s'.Owned := by
  refine ⟨hs.holds_step he h, fun {p proc'} hp' hfinal => ?_⟩
  rcases step_procs_inv h hp' with ⟨proc, hp, hpres⟩ | ⟨hfresh, -⟩
  · rcases hpres.state with heq | ⟨k, err, rfl, hk⟩ | ⟨_, _, -, -, -, -, hnot⟩
    · rw [heq] at hfinal
      rw [hpres.owner]
      exact step_done h (hs.finished hp hfinal)
    · obtain ⟨_, hq, hk'⟩ := hs.holds hk rfl
      cases hq.symm.trans hp
      cases effect_of_step h
      rw [hpres.owner, hk']
      exact List.getElem?_set_self (List.getElem?_eq_some_iff.1 hk).1
    · rw [hnot] at hfinal
      cases hfinal
  · rw [hfresh] at hfinal
    cases hfinal

/-- The state of a finished process does not change: its goroutine has ended, so it does not write
another one. -/
theorem Owned.state_step (hs : s.Owned) (he : s.heeds e) (h : s.step env e = some s') {p : ℕ} {proc}
    (hp : s.procs[p]? = some proc) (hfinal : proc.state.isFinal) :
    ∃ proc', s'.procs[p]? = some proc' ∧ proc'.state = proc.state := by
  obtain ⟨proc', hp', hpres⟩ := step_procs h hp
  refine ⟨proc', hp', ?_⟩
  rcases hpres.state with heq | ⟨k, err, rfl, hk⟩ | ⟨i, call, rfl, hcall, rfl, hsets, -⟩
  · exact heq
  · obtain ⟨_, hq, rfl⟩ := hs.holds hk rfl
    cases hq.symm.trans hp
    cases (hs.finished hp hfinal).symm.trans hk
  · simp [heeds, hcall, hp, hsets, hfinal] at he

end Step

theorem owned_start : Owned {} := ⟨by simp, by simp⟩

/-- Once a process is COMPLETED or FAILED its state never changes again, and `GetStatus` does not
report it as running or waiting. -/
theorem exited_state_final {env : GatewayEnv} {s₁ s₂ : Supervisor}
    (h₁ : Machine.Reaches (step env) heeds {} s₁)
    (h₂ : Machine.Reaches (step env) heeds s₁ s₂) {p : ℕ}
    {proc : Proc} (hp : s₁.procs[p]? = some proc) (hfinal : proc.state.isFinal) :
    (∃ proc', s₂.procs[p]? = some proc' ∧ proc'.state = proc.state) ∧
      (s₂.process = some p → (s₂.getStatus env).state ≠ .running ∧
        (s₂.getStatus env).state ≠ .waitingForInput) := by
  have howned : s₁.Owned := h₁.keeps owned_start fun hs he => hs.step (entersOwn_of_heeds he)
  have hkept : s₂.Owned ∧ ∃ proc', s₂.procs[p]? = some proc' ∧ proc'.state = proc.state := by
    refine h₂.keeps (I := fun s => s.Owned ∧ ∃ proc', s.procs[p]? = some proc' ∧
      proc'.state = proc.state) ⟨howned, proc, hp, rfl⟩ ?_
    rintro s e s' ⟨hs, proc₁, hp₁, hstate₁⟩ he h
    obtain ⟨proc₂, hp₂, hstate₂⟩ := hs.state_step he h hp₁ (hstate₁ ▸ hfinal)
    exact ⟨hs.step (entersOwn_of_heeds he) h, proc₂, hp₂, hstate₂.trans hstate₁⟩
  obtain ⟨-, proc', hp', hstate⟩ := hkept
  refine ⟨⟨proc', hp', hstate⟩, fun hprocess => ?_⟩
  have hreported : (s₂.getStatus env).state = proc.state := by
    simp [getStatus, Gateway.getStatus, gateway, hprocess, hp', hstate]
  rw [hreported]
  constructor <;> (intro heq; rw [heq] at hfinal; cases hfinal)

/-- After its completion an agent is only called, and its state stays. -/
theorem exited_state_final_completed : ∃ s₁ s₂ proc,
    Machine.Reaches (step sampleGatewayEnv) heeds {} s₁ ∧
    Machine.Reaches (step sampleGatewayEnv) heeds s₁ s₂ ∧
    s₁.procs[0]? = some proc ∧ proc.state = .completed ∧ s₂.calls.length = 1 ∧
    (s₂.getStatus sampleGatewayEnv).state ≠ .running := by
  have h₁ : Machine.Reaches (step sampleGatewayEnv) heeds {} completed :=
    Machine.reaches_replay completion rfl
  have h₂ : Machine.Reaches (step sampleGatewayEnv) heeds completed _ :=
    Machine.reaches_replay [.request .sendInput] rfl
  exact ⟨_, _, _, h₁, h₂, rfl, rfl, rfl, ((exited_state_final h₁ h₂ rfl rfl).2 rfl).1⟩

def doubleWait : List GatewayEvent :=
  [.startAgent, .launch none, .startAgent, .stopEnds, .launch none, .enter 0, .enter 1, .exit 1 none,
    .waited 0 "", .waited 1 "exec: Wait was already called", .finish 0]

def doublyAwaited : Supervisor :=
  (Machine.replay (step sampleGatewayEnv) Machine.always doubleWait {}).getD {}

/-- A late answer: `SendInput` reports a completed agent as running again.  And of two goroutines
that wait for one process the second turns COMPLETED into FAILED. -/
theorem exited_state_changes :
    (∃ s₂ proc, Machine.Reaches (step sampleGatewayEnv) Machine.always {} completed ∧
      Machine.Reaches (step sampleGatewayEnv) Machine.always completed s₂ ∧
      completed.procs[0]? = some proc ∧ proc.state = .completed ∧ s₂.process = some 0 ∧
      (s₂.getStatus sampleGatewayEnv).state = .running) ∧
    ∃ s₂ proc, Machine.Reaches (step sampleGatewayEnv) Machine.always {} doublyAwaited ∧
      Machine.Reaches (step sampleGatewayEnv) Machine.always doublyAwaited s₂ ∧
      doublyAwaited.procs[1]? = some proc ∧ proc.state = .completed ∧ s₂.process = some 1 ∧
      (s₂.getStatus sampleGatewayEnv).state = .failed :=
  ⟨⟨_, _, Machine.reaches_replay completion rfl,
      Machine.reaches_replay [.request .sendInput, .write 0] rfl, rfl, rfl, rfl, rfl⟩,
    _, _, Machine.reaches_replay doubleWait rfl, Machine.reaches_replay [.finish 1] rfl,
      rfl, rfl, rfl, rfl⟩

end Supervisor

end Uncworks
