import Uncworks.Sidecar.Supervision

/-!
# One agent after another

`StartAgent` interrupts a predecessor that is running, waits up to three seconds and then kills it,
but it waits neither for the exit of the process nor for its goroutine.  A goroutine in its backoff
restarts its process without asking whether the agent was stopped or replaced since.
-/

namespace Uncworks

open List

namespace Supervisor

def wouldRetry (env : GatewayEnv) (s : Supervisor) (k : ℕ) (again : String) : Bool :=
  match s.waiters[k]? with
  | some (.waiting stage p) => s.procs[p]?.any fun proc => proc.exited.any fun status =>
    let outcome := proc.waitOutcome status again
    (afterWait env stage p outcome.1 outcome.2).2.retries
  | _ => false

/-- A process is launched only when all others have exited and all goroutines have ended, and if it
cannot be started, `g.process` was not cleared for it; an agent is stopped only while no restart is
pending or called for. -/
def inTurn (env : GatewayEnv) (s : Supervisor) : GatewayEvent → Bool
  | .launch none => s.procs.all (·.exited.isSome) && s.waiters.all (· = .done)
  | .launch (some _) => s.starting ≠ some (.launching true)
  | .stopAgent => s.waiters.all (!·.retries)
  | .waited k again => !s.stopped || !s.wouldRetry env k again
  | _ => true

/-- All processes but the last have exited, all goroutines but the last have ended, and the last
goroutine is busy with the last process. -/
structure InOrder (s : Supervisor) : Prop where
  older : ∀ {i : ℕ} {proc : Proc}, s.procs[i]? = some proc → i + 1 < s.procs.length →
    proc.exited.isSome
  last : ∀ {k : ℕ} {phase : WaitPhase}, s.waiters[k]? = some phase → phase ≠ .done →
    k + 1 = s.waiters.length
  holds : ∀ {k : ℕ} {phase : WaitPhase} {p : ℕ}, s.waiters[k]? = some phase → phase.proc? = some p →
    ∃ proc, s.procs[p]? = some proc ∧ proc.owner = k ∧ p + 1 = s.procs.length ∧
      (phase.retries → proc.exited.isSome)
  process : ∀ {p : ℕ}, s.process = some p →
    ∃ proc, s.procs[p]? = some proc ∧ proc.owner + 1 = s.waiters.length ∧
      ∀ k : ℕ, s.waiters[k]? = some .entering → p + 1 = s.procs.length
  present : s.starting ≠ some (.launching true) → s.waiters ≠ [] → s.process ≠ none
  stopped : s.stopped → ∀ {k : ℕ} {phase : WaitPhase}, s.waiters[k]? = some phase →
    phase.retries = false

namespace InOrder

variable {env : GatewayEnv} {s s' : Supervisor} {e : GatewayEvent} {phase : WaitPhase} {k : ℕ}

theorem start : InOrder {} := by
  constructor <;> simp

theorem change_procs (hs : s.InOrder) {procs} (hlen : procs.length = s.procs.length)
    (hprocs : ∀ {p : ℕ} {proc : Proc}, s.procs[p]? = some proc →
      ∃ proc' : Proc, procs[p]? = some proc' ∧ proc'.owner = proc.owner ∧
        (proc.exited.isSome → proc'.exited.isSome)) : InOrder { s with procs := procs } where
  older {i proc'} hi hlt := by
    have hlt' : i < s.procs.length := by
      rw [hlen] at hlt
      omega
    obtain ⟨proc'', hi'', -, hexited⟩ := hprocs (getElem?_eq_getElem hlt')
    cases hi''.symm.trans hi
    exact hexited (hs.older (getElem?_eq_getElem hlt') (hlen ▸ hlt))
  last := hs.last
  holds hk hp := by
    obtain ⟨proc, hproc, howner, hlast, hexited⟩ := hs.holds hk hp
    obtain ⟨proc', hproc', howner', hexited'⟩ := hprocs hproc
    exact ⟨proc', hproc', howner'.trans howner, hlast.trans hlen.symm,
      fun hretries => hexited' (hexited hretries)⟩
  process hp := by
    obtain ⟨proc, hproc, howner, hlast⟩ := hs.process hp
    obtain ⟨proc', hproc', howner', -⟩ := hprocs hproc
    exact ⟨proc', hproc', howner'.symm ▸ howner, fun k hk => (hlast k hk).trans hlen.symm⟩
  present := hs.present
  stopped := hs.stopped

theorem eq_of_set (hs : s.InOrder) (hk : s.waiters[k]? = some phase)
    (hactive : phase ≠ .done) {phase' phase'' k'}
    (hk' : (s.waiters.set k phase')[k']? = some phase'') (hne : phase'' ≠ .done) :
    k' = k ∧ phase'' = phase' := by
  have hlast := hs.last hk hactive
  by_cases hkk : k = k'
  · subst hkk
    rw [List.getElem?_set_self (List.getElem?_eq_some_iff.1 hk).1] at hk'
    exact ⟨rfl, (Option.some.inj hk').symm⟩
  · rw [getElem?_set_ne hkk] at hk'
    have := hs.last hk' hne
    omega

theorem change_waiter (hs : s.InOrder) (hk : s.waiters[k]? = some phase)
    (hactive : phase ≠ .done) (phase' : WaitPhase) (hentering : phase' ≠ .entering)
    (hholds : ∀ {p}, phase'.proc? = some p →
      ∃ proc : Proc, s.procs[p]? = some proc ∧ proc.owner = k ∧ p + 1 = s.procs.length ∧
        (phase'.retries → proc.exited.isSome))
    (hstopped : s.stopped → phase'.retries = false) :
    InOrder { s with waiters := s.waiters.set k phase' } := by
  refine ⟨hs.older, ?_, ?_, ?_, ?_, ?_⟩
  · intro k' phase'' hk' hne
    obtain ⟨rfl, -⟩ := hs.eq_of_set hk hactive hk' hne
    exact (hs.last hk hactive).trans length_set.symm
  · intro k' phase'' p hk' hp
    obtain ⟨rfl, rfl⟩ := hs.eq_of_set hk hactive hk' (by rintro rfl; cases hp)
    exact hholds hp
  · intro p hp
    obtain ⟨proc, hproc, howner, -⟩ := hs.process hp
    refine ⟨proc, hproc, howner.trans length_set.symm, fun k' hk' => ?_⟩
    exact absurd (hs.eq_of_set hk hactive hk' nofun).2.symm hentering
  · intro hst hne
    refine hs.present hst fun hnil => hne ?_
    rw [hnil, set_nil]
  · intro hst k' phase'' hk'
    by_cases hdone : phase'' = .done
    · subst hdone
      rfl
    · obtain ⟨rfl, rfl⟩ := hs.eq_of_set hk hactive hk' hdone
      exact hstopped hst

theorem persist (hs : s.InOrder) : s.persist.InOrder := by
  unfold Supervisor.persist
  split
  · exact { hs with }
  · exact hs

theorem procs_step (hs : s.InOrder) (h : s.step env e = some s')
    (hlen : s'.procs.length = s.procs.length) : InOrder { s with procs := s'.procs } :=
  hs.change_procs hlen fun hp => by
    obtain ⟨proc', hp', hpres⟩ := step_procs h hp
    exact ⟨proc', hp', hpres.owner, hpres.exited⟩

theorem exited_of_retries (hs : s.InOrder) (hk : s.waiters[k]? = some phase)
    (hretries : phase.retries) {i : ℕ} {proc} (hi : s.procs[i]? = some proc) :
    proc.exited.isSome := by
  obtain ⟨p, hp⟩ : ∃ p, phase.proc? = some p := by
    cases phase <;> first | exact ⟨_, rfl⟩ | cases hretries
  obtain ⟨proc', hproc', -, hlast, hexited⟩ := hs.holds hk hp
  have hlt := (List.getElem?_eq_some_iff.1 hi).1
  by_cases heq : i = p
  · subst heq
    cases hi.symm.trans hproc'
    exact hexited hretries
  · exact hs.older hi (by omega)

theorem accept (hprocs : ∀ proc ∈ s.procs, proc.exited.isSome)
    (hwaiters : ∀ phase ∈ s.waiters, phase = .done) : s.accept.InOrder := by
  have hnew : ∀ {k phase}, s.accept.waiters[k]? = some phase → phase ≠ .done →
      k = s.waiters.length ∧ phase = .entering := by
    intro k phase hk hne
    have hk' : (s.waiters ++ [.entering])[k]? = some phase := hk
    rw [getElem?_append] at hk'
    split_ifs at hk' with hlt
    · exact absurd (hwaiters _ (mem_of_getElem? hk')) hne
    · have hmem := mem_singleton.1 (mem_of_getElem? hk')
      have hlt' := (List.getElem?_eq_some_iff.1 hk').1
      exact ⟨by simp at hlt'; omega, hmem⟩
  refine ⟨?_, ?_, ?_, ?_, nofun, nofun⟩
  · intro i proc hi hlt
    have hi' : (s.procs ++ [_])[i]? = some proc := hi
    rw [getElem?_append_left (by simp [Supervisor.accept] at hlt; omega)] at hi'
    exact hprocs proc (mem_of_getElem? hi')
  · intro k phase hk hne
    simp [Supervisor.accept, (hnew hk hne).1]
  · intro k phase p hk hp
    obtain ⟨-, rfl⟩ := hnew hk (by rintro rfl; cases hp)
    cases hp
  · rintro p ⟨⟩
    exact ⟨_, getElem?_concat_length, by simp [Supervisor.accept], by simp [Supervisor.accept]⟩

theorem respawn (hs : s.InOrder) (hk : s.waiters[k]? = some phase)
    (hretries : phase.retries) (stage : WaitStage) : (s.respawn k stage).InOrder := by
  have hactive : phase ≠ .done := by
    rintro rfl
    cases hretries
  have hpending : s.stopped = false := by
    by_contra hst
    rw [hs.stopped (by simpa using hst) hk] at hretries
    cases hretries
  refine ⟨?_, ?_, ?_, ?_, ?_, ?_⟩
  · intro i proc hi hlt
    have hi' : (s.procs ++ [_])[i]? = some proc := hi
    rw [getElem?_append_left (by simp [Supervisor.respawn] at hlt; omega)] at hi'
    exact hs.exited_of_retries hk hretries hi'
  · intro k' phase'' hk' hne
    obtain ⟨rfl, -⟩ := hs.eq_of_set hk hactive hk' hne
    exact (hs.last hk hactive).trans length_set.symm
  · intro k' phase'' p hk' hp
    obtain ⟨rfl, rfl⟩ := hs.eq_of_set hk hactive hk' (by rintro rfl; cases hp)
    cases hp
    exact ⟨_, getElem?_concat_length, rfl, by simp [Supervisor.respawn], nofun⟩
  · intro p hp
    obtain ⟨proc, hproc, howner, -⟩ := hs.process hp
    refine ⟨proc, ?_, howner.trans length_set.symm, fun k' hk' => ?_⟩
    · exact (List.getElem?_append_left (List.getElem?_eq_some_iff.1 hproc).1).trans hproc
    · cases (hs.eq_of_set hk hactive hk' nofun).2
  · intro hst hne
    refine hs.present hst fun hnil => hne ?_
    show s.waiters.set k _ = []
    rw [hnil, set_nil]
  · intro hst
    have hst' : s.stopped := hst
    rw [hpending] at hst'
    cases hst'

theorem keep_waiter (hs : s.InOrder) (hk : s.waiters[k]? = some phase)
    (hactive : phase ≠ .done) (phase' : WaitPhase) (hentering : phase' ≠ .entering)
    (hproc : phase'.proc? = none ∨ phase'.proc? = phase.proc?)
    (hretries : phase'.retries → phase.retries) :
    InOrder { s with waiters := s.waiters.set k phase' } := by
  refine hs.change_waiter hk hactive phase' hentering (fun {p} hp => ?_) fun hst => ?_
  · rcases hproc with hnone | heq
    · cases hnone.symm.trans hp
    · obtain ⟨proc, hproc, howner, hlast, hexited⟩ := hs.holds hk (heq ▸ hp)
      exact ⟨proc, hproc, howner, hlast, fun h => hexited (hretries h)⟩
  · by_contra hret
    have := hs.stopped hst hk
    rw [hretries (by simpa using hret)] at this
    cases this

theorem enter (hs : s.InOrder) (hk : s.waiters[k]? = some .entering) :
    InOrder { s with waiters := s.waiters.set k ((s.process.map (.waiting .first)).getD .done) } := by
  refine hs.change_waiter hk nofun _ ?_ (fun {p} hp => ?_) fun _ => ?_
  · cases s.process <;> nofun
  · have hprocess : s.process = some p := by
      cases hcur : s.process with
      | none => rw [hcur] at hp; cases hp
      | some q => rw [hcur] at hp; exact hp
    obtain ⟨proc, hproc, howner, hlast⟩ := hs.process hprocess
    have hlen := hs.last hk nofun
    refine ⟨proc, hproc, by omega, hlast k hk, ?_⟩
    rw [hprocess]
    nofun
  · cases s.process <;> rfl

theorem waited (hs : s.InOrder) {again} (he : s.inTurn env (.waited k again)) {stage p proc status}
    (hk : s.waiters[k]? = some (.waiting stage p)) (hproc : s.procs[p]? = some proc)
    (hexited : proc.exited = some status)
    (h : s.step env (.waited k again) = some (s.reap env k stage p proc status again)) :
    (s.reap env k stage p proc status again).InOrder := by
  have hprocs := hs.procs_step h
  have hlen : (s.reap env k stage p proc status again).procs.length = s.procs.length := by
    rw [reap, persist_procs, settle, length_set]
  obtain ⟨proc', hproc', howner, hlast, -⟩ := (hprocs hlen).holds hk rfl
  have hexited' : proc'.exited.isSome := by
    obtain ⟨proc'', hproc'', hpres⟩ := step_procs h hproc
    cases hproc''.symm.trans hproc'
    exact hpres.exited (by rw [hexited]; rfl)
  have hphase := afterWait_proc? env stage p (proc.waitOutcome status again).1
    (proc.waitOutcome status again).2
  have hnext := (hprocs hlen).change_waiter hk (by simp)
    (afterWait env stage p (proc.waitOutcome status again).1 (proc.waitOutcome status again).2).2
    (by intro hent; rw [hent] at hphase; cases hphase)
    (by
      intro q hq
      cases hphase.symm.trans hq
      exact ⟨proc', hproc', howner, hlast, fun _ => hexited'⟩)
    (by
      intro hst
      have hst' : s.stopped := hst
      simpa [inTurn, hst', wouldRetry, hk, hproc, hexited] using he)
  rw [reap, persist_procs] at hnext
  exact hnext.persist

theorem step (hs : s.InOrder) (he : s.inTurn env e) (h : s.step env e = some s') : s'.InOrder := by
  have hprocs := hs.procs_step h
  have hactive : ∀ {phase : WaitPhase}, phase.retries → phase ≠ .done := by
    rintro _ hr rfl
    cases hr
  cases effect_of_step h with
  | declined => exact hs
  | starting hst =>
    exact { hs with present := fun _ => hs.present (by rw [hst]; nofun) }
  | stopEnds => exact { hs with process := nofun, present := fun hst => absurd rfl hst }
  | launchFails => exact { hs with present := fun _ => hs.present (of_decide_eq_true he) }
  | launch =>
    simp only [inTurn, Bool.and_eq_true, all_eq_true, decide_eq_true_eq] at he
    exact .accept he.1 he.2
  | enter _ hk => exact hs.enter hk
  | exit => exact hprocs length_set
  | line _ l =>
    cases l with
    | messageStart assistant => exact { hs with }
    | messageEnd usage text =>
      have hprocs' := hprocs length_set
      exact { hprocs' with }
  | waited hk hp hx => exact hs.waited he hk hp hx h
  | respawn hk hr stage => exact hs.respawn hk hr stage
  | retryFails hk hr hphase _ hnext =>
    have hprocs' := hprocs length_set
    refine hprocs'.keep_waiter hk (hactive hr) _ ?_ (.inr (hnext.trans hphase.symm)) fun _ => hr
    rintro hent
    rw [hent] at hnext
    cases hnext
  | fallbackFails hk hr hphase => exact hs.keep_waiter hk (hactive hr) _ nofun (.inr hphase.symm) nofun
  | @adopt k stage p _ hk =>
    have hwaiter := hs.keep_waiter hk nofun (.waiting stage p) nofun (.inr rfl) nofun
    obtain ⟨proc, hproc, howner, hlast, -⟩ := hs.holds hk rfl
    have hlen := hs.last hk nofun
    refine { hwaiter with process := ?_, present := nofun }
    rintro _ ⟨⟩
    exact ⟨proc, hproc, by simp; omega, fun _ _ => hlast⟩
  | abort hk hne => exact hs.keep_waiter hk hne .done nofun (.inl rfl) nofun
  | finish hk => exact (hprocs length_set).keep_waiter hk nofun .done nofun (.inl rfl) nofun
  | write =>
    have hprocs' := hprocs length_set
    exact { hprocs' with }
  | stopAgent =>
    simp only [inTurn, all_eq_true, Bool.not_eq_true'] at he
    exact { hs with stopped := fun _ _ _ hk => he _ (mem_of_getElem? hk) }
  | _ => exact { hs with }

theorem alive_le_one (hs : s.InOrder) : s.procs.countP (·.exited.isNone) ≤ 1 := by
  rcases eq_nil_or_concat s.procs with hnil | ⟨procs, proc, hprocs⟩
  · simp [hnil]
  · have hzero : procs.countP (·.exited.isNone) = 0 := by
      refine countP_eq_zero.2 fun proc' hproc' => ?_
      obtain ⟨i, hlt, hi⟩ := getElem_of_mem hproc'
      have hi' : s.procs[i]? = some proc' := by
        rw [hprocs, concat_eq_append, getElem?_append_left hlt, getElem?_eq_getElem hlt,
          hi]
      have := hs.older hi' (by simp [hprocs]; omega)
      simpa [Option.isSome_iff_ne_none] using this
    rw [hprocs, concat_eq_append, countP_append, hzero, Nat.zero_add]
    exact countP_le_length

end InOrder

/-! ## What is started later -/

theorem step_stopped {env} {s s' : Supervisor} {e} (h : s.step env e = some s') (hst : s.stopped) :
    s'.stopped ∨ s' = s.accept := by
  cases effect_of_step h with
  | launch => exact .inr rfl
  | line _ l => cases l <;> exact .inl hst
  | waited => exact .inl (by rw [reap, persist_stopped]; exact hst)
  | stopAgent => exact .inl rfl
  | _ => exact .inl hst

/-- What was started since a state belongs to the last agent then, if it was not stopped, or to a
later one. -/
structure Follows (s₁ s₂ : Supervisor) : Prop where
  inOrder : s₂.InOrder
  procs : s₁.procs.length ≤ s₂.procs.length
  waiters : s₁.waiters.length ≤ s₂.waiters.length
  started : ∀ {i : ℕ} {proc : Proc}, s₁.procs.length ≤ i → s₂.procs[i]? = some proc →
    s₁.waiters.length ≤ proc.owner + 1 ∧ (s₁.stopped → s₁.waiters.length ≤ proc.owner)
  stopped : s₁.stopped → s₂.waiters.length = s₁.waiters.length → s₂.stopped

namespace Follows

variable {env : GatewayEnv} {s₁ s₂ s₃ : Supervisor} {e : GatewayEvent}

theorem refl (hs : s₁.InOrder) : Follows s₁ s₁ :=
  ⟨hs, le_rfl, le_rfl, fun hle hi => absurd (List.getElem?_eq_some_iff.1 hi).1 (by omega), fun h _ => h⟩

theorem started_append (h : Follows s₁ s₂) {owner procs}
    (hprocs : procs = s₂.procs ++ [{ owner := owner }])
    (howner : s₁.waiters.length ≤ owner + 1 ∧ (s₁.stopped → s₁.waiters.length ≤ owner)) {i proc} (hle : s₁.procs.length ≤ i) (hi : procs[i]? = some proc) :
    s₁.waiters.length ≤ proc.owner + 1 ∧ (s₁.stopped → s₁.waiters.length ≤ proc.owner) := by
  rw [hprocs, getElem?_append] at hi
  split_ifs at hi
  · exact h.started hle hi
  · cases mem_singleton.1 (mem_of_getElem? hi)
    exact howner

theorem step (h : Follows s₁ s₂) (he : s₂.inTurn env e) (hstep : s₂.step env e = some s₃) :
    Follows s₁ s₃ := by
  have hin := h.inOrder.step he hstep
  have hwaiters := h.waiters
  have hprocs := h.procs
  rcases step_spawns hstep with hlen | ⟨-, rfl⟩ | ⟨k, phase, stage, hk, hretries, rfl⟩
  · have hne : s₃ ≠ s₂.accept := by
      rintro rfl
      simp [accept] at hlen
    have hwlen : s₃.waiters.length = s₂.waiters.length := by
      rcases step_waiters hstep with heq | ⟨-, hacc⟩ | ⟨_, _, _, -, heq, -⟩
      · rw [heq]
      · exact absurd hacc hne
      · rw [heq, length_set]
    refine ⟨hin, by omega, by omega, fun {i proc'} hle hi => ?_, fun hst heq => ?_⟩
    · have hlt := (List.getElem?_eq_some_iff.1 hi).1
      obtain ⟨proc'', hi'', hpres⟩ := step_procs hstep (getElem?_eq_getElem (hlen ▸ hlt))
      cases hi''.symm.trans hi
      rw [hpres.owner]
      exact h.started hle (getElem?_eq_getElem _)
    · exact (step_stopped hstep (h.stopped hst (hwlen.symm.trans heq))).resolve_right hne
  · refine ⟨hin, by simp [accept]; omega, by simp [accept]; omega,
      h.started_append rfl ⟨by omega, fun _ => hwaiters⟩, fun _ heq => ?_⟩
    simp [accept] at heq
    omega
  · have hactive : phase ≠ .done := by
      rintro rfl
      cases hretries
    have hlast := h.inOrder.last hk hactive
    -- a stopped agent is not restarted, so a stopped one has been replaced
    have hnew : s₁.stopped → s₁.waiters.length ≠ s₂.waiters.length := by
      intro hst heq
      rw [h.inOrder.stopped (h.stopped hst heq.symm) hk] at hretries
      cases hretries
    refine ⟨hin, by simp [respawn]; omega, by simp [respawn]; omega,
      h.started_append rfl ⟨by omega, fun hst => ?_⟩, fun hst heq => ?_⟩
    · have := hnew hst
      omega
    · exact absurd (heq.symm.trans length_set) (hnew hst)

end Follows

/-- At most one process is alive; what is started later belongs to the last agent, or to a later one
if that one was stopped; and `g.process` is the process of the last agent, unless a `StartAgent`
under way has cleared it. -/
theorem one_agent_at_a_time {env : GatewayEnv} {s₁ s₂ : Supervisor}
    (h₁ : Machine.Reaches (step env) (inTurn env) {} s₁)
    (h₂ : Machine.Reaches (step env) (inTurn env) s₁ s₂) :
    s₂.procs.countP (·.exited.isNone) ≤ 1 ∧
    (∀ proc ∈ s₂.procs.drop s₁.procs.length, s₁.waiters.length ≤ proc.owner + 1 ∧
      (s₁.stopped → s₁.waiters.length ≤ proc.owner)) ∧
    (∀ p, s₂.process = some p →
      ∃ proc, s₂.procs[p]? = some proc ∧ proc.owner + 1 = s₂.waiters.length) ∧
    (s₂.starting = none → s₂.waiters ≠ [] → s₂.process ≠ none) := by
  have hs₁ := h₁.keeps .start InOrder.step
  have hfollows := h₂.keeps (.refl hs₁) Follows.step
  have hs₂ := hfollows.inOrder
  refine ⟨hs₂.alive_le_one, fun proc hproc => ?_, fun p hp => ?_, fun hst => ?_⟩
  · obtain ⟨i, hlt, hi⟩ := List.getElem_of_mem hproc
    rw [List.getElem_drop] at hi
    exact hfollows.started (Nat.le_add_right _ i) (hi ▸ List.getElem?_eq_getElem _)
  · obtain ⟨proc, hproc, howner, -⟩ := hs₂.process hp
    exact ⟨proc, hproc, howner⟩
  · exact hs₂.present (by rw [hst]; nofun)

/-- The first agent has ended when it is stopped, and then a second one is started. -/
theorem one_agent_at_a_time_second : ∃ s₁ s₂,
    Machine.Reaches (step sampleGatewayEnv) (inTurn sampleGatewayEnv) {} s₁ ∧
    Machine.Reaches (step sampleGatewayEnv) (inTurn sampleGatewayEnv) s₁ s₂ ∧ s₁.stopped ∧
    ∀ p, s₂.process = some p → ∃ proc, s₂.procs[p]? = some proc ∧ proc.owner + 1 = 2 := by
  have h₁ : Machine.Reaches (step sampleGatewayEnv) (inTurn sampleGatewayEnv) {}
      { completed with stopped := true } :=
    Machine.reaches_replay (completion ++ [.stopAgent]) rfl
  have h₂ : Machine.Reaches (step sampleGatewayEnv) (inTurn sampleGatewayEnv)
      { completed with stopped := true } _ :=
    Machine.reaches_replay [.startAgent, .launch none] rfl
  exact ⟨_, _, h₁, h₂, rfl, (one_agent_at_a_time h₁ h₂).2.2.1⟩

def stoppedInBackoff : List GatewayEvent :=
  [.startAgent, .launch none, .enter 0, .exit 0 (some "exit status 1: 429"), .waited 0 "", .stopAgent]

def stoppedAgent : Supervisor :=
  (Machine.replay (step sampleGatewayEnv) Machine.always stoppedInBackoff {}).getD {}

/-- The stopped agent is restarted although another one has been accepted: two processes are alive,
and `g.process` belongs to the first agent. -/
theorem stopped_agent_returns : ∃ s₂,
    Machine.Reaches (step sampleGatewayEnv) Machine.always {} stoppedAgent ∧
    Machine.Reaches (step sampleGatewayEnv) Machine.always stoppedAgent s₂ ∧
    s₂.procs.countP (·.exited.isNone) = 2 ∧
    (stoppedAgent.stopped ∧ ∃ proc ∈ s₂.procs.drop stoppedAgent.procs.length,
      proc.owner < stoppedAgent.waiters.length) ∧
    ∃ p proc, s₂.process = some p ∧ s₂.procs[p]? = some proc ∧ proc.owner + 1 < s₂.waiters.length :=
  ⟨_, Machine.reaches_replay stoppedInBackoff rfl,
    Machine.reaches_replay
      [.startAgent, .stopEnds, .launch none, .restart 0 none, .adopt 0] rfl,
    rfl, ⟨rfl, { owner := 0 }, List.mem_of_getLast? rfl, by decide⟩, 2, { owner := 0 }, rfl, rfl,
    by decide⟩

end Supervisor

end Uncworks
