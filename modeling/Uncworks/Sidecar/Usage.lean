import Uncworks.Sidecar.Supervision

/-!
# Token accounting over the stages of a run

`StartAgent` refuses a stage once the counted output tokens reach the budget, and the end of every
process writes the counted tokens to `usage.json`.
-/

namespace Uncworks

/-- A stage was started below the budget; what was written is the usage of the whole run. -/
def UsageNote.ok (env : GatewayEnv) : UsageNote → Prop
  | stage total => total.output < env.maxOutputTokens
  | persisted written total => written = total

namespace Supervisor

/-- When `StartAgent` is called, no stage before the last one has used output tokens; when
`usage.json` is written, none has used tokens; and a usage is reported at the end of a message, not
while `StartAgent` stops the agent. -/
def accounted (s : Supervisor) : GatewayEvent → Bool
  | .startAgent => s.earlier.output = 0
  | .waited .. => !s.hasUsage || s.earlier = 0
  | .line _ (.messageEnd usage _) => usage.getD 0 = 0 || (s.llmSpan && s.starting.isNone)
  | _ => true

structure Counted (env : GatewayEnv) (s : Supervisor) : Prop where
  total : s.spent = s.earlier + s.tokens
  admitted : s.starting ≠ none → s.spent.output < env.maxOutputTokens
  notes : ∀ note ∈ s.notes, note.ok env

variable {env : GatewayEnv} {s s' : Supervisor} {e : GatewayEvent}

theorem output_lt_of_not_declines (h : s.declines env = false) :
    s.tokens.output < env.maxOutputTokens := by
  have hlt : ¬ env.maxOutputTokens.toNat ≤ s.tokens.output.toNat := by
    intro hle
    simp [declines, Gateway.checkOutputTokenBudget, gateway, hle] at h
  omega

namespace Counted

theorem start : Counted env {} := ⟨rfl, nofun, nofun⟩

theorem note (hs : s.Counted env) {note} (hnote : note.ok env) :
    ∀ n ∈ s.notes ++ [note], n.ok env :=
  List.forall_mem_append.2 ⟨hs.notes, List.forall_mem_singleton.2 hnote⟩

theorem persist (hs : s.Counted env) (he : !s.hasUsage || s.earlier = 0) :
    s.persist.Counted env := by
  unfold Supervisor.persist
  split
  · rename_i huse
    have hzero : s.earlier = 0 := by simpa [huse] using he
    refine ⟨hs.total, hs.admitted, hs.note ?_⟩
    show s.tokens = s.spent
    rw [hs.total, hzero, Usage.zero_add]
  · exact hs

theorem messageEnd (hs : s.Counted env) {u} (hu : u = 0 ∨ s.llmSpan ∧ s.starting = none)
    (procs : List Proc) :
    Counted env { s with
      procs := procs
      tokens := if s.llmSpan then s.tokens + u else s.tokens
      llmSpan := false
      spent := s.spent + u } := by
  rcases hu with rfl | ⟨hspan, hst⟩
  · refine ⟨?_, ?_, hs.notes⟩
    · rw [Usage.add_zero, Usage.add_zero, ite_self]
      exact hs.total
    · show s.starting ≠ none → (s.spent + 0).output < _
      rw [Usage.add_zero]
      exact hs.admitted
  · refine ⟨?_, fun hne => absurd hst hne, hs.notes⟩
    rw [if_pos hspan, hs.total, Usage.add_assoc]

theorem step (hs : s.Counted env) (he : s.accounted e) (h : s.step env e = some s') :
    s'.Counted env := by
  cases effect_of_step h with
  | declined => exact hs
  | starting _ hdeclines =>
    have hlt := output_lt_of_not_declines hdeclines
    refine { hs with admitted := fun _ => ?_ }
    rw [hs.total, Usage.add_output, of_decide_eq_true he, Int.zero_add]
    exact hlt
  | stopEnds hst => exact { hs with admitted := fun _ => hs.admitted (by rw [hst]; nofun) }
  | launchFails => exact { hs with admitted := fun hne => absurd rfl hne }
  | launch _ hst =>
    exact ⟨(Usage.add_zero _).symm, fun hne => absurd rfl hne,
      hs.note (hs.admitted (by rw [hst]; nofun))⟩
  | line _ l =>
    cases l with
    | messageStart assistant => exact { hs with }
    | messageEnd usage text =>
      simp only [accounted, Bool.or_eq_true, decide_eq_true_eq, Bool.and_eq_true,
        Option.isNone_iff_eq_none] at he
      exact hs.messageEnd he _
  | @waited k _ p proc =>
    have hsettled (next : String × WaitPhase) :
        (s.settle k p { proc with reaped := true } next).Counted env := { hs with }
    exact (hsettled _).persist he
  | _ => exact { hs with }

end Counted

/-- Every stage is started below the token budget, over all earlier stages, and what is written to
`usage.json` is the sum over all stages. -/
theorem usage_of_all_stages (h : Machine.Reaches (step env) accounted {} s) :
    ∀ note ∈ s.notes, note.ok env :=
  (h.keeps .start Counted.step).notes

def budgetEnv : GatewayEnv := { sampleGatewayEnv with agentMaxOutputTokens := some 10 }

def stageOf (k : ℕ) : List GatewayEvent :=
  [.startAgent, .launch none, .enter k, .line k (.messageStart true),
    .line k (.messageEnd (some { input := 1, output := 6 }) none), .exit k none, .waited k "",
    .finish k]

/-- One stage that uses tokens, and another one that is started after it. -/
theorem usage_of_all_stages_two : ∃ s, Machine.Reaches (step budgetEnv) accounted {} s ∧
    s.notes.length = 3 ∧ ∀ note ∈ s.notes, note.ok budgetEnv := by
  have h : Machine.Reaches (step budgetEnv) accounted {} _ :=
    Machine.reaches_replay (stageOf 0 ++ [.startAgent, .launch none]) rfl
  exact ⟨_, h, rfl, usage_of_all_stages h⟩

/-- Three stages: the third one is started after twelve output tokens, and `usage.json` reports
six. -/
theorem usage_of_last_stage : ∃ s, Machine.Reaches (step budgetEnv) Machine.always {} s ∧
    .stage ⟨2, 12, 0⟩ ∈ s.notes ∧ budgetEnv.maxOutputTokens = 10 ∧
    .persisted ⟨1, 6, 0⟩ ⟨2, 12, 0⟩ ∈ s.notes ∧ s.usageJSON = some ⟨1, 6, 0⟩ := by
  have h : Machine.Reaches (step budgetEnv) Machine.always {} _ :=
    Machine.reaches_replay (stageOf 0 ++ stageOf 1 ++ [.startAgent, .launch none]) rfl
  exact ⟨_, h, by decide, rfl, by decide, rfl⟩

end Supervisor

end Uncworks
