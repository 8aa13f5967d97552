import Uncworks.Controller.Cluster
import Uncworks.Machine.Runs
import Uncworks.Server.Api

/-!
# The limit of concurrent runs

`CreateAgentRun` counts the runs that are not finished, refuses if there are too many, and then creates
the AgentRun.  Many calls may be under way at once, and a call that cannot list the runs goes on
without a count.
-/

namespace Uncworks

open List

structure CreateAgentRunSpec where
  prompt : String := ""
  specContent : String := ""
  modelTier : String := ""

def validTiers : List String :=
  ["", "default", "default-cloud", "premium", "ci", "deepseek-v3.1", "deepseek-v3.2", "qwen3:8b",
    "llama3.1:8b", "qwen2.5:0.5b", "qwen3-coder", "qwen3-235b", "mistral-medium", "claude-sonnet-4",
    "claude-haiku", "claude-sonnet-4.6", "gpt-4.1-mini", "gemini-flash", "gemini-3-flash",
    "gpt-oss-120b-free", "qwen3-coder-free"]

def validateSpec (lib : Go.Lib) : Option CreateAgentRunSpec → Except ApiError CreateAgentRunSpec
  | none => .error ⟨.invalidArgument, "invalid input: spec is required"⟩
  | some spec =>
    if spec.prompt = "" ∧ spec.specContent = "" then
      .error ⟨.invalidArgument, "invalid input: prompt is required"⟩
    else if 32 * 1024 < spec.prompt.utf8ByteSize then
      .error ⟨.invalidArgument, "invalid input: prompt exceeds 32KB limit"⟩
    else if spec.modelTier ∉ validTiers then
      .error ⟨.invalidArgument, s!"invalid input: unknown model_tier {lib.quote spec.modelTier}"⟩
    else .ok spec

/-- The first part of `CreateAgentRun`: the rate limit and the limit of concurrent runs.  `active`
is what `countActiveRuns` returns, if it is called and succeeds. -/
def checkLimits (maxConcurrentRuns : ℤ) (allowed : Bool) (active : Except String ℕ) :
    Except ApiError (Option ℕ) :=
  if !allowed then
    .error ⟨.resourceExhausted, "unavailable: rate limit exceeded for CreateAgentRun"⟩
  else if 0 < maxConcurrentRuns then match active with
    | .error _ => .ok none
    | .ok n =>
      if maxConcurrentRuns ≤ n then .error ⟨.resourceExhausted,
        s!"unavailable: concurrent run limit reached ({n}/{maxConcurrentRuns} active), try again later"⟩
      else .ok (some n)
  else .ok none

/-- The second part of `CreateAgentRun`: the name of the run that is created.  `name` is a generated
one, `err` the error of the create call. -/
def createName (lib : Go.Lib) (spec : Option CreateAgentRunSpec) (name : Except String String)
    (err : Option String) : Except ApiError String := do
  let _ ← validateSpec lib spec
  match name with
  | .error text => .error ⟨.internal, s!"generate name: {text}"⟩
  | .ok name => match err with
    | some text => .error ⟨.internal, s!"create agentrun CRD: {text}"⟩
    | none => .ok name

structure AdmittedRun extends AgentRun where
  viaAPI : Bool

namespace AdmittedRun

variable (r : AdmittedRun)

def active : Bool := !isTerminalPhase (crdPhaseToProto r.status.phase)

def activeViaAPI : Bool := r.viaAPI && r.active

theorem active_eq : r.active = !isTerminal r.status.phase := by
  rw [active, isTerminalPhase_crdPhaseToProto]

end AdmittedRun

structure CreateCall where
  spec : Option CreateAgentRunSpec
  /-- How many active runs it has counted. -/
  counted : Option ℕ := none
  /-- How many runs calls had created when it counted. -/
  seen : ℕ := 0
  result : Option (Except ApiError String) := none

structure Admissions where
  runs : List AdmittedRun := []
  calls : List CreateCall := []
  /-- How many runs calls have created. -/
  created : ℕ := 0

/-- What can happen: the two parts of a call, AgentRuns that are created in other ways, and what
becomes of the AgentRuns. -/
inductive AdmissionEvent where
  | call (spec : Option CreateAgentRunSpec) (allowed : Bool) (listError : Option String)
  | create (k : ℕ) (name : Except String String) (err : Option String)
  | createElse (run : AgentRun)
  | reconcile (i : ℕ) (calls : Calls)
  | edit (i : ℕ) (object : AgentRun)
  | delete (i : ℕ)

namespace Admissions

variable (lib : Go.Lib) (maxConcurrentRuns : ℤ) (s : Admissions)

def countActiveRuns (listError : Option String) : Except String ℕ :=
  match listError with
  | some text => .error s!"list agentruns: {text}"
  | none => .ok (s.runs.countP (·.active))

def activeViaAPI : ℕ := s.runs.countP (·.activeViaAPI)

def begin_ (spec : Option CreateAgentRunSpec) (allowed : Bool) (listError : Option String) :
    CreateCall :=
  match checkLimits maxConcurrentRuns allowed (s.countActiveRuns listError) with
  | .error err => { spec, result := some (.error err) }
  | .ok counted => { spec, counted, seen := s.created }

def newRun (name : String) : AdmittedRun where
  name := name
  status := { phase := .pending, message := "Queued" }
  viaAPI := true

def finish (k : ℕ) (c : CreateCall) (result : Except ApiError String) : Admissions :=
  match result with
  | .error _ => { s with calls := s.calls.set k { c with result := some result } }
  | .ok name =>
    { runs := s.runs ++ [newRun name]
      calls := s.calls.set k { c with result := some result }
      created := s.created + 1 }

def write (i : ℕ) (r : AdmittedRun) (object : AgentRun) : Admissions :=
  { s with runs := s.runs.set i { r with toAgentRun := object } }

/-- The state after an event, if the event can happen.  A name can be used once. -/
def step : AdmissionEvent → Option Admissions
  | .call spec allowed listError => some
      { s with calls := s.calls ++ [s.begin_ maxConcurrentRuns spec allowed listError] }
  | .create k name err => s.calls[k]?.bind fun c =>
    if c.result.isSome then none
    else if (createName lib c.spec name err).toOption.any fun name => s.runs.any (·.name = name) then
      none
    else some (s.finish k c (createName lib c.spec name err))
  | .createElse run => some { s with runs := s.runs ++ [{ run with viaAPI := false }] }
  | .reconcile i calls => s.runs[i]?.map fun r => s.write i r (Uncworks.reconcile calls r.toAgentRun)
  | .edit i object => s.runs[i]?.bind fun r =>
    if object.name = r.name ∧ object.workflowID = r.workflowID ∧
        object.status.phase = r.status.phase then some (s.write i r object)
    else none
  | .delete i => some { s with runs := s.runs.eraseIdx i }

/-- A call that creates a run has counted the runs, and no other call has created one since. -/
def fresh : AdmissionEvent → Bool
  | .create k name err => s.calls[k]?.all fun c =>
    (createName lib c.spec name err).toOption.isNone || (c.counted.isSome && c.seen = s.created)
  | _ => true

/-! ## What a step does -/

variable {lib maxConcurrentRuns s} {s' : Admissions}

theorem step_create {k name err} (h : s.step lib maxConcurrentRuns (.create k name err) = some s') :
    ∃ c, s.calls[k]? = some c ∧ c.result = none ∧
      s' = s.finish k c (createName lib c.spec name err) := by
  obtain ⟨c, hc, h⟩ := Option.bind_eq_some_iff.1 h
  split_ifs at h with hresult
  cases h
  exact ⟨c, hc, by simpa using hresult, rfl⟩

theorem step_reconcile {i calls} (h : s.step lib maxConcurrentRuns (.reconcile i calls) = some s') :
    ∃ r, s.runs[i]? = some r ∧ s' = s.write i r (Uncworks.reconcile calls r.toAgentRun) := by
  obtain ⟨r, hr, rfl⟩ := Option.map_eq_some_iff.1 h
  exact ⟨r, hr, rfl⟩

theorem step_edit {i object} (h : s.step lib maxConcurrentRuns (.edit i object) = some s') :
    ∃ r, s.runs[i]? = some r ∧ object.workflowID = r.workflowID ∧
      object.status.phase = r.status.phase ∧ s' = s.write i r object := by
  obtain ⟨r, hr, h⟩ := Option.bind_eq_some_iff.1 h
  split_ifs at h with hsame
  cases h
  exact ⟨r, hr, hsame.2.1, hsame.2.2, rfl⟩

theorem begin_counted {spec allowed listError n} (h : (s.begin_ maxConcurrentRuns spec allowed listError).counted = some n) :
    n = s.runs.countP (·.active) ∧ (n : ℤ) < maxConcurrentRuns := by
  unfold begin_ checkLimits at h
  cases listError with
  | some text =>
    simp only [countActiveRuns] at h
    split_ifs at h
  | none =>
    simp only [countActiveRuns] at h
    split_ifs at h with hallowed hmax hfull
    cases h
    exact ⟨rfl, by omega⟩

theorem begin_seen_le {spec allowed listError} :
    (s.begin_ maxConcurrentRuns spec allowed listError).seen ≤ s.created := by
  unfold begin_
  split
  · exact Nat.zero_le _
  · exact Nat.le_refl _

/-! ## The invariant -/

variable (maxConcurrentRuns s)

/-- The limit holds, and a count since which no call has created a run is still an upper bound. -/
structure Bounded : Prop where
  started : ∀ r ∈ s.runs, r.viaAPI → isTerminal r.status.phase → r.workflowID ≠ ""
  limit : (s.activeViaAPI : ℤ) ≤ maxConcurrentRuns
  seen : ∀ c ∈ s.calls, c.seen ≤ s.created
  counted : ∀ c ∈ s.calls, ∀ n, c.counted = some n →
    (n : ℤ) < maxConcurrentRuns ∧ (c.seen = s.created → s.activeViaAPI ≤ n)

namespace Bounded

variable {maxConcurrentRuns s}

theorem start (hmax : 0 < maxConcurrentRuns) : ({} : Admissions).Bounded maxConcurrentRuns where
  started _ hr := nomatch hr
  limit := by
    have hnone : ({} : Admissions).activeViaAPI = 0 := rfl
    exact Int.le_of_lt hmax
  seen _ hc := nomatch hc
  counted _ hc := nomatch hc

theorem setRuns (h : s.Bounded maxConcurrentRuns) {runs}
    (hstarted : ∀ r ∈ runs, r.viaAPI → isTerminal r.status.phase → r.workflowID ≠ "")
    (hactive : ({ s with runs } : Admissions).activeViaAPI ≤ s.activeViaAPI) :
    ({ s with runs } : Admissions).Bounded maxConcurrentRuns where
  started := hstarted
  limit := Int.le_trans (Int.ofNat_le.2 hactive) h.limit
  seen := h.seen
  counted c hc n hn := by
    obtain ⟨hlt, hle⟩ := h.counted c hc n hn
    exact ⟨hlt, fun hseen => hactive.trans (hle hseen)⟩

theorem call (h : s.Bounded maxConcurrentRuns) (spec : Option CreateAgentRunSpec) (allowed : Bool)
    (listError : Option String) :
    ({ s with calls := s.calls ++ [s.begin_ maxConcurrentRuns spec allowed listError] } :
      Admissions).Bounded maxConcurrentRuns where
  started := h.started
  limit := h.limit
  seen := forall_mem_append.2 ⟨h.seen, forall_mem_singleton.2 begin_seen_le⟩
  counted := by
    refine forall_mem_append.2 ⟨h.counted, forall_mem_singleton.2 fun n hn => ?_⟩
    obtain ⟨rfl, hlt⟩ := begin_counted hn
    refine ⟨hlt, fun _ => countP_mono_left fun r _ hr => ?_⟩
    exact (Bool.and_eq_true_iff.1 hr).2

theorem finish (h : s.Bounded maxConcurrentRuns) {k c} (hc : s.calls[k]? = some c) {result}
    (hfresh : result.toOption.isNone ∨ c.counted.isSome ∧ c.seen = s.created) :
    (s.finish k c result).Bounded maxConcurrentRuns := by
  have hmem := mem_of_getElem? hc
  -- the call keeps its count when it ends
  have hset : ∀ {P : CreateCall → Prop}, (∀ c' ∈ s.calls, P c') → P { c with result := some result } →
      ∀ c' ∈ s.calls.set k { c with result := some result }, P c' := by
    intro P hP hnew c' hc'
    obtain hold | rfl := mem_or_eq_of_mem_set hc'
    · exact hP c' hold
    · exact hnew
  cases result with
  | error err => exact {
      started := h.started
      limit := h.limit
      seen := hset h.seen (h.seen c hmem)
      counted := hset h.counted (h.counted c hmem) }
  | ok name =>
    obtain hnone | ⟨hcounted, hseen⟩ := hfresh
    · cases hnone
    obtain ⟨n, hn⟩ := Option.isSome_iff_exists.1 hcounted
    obtain ⟨hlt, hle⟩ := h.counted c hmem n hn
    have hactive : (s.finish k c (.ok name)).activeViaAPI = s.activeViaAPI + 1 :=
      countP_append.trans (congrArg _ countP_singleton)
    exact {
      started := forall_mem_append.2 ⟨h.started, forall_mem_singleton.2 nofun⟩
      limit := by
        omega
      seen := hset (fun c' hc' => Nat.le_succ_of_le (h.seen c' hc')) (Nat.le_succ_of_le (h.seen c hmem))
      counted := by
        have hold : ∀ c' ∈ s.calls, ∀ n, c'.counted = some n → (n : ℤ) < maxConcurrentRuns ∧
            (c'.seen = s.created + 1 → (s.finish k c (.ok name)).activeViaAPI ≤ n) := by
          intro c' hc' m hm
          refine ⟨(h.counted c' hc' m hm).1, fun hnew => ?_⟩
          have := h.seen c' hc'
          omega
        exact hset hold (hold c hmem) }

theorem write (h : s.Bounded maxConcurrentRuns) {i r object}
    (hr : s.runs[i]? = some r)
    (hstarted : r.viaAPI → (isTerminal r.status.phase → isTerminal object.status.phase) ∧
      (isTerminal object.status.phase → object.workflowID ≠ "")) :
    (s.write i r object).Bounded maxConcurrentRuns := by
  refine h.setRuns (fun r' hr' => ?_) ?_
  · obtain hold | rfl := mem_or_eq_of_mem_set hr'
    · exact h.started r' hold
    · exact fun hvia => (hstarted hvia).2
  · obtain ⟨hi, rfl⟩ := List.getElem?_eq_some_iff.1 hr
    have himp : ({ s.runs[i] with toAgentRun := object } : AdmittedRun).activeViaAPI = true →
        s.runs[i].activeViaAPI = true := by
      intro hact
      simp only [AdmittedRun.activeViaAPI, AdmittedRun.active_eq, Bool.and_eq_true,
        Bool.not_eq_true'] at hact ⊢
      obtain ⟨hvia, hgoes⟩ := hact
      refine ⟨hvia, Bool.eq_false_iff.2 fun hterm => ?_⟩
      exact Bool.false_ne_true (hgoes.symm.trans ((hstarted hvia).1 hterm))
    show countP _ (s.runs.set i _) ≤ _
    rw [countP_set hi]
    have hpos : s.runs[i].activeViaAPI = true → 0 < s.runs.countP (·.activeViaAPI) := fun hact =>
      countP_pos_iff.2 ⟨_, getElem_mem hi, hact⟩
    unfold Admissions.activeViaAPI
    split_ifs with h₁ h₂ h₂
    · have := hpos h₁
      omega
    · omega
    · exact absurd (himp h₂) h₁
    · omega

theorem step {s s' : Admissions} {e} (h : s.Bounded maxConcurrentRuns) (hfresh : s.fresh lib e)
    (hstep : s.step lib maxConcurrentRuns e = some s') : s'.Bounded maxConcurrentRuns := by
  cases e with
  | call spec allowed listError =>
    cases hstep
    exact h.call spec allowed listError
  | create k name err =>
    obtain ⟨c, hc, -, rfl⟩ := step_create hstep
    apply h.finish hc
    simpa [fresh, hc] using hfresh
  | createElse run =>
    cases hstep
    refine h.setRuns ?_ ?_
    · exact forall_mem_append.2 ⟨h.started, forall_mem_singleton.2 nofun⟩
    · simp [Admissions.activeViaAPI, AdmittedRun.activeViaAPI]
  | reconcile i calls =>
    obtain ⟨r, hr, rfl⟩ := step_reconcile hstep
    exact h.write hr fun hvia => reconcile_started (h.started r (mem_of_getElem? hr) hvia) calls
  | edit i object =>
    obtain ⟨r, hr, hid, hphase, rfl⟩ := step_edit hstep
    refine h.write hr fun hvia => ?_
    rw [hid, hphase]
    exact ⟨fun hterm => hterm, h.started r (mem_of_getElem? hr) hvia⟩
  | delete i =>
    cases hstep
    refine h.setRuns (fun r hr => h.started r (mem_of_mem_eraseIdx hr)) ?_
    exact (eraseIdx_sublist s.runs i).countP_le

end Bounded

/-- If each call that creates an AgentRun has counted the runs and no other call has created one
since, at most `maxConcurrentRuns` AgentRuns that calls have created are not finished. -/
theorem active_le_max {lib : Go.Lib} {maxConcurrentRuns : ℤ} {s : Admissions}
    (hmax : 0 < maxConcurrentRuns)
    (h : Machine.Reaches (step lib maxConcurrentRuns) (fresh lib) {} s) :
    (s.activeViaAPI : ℤ) ≤ maxConcurrentRuns :=
  (h.keeps (I := Bounded maxConcurrentRuns) (.start hmax) Bounded.step).limit

def oneByOne : List AdmissionEvent :=
  [.call (some { prompt := "fix the build" }) true none, .create 0 (.ok "ar-aaaa") none,
    .call (some { prompt := "update the docs" }) true none]

def bothCount : List AdmissionEvent :=
  [.call (some { prompt := "fix the build" }) true none,
    .call (some { prompt := "update the docs" }) true none,
    .create 0 (.ok "ar-aaaa") none, .create 1 (.ok "ar-bbbb") none]

def notListed : List AdmissionEvent :=
  [.call (some { prompt := "fix the build" }) true none, .create 0 (.ok "ar-aaaa") none,
    .call (some { prompt := "update the docs" }) true (some "etcdserver: request timed out"),
    .create 1 (.ok "ar-bbbb") none]

def afterOneByOne : Admissions :=
  (Machine.replay (step sampleEnv.toLib 1) (fresh sampleEnv.toLib) oneByOne {}).getD {}

def afterBothCount : Admissions :=
  (Machine.replay (step sampleEnv.toLib 1) Machine.always bothCount {}).getD {}

def afterNotListed : Admissions :=
  (Machine.replay (step sampleEnv.toLib 1) Machine.always notListed {}).getD {}

theorem active_le_max_one :
    Machine.Reaches (step sampleEnv.toLib 1) (fresh sampleEnv.toLib) {} afterOneByOne ∧
      afterOneByOne.activeViaAPI = 1 ∧ (afterOneByOne.activeViaAPI : ℤ) ≤ 1 := by
  have hreach : Machine.Reaches (step sampleEnv.toLib 1) (fresh sampleEnv.toLib) {} afterOneByOne :=
    Machine.reaches_replay oneByOne rfl
  exact ⟨hreach, rfl, active_le_max (by decide) hreach⟩

/-- The limit is one, and two runs are active. -/
theorem active_exceeds_max :
    (Machine.Reaches (step sampleEnv.toLib 1) Machine.always {} afterBothCount ∧
      afterBothCount.activeViaAPI = 2) ∧
    Machine.Reaches (step sampleEnv.toLib 1) Machine.always {} afterNotListed ∧
      afterNotListed.activeViaAPI = 2 :=
  ⟨⟨Machine.reaches_replay bothCount rfl, rfl⟩, Machine.reaches_replay notListed rfl, rfl⟩

end Admissions

end Uncworks
