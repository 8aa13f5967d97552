import Uncworks.Machine.Runs
import Uncworks.Sidecar.Gateway

/-!
# The agent processes of a gateway

`StartAgent`, `StopAgent`, `SendInput` and `NotifyEvent` run concurrently with the agent processes
and with one goroutine per accepted `StartAgent`, `waitForProcess`: it waits for the process,
restarts it after a rate limit or with the fallback model, and writes the final state.
-/

namespace Uncworks

open List Option

/-! ## Errors of an agent -/

def isRateLimitError (lib : Go.Lib) (stderrOutput : String) : Bool :=
  ["429", "ratelimiterror", "rate limit", "rate_limit"].any (Go.contains (lib.toLower stderrOutput))

def isOverloadedError (lib : Go.Lib) (s : String) : Bool :=
  ["503", "overloaded", "service unavailable", "overload"].any (Go.contains (lib.toLower s))

def maxRateLimitRetries : ℕ := 3

/-! ## Token usage -/

@[ext]
structure Usage where
  input : ℤ := 0
  output : ℤ := 0
  cacheRead : ℤ := 0
  deriving DecidableEq, Repr

namespace Usage

instance : Zero Usage := ⟨{}⟩

instance : Add Usage :=
  ⟨fun u v => ⟨u.input + v.input, u.output + v.output, u.cacheRead + v.cacheRead⟩⟩

@[simp] theorem zero_output : (0 : Usage).output = 0 := rfl

@[simp] theorem add_output (u v : Usage) : (u + v).output = u.output + v.output := rfl

theorem zero_add (u : Usage) : 0 + u = u :=
  Usage.ext (Int.zero_add _) (Int.zero_add _) (Int.zero_add _)

theorem add_zero (u : Usage) : u + 0 = u :=
  Usage.ext (Int.add_zero _) (Int.add_zero _) (Int.add_zero _)

theorem add_assoc (u v w : Usage) : u + v + w = u + (v + w) :=
  Usage.ext (Int.add_assoc _ _ _) (Int.add_assoc _ _ _) (Int.add_assoc _ _ _)

end Usage

/-- A line of an agent's output: a message begins, or it ends with a usage and, if its stop reason
is an error, with the text of the error. -/
inductive AgentLine where
  | messageStart (assistant : Bool)
  | messageEnd (usage : Option Usage) (errorMessage : Option String)
  deriving DecidableEq

structure GatewayEnv where
  lib : Go.Lib
  debugMode : Bool := false
  /-- `AGENT_MAX_OUTPUT_TOKENS`, if it is a number. -/
  agentMaxOutputTokens : Option ℤ := none
  /-- `AGENT_FALLBACK_MODEL`. -/
  fallbackModel : String := ""

def GatewayEnv.maxOutputTokens (env : GatewayEnv) : ℤ :=
  match env.agentMaxOutputTokens with
  | some n => if 0 < n then n else 32000
  | none => 32000

/-! ## Processes and their goroutines -/

structure Proc extends AgentProcess where
  /-- The accepted `StartAgent` it was started or restarted for. -/
  owner : ℕ
  /-- The exit status, once it has exited. -/
  exited : Option (Option String) := none
  /-- Whether `cmd.Wait` has returned. -/
  reaped : Bool := false
  llmError : String := ""

def AgentProcessState.isFinal : AgentProcessState → Bool
  | .completed | .failed => true
  | _ => false

/-- `detectLLMError`: the first error of the model is kept. -/
def Proc.detectLLMError (proc : Proc) (errorMessage : Option String) : Proc :=
  match errorMessage with
  | none => proc
  | some text =>
    let errMsg := if text = "" then "LLM returned stopReason:error with no message" else text
    { proc with llmError := if proc.llmError = "" then errMsg else proc.llmError }

/-- What `waitForSingleProcess` leaves in `exitError` and returns.  A second `cmd.Wait` fails; a
clean exit after an error of the model counts as a failure. -/
def Proc.waitOutcome (proc : Proc) (status : Option String) (again : String) :
    String × Option String :=
  match if proc.reaped then some again else status with
  | some err => (err, some err)
  | none =>
    if proc.llmError ≠ "" then (proc.llmError, some s!"failed: LLM error: {proc.llmError}")
    else (proc.exitError, none)

/-- Which process of its agent a goroutine waits for. -/
inductive WaitStage where
  | first
  | retry (attempt : ℕ)
  | fallback
  deriving DecidableEq

inductive WaitPhase where
  /-- It has not read `g.process` yet. -/
  | entering
  | waiting (stage : WaitStage) (proc : ℕ)
  /-- It sleeps before it restarts a process. -/
  | backoff (attempt : ℕ) (proc : ℕ) (err : String)
  | fallingBack (proc : ℕ) (err : String)
  /-- It has restarted a process and has not set `g.process` yet. -/
  | launched (stage : WaitStage) (proc : ℕ)
  /-- It is about to write the final state. -/
  | closing (proc : ℕ) (err : Option String)
  | done
  deriving DecidableEq

namespace WaitPhase

def proc? : WaitPhase → Option ℕ
  | waiting _ p | backoff _ p _ | fallingBack p _ | launched _ p | closing p _ => some p
  | entering | done => none

/-- Whether a restart may follow without another exit of a process. -/
def retries : WaitPhase → Bool
  | backoff .. | fallingBack .. => true
  | _ => false

end WaitPhase

section Retry

variable (env : GatewayEnv)

def fallBack (p : ℕ) (exitError err : String) : WaitPhase :=
  if isOverloadedError env.lib (exitError ++ err) && env.fallbackModel ≠ "" then .fallingBack p err
  else .closing p (some err)

def rateLimitedText (exitError : String) : String :=
  s!"Rate limited after {maxRateLimitRetries} retries: {exitError}"

def endRetries (p : ℕ) (exitError err : String) : String × WaitPhase :=
  (rateLimitedText exitError, fallBack env p (rateLimitedText exitError) err)

/-- What follows once `waitForSingleProcess` has returned: the `exitError` of the process and the
next phase. -/
def afterWait (stage : WaitStage) (p : ℕ) (exitError : String) : Option String → String × WaitPhase
  | none => (exitError, .closing p none)
  | some err => match stage with
    | .first =>
      if isRateLimitError env.lib (exitError ++ err) then (exitError, .backoff 1 p err)
      else (exitError, fallBack env p exitError err)
    | .retry attempt =>
      if isRateLimitError env.lib (exitError ++ err) && attempt < maxRateLimitRetries then
        (exitError, .backoff (attempt + 1) p err)
      else endRetries env p exitError err
    | .fallback => (exitError, .closing p (some err))

/-- What follows if a process could not be restarted after a backoff. -/
def afterBackoff (attempt p : ℕ) (exitError err : String) : String × WaitPhase :=
  if attempt < maxRateLimitRetries then (exitError, .backoff (attempt + 1) p err)
  else endRetries env p exitError err

theorem fallBack_proc? (p : ℕ) (exitError err : String) :
    (fallBack env p exitError err).proc? = some p := by
  unfold fallBack
  split <;> rfl

theorem endRetries_proc? (p : ℕ) (exitError err : String) :
    (endRetries env p exitError err).2.proc? = some p := by
  simp [endRetries, fallBack_proc?]

theorem afterWait_proc? (stage : WaitStage) (p : ℕ) (exitError : String) (err : Option String) :
    (afterWait env stage p exitError err).2.proc? = some p := by
  cases err with
  | none => rfl
  | some err =>
    cases stage with
    | first =>
      simp only [afterWait]
      split
      · rfl
      · simp [fallBack_proc?]
    | retry attempt =>
      simp only [afterWait]
      split
      · rfl
      · simp [endRetries_proc?]
    | fallback => rfl

theorem afterBackoff_proc? (attempt p : ℕ) (exitError err : String) :
    (afterBackoff env attempt p exitError err).2.proc? = some p := by
  unfold afterBackoff
  split
  · rfl
  · exact endRetries_proc? env p exitError err

end Retry

/-! ## The gateway -/

inductive Starting where
  | stopping
  /-- It is about to start its process; `cleared` says whether it has set `g.process` to nil. -/
  | launching (cleared : Bool)
  deriving DecidableEq

/-- The calls that write the state of a process some time after they have read `g.process`. -/
inductive AgentRequest where
  | sendInput
  | notifyEvent (event : EventType) (payload : String)
  deriving DecidableEq

def AgentRequest.setsState : AgentRequest → Bool
  | sendInput | notifyEvent .waitingForInput _ | notifyEvent .started _ => true
  | notifyEvent _ _ => false

def AgentRequest.write (proc : Proc) : AgentRequest → Proc
  | sendInput => { proc with state := .running, pendingQuestion := "" }
  | notifyEvent .waitingForInput payload =>
    { proc with state := .waitingForInput, pendingQuestion := payload }
  | notifyEvent .started _ => { proc with state := .running }
  | notifyEvent _ _ => proc

theorem AgentRequest.write_state (r : AgentRequest) (proc : Proc) :
    (r.write proc).state = proc.state ∨ (r.setsState ∧ (r.write proc).state.isFinal = false) := by
  cases r with
  | sendInput => exact .inr ⟨rfl, rfl⟩
  | notifyEvent event payload => cases event <;> first | exact .inr ⟨rfl, rfl⟩ | exact .inl rfl

theorem AgentRequest.write_owner (r : AgentRequest) (proc : Proc) :
    (r.write proc).owner = proc.owner ∧ (r.write proc).exited = proc.exited := by
  cases r with
  | sendInput => exact ⟨rfl, rfl⟩
  | notifyEvent event payload => cases event <;> exact ⟨rfl, rfl⟩

/-- A stage was started, or `usage.json` was written; with the usage of the whole run up to then. -/
inductive UsageNote where
  | stage (total : Usage)
  | persisted (written total : Usage)
  deriving DecidableEq

/-- A gateway with all processes it has started, in order.  The goroutine of a `StartAgent` has the
position of that call among the accepted ones. -/
structure Supervisor where
  procs : List Proc := []
  /-- `g.process`. -/
  process : Option ℕ := none
  /-- The `StartAgent` that holds `g.mu`. -/
  starting : Option Starting := none
  waiters : List WaitPhase := []
  /-- The calls that have read `g.process` and not written the state yet. -/
  calls : List (ℕ × AgentRequest) := []
  /-- `g.stopCh` is closed. -/
  stopCh : Bool := false
  /-- `runInputTokens`, `runOutputTokens` and `runCacheReadTokens`. -/
  tokens : Usage := 0
  /-- `activeLLMSpanID` is set. -/
  llmSpan : Bool := false
  usageJSON : Option Usage := none
  /-- A `StopAgent` has returned since the last accepted `StartAgent`. -/
  stopped : Bool := false
  /-- All usage that the agents have reported. -/
  spent : Usage := 0
  /-- What of it was reported before the last accepted `StartAgent`. -/
  earlier : Usage := 0
  notes : List UsageNote := []

inductive GatewayEvent where
  | startAgent
  /-- The interrupted process is no longer running, or the deadline has passed and it is killed. -/
  | stopEnds
  | launch (err : Option String)
  | enter (k : ℕ)
  | exit (p : ℕ) (status : Option String)
  | line (p : ℕ) (l : AgentLine)
  /-- `waitForSingleProcess` returns; `again` is the error of a second `cmd.Wait`. -/
  | waited (k : ℕ) (again : String)
  | restart (k : ℕ) (err : Option String)
  /-- A goroutine sets `g.process` to the process it has restarted. -/
  | adopt (k : ℕ)
  /-- A goroutine gives up its backoff because `g.stopCh` is closed. -/
  | abort (k : ℕ)
  | finish (k : ℕ)
  | request (r : AgentRequest)
  | write (i : ℕ)
  | giveUp (i : ℕ)
  | stopAgent
  | stop
  deriving DecidableEq

namespace Supervisor

variable (env : GatewayEnv) (s : Supervisor)

def gateway : Gateway where
  process := s.process.bind fun p => s.procs[p]?.map Proc.toAgentProcess
  debugMode := env.debugMode
  runOutputTokens := s.tokens.output.toNat
  maxOutputTokens := env.maxOutputTokens.toNat

def getStatus : GetAgentStatusOutput := (s.gateway env).getStatus

def declines : Bool := env.debugMode || (s.gateway env).checkOutputTokenBudget.isSome

def isRunning : Bool := (s.gateway env).process.any (·.state = .running)

def accept : Supervisor :=
  { s with
    procs := s.procs ++ [{ owner := s.waiters.length }]
    process := some s.procs.length
    starting := none
    waiters := s.waiters ++ [.entering]
    tokens := 0
    stopped := false
    earlier := s.spent
    notes := s.notes ++ [.stage s.spent] }

def read (p : ℕ) (proc : Proc) : AgentLine → Supervisor
  | .messageStart assistant => { s with llmSpan := s.llmSpan || assistant }
  | .messageEnd usage errorMessage =>
    { s with
      procs := s.procs.set p (proc.detectLLMError errorMessage)
      tokens := if s.llmSpan then s.tokens + usage.getD 0 else s.tokens
      llmSpan := false
      spent := s.spent + usage.getD 0 }

def hasUsage : Bool := 0 < s.tokens.input || 0 < s.tokens.output

def persist : Supervisor :=
  if s.hasUsage then
    { s with usageJSON := some s.tokens, notes := s.notes ++ [.persisted s.tokens s.spent] }
  else s

def settle (k p : ℕ) (proc : Proc) (next : String × WaitPhase) : Supervisor :=
  { s with
    procs := s.procs.set p { proc with exitError := next.1 }
    waiters := s.waiters.set k next.2 }

def reap (k : ℕ) (stage : WaitStage) (p : ℕ) (proc : Proc) (status : Option String)
    (again : String) : Supervisor :=
  let outcome := proc.waitOutcome status again
  (s.settle k p { proc with reaped := true } (afterWait env stage p outcome.1 outcome.2)).persist

def respawn (k : ℕ) (stage : WaitStage) : Supervisor :=
  { s with
    procs := s.procs ++ [{ owner := k }]
    waiters := s.waiters.set k (.launched stage s.procs.length) }

def close (k p : ℕ) (proc : Proc) (err : Option String) : Supervisor :=
  { s with
    procs := s.procs.set p { proc with
      state := if err.isSome then .failed else .completed
      exitError := if proc.exitError = "" then err.getD "" else proc.exitError }
    waiters := s.waiters.set k .done }

def retry (k : ℕ) (err : Option String) : WaitPhase → Option Supervisor
  | .backoff attempt p text => match err with
    | none => some (s.respawn k (.retry attempt))
    | some _ => s.procs[p]?.map fun proc =>
      s.settle k p proc (afterBackoff env attempt p proc.exitError text)
  | .fallingBack p text => match err with
    | none => some (s.respawn k .fallback)
    | some _ => some { s with waiters := s.waiters.set k (.closing p (some text)) }
  | _ => none

def step : GatewayEvent → Option Supervisor
  | .startAgent =>
    if s.starting.isSome then none
    else if s.declines env then some s
    else some { s with
      starting := some (if s.isRunning env then .stopping else .launching false) }
  | .stopEnds =>
    if s.starting = some .stopping then
      some { s with process := none, starting := some (.launching true) }
    else none
  | .launch err => match s.starting with
    | some (.launching _) => if err.isSome then some { s with starting := none } else some s.accept
    | _ => none
  | .enter k =>
    if s.starting.isSome || s.waiters[k]? ≠ some .entering then none
    else some { s with
      waiters := s.waiters.set k ((s.process.map (.waiting .first)).getD .done) }
  | .exit p status => s.procs[p]?.bind fun proc =>
    if proc.exited.isSome then none
    else some { s with procs := s.procs.set p { proc with exited := some status } }
  | .line p l => s.procs[p]?.bind fun proc => if proc.reaped then none else some (s.read p proc l)
  | .waited k again => match s.waiters[k]? with
    | some (.waiting stage p) => s.procs[p]?.bind fun proc =>
      proc.exited.map fun status => s.reap env k stage p proc status again
    | _ => none
  | .restart k err => s.waiters[k]?.bind (s.retry env k err)
  | .adopt k => match s.waiters[k]? with
    | some (.launched stage p) =>
      if s.starting.isSome then none
      else some { s with process := some p, waiters := s.waiters.set k (.waiting stage p) }
    | _ => none
  | .abort k => match s.waiters[k]? with
    | some (.backoff ..) => if s.stopCh then some { s with waiters := s.waiters.set k .done } else none
    | _ => none
  | .finish k => match s.waiters[k]? with
    | some (.closing p err) => s.procs[p]?.map fun proc => s.close k p proc err
    | _ => none
  | .request r =>
    if s.starting.isSome then none else s.process.map fun p => { s with calls := s.calls ++ [(p, r)] }
  | .write i => s.calls[i]?.bind fun call => s.procs[call.1]?.map fun proc =>
    { s with procs := s.procs.set call.1 (call.2.write proc), calls := s.calls.eraseIdx i }
  | .giveUp i => if i < s.calls.length then some { s with calls := s.calls.eraseIdx i } else none
  | .stopAgent => if s.starting.isSome then none else some { s with stopped := true }
  | .stop => some { s with stopCh := true }

/-! ### The gateway of one process -/

section OneProcess

variable {env s} {p : ℕ} {proc : Proc}

end OneProcess

/-! ### What an event does -/

inductive Effect (env : GatewayEnv) (s : Supervisor) : GatewayEvent → Supervisor → Prop where
  | declined : Effect env s .startAgent s
  | starting (hst : s.starting = none) (hd : s.declines env = false) (st : Starting)
      (hne : st ≠ .launching true) : Effect env s .startAgent { s with starting := some st }
  | stopEnds (hst : s.starting = some .stopping) :
      Effect env s .stopEnds { s with process := none, starting := some (.launching true) }
  | launchFails (err : String) : Effect env s (.launch (some err)) { s with starting := none }
  | launch (cleared : Bool) (hst : s.starting = some (.launching cleared)) :
      Effect env s (.launch none) s.accept
  | enter {k : ℕ} (hst : s.starting = none) (hk : s.waiters[k]? = some .entering) :
      Effect env s (.enter k)
        { s with waiters := s.waiters.set k ((s.process.map (.waiting .first)).getD .done) }
  | exit {p : ℕ} {proc : Proc} (hp : s.procs[p]? = some proc) (status : Option String) :
      Effect env s (.exit p status)
        { s with procs := s.procs.set p { proc with exited := some status } }
  | line {p : ℕ} {proc : Proc} (hp : s.procs[p]? = some proc) (l : AgentLine) :
      Effect env s (.line p l) (s.read p proc l)
  | waited {k : ℕ} {stage : WaitStage} {p : ℕ} {proc : Proc} {status : Option String}
      (hk : s.waiters[k]? = some (.waiting stage p)) (hp : s.procs[p]? = some proc)
      (hx : proc.exited = some status) (again : String) :
      Effect env s (.waited k again) (s.reap env k stage p proc status again)
  | respawn {k : ℕ} {phase : WaitPhase} (hk : s.waiters[k]? = some phase) (hr : phase.retries)
      (stage : WaitStage) : Effect env s (.restart k none) (s.respawn k stage)
  | retryFails {k : ℕ} {phase : WaitPhase} {p : ℕ} {proc : Proc} {next : String × WaitPhase}
      (hk : s.waiters[k]? = some phase) (hr : phase.retries) (hphase : phase.proc? = some p)
      (hp : s.procs[p]? = some proc) (hnext : next.2.proc? = some p) (err : String) :
      Effect env s (.restart k (some err)) (s.settle k p proc next)
  | fallbackFails {k : ℕ} {phase : WaitPhase} {p : ℕ} (hk : s.waiters[k]? = some phase)
      (hr : phase.retries) (hphase : phase.proc? = some p) (err text : String) :
      Effect env s (.restart k (some err))
        { s with waiters := s.waiters.set k (.closing p (some text)) }
  | adopt {k : ℕ} {stage : WaitStage} {p : ℕ} (hst : s.starting = none)
      (hk : s.waiters[k]? = some (.launched stage p)) :
      Effect env s (.adopt k)
        { s with process := some p, waiters := s.waiters.set k (.waiting stage p) }
  | abort {k : ℕ} {phase : WaitPhase} (hk : s.waiters[k]? = some phase) (hne : phase ≠ .done) :
      Effect env s (.abort k) { s with waiters := s.waiters.set k .done }
  | finish {k p : ℕ} {err : Option String} {proc : Proc}
      (hk : s.waiters[k]? = some (.closing p err)) (hp : s.procs[p]? = some proc) :
      Effect env s (.finish k) (s.close k p proc err)
  | request {p : ℕ} (hp : s.process = some p) (r : AgentRequest) :
      Effect env s (.request r) { s with calls := s.calls ++ [(p, r)] }
  | write {i : ℕ} {call : ℕ × AgentRequest} {proc : Proc} (hcall : s.calls[i]? = some call)
      (hp : s.procs[call.1]? = some proc) :
      Effect env s (.write i) { s with
        procs := s.procs.set call.1 (call.2.write proc)
        calls := s.calls.eraseIdx i }
  | giveUp (i : ℕ) : Effect env s (.giveUp i) { s with calls := s.calls.eraseIdx i }
  | stopAgent : Effect env s .stopAgent { s with stopped := true }
  | stop : Effect env s .stop { s with stopCh := true }

variable {env s} {s' : Supervisor} {e : GatewayEvent}

theorem effect_of_retry {k err phase} (hk : s.waiters[k]? = some phase)
    (h : s.retry env k err phase = some s') : Effect env s (.restart k err) s' := by
  unfold retry at h
  split at h
  · rename_i attempt p text
    split at h
    · cases h
      exact .respawn hk rfl _
    · obtain ⟨proc, hp, rfl⟩ := map_eq_some_iff.1 h
      exact .retryFails hk rfl rfl hp (afterBackoff_proc? env attempt p _ text) _
  · split at h <;> cases h
    · exact .respawn hk rfl _
    · exact .fallbackFails hk rfl rfl _ _
  · cases h

theorem effect_of_step (h : s.step env e = some s') : Effect env s e s' := by
  cases e with
  | startAgent =>
    simp only [step] at h
    split_ifs at h with hst hd hrun <;> cases h
    · exact .declined
    · exact .starting (by simpa using hst) (by simpa using hd) .stopping nofun
    · exact .starting (by simpa using hst) (by simpa using hd) (.launching false) nofun
  | launch err =>
    simp only [step] at h
    split at h
    · cases err <;> cases h
      · exact .launch _ ‹_›
      · exact .launchFails _
    · cases h
  | enter k =>
    simp only [step] at h
    split_ifs at h with hk
    simp only [Bool.or_eq_true, isSome_iff_ne_none, decide_eq_true_eq, not_or,
      Decidable.not_not] at hk
    cases h
    exact .enter hk.1 hk.2
  | exit p status =>
    obtain ⟨proc, hp, h⟩ := bind_eq_some_iff.1 h
    split_ifs at h
    cases h
    exact .exit hp status
  | line p l =>
    obtain ⟨proc, hp, h⟩ := bind_eq_some_iff.1 h
    split_ifs at h
    cases h
    exact .line hp l
  | waited k again =>
    simp only [step] at h
    split at h
    · obtain ⟨proc, hp, h⟩ := bind_eq_some_iff.1 h
      obtain ⟨status, hx, rfl⟩ := map_eq_some_iff.1 h
      exact .waited ‹_› hp hx again
    · cases h
  | restart k err =>
    obtain ⟨phase, hk, h⟩ := bind_eq_some_iff.1 h
    exact effect_of_retry hk h
  | adopt k =>
    simp only [step] at h
    split at h
    · split_ifs at h with hst
      cases h
      exact .adopt (by simpa using hst) ‹_›
    · cases h
  | abort k =>
    simp only [step] at h
    split at h
    · rename_i hk
      split_ifs at h
      cases h
      exact .abort hk nofun
    · cases h
  | finish k =>
    simp only [step] at h
    split at h
    · obtain ⟨proc, hp, rfl⟩ := map_eq_some_iff.1 h
      exact .finish ‹_› hp
    · cases h
  | request r =>
    simp only [step] at h
    split_ifs at h
    obtain ⟨p, hp, rfl⟩ := map_eq_some_iff.1 h
    exact .request hp r
  | write i =>
    obtain ⟨call, hcall, h⟩ := bind_eq_some_iff.1 h
    obtain ⟨proc, hp, rfl⟩ := map_eq_some_iff.1 h
    exact .write hcall hp
  | stopEnds =>
    simp only [step] at h
    split_ifs at h with hst
    cases h
    exact .stopEnds hst
  | giveUp i =>
    simp only [step] at h
    split_ifs at h
    cases h
    exact .giveUp i
  | stopAgent =>
    simp only [step] at h
    split_ifs at h
    cases h
    exact .stopAgent
  | stop =>
    cases h
    exact .stop

/-! ### What becomes of a process and of a goroutine -/

/-- What an event leaves of a process: its owner, its exit, and its state unless the goroutine that
closes it, or a call, sets the state. -/
structure Preserves (s : Supervisor) (e : GatewayEvent) (p : ℕ) (proc proc' : Proc) : Prop where
  owner : proc'.owner = proc.owner
  exited : proc.exited.isSome → proc'.exited.isSome
  state : proc'.state = proc.state ∨
    (∃ k err, e = .finish k ∧ s.waiters[k]? = some (.closing p err)) ∨
    ∃ i call, e = .write i ∧ s.calls[i]? = some call ∧ call.1 = p ∧ call.2.setsState ∧
      proc'.state.isFinal = false

variable {p : ℕ} {proc : Proc}

theorem Preserves.refl : Preserves s e p proc proc := ⟨rfl, id, .inl rfl⟩

theorem exists_of_set {l : List Proc} {q old new} (hq : l[q]? = some old)
    (hnew : Preserves s e q old new) (hp : l[p]? = some proc) :
    ∃ proc', (l.set q new)[p]? = some proc' ∧ Preserves s e p proc proc' := by
  have hlt := (List.getElem?_eq_some_iff.1 hq).1
  by_cases heq : q = p
  · subst heq
    cases hp.symm.trans hq
    exact ⟨new, by rw [getElem?_set_self hlt], hnew⟩
  · exact ⟨proc, by rw [getElem?_set_ne heq, hp], .refl⟩

theorem exists_of_append {l} (new : Proc) (hp : l[p]? = some proc) :
    ∃ proc', (l ++ [new])[p]? = some proc' ∧ Preserves s e p proc proc' :=
  ⟨proc, by rw [List.getElem?_append_left (List.getElem?_eq_some_iff.1 hp).1, hp], .refl⟩

theorem detectLLMError_preserves (text : Option String) :
    Preserves s e p proc (proc.detectLLMError text) := by
  cases text <;> exact ⟨rfl, id, .inl rfl⟩

@[simp] theorem persist_procs : s.persist.procs = s.procs := by
  unfold persist
  split <;> rfl

@[simp] theorem persist_waiters : s.persist.waiters = s.waiters := by
  unfold persist
  split <;> rfl

@[simp] theorem persist_stopped : s.persist.stopped = s.stopped := by
  unfold persist
  split <;> rfl

theorem step_procs (h : s.step env e = some s') (hp : s.procs[p]? = some proc) :
    ∃ proc', s'.procs[p]? = some proc' ∧ Preserves s e p proc proc' := by
  cases effect_of_step h with
  | launch | respawn => exact exists_of_append _ hp
  | exit hq => exact exists_of_set hq ⟨rfl, fun _ => rfl, .inl rfl⟩ hp
  | line hq l =>
    cases l with
    | messageStart assistant => exact ⟨proc, hp, .refl⟩
    | messageEnd usage text => exact exists_of_set hq (detectLLMError_preserves text) hp
  | waited _ hq =>
    simp only [reap, persist_procs]
    exact exists_of_set hq ⟨rfl, id, .inl rfl⟩ hp
  | retryFails _ _ _ hq => exact exists_of_set hq ⟨rfl, id, .inl rfl⟩ hp
  | finish hk hq => exact exists_of_set hq ⟨rfl, id, .inr (.inl ⟨_, _, rfl, hk⟩)⟩ hp
  | @write i call old hcall hq =>
    have howner := call.2.write_owner old
    refine exists_of_set hq ⟨howner.1, fun hx => howner.2 ▸ hx, ?_⟩ hp
    rcases call.2.write_state old with heq | ⟨hsets, hfinal⟩
    · exact .inl heq
    · exact .inr (.inr ⟨i, call, rfl, hcall, rfl, hsets, hfinal⟩)
  | _ => exact ⟨proc, hp, .refl⟩

theorem step_spawns (h : s.step env e = some s') :
    s'.procs.length = s.procs.length ∨ (e = .launch none ∧ s' = s.accept) ∨
      ∃ k phase stage, s.waiters[k]? = some phase ∧ phase.retries ∧ s' = s.respawn k stage := by
  cases effect_of_step h with
  | launch => exact .inr (.inl ⟨rfl, rfl⟩)
  | respawn hk hr stage => exact .inr (.inr ⟨_, _, stage, hk, hr, rfl⟩)
  | line hq l =>
    cases l with
    | messageStart assistant => exact .inl rfl
    | messageEnd usage text => exact .inl length_set
  | waited => exact .inl (by rw [reap, persist_procs, settle, length_set])
  | exit | retryFails | finish | write => exact .inl length_set
  | _ => exact .inl rfl

theorem step_procs_inv {proc'} (h : s.step env e = some s') (hp : s'.procs[p]? = some proc') :
    (∃ proc, s.procs[p]? = some proc ∧ Preserves s e p proc proc') ∨
      proc'.state = .running ∧ proc'.exited = none := by
  by_cases hlt : p < s.procs.length
  · obtain ⟨proc'', hp'', hpres⟩ := step_procs h (getElem?_eq_getElem hlt)
    cases hp''.symm.trans hp
    exact .inl ⟨_, getElem?_eq_getElem hlt, hpres⟩
  · have hfresh : ∀ k, s'.procs = s.procs ++ [{ owner := k }] →
        proc'.state = .running ∧ proc'.exited = none := by
      intro k hprocs
      rw [hprocs, getElem?_append_right (by omega)] at hp
      cases mem_singleton.1 (mem_of_getElem? hp)
      exact ⟨rfl, rfl⟩
    rcases step_spawns h with hlen | ⟨-, rfl⟩ | ⟨k, _, _, -, -, rfl⟩
    · have := (List.getElem?_eq_some_iff.1 hp).1
      omega
    · exact .inr (hfresh _ rfl)
    · exact .inr (hfresh k rfl)

/-- With an event a goroutine ends, keeps its process, takes `g.process` for its own, or has
restarted a process. -/
structure Proceeds (s s' : Supervisor) (e : GatewayEvent) (k : ℕ) (phase phase' : WaitPhase) :
    Prop where
  active : phase ≠ .done
  proc? : phase'.proc? = none ∨ phase'.proc? = phase.proc? ∨
    (e = .enter k ∧ phase'.proc? = s.process) ∨
    (s'.procs = s.procs ++ [{ owner := k }] ∧ phase'.proc? = some s.procs.length)

theorem step_waiters (h : s.step env e = some s') :
    s'.waiters = s.waiters ∨ (e = .launch none ∧ s' = s.accept) ∨
      ∃ k phase phase', s.waiters[k]? = some phase ∧ s'.waiters = s.waiters.set k phase' ∧
        Proceeds s s' e k phase phase' := by
  have hactive : ∀ {phase : WaitPhase}, phase.retries → phase ≠ .done := by
    rintro _ hr rfl
    cases hr
  cases effect_of_step h with
  | launch => exact .inr (.inl ⟨rfl, rfl⟩)
  | enter _ hk =>
    refine .inr (.inr ⟨_, _, _, hk, rfl, nofun, ?_⟩)
    cases hprocess : s.process with
    | none => exact .inl rfl
    | some p => exact .inr (.inr (.inl ⟨rfl, rfl⟩))
  | line hq l => cases l <;> exact .inl rfl
  | @waited k stage q _ _ hk =>
    exact .inr (.inr ⟨k, _, _, hk, by rw [reap, persist_waiters, settle], nofun,
      .inr (.inl (afterWait_proc? env stage q _ _))⟩)
  | respawn hk hr =>
    exact .inr (.inr ⟨_, _, _, hk, rfl, hactive hr, .inr (.inr (.inr ⟨rfl, rfl⟩))⟩)
  | retryFails hk hr hq _ hnext =>
    exact .inr (.inr ⟨_, _, _, hk, rfl, hactive hr, .inr (.inl (hnext.trans hq.symm))⟩)
  | fallbackFails hk hr hq =>
    exact .inr (.inr ⟨_, _, _, hk, rfl, hactive hr, .inr (.inl hq.symm)⟩)
  | adopt _ hk => exact .inr (.inr ⟨_, _, _, hk, rfl, nofun, .inr (.inl rfl)⟩)
  | abort hk hne => exact .inr (.inr ⟨_, _, _, hk, rfl, hne, .inl rfl⟩)
  | finish hk => exact .inr (.inr ⟨_, _, _, hk, rfl, nofun, .inl rfl⟩)
  | _ => exact .inl rfl

theorem step_done {k : ℕ} (h : s.step env e = some s') (hk : s.waiters[k]? = some .done) :
    s'.waiters[k]? = some .done := by
  rcases step_waiters h with heq | ⟨-, rfl⟩ | ⟨k₀, phase, phase', hk₀, heq, hpro⟩
  · rw [heq, hk]
  · exact (List.getElem?_append_left (List.getElem?_eq_some_iff.1 hk).1).trans hk
  · have hne : k₀ ≠ k := by
      rintro rfl
      exact hpro.active (some.inj (hk₀.symm.trans hk))
    rw [heq, getElem?_set_ne hne, hk]

end Supervisor

def sampleGatewayEnv : GatewayEnv where
  lib := { toLowerRune := Char.toLower, urlPath := fun _ => none, quote := id }

namespace Supervisor

def completion : List GatewayEvent :=
  [.startAgent, .launch none, .enter 0, .exit 0 none, .waited 0 "", .finish 0]

def completed : Supervisor :=
  (Machine.replay (step sampleGatewayEnv) Machine.always completion {}).getD {}

end Supervisor

end Uncworks
