import Uncworks.Knowledge.Traces
import Uncworks.Temporal.OpenSpec

/-!
# Persisting the data of a run

`PersistRunData` reads the log, the spans and the diffs of a run through the sidecar and saves them
in the brain store.  Errors of the store are only logged.
-/

namespace Uncworks

open List

/-! ## `PersistRunData` -/

structure PersistRunDataInput where
  agentRunID : String
  workspacePath : String := "/workspace"
  repoURL : String := ""
  podIP : String

/-- An execution of `PersistRunData`: its input, the answers of the sidecar, the time of the
database, and the times at which the lines of the spans are decoded. -/
structure PersistCall where
  input : PersistRunDataInput
  exec : String → ExecAnswer
  now : ℕ := 0
  clock : ℕ → ℕ := fun _ => 0

namespace PersistCall

section

variable (call : PersistCall)

def output (command : String) : Option String :=
  match call.exec command with
  | .error _ => none
  | .ok resp => if resp.exitCode = 0 ∧ resp.stdout ≠ "" then some resp.stdout else none

def logPath : String := call.input.workspacePath ++ "/.aot/logs/agent.log"

def spansPath : String := call.input.workspacePath ++ "/.aot/traces/spans.jsonl"

def diffsDir : String := call.input.workspacePath ++ "/.aot/diffs"

def logged (t : BrainTables) : Except String BrainTables → BrainTables
  | .ok t' => t'
  | .error _ => t

def saveLog (t : BrainTables) : BrainTables :=
  match call.output ("cat " ++ call.logPath) with
  | none => t
  | some log => logged t (t.saveRunLog call.now call.input.agentRunID log)

end

section

variable (lib : SpanLib) (call : PersistCall) (t : BrainTables)

def saveSpans : BrainTables :=
  match call.output ("cat " ++ call.spansPath) with
  | none => t
  | some text =>
    logged t (t.saveRunSpans call.input.agentRunID (persistedSpans lib call.clock text))

def saveDiff (name : String) : BrainTables :=
  if name = "" then t
  else match call.exec ("cat " ++ call.diffsDir ++ "/" ++ name) with
    | .error _ => t
    | .ok resp =>
      if resp.exitCode ≠ 0 then t
      else logged t (t.saveRunDiff call.input.agentRunID name resp.stdout)

def saveDiffs : BrainTables :=
  match call.output ("ls -1 " ++ call.diffsDir ++ " 2>/dev/null") with
  | none => t
  | some names => ((Go.split '\n' (Go.trimSpace names)).map Go.trimSpace).foldl call.saveDiff t

def persistRunData : BrainTables :=
  if call.input.podIP = "" then t else call.saveDiffs (call.saveSpans lib (call.saveLog t))

end

structure Reads (call : PersistCall) (content : String) : Prop where
  podIP : call.input.podIP ≠ ""
  log : call.exec ("cat " ++ call.logPath) = .ok { stdout := content }

end PersistCall

/-! ## Histories of the store -/

inductive StoreCall where
  | saveState (st : AgentState)
  | persistRunData (call : PersistCall)

namespace BrainTables

def step (lib : SpanLib) (t : BrainTables) : StoreCall → BrainTables
  | .saveState st => PersistCall.logged t (t.saveState st)
  | .persistRunData call => call.persistRunData lib t

def after (lib : SpanLib) (calls : List StoreCall) (t : BrainTables) : BrainTables :=
  calls.foldl (step lib) t

end BrainTables

def executions (run : String) (calls : List StoreCall) : ℕ :=
  calls.countP fun
    | .persistRunData call => call.input.agentRunID = run
    | .saveState _ => false

/-- A `SaveState` for the run has succeeded before its first `PersistRunData`. -/
def registered (lib : SpanLib) (run : String) : BrainTables → List StoreCall → Bool
  | _, [] => false
  | t, .saveState st :: calls =>
    (st.agentRunID = run && (t.saveState st).isOk) ||
      registered lib run (t.step lib (.saveState st)) calls
  | t, .persistRunData call :: calls =>
    call.input.agentRunID ≠ run && registered lib run (t.step lib (.persistRunData call)) calls

/-- The state of the run is there whenever `PersistRunData` is executed for it. -/
def KnownAtExecutions (lib : SpanLib) (run : String) (t : BrainTables) (calls : List StoreCall) :
    Prop :=
  ∀ before call rest, calls = before ++ .persistRunData call :: rest →
    call.input.agentRunID = run → (t.after lib before).Knows run

structure LogsKept (lib : SpanLib) (order : ByCreation) (run content : String)
    (calls : List StoreCall) : Prop where
  known : KnownAtExecutions lib run migrated calls
  logs : (migrated.after lib calls).getRunLogs order run = content

/-! ## One call -/

structure SameLogs (t t' : BrainTables) : Prop where
  states : t'.agentStates = t.agentStates
  logs : t'.runLogs = t.runLogs

variable {lib : SpanLib} {t t' t'' : BrainTables} {run content : String} {call : PersistCall}
  {calls : List StoreCall}

namespace SameLogs

protected theorem refl (t : BrainTables) : SameLogs t t := ⟨rfl, rfl⟩

theorem trans (h : SameLogs t t') (h' : SameLogs t' t'') : SameLogs t t'' :=
  ⟨h'.states.trans h.states, h'.logs.trans h.logs⟩

theorem knows (h : SameLogs t t') : t'.Knows run ↔ t.Knows run := by
  rw [BrainTables.Knows, BrainTables.Knows, h.states]

theorem logsOf (h : SameLogs t t') : t'.logsOf run = t.logsOf run := by
  rw [BrainTables.logsOf, BrainTables.logsOf, h.logs]

theorem logged {r} (h : ∀ t', r = .ok t' → SameLogs t t') :
    SameLogs t (PersistCall.logged t r) := by
  cases r with
  | error _ => exact .refl t
  | ok t' => exact h t' rfl

theorem saveRunSpans {spans} (h : t.saveRunSpans run spans = .ok t') : SameLogs t t' := by
  unfold BrainTables.saveRunSpans at h
  split at h
  · cases h
    exact .refl t
  · split at h
    · cases h
      exact ⟨rfl, rfl⟩
    · cases h

theorem saveRunDiff {filePath patch} (h : t.saveRunDiff run filePath patch = .ok t') :
    SameLogs t t' := by
  unfold BrainTables.saveRunDiff at h
  split at h
  · cases h
    exact ⟨rfl, rfl⟩
  · cases h

section

variable (call : PersistCall) (t : BrainTables)

theorem saveSpans : SameLogs t (call.saveSpans lib t) := by
  unfold PersistCall.saveSpans
  split
  · exact .refl t
  · exact logged fun _ => saveRunSpans

theorem saveDiff (name : String) : SameLogs t (call.saveDiff t name) := by
  unfold PersistCall.saveDiff
  split
  · exact .refl t
  · split
    · exact .refl t
    · split
      · exact .refl t
      · exact logged fun _ => saveRunDiff

theorem saveDiffs : SameLogs t (call.saveDiffs t) := by
  unfold PersistCall.saveDiffs
  split
  · exact .refl t
  · generalize (Go.split _ _).map Go.trimSpace = names
    induction names generalizing t with
    | nil => exact .refl t
    | cons name names ih => exact (saveDiff call t name).trans (ih _)

end

end SameLogs

theorem sameLogs_persistRunData (h : call.input.podIP ≠ "") (t : BrainTables) :
    SameLogs (call.saveLog t) (call.persistRunData lib t) := by
  rw [PersistCall.persistRunData, if_neg h]
  exact (SameLogs.saveSpans call _).trans (SameLogs.saveDiffs call _)

theorem saveLog_states (call : PersistCall) (t : BrainTables) :
    (call.saveLog t).agentStates = t.agentStates := by
  unfold PersistCall.saveLog
  split
  · rfl
  · unfold BrainTables.saveRunLog
    split <;> rfl

theorem knows_persistRunData (call : PersistCall) (t : BrainTables) :
    (call.persistRunData lib t).Knows run ↔ t.Knows run := by
  by_cases h : call.input.podIP = ""
  · rw [PersistCall.persistRunData, if_pos h]
  · rw [(sameLogs_persistRunData h t).knows, BrainTables.Knows, BrainTables.Knows, saveLog_states]

theorem logsOf_persistRunData_of_ne (h : call.input.agentRunID ≠ run) (t : BrainTables) :
    (call.persistRunData lib t).logsOf run = t.logsOf run := by
  by_cases hip : call.input.podIP = ""
  · rw [PersistCall.persistRunData, if_pos hip]
  · rw [(sameLogs_persistRunData hip t).logsOf, PersistCall.saveLog]
    split
    · rfl
    · unfold BrainTables.saveRunLog
      split
      · simp [PersistCall.logged, BrainTables.logsOf, h]
      · rfl

theorem logsOf_persistRunData (hreads : call.Reads content) (hrun : call.input.agentRunID = run)
    (hknows : t.Knows run) :
    (call.persistRunData lib t).logsOf run =
      t.logsOf run ++ if content = "" then [] else [content] := by
  rw [(sameLogs_persistRunData hreads.podIP t).logsOf, PersistCall.saveLog, PersistCall.output,
    hreads.log]
  by_cases hcontent : content = ""
  · simp [hcontent]
  · obtain ⟨t', hsave, -, hlogs⟩ := BrainTables.saveRunLog_of_knows hknows call.now content
    simp [hcontent, hrun, hsave, PersistCall.logged, BrainTables.logsOf, hlogs]

theorem knows_step_saveState (st : AgentState) :
    (t.step lib (.saveState st)).Knows run ↔
      t.Knows run ∨ st.agentRunID = run ∧ (t.saveState st).isOk := by
  rw [BrainTables.step]
  cases hsave : t.saveState st with
  | error e => simp [PersistCall.logged, Except.toBool]
  | ok t' =>
    simp [PersistCall.logged, Except.toBool, BrainTables.knows_of_saveState hsave]

theorem logsOf_step_saveState (st : AgentState) :
    (t.step lib (.saveState st)).logsOf run = t.logsOf run := by
  rw [BrainTables.step]
  cases hsave : t.saveState st with
  | error e => rfl
  | ok t' =>
    rw [PersistCall.logged, BrainTables.logsOf, BrainTables.runLogs_of_saveState hsave]
    rfl

theorem BrainTables.Knows.step (h : t.Knows run) (c : StoreCall) : (t.step lib c).Knows run := by
  cases c with
  | saveState st => exact (knows_step_saveState st).2 (.inl h)
  | persistRunData call => exact (knows_persistRunData call t).2 h

theorem BrainTables.Knows.after (h : t.Knows run) (calls : List StoreCall) :
    (t.after lib calls).Knows run := by
  induction calls generalizing t with
  | nil => exact h
  | cons c calls ih => exact ih (h.step c)

/-! ## Histories -/

theorem knownAtExecutions_cons {c} :
    KnownAtExecutions lib run t (c :: calls) ↔
      (∀ call, c = .persistRunData call → call.input.agentRunID = run → t.Knows run) ∧
        KnownAtExecutions lib run (t.step lib c) calls := by
  constructor
  · intro h
    refine ⟨fun call hc hrun => h [] call calls (by rw [hc]; rfl) hrun, ?_⟩
    intro before call rest hsplit hrun
    exact h (c :: before) call rest (by rw [hsplit]; rfl) hrun
  · rintro ⟨hhead, htail⟩ before call rest hsplit hrun
    cases before with
    | nil =>
      injection hsplit with hc
      exact hhead call hc hrun
    | cons b before =>
      injection hsplit with hc hrest
      subst hc
      exact htail before call rest hrest hrun

theorem BrainTables.Knows.knownAtExecutions (h : t.Knows run) (calls : List StoreCall) :
    KnownAtExecutions lib run t calls :=
  fun before _ _ _ _ => h.after before

theorem knownAtExecutions_iff (h : 0 < executions run calls) :
    KnownAtExecutions lib run t calls ↔ t.Knows run ∨ registered lib run t calls := by
  induction calls generalizing t with
  | nil => exact absurd h (Nat.lt_irrefl 0)
  | cons c calls ih =>
    rw [knownAtExecutions_cons]
    cases c with
    | saveState st =>
      have hrest : 0 < executions run calls := by simpa [executions] using h
      rw [ih hrest, knows_step_saveState, registered]
      simp [or_assoc]
    | persistRunData call =>
      by_cases hrun : call.input.agentRunID = run
      · have hreg : registered lib run t (.persistRunData call :: calls) = false := by
          simp [registered, hrun]
        rw [hreg]
        constructor
        · intro ⟨hhead, _⟩
          exact .inl (hhead call rfl hrun)
        · rintro (hk | hk)
          · exact ⟨fun _ _ _ => hk, (hk.step _).knownAtExecutions calls⟩
          · cases hk
      · have hrest : 0 < executions run calls := by simpa [executions, hrun] using h
        rw [ih hrest, registered, BrainTables.step, knows_persistRunData]
        simp [hrun]

theorem logsOf_after (hknown : KnownAtExecutions lib run t calls)
    (hreads : ∀ call, .persistRunData call ∈ calls → call.input.agentRunID = run →
      call.Reads content) :
    (t.after lib calls).logsOf run =
      t.logsOf run ++ replicate (if content = "" then 0 else executions run calls) content := by
  induction calls generalizing t with
  | nil => simp [BrainTables.after, executions]
  | cons c calls ih =>
    obtain ⟨hhead, htail⟩ := knownAtExecutions_cons.1 hknown
    have hrest := ih htail fun call hcall => hreads call (mem_cons_of_mem _ hcall)
    rw [BrainTables.after, foldl_cons, ← BrainTables.after, hrest]
    cases c with
    | saveState st => simp [logsOf_step_saveState, executions]
    | persistRunData call =>
      by_cases hrun : call.input.agentRunID = run
      · have hcall := hreads call mem_cons_self hrun
        rw [BrainTables.step, logsOf_persistRunData hcall hrun (hhead call rfl hrun)]
        by_cases hcontent : content = ""
        · simp [hcontent]
        · simp [hcontent, executions, hrun, replicate_succ]
      · rw [BrainTables.step, logsOf_persistRunData_of_ne hrun]
        simp [executions, hrun]

theorem getRunLogs_of_replicate {order n} (h : t.logsOf run = replicate n content) :
    t.getRunLogs order run = concatContents (replicate n content) := by
  have hperm := (order.perm (t.runLogs.filter (·.agentRunID = run))).map RunLog.content
  rw [← BrainTables.logsOf, h] at hperm
  rw [BrainTables.getRunLogs, perm_replicate.1 hperm]

/-- The log of a run is kept exactly if its state was saved before the first `PersistRunData`, and
there was only one or nothing in the log. -/
theorem logsKept_iff {order : ByCreation} (hexec : 0 < executions run calls)
    (hreads : ∀ call, .persistRunData call ∈ calls → call.input.agentRunID = run →
      call.Reads content) :
    LogsKept lib order run content calls ↔
      registered lib run migrated calls ∧ (content = "" ∨ executions run calls = 1) := by
  have hempty : ¬ migrated.Knows run := not_mem_nil
  have hiff : KnownAtExecutions lib run migrated calls ↔ registered lib run migrated calls :=
    (knownAtExecutions_iff hexec).trans (or_iff_right hempty)
  have hlogs (hknown : KnownAtExecutions lib run migrated calls) :
      (migrated.after lib calls).getRunLogs order run = content ↔
        content = "" ∨ executions run calls = 1 := by
    rw [getRunLogs_of_replicate (logsOf_after hknown hreads)]
    by_cases hcontent : content = ""
    · simp [hcontent, concatContents]
    · rw [if_neg hcontent, concatContents_replicate content hexec]
      simp [hcontent]
  constructor
  · intro h
    exact ⟨hiff.1 h.known, (hlogs h.known).1 h.logs⟩
  · rintro ⟨hreg, hcases⟩
    exact ⟨hiff.2 hreg, (hlogs (hiff.2 hreg)).2 hcases⟩

def donePersisted : PersistCall where
  input := { agentRunID := "ar-7f3k", podIP := "10.0.0.7" }
  exec command :=
    if command = "cat /workspace/.aot/logs/agent.log" then .ok { stdout := "done" } else .error ""

theorem donePersisted_reads : donePersisted.Reads "done" := ⟨by decide, rfl⟩

/-- One execution after the state was saved. -/
theorem logsKept_registered :
    LogsKept planLib .stable "ar-7f3k" "done"
      [.saveState ⟨"1", "ar-7f3k"⟩, .persistRunData donePersisted] := by
  refine (logsKept_iff (by decide) fun call hcall _ => ?_).2 ⟨by decide, .inr (by decide)⟩
  obtain rfl : call = donePersisted := by simpa using hcall
  exact donePersisted_reads

/-- Without the state nothing is saved, and a repeated execution saves the log twice. -/
theorem logs_not_kept :
    ¬ LogsKept planLib .stable "ar-7f3k" "done" [.persistRunData donePersisted] ∧
    ¬ LogsKept planLib .stable "ar-7f3k" "done" [.saveState ⟨"1", "ar-7f3k"⟩,
      .persistRunData donePersisted, .persistRunData donePersisted] :=
  ⟨fun h => absurd h.logs (by decide), fun h => absurd h.logs (by decide)⟩

end Uncworks
