import Mathlib.Data.List.Sort

/-!
# The brain store

The tables that `Migrate` declares and the operations on them that runs are kept with.  `run_logs`,
`run_spans` and `run_diffs` refer to `agent_states` by the id of the run, so a row can only be
inserted for a run that has a state; `BrainTables` carries these constraints.

Times are nanoseconds.
-/

namespace Uncworks

open List

theorem nodup_map_append {α β : Type*} {f : α → β} {rows row} (h : (rows.map f).Nodup)
    (hnew : f row ∉ rows.map f) : ((rows ++ [row]).map f).Nodup := by
  rw [map_append, map_singleton, ← concat_eq_append]
  exact h.concat hnew

/-! ## Tables -/

structure AgentState where
  id : String
  agentRunID : String

structure RunLog where
  agentRunID : String
  content : String
  createdAt : ℕ

structure RunDiff where
  agentRunID : String
  filePath : String
  patch : String

structure BrainSpan where
  name : String
  type : String
  parentID : String := ""
  startTime : ℕ
  endTime : Option ℕ := none
  metadata : Option String := none
  deriving DecidableEq

/-- A row of `run_spans`; an empty parent or type is stored as NULL. -/
structure RunSpan where
  agentRunID : String
  parentID : Option String
  name : String
  type : Option String
  startTime : ℕ
  endTime : Option ℕ
  metadata : Option String

structure BrainTables where
  agentStates : List AgentState := []
  runLogs : List RunLog := []
  runDiffs : List RunDiff := []
  runSpans : List RunSpan := []
  /-- The primary key of `agent_states`. -/
  ids : (agentStates.map AgentState.id).Nodup := by simp
  /-- `agent_run_id` is unique in `agent_states`. -/
  runs : (agentStates.map AgentState.agentRunID).Nodup := by simp
  logRefs : ∀ r ∈ runLogs, r.agentRunID ∈ agentStates.map AgentState.agentRunID := by simp
  diffRefs : ∀ r ∈ runDiffs, r.agentRunID ∈ agentStates.map AgentState.agentRunID := by simp
  spanRefs : ∀ r ∈ runSpans, r.agentRunID ∈ agentStates.map AgentState.agentRunID := by simp

def migrated : BrainTables := {}

namespace BrainTables

variable (t : BrainTables)

def Knows (run : String) : Prop := run ∈ t.agentStates.map AgentState.agentRunID

instance (run : String) : Decidable (t.Knows run) :=
  inferInstanceAs (Decidable (run ∈ t.agentStates.map AgentState.agentRunID))

/-! ## Operations -/

/-- `SaveState`: insert a state.  One that the run has already is updated, of which nothing is seen
here; an id of another run is refused. -/
def saveState (st : AgentState) : Except String BrainTables :=
  if hrun : t.Knows st.agentRunID then .ok t
  else if hid : st.id ∈ t.agentStates.map AgentState.id then
    .error "save state: duplicate key value violates unique constraint"
  else .ok
    { t with
      agentStates := t.agentStates ++ [st]
      ids := nodup_map_append t.ids hid
      runs := nodup_map_append t.runs hrun
      logRefs := fun r hr => map_append ▸ mem_append_left _ (t.logRefs r hr)
      diffRefs := fun r hr => map_append ▸ mem_append_left _ (t.diffRefs r hr)
      spanRefs := fun r hr => map_append ▸ mem_append_left _ (t.spanRefs r hr) }

def saveRunLog (now : ℕ) (run content : String) : Except String BrainTables :=
  if h : t.Knows run then .ok
    { t with
      runLogs := t.runLogs ++ [⟨run, content, now⟩]
      logRefs := forall_mem_append.2 ⟨t.logRefs, fun _ hr => eq_of_mem_singleton hr ▸ h⟩ }
  else .error "save run log: insert or update violates foreign key constraint"

def saveRunDiff (run filePath patch : String) : Except String BrainTables :=
  if h : t.Knows run then .ok
    { t with
      runDiffs := t.runDiffs ++ [⟨run, filePath, patch⟩]
      diffRefs := forall_mem_append.2
        ⟨t.diffRefs, fun _ hr => eq_of_mem_singleton hr ▸ h⟩ }
  else .error "save run diff: insert or update violates foreign key constraint"

def spanRow (run : String) (span : BrainSpan) : RunSpan where
  agentRunID := run
  parentID := if span.parentID = "" then none else some span.parentID
  name := span.name
  type := if span.type = "" then none else some span.type
  startTime := span.startTime
  endTime := span.endTime
  metadata := span.metadata

def saveRunSpans (run : String) (spans : List BrainSpan) : Except String BrainTables :=
  if spans = [] then .ok t
  else if h : t.Knows run then .ok
    { t with
      runSpans := t.runSpans ++ spans.map (spanRow run)
      spanRefs := forall_mem_append.2 ⟨t.spanRefs, forall_mem_map.2 fun _ _ => h⟩ }
  else .error "batch insert run spans: insert or update violates foreign key constraint"

end BrainTables

/-- How the database orders rows by `created_at`; rows of the same time come in any order. -/
structure ByCreation where
  rows : List RunLog → List RunLog
  perm (l : List RunLog) : (rows l).Perm l
  sorted (l : List RunLog) : (rows l).Pairwise fun a b => a.createdAt ≤ b.createdAt

/-- Rows of the same time in the order in which they were inserted. -/
def ByCreation.stable : ByCreation where
  rows l := l.insertionSort fun a b => a.createdAt ≤ b.createdAt
  perm l := l.perm_insertionSort _
  sorted l := by
    have : Std.Total fun a b : RunLog => a.createdAt ≤ b.createdAt := ⟨fun _ _ => Nat.le_total _ _⟩
    have : IsTrans RunLog fun a b => a.createdAt ≤ b.createdAt := ⟨fun _ _ _ => Nat.le_trans⟩
    exact l.pairwise_insertionSort _

def concatContents : List String → String
  | [] => ""
  | content :: contents => contents.foldl (fun sb content => sb ++ "\n" ++ content) content

def BrainTables.getRunLogs (t : BrainTables) (order : ByCreation) (run : String) : String :=
  concatContents ((order.rows (t.runLogs.filter (·.agentRunID = run))).map RunLog.content)

/-! ## What the operations change -/

namespace BrainTables

variable {t t' : BrainTables} {run run' : String}

def logsOf (t : BrainTables) (run : String) : List String :=
  (t.runLogs.filter (·.agentRunID = run)).map RunLog.content

theorem runLogs_of_saveState {st} (h : t.saveState st = .ok t') : t'.runLogs = t.runLogs := by
  unfold saveState at h
  split at h
  · cases h
    rfl
  · split at h
    · cases h
    · cases h
      rfl

theorem knows_of_saveState {st} (h : t.saveState st = .ok t') :
    t'.Knows run ↔ t.Knows run ∨ st.agentRunID = run := by
  unfold saveState at h
  split at h
  · rename_i hrun
    cases h
    refine ⟨.inl, ?_⟩
    rintro (h | rfl)
    · exact h
    · exact hrun
  · split at h
    · cases h
    · cases h
      simp [Knows, eq_comm]

theorem saveRunLog_of_knows (h : t.Knows run) (now : ℕ) (content : String) :
    ∃ t', t.saveRunLog now run content = .ok t' ∧ t'.agentStates = t.agentStates ∧
      t'.runLogs = t.runLogs ++ [⟨run, content, now⟩] :=
  ⟨_, dif_pos h, rfl, rfl⟩

end BrainTables

theorem length_concatContents (content : String) (contents : List String) :
    content.length + contents.length ≤ (concatContents (content :: contents)).length := by
  unfold concatContents
  induction contents generalizing content with
  | nil => exact Nat.le_refl _
  | cons c contents ih =>
    have hstep := ih (content ++ "\n" ++ c)
    simp only [String.length_append] at hstep
    simp only [foldl_cons, length_cons]
    have hnl : "\n".length = 1 := rfl
    omega

theorem concatContents_replicate (content : String) {n} (hn : 0 < n) :
    concatContents (replicate n content) = content ↔ n = 1 := by
  obtain ⟨m, rfl⟩ := Nat.exists_eq_succ_of_ne_zero (Nat.ne_of_gt hn)
  constructor
  · intro heq
    have hlen := length_concatContents content (replicate m content)
    rw [← replicate_succ, heq, length_replicate] at hlen
    omega
  · intro hm
    obtain rfl : m = 0 := by omega
    rfl

end Uncworks
