import Uncworks.Controller.Cluster

/-!
# Reconciles call by call

`Reconcile` with every call it makes on its own: each may fail, a failed one may still have taken
effect, and a read may return any version of the AgentRun that was ever stored.  The API server
accepts a write only if it is based on the current version, and the service starts an execution only
if none is open under the workflow id.
-/

namespace Uncworks

open List

structure Started where
  isOpen : Bool
  cancelRequested : Bool
  deriving DecidableEq

def Started.fresh : Started := ⟨true, false⟩

structure Bridge where
  /-- The project the AgentRun refers to, or the empty string. -/
  project : String := ""
  versions : List AgentRun
  /-- Whether the AgentRun has been deleted for good. -/
  gone : Bool := false
  executions : List Started := []

/-- What the calls of one reconcile return.  A version read is given by its position; a lost reply
reports the failure of a call that has taken effect. -/
structure Replies extends Calls where
  read : Option ℕ
  cancel : Bool := true
  resolve : Option String := none
  persist : Bool := true
  refetch : Option ℕ := none
  startLost : Bool := false
  persistLost : Bool := false
  updateLost : Bool := false
  statusLost : Bool := false

/-! ## The steps of a reconcile -/

def AgentRun.waitForProject (lib : Go.Lib) (project err : String) (run : AgentRun) : AgentRun :=
  { run with status := { run.status with
    message := s!"Waiting for project {lib.quote project} to become ready: {err}" } }

def AgentRun.startFailed (text : String) (run : AgentRun) : AgentRun :=
  { run with status := { run.status with
    message := s!"Retrying workflow start: {text}"
    workflowStarted :=
      some { status := false, reason := "WorkflowStartFailed", message := text } } }

def AgentRun.annotate (run : AgentRun) : AgentRun :=
  { run with workflowID := s!"agentrun-{run.name}" }

def AgentRun.markRunning (now : ℕ) (run : AgentRun) : AgentRun :=
  let workflowID := s!"agentrun-{run.name}"
  { run with status := { run.status with
    phase := .running
    podName := s!"agentrun-{run.name}"
    startedAt := some now
    message := "Temporal workflow started"
    workflowStarted := some
      { status := true, reason := "WorkflowStarted"
        message := s!"Temporal workflow {workflowID} started" } } }

namespace Bridge

section

variable (s : Bridge)

def hasOpen : Bool := s.executions.any (·.isOpen)

def current : Option AgentRun := if s.gone then none else s.versions.getLast?

def isCurrent (i : ℕ) : Bool := !s.gone && i + 1 == s.versions.length

/-- Store a new version based on the `i`-th; the result says whether the caller sees a success. -/
def write (i : ℕ) (run : AgentRun) (ok lost : Bool) : Bridge × Bool :=
  if s.isCurrent i then
    (if ok || lost then { s with versions := s.versions ++ [run] } else s, ok)
  else (s, false)

def cancelWorkflow (run : AgentRun) (ok : Bool) : Bridge :=
  if run.workflowID ≠ "" ∧ ok then
    { s with executions := s.executions.map fun e =>
        if e.isOpen then { e with cancelRequested := true } else e }
  else s

/-- `ExecuteWorkflow`: the service rejects a start only while an execution is open. -/
def executeWorkflow (r : Replies) : Bridge × StartResult :=
  match r.start with
  | .failed text =>
    (if r.startLost && !s.hasOpen then { s with executions := s.executions ++ [.fresh] } else s,
      .failed text)
  | _ =>
    if s.hasOpen then (s, .alreadyStarted)
    else ({ s with executions := s.executions ++ [.fresh] }, .started)

def finishStart (r : Replies) : Bridge :=
  match r.refetch with
  | none => s
  | some j => match s.versions[j]? with
    | none => s
    | some run => (s.write j (run.markRunning r.now) r.statusUpdate r.statusLost).1

def recordStart (r : Replies) (i : ℕ) (run : AgentRun) : Bridge :=
  let w := s.write i run.annotate r.update r.updateLost
  if w.2 then w.1.finishStart r else w.1

def launch (r : Replies) (i : ℕ) (run : AgentRun) : Bridge :=
  let q := s.executeWorkflow r
  match q.2 with
  | .failed text => (q.1.write i (run.startFailed text) r.statusUpdate r.statusLost).1
  | _ => q.1.recordStart r i run

end

section

variable (lib : Go.Lib) (s : Bridge) (r : Replies) (i : ℕ) (run : AgentRun)

def startWorkflow : Bridge :=
  if s.project = "" then s.launch r i run
  else match r.resolve with
    | some err =>
      (s.write i (run.waitForProject lib s.project err) r.statusUpdate r.statusLost).1
    | none =>
      let w := s.write i run r.persist r.persistLost
      if w.2 then w.1.launch r (i + 1) run else w.1

def finalize : Bridge :=
  let s₁ := s.cancelWorkflow run r.cancel
  { s₁ with gone := s.gone || s.isCurrent i && (r.update || r.updateLost) }

def reconcileAt : Bridge :=
  if run.deleting then if run.finalizer then s.finalize r i run else s
  else if !run.finalizer then
    (s.write i { run with finalizer := true } r.update r.updateLost).1
  else if run.status.archived then
    if run.cleanedUp then s
    else (s.write i { run with cleanedUp := true } r.update r.updateLost).1
  else if run.workflowID = "" then s.startWorkflow lib r i run
  else if isTerminal run.status.phase then s
  else
    (s.write i { run with status := syncWorkflowState r.toCalls run.status } r.statusUpdate
      r.statusLost).1

end

/-- `Reconcile`; it does nothing if the AgentRun cannot be read. -/
def reconcile (lib : Go.Lib) (s : Bridge) (r : Replies) : Bridge :=
  match r.read with
  | none => s
  | some i => match s.versions[i]? with
    | none => s
    | some run => s.reconcileAt lib r i run

/-! ## Runs -/

/-- A step: a reconcile that meets a condition, an execution that closes, another writer that leaves
annotation, finalizer and phase as they are, and the deletion of an AgentRun without a finalizer. -/
inductive Step (lib : Go.Lib) (allowed : Bridge → Replies → Prop) : Bridge → Bridge → Prop
  | reconcile {s} (r : Replies) (h : allowed s r) : Step lib allowed s (s.reconcile lib r)
  | close {s pre e post} (h : s.executions = pre ++ e :: post) :
      Step lib allowed s { s with executions := pre ++ { e with isOpen := false } :: post }
  | edit {s old new} (h : s.current = some old) (hw : new.workflowID = old.workflowID)
      (hf : new.finalizer = old.finalizer) (hp : new.status.phase = old.status.phase) :
      Step lib allowed s { s with versions := s.versions ++ [new] }
  | vanish {s run} (h : s.current = some run) (hf : run.finalizer = false) :
      Step lib allowed s { s with gone := true }

def Reaches (lib : Go.Lib) (allowed : Bridge → Replies → Prop) : Bridge → Bridge → Prop :=
  Relation.ReflTransGen (Step lib allowed)

structure Fresh (s : Bridge) : Prop where
  versions : ∃ run, s.versions = [run] ∧ run.workflowID = "" ∧ isTerminal run.status.phase = false
  executions : s.executions = []

/-! ## The stored versions -/

def Later (a b : AgentRun) : Prop := isTerminal a.status.phase → isTerminal b.status.phase

structure Follows (a b : AgentRun) : Prop where
  later : Later a b
  finalizer : a.finalizer = true → b.finalizer = true

structure Sound (s : Bridge) : Prop where
  ordered : s.versions.Pairwise Follows
  unmarked : ∀ run ∈ s.versions, run.workflowID = "" → isTerminal run.status.phase = false

section

variable {s : Bridge} {lib : Go.Lib} {r : Replies} {i : ℕ} {run old new : AgentRun} {ok lost : Bool}
  {allowed : Bridge → Replies → Prop} {s' : Bridge}

theorem isCurrent_iff : s.isCurrent i ↔ s.gone = false ∧ i + 1 = s.versions.length := by
  simp [isCurrent]

theorem write_cases (s : Bridge) (i : ℕ) (run : AgentRun) (ok lost : Bool) :
    (s.write i run ok lost).1 = s ∧ ((s.write i run ok lost).2 = true → s.isCurrent i) ∨
      s.isCurrent i ∧ (s.write i run ok lost).1 = { s with versions := s.versions ++ [run] } := by
  unfold write
  by_cases hc : s.isCurrent i
  · rw [if_pos hc]
    by_cases ho : (ok || lost) = true
    · exact .inr ⟨hc, if_pos ho⟩
    · exact .inl ⟨if_neg ho, fun _ => hc⟩
  · rw [if_neg hc]
    exact .inl ⟨rfl, fun h => by cases h⟩

theorem write_true (h : (s.write i run ok lost).2 = true) :
    s.isCurrent i ∧ (s.write i run ok lost).1 = { s with versions := s.versions ++ [run] } := by
  unfold write at h ⊢
  by_cases hc : s.isCurrent i
  · rw [if_pos hc] at h ⊢
    have hok : ok = true := h
    subst hok
    exact ⟨hc, rfl⟩
  · rw [if_neg hc] at h
    cases h

theorem Follows.trans {a b c} (h : Follows a b) (h' : Follows b c) : Follows a c :=
  ⟨fun ha => h'.later (h.later ha), fun ha => h'.finalizer (h.finalizer ha)⟩

theorem Sound.follows (h : s.Sound) (hi : s.versions[i]? = some old)
    (hc : i + 1 = s.versions.length) (hl : Follows old new) : ∀ a ∈ s.versions, Follows a new := by
  intro a ha
  obtain ⟨k, hk, rfl⟩ := getElem_of_mem ha
  obtain ⟨hilt, rfl⟩ := List.getElem?_eq_some_iff.1 hi
  by_cases hki : k = i
  · subst hki
    exact hl
  · exact (pairwise_iff_getElem.1 h.ordered k i hk hilt (by omega)).trans hl

/-- A version that follows the current one and is terminal only with an annotation can be stored. -/
theorem Sound.append (h : s.Sound) (hi : s.versions[i]? = some old)
    (hc : i + 1 = s.versions.length) (hl : Follows old new)
    (hu : new.workflowID = "" → isTerminal new.status.phase = false) :
    Sound { s with versions := s.versions ++ [new] } where
  ordered := by
    refine pairwise_append.2 ⟨h.ordered, pairwise_singleton _ _, fun a ha b hb => ?_⟩
    obtain rfl := mem_singleton.1 hb
    exact h.follows hi hc hl a ha
  unmarked a ha := by
    rcases mem_append.1 ha with ha | ha
    · exact h.unmarked a ha
    · obtain rfl := mem_singleton.1 ha
      exact hu

theorem Sound.write (h : s.Sound) (hi : s.versions[i]? = some old)
    (hl : s.isCurrent i → Follows old new)
    (hu : new.workflowID = "" → isTerminal new.status.phase = false) :
    (s.write i new ok lost).1.Sound := by
  rcases write_cases s i new ok lost with ⟨heq, -⟩ | ⟨hc, heq⟩ <;> rw [heq]
  · exact h
  · exact h.append hi (isCurrent_iff.1 hc).2 (hl hc) hu

theorem Sound.write_same (h : s.Sound) (hi : s.versions[i]? = some old)
    (hw : new.workflowID = old.workflowID) (hp : new.status.phase = old.status.phase)
    (hf : old.finalizer = true → new.finalizer = true) : (s.write i new ok lost).1.Sound := by
  have hmem := mem_of_getElem? hi
  apply h.write hi
  · intro _
    refine ⟨fun ht => ?_, hf⟩
    rw [hp]
    exact ht
  · rw [hw, hp]
    exact h.unmarked old hmem

theorem Sound.executions (h : s.Sound) (executions : List Started) :
    Sound { s with executions } := ⟨h.ordered, h.unmarked⟩

theorem executeWorkflow_fst (s : Bridge) (r : Replies) :
    ∃ executions, (s.executeWorkflow r).1 = { s with executions } := by
  unfold executeWorkflow
  split <;> split_ifs <;> exact ⟨_, rfl⟩

theorem Sound.finishStart (h : s.Sound) (hlast : ∀ run, s.versions.getLast? = some run →
    run.workflowID ≠ "" ∧ isTerminal run.status.phase = false) : (s.finishStart r).Sound := by
  unfold Bridge.finishStart
  split
  · exact h
  · rename_i j _
    split
    · exact h
    · rename_i run hj
      have hcurrent : s.isCurrent j → run.workflowID ≠ "" ∧ isTerminal run.status.phase = false := by
        intro hc
        apply hlast
        rw [getLast?_eq_getElem?, ← (isCurrent_iff.1 hc).2]
        exact hj
      rcases write_cases s j (run.markRunning r.now) r.statusUpdate r.statusLost with
        ⟨heq, -⟩ | ⟨hc, heq⟩ <;> rw [heq]
      · exact h
      · refine h.append hj (isCurrent_iff.1 hc).2 ⟨fun ht => ?_, id⟩ fun _ => rfl
        rw [(hcurrent hc).2] at ht
        cases ht

theorem annotate_workflowID (run : AgentRun) : run.annotate.workflowID ≠ "" := by
  intro h
  have hempty := (String.append_eq_empty_iff.1 h).1
  revert hempty
  decide

theorem Sound.recordStart (h : s.Sound) (hi : s.versions[i]? = some run)
    (hphase : isTerminal run.status.phase = false) : (s.recordStart r i run).Sound := by
  have hannotate : (s.write i run.annotate r.update r.updateLost).1.Sound :=
    h.write hi (fun _ => ⟨id, id⟩) fun hno => absurd hno (annotate_workflowID run)
  unfold Bridge.recordStart
  dsimp only
  split_ifs with hok
  · apply hannotate.finishStart
    intro run' hlast
    rw [(write_true hok).2, getLast?_concat] at hlast
    obtain rfl := Option.some.inj hlast
    exact ⟨annotate_workflowID run, hphase⟩
  · exact hannotate

theorem Sound.launch (h : s.Sound) (hi : s.versions[i]? = some run) (hw : run.workflowID = "") :
    (s.launch r i run).Sound := by
  have hphase := h.unmarked run (mem_of_getElem? hi) hw
  obtain ⟨executions, hx⟩ := executeWorkflow_fst s r
  have hq : (s.executeWorkflow r).1.Sound := by
    rw [hx]
    exact h.executions executions
  have hi' : (s.executeWorkflow r).1.versions[i]? = some run := by
    rw [hx]
    exact hi
  unfold Bridge.launch
  dsimp only
  split
  · exact hq.write_same hi' rfl rfl id
  · exact hq.recordStart hi' hphase

theorem Sound.startWorkflow (h : s.Sound) (hi : s.versions[i]? = some run)
    (hw : run.workflowID = "") : (s.startWorkflow lib r i run).Sound := by
  unfold Bridge.startWorkflow
  split_ifs
  · exact h.launch hi hw
  · split
    · exact h.write_same hi rfl rfl id
    · have hpersist : (s.write i run r.persist r.persistLost).1.Sound := h.write_same hi rfl rfl id
      dsimp only
      split_ifs with hok
      · apply hpersist.launch _ hw
        obtain ⟨hc, heq⟩ := write_true hok
        rw [heq]
        simp [(isCurrent_iff.1 hc).2]
      · exact hpersist

theorem Sound.reconcile (h : s.Sound) : (s.reconcile lib r).Sound := by
  unfold Bridge.reconcile
  split
  · exact h
  · split
    · exact h
    · rename_i run hi
      unfold Bridge.reconcileAt
      split_ifs with hd hf hfin harch hclean hw hterm
      · unfold Bridge.finalize Bridge.cancelWorkflow
        split_ifs <;> exact ⟨h.ordered, h.unmarked⟩
      · exact h
      · exact h.write_same hi rfl rfl fun _ => rfl
      · exact h
      · exact h.write_same hi rfl rfl id
      · exact h.startWorkflow hi hw
      · exact h
      · exact h.write hi (fun _ => ⟨fun ht => absurd ht hterm, id⟩) fun hno => absurd hno hw

theorem Sound.step (h : s.Sound)
    (hs : Step lib allowed s s') : s'.Sound := by
  cases hs with
  | reconcile r _ => exact h.reconcile
  | close _ | vanish => exact ⟨h.ordered, h.unmarked⟩
  | @edit old new hcur hw hf hp =>
    unfold current at hcur
    split_ifs at hcur
    rw [getLast?_eq_getElem?] at hcur
    have hlen : s.versions.length - 1 + 1 = s.versions.length := by
      have := (List.getElem?_eq_some_iff.1 hcur).1
      omega
    apply h.append hcur hlen
    · refine ⟨fun ht => ?_, fun hfin => ?_⟩
      · rw [hp]
        exact ht
      · rw [hf]
        exact hfin
    · rw [hw, hp]
      exact h.unmarked old (mem_of_getElem? hcur)

theorem Fresh.sound (h : s.Fresh) : s.Sound := by
  obtain ⟨run, hv, hw, hp⟩ := h.versions
  refine ⟨?_, fun a ha _ => ?_⟩
  · rw [hv]
    exact pairwise_singleton _ _
  · rw [hv] at ha
    obtain rfl := mem_singleton.1 ha
    exact hp

theorem Sound.reaches (h : s.Sound)
    (hr : Reaches lib allowed s s') : s'.Sound := by
  induction hr with
  | refl => exact h
  | tail _ hs ih => exact ih.step hs

/-! ## What a reconcile does -/

structure Keeps (s s' : Bridge) : Prop where
  gone : s'.gone = s.gone
  executions : s'.executions = s.executions
  grows : s.versions <+: s'.versions

theorem Keeps.refl (s : Bridge) : Keeps s s := ⟨rfl, rfl, prefix_rfl⟩

theorem Keeps.trans {s₁ s₂} (h : Keeps s s₁) (h' : Keeps s₁ s₂) : Keeps s s₂ :=
  ⟨h'.gone.trans h.gone, h'.executions.trans h.executions, h.grows.trans h'.grows⟩

theorem write_keeps : Keeps s (s.write i run ok lost).1 := by
  rcases write_cases s i run ok lost with ⟨heq, -⟩ | ⟨-, heq⟩ <;> rw [heq]
  · exact .refl s
  · exact ⟨rfl, rfl, prefix_append _ _⟩

theorem finishStart_keeps : Keeps s (s.finishStart r) := by
  unfold finishStart
  split
  · exact .refl s
  · split
    · exact .refl s
    · exact write_keeps

theorem recordStart_keeps : Keeps s (s.recordStart r i run) := by
  unfold recordStart
  dsimp only
  split_ifs
  · exact write_keeps.trans finishStart_keeps
  · exact write_keeps

theorem launch_keeps (s : Bridge) (r : Replies) (i : ℕ) (run : AgentRun) :
    Keeps (s.executeWorkflow r).1 (s.launch r i run) := by
  unfold launch
  dsimp only
  split
  · exact write_keeps
  · exact recordStart_keeps

def CallsStart (s : Bridge) (r : Replies) : Prop :=
  ∃ i run, r.read = some i ∧ s.versions[i]? = some run ∧ run.starts ∧
    (s.project ≠ "" → r.resolve = none ∧ (s.write i run r.persist r.persistLost).2 = true)

inductive Outcome (s : Bridge) (r : Replies) : Bridge → Prop
  | keeps {s' : Bridge} (h : Keeps s s') : Outcome s r s'
  | launches {s₁ : Bridge} {j : ℕ} {read : AgentRun} (hc : s.CallsStart r) (h : Keeps s s₁) :
      Outcome s r (s₁.launch r j read)
  | finalizes {j : ℕ} {read : AgentRun} (hread : r.read = some j) (hj : s.versions[j]? = some read)
      (hd : read.deleting = true) (hf : read.finalizer = true) : Outcome s r (s.finalize r j read)

theorem reconcile_outcome : Outcome s r (s.reconcile lib r) := by
  unfold Bridge.reconcile
  split
  · exact .keeps (.refl s)
  · rename_i i hread
    split
    · exact .keeps (.refl s)
    · rename_i run hi
      unfold reconcileAt
      split_ifs with hd hf hfin harch hclean hw hterm
      · exact .finalizes hread hi hd hf
      · exact .keeps (.refl s)
      · exact .keeps write_keeps
      · exact .keeps (.refl s)
      · exact .keeps write_keeps
      · have hstarts : run.starts := starts_iff.2 ⟨by simpa using hd, by simpa using hfin,
          by simpa using harch, hw⟩
        unfold startWorkflow
        split_ifs with hproject
        · exact .launches ⟨i, run, hread, hi, hstarts, fun hp => absurd hproject hp⟩ (.refl s)
        · split
          · exact .keeps write_keeps
          · rename_i hresolve
            dsimp only
            split_ifs with hok
            · exact .launches ⟨i, run, hread, hi, hstarts, fun _ => ⟨hresolve, hok⟩⟩ write_keeps
            · exact .keeps write_keeps
      · exact .keeps (.refl s)
      · exact .keeps write_keeps

/-! ## Starting once -/

/-- Reconciles start a workflow only while no earlier execution has closed. -/
def StartsFirst (s : Bridge) (r : Replies) : Prop :=
  s.CallsStart r → ∀ e ∈ s.executions, e.isOpen = true

theorem launch_executions (s : Bridge) (r : Replies) (i : ℕ) (run : AgentRun) :
    (s.launch r i run).executions = s.executions ∨
      s.hasOpen = false ∧ (s.launch r i run).executions = s.executions ++ [.fresh] := by
  rw [(launch_keeps s r i run).executions]
  unfold executeWorkflow
  split
  · split_ifs with hlost
    · simp only [Bool.and_eq_true, Bool.not_eq_true'] at hlost
      exact .inr ⟨hlost.2, rfl⟩
    · exact .inl rfl
  · split_ifs with hopen
    · exact .inl rfl
    · exact .inr ⟨by simpa using hopen, rfl⟩

theorem cancelWorkflow_executions :
    (s.cancelWorkflow run ok).executions = if run.workflowID ≠ "" ∧ ok = true then
      s.executions.map fun e => if e.isOpen then { e with cancelRequested := true } else e
    else s.executions := by
  unfold cancelWorkflow
  split_ifs <;> rfl

theorem Outcome.length_le (h : Outcome s r s') (hfirst : s.StartsFirst r)
    (hlen : s.executions.length ≤ 1) : s'.executions.length ≤ 1 := by
  cases h with
  | keeps hk =>
    rw [hk.executions]
    exact hlen
  | @launches s₁ i run hc hk =>
    rcases launch_executions s₁ r i run with heq | ⟨hno, heq⟩ <;>
      rw [heq, hk.executions]
    · exact hlen
    · have hempty : s.executions = [] := by
        rw [eq_nil_iff_forall_not_mem]
        intro e he
        rw [hasOpen, any_eq_false, hk.executions] at hno
        exact hno e he (hfirst hc e he)
      rw [hempty]
      exact Nat.le_refl 1
  | finalizes =>
    rw [show (s.finalize r _ _).executions = _ from cancelWorkflow_executions]
    split_ifs
    · simpa using hlen
    · exact hlen

theorem length_le_of_reaches (h : s.executions = [])
    (hr : Reaches lib StartsFirst s s') : s'.executions.length ≤ 1 := by
  induction hr with
  | refl =>
    rw [h]
    exact Nat.zero_le 1
  | tail _ hs ih =>
    cases hs with
    | reconcile r ha => exact reconcile_outcome.length_le ha ih
    | close he =>
      rw [he] at ih
      simpa using ih
    | edit | vanish => exact ih

/-- Reconciles of a deleted AgentRun with an open execution see its annotation and cancel it. -/
def CancelsOpen (s : Bridge) (r : Replies) : Prop :=
  ∀ i run, r.read = some i → s.versions[i]? = some run → run.deleting = true →
    run.finalizer = true → s.isCurrent i = true → s.hasOpen = true →
    run.workflowID ≠ "" ∧ r.cancel = true

def Guarded (s : Bridge) : Prop := s.executions ≠ [] → ∃ run ∈ s.versions, run.finalizer = true

theorem executeWorkflow_gone : (s.executeWorkflow r).1.gone = s.gone := by
  obtain ⟨executions, hx⟩ := executeWorkflow_fst s r
  rw [hx]

theorem executeWorkflow_versions : (s.executeWorkflow r).1.versions = s.versions := by
  obtain ⟨executions, hx⟩ := executeWorkflow_fst s r
  rw [hx]

theorem Outcome.grows (h : Outcome s r s') : s.versions <+: s'.versions := by
  cases h with
  | keeps hk => exact hk.grows
  | @launches s₁ i run hc hk =>
    apply hk.grows.trans
    have hgrows := (launch_keeps s₁ r i run).grows
    rw [executeWorkflow_versions] at hgrows
    exact hgrows
  | finalizes =>
    unfold finalize cancelWorkflow
    split_ifs <;> exact prefix_rfl

theorem Guarded.outcome (h : s.Guarded) (ho : Outcome s r s') : s'.Guarded := by
  intro hne
  have hold : s.executions ≠ [] → ∃ run ∈ s'.versions, run.finalizer = true := by
    intro hs
    obtain ⟨run, hmem, hf⟩ := h hs
    exact ⟨run, ho.grows.subset hmem, hf⟩
  have hgrows := ho.grows
  cases ho with
  | keeps hk =>
    apply hold
    rw [← hk.executions]
    exact hne
  | launches hc hk =>
    obtain ⟨i, run, -, hi, hstarts, -⟩ := hc
    exact ⟨run, hgrows.subset (mem_of_getElem? hi), (starts_iff.1 hstarts).2.1⟩
  | finalizes =>
    apply hold
    intro hnil
    apply hne
    rw [show (s.finalize r _ _).executions = _ from cancelWorkflow_executions, hnil]
    split_ifs <;> rfl

theorem Guarded.step (h : s.Guarded)
    (hs : Step lib allowed s s') : s'.Guarded := by
  cases hs with
  | reconcile r _ => exact h.outcome reconcile_outcome
  | close he =>
    intro _
    apply h
    rw [he]
    simp
  | edit =>
    intro hne
    obtain ⟨run, hmem, hf⟩ := h hne
    exact ⟨run, mem_append_left _ hmem, hf⟩
  | vanish => exact h

theorem Guarded.reaches (h : s.Guarded)
    (hr : Reaches lib allowed s s') : s'.Guarded := by
  induction hr with
  | refl => exact h
  | tail _ hs ih => exact ih.step hs

theorem Guarded.finalizer (h : s.Guarded) (hs : s.Sound) (hne : s.executions ≠ [])
    (hcur : s.current = some run) : run.finalizer = true := by
  obtain ⟨run', hmem, hf⟩ := h hne
  unfold current at hcur
  split_ifs at hcur
  obtain ⟨vs, hvs⟩ := getLast?_eq_some_iff.1 hcur
  rw [hvs] at hmem
  rcases mem_append.1 hmem with hmem | hmem
  · have hfollows := hs.ordered
    rw [hvs, pairwise_append] at hfollows
    exact (hfollows.2.2 run' hmem run (mem_singleton_self run)).finalizer hf
  · rw [← mem_singleton.1 hmem]
    exact hf

theorem Outcome.cancelled (h : Outcome s r s') (ha : s.CancelsOpen r)
    (hbefore : s.gone = false) (hafter : s'.gone = true) :
    ∀ e ∈ s'.executions, e.isOpen = false ∨ e.cancelRequested = true := by
  cases h with
  | keeps hk =>
    rw [hk.gone, hbefore] at hafter
    cases hafter
  | launches hc hk =>
    rw [(launch_keeps ..).gone, executeWorkflow_gone, hk.gone, hbefore] at hafter
    cases hafter
  | @finalizes i run hread hi hd hf =>
    intro e he
    rw [show (s.finalize r i run).executions = _ from cancelWorkflow_executions] at he
    have hcurrent : s.isCurrent i = true := by
      simp only [finalize, hbefore, Bool.false_or, Bool.and_eq_true] at hafter
      exact hafter.1
    by_cases hopen : s.hasOpen = true
    · rw [if_pos (ha i run hread hi hd hf hcurrent hopen)] at he
      obtain ⟨e₀, -, rfl⟩ := mem_map.1 he
      cases hx : e₀.isOpen <;> simp [hx]
    · have hclosed : ∀ e ∈ s.executions, e.isOpen = false := by
        simpa [hasOpen] using hopen
      split_ifs at he
      · obtain ⟨e₀, he₀, rfl⟩ := mem_map.1 he
        simp [hclosed e₀ he₀]
      · exact .inl (hclosed e he)

/-! ## Reconciles that read the current version -/

theorem current_write {vs} (hv : s.versions = vs ++ [old]) (hg : s.gone = false) (new : AgentRun)
    (ok : Bool) : (s.write vs.length new ok false).1.current = some (if ok then new else old) := by
  have hc : s.isCurrent vs.length := isCurrent_iff.2 ⟨hg, by rw [hv]; simp⟩
  unfold write
  rw [if_pos hc]
  cases ok <;> simp [current, hg, hv]

theorem current_recordStart {vs} (hv : s.versions = vs ++ [run]) (hg : s.gone = false)
    (hrefetch : r.refetch = some (vs.length + 1)) (hu : r.updateLost = false)
    (hs : r.statusLost = false) :
    (s.recordStart r vs.length run).current = some (if r.update then
      if r.statusUpdate then run.annotate.markRunning r.now else run.annotate else run) := by
  have hc : s.isCurrent vs.length := isCurrent_iff.2 ⟨hg, by rw [hv]; simp⟩
  unfold recordStart
  rw [hu]
  cases hok : r.update with
  | false =>
    simp [write, current, hg, hv]
  | true =>
    have hwrite : s.write vs.length run.annotate true false =
        ({ s with versions := (vs ++ [run]) ++ [run.annotate] }, true) := by
      unfold write
      rw [if_pos hc]
      simp [hv]
    rw [hwrite]
    simp only [finishStart, hrefetch, hs]
    have hget : ((vs ++ [run]) ++ [run.annotate])[vs.length + 1]? = some run.annotate := by
      simp
    have hfinal := current_write (s := { s with versions := (vs ++ [run]) ++ [run.annotate] }) rfl hg
      (run.annotate.markRunning r.now) r.statusUpdate
    simpa using hfinal

theorem current_startWorkflow {vs} (hv : s.versions = vs ++ [run]) (hg : s.gone = false)
    (hp : s.project = "") (hrefetch : r.refetch = some (vs.length + 1)) (hu : r.updateLost = false)
    (hs : r.statusLost = false) :
    (s.startWorkflow lib r vs.length run).current = some (Uncworks.startWorkflow r.toCalls run) := by
  have hv₁ : (s.executeWorkflow r).1.versions = vs ++ [run] := executeWorkflow_versions.trans hv
  have hg₁ : (s.executeWorkflow r).1.gone = false := executeWorkflow_gone.trans hg
  have hrecord := current_recordStart hv₁ hg₁ hrefetch hu hs
  have hrest : ∀ q : StartResult, (∀ text, q ≠ .failed text) → r.start = q →
      (s.startWorkflow lib r vs.length run).current =
        some (Uncworks.startWorkflow r.toCalls run) := by
    intro q hq hstart
    have hlaunch : s.startWorkflow lib r vs.length run =
        (s.executeWorkflow r).1.recordStart r vs.length run := by
      unfold startWorkflow launch
      unfold executeWorkflow
      cases q with
      | failed text => exact absurd rfl (hq text)
      | started | alreadyStarted =>
        simp only [hstart]
        split_ifs <;> rfl
    rw [hlaunch, hrecord]
    unfold Uncworks.startWorkflow
    cases q with
    | failed text => exact absurd rfl (hq text)
    | started | alreadyStarted =>
      simp only [hstart]
      cases r.update <;> cases r.statusUpdate <;> rfl
  cases hstart : r.start with
  | started => exact hrest .started nofun hstart
  | alreadyStarted => exact hrest .alreadyStarted nofun hstart
  | failed text =>
    have hwrite := current_write hv₁ hg₁ (run.startFailed text) r.statusUpdate
    have hlaunch : s.startWorkflow lib r vs.length run =
        ((s.executeWorkflow r).1.write vs.length (run.startFailed text) r.statusUpdate false).1 := by
      unfold startWorkflow launch
      rw [if_pos hp, hs]
      unfold executeWorkflow
      simp [hstart]
    rw [hlaunch, hwrite]
    unfold Uncworks.startWorkflow
    simp only [hstart]
    cases r.statusUpdate <;> rfl

/-- A reconcile that reads the current version of an AgentRun that is not deleted, and whose failed
calls have no effect, stores what `Uncworks.reconcile` says. -/
theorem reconcile_fresh {vs} (hv : s.versions = vs ++ [run]) (hg : s.gone = false)
    (hp : s.project = "") (hread : r.read = some vs.length)
    (hrefetch : r.refetch = some (vs.length + 1)) (hu : r.updateLost = false)
    (hs : r.statusLost = false) (hd : run.deleting = false) :
    (s.reconcile lib r).current = some (Uncworks.reconcile r.toCalls run) := by
  have hget : s.versions[vs.length]? = some run := by rw [hv]; simp
  have hcurrent : s.current = some run := by simp [current, hg, hv]
  unfold Bridge.reconcile Uncworks.reconcile reconcileAt
  simp only [hread, hget, hd, Bool.false_eq_true, if_false, hu, hs]
  by_cases hfin : (!run.finalizer) = true
  · rw [if_pos hfin, if_pos hfin, current_write hv hg]
  rw [if_neg hfin, if_neg hfin]
  by_cases harch : run.status.archived = true
  · rw [if_pos harch, if_pos harch]
    by_cases hclean : run.cleanedUp = true
    · simp [hclean, hcurrent]
    · rw [if_neg hclean, current_write hv hg]
      cases r.update <;> simp [hclean]
  rw [if_neg harch, if_neg harch]
  by_cases hw : run.workflowID = ""
  · rw [if_pos hw, if_pos hw]
    exact current_startWorkflow hv hg hp hrefetch hu hs
  rw [if_neg hw, if_neg hw]
  by_cases hterm : isTerminal run.status.phase = true
  · rw [if_pos hterm, if_pos hterm]
    exact hcurrent
  rw [if_neg hterm, if_neg hterm, current_write hv hg]

end

end Bridge

/-! ## Sample runs -/

namespace Bridge

abbrev sampleLib : Go.Lib := sampleEnv.toLib

def fresh : Bridge where
  versions := [{ name := "ar-abcd", status := { phase := .pending } }]

theorem fresh_fresh : fresh.Fresh := ⟨⟨_, rfl, rfl, rfl⟩, rfl⟩

def guarded : Bridge := fresh.reconcile sampleLib { read := some 0 }

def launched (annotated : Bool) : Bridge :=
  guarded.reconcile sampleLib { read := some 1, refetch := some 2, update := annotated }

theorem reaches_launched {allowed} (annotated : Bool) (h₁ : allowed fresh { read := some 0 })
    (h₂ : allowed guarded { read := some 1, refetch := some 2, update := annotated }) :
    Reaches sampleLib allowed fresh (launched annotated) :=
  .tail (.single (.reconcile _ h₁)) (.reconcile _ h₂)

theorem reconcile_fresh_guarded : guarded.versions.length = 2 ∧
    (launched true).current = guarded.current.map (Uncworks.reconcile {}) := by
  have hv : guarded.versions = fresh.versions ++ [_] := rfl
  exact ⟨rfl, reconcile_fresh hv rfl rfl rfl rfl rfl rfl rfl⟩

end Bridge

/-! ## The executions of an AgentRun -/

/-- If workflows are started only while no execution has closed, at most one is started; and a
terminal version is in any case followed by terminal ones only. -/
theorem started_once {lib : Go.Lib} {s s' : Bridge} (h : s.Fresh)
    (hr : Bridge.Reaches lib Bridge.StartsFirst s s') :
    s'.executions.length ≤ 1 ∧ s'.versions.Pairwise Bridge.Later :=
  ⟨Bridge.length_le_of_reaches h.executions hr, (h.sound.reaches hr).ordered.imp fun hab => hab.later⟩

theorem started_once_launched :
    (Bridge.launched true).executions.length ≤ 1 ∧
      (Bridge.launched true).versions.Pairwise Bridge.Later :=
  started_once Bridge.fresh_fresh
    (Bridge.reaches_launched true (fun _ _ he => nomatch he) fun _ _ he => nomatch he)

/-- The annotation is not stored, the execution closes, and the next reconcile starts another one. -/
theorem started_twice :
    ∃ s : Bridge, Bridge.Reaches Bridge.sampleLib (fun _ _ => True) Bridge.fresh s ∧
      s.executions.length = 2 := by
  have hclose : Bridge.Step Bridge.sampleLib (fun _ _ => True) (Bridge.launched false)
      { Bridge.launched false with executions := [⟨false, false⟩] } :=
    @Bridge.Step.close _ _ _ [] .fresh [] rfl
  exact ⟨_, .tail (.tail (Bridge.reaches_launched false trivial trivial) hclose)
    (.reconcile { read := some 1 } trivial), rfl⟩

/-- If reconciles of a deleted AgentRun see the annotation of an open execution and cancel it, an
AgentRun goes only when its executions are closed or asked to cancel. -/
theorem finalizer_removed {lib : Go.Lib} {s s₁ s₂ : Bridge} (h : s.Fresh)
    (hr : Bridge.Reaches lib Bridge.CancelsOpen s s₁) (hs : Bridge.Step lib Bridge.CancelsOpen s₁ s₂)
    (hbefore : s₁.gone = false) (hafter : s₂.gone = true) :
    ∀ e ∈ s₂.executions, e.isOpen = false ∨ e.cancelRequested = true := by
  have hguarded : s.Guarded := fun hne => absurd h.executions hne
  cases hs with
  | reconcile r ha => exact Bridge.reconcile_outcome.cancelled ha hbefore hafter
  | close | edit =>
    rw [show s₁.gone = true from hafter] at hbefore
    cases hbefore
  | vanish hcur hf =>
    intro e he
    have hfin := (hguarded.reaches hr).finalizer (h.sound.reaches hr) (List.ne_nil_of_mem he) hcur
    rw [hf] at hfin
    cases hfin

def Bridge.deleted (annotated : Bool) : Bridge where
  versions := (Bridge.launched annotated).versions ++
    [{ (Bridge.launched annotated).versions.getLastD {} with deleting := true }]
  executions := [.fresh]

theorem Bridge.reaches_deleted {allowed} (annotated : Bool) (h₁ : allowed fresh { read := some 0 })
    (h₂ : allowed guarded { read := some 1, refetch := some 2, update := annotated }) :
    Reaches sampleLib allowed fresh (deleted annotated) := by
  refine .tail (reaches_launched annotated h₁ h₂) ?_
  cases annotated <;> exact .edit rfl rfl rfl rfl

theorem finalizer_removed_deleted :
    ((Bridge.deleted true).reconcile Bridge.sampleLib { read := some 4 }).gone ∧
      ∀ e ∈ ((Bridge.deleted true).reconcile Bridge.sampleLib { read := some 4 }).executions,
        e.isOpen = false ∨ e.cancelRequested = true := by
  have hfirst : Bridge.fresh.CancelsOpen { read := some 0 } := by
    intro i run hread hi hd
    cases hread
    cases hi
    cases hd
  have hsecond : Bridge.guarded.CancelsOpen { read := some 1, refetch := some 2 } := by
    intro i run hread hi hd
    cases hread
    cases hi
    cases hd
  have hlast : (Bridge.deleted true).CancelsOpen { read := some 4 } := by
    intro i run hread hi _ _ _ _
    cases hread
    cases hi
    exact ⟨by decide, rfl⟩
  exact ⟨rfl, finalizer_removed Bridge.fresh_fresh (Bridge.reaches_deleted true hfirst hsecond)
    (.reconcile _ hlast) rfl rfl⟩

/-- The annotation is not stored and the AgentRun is deleted: its execution runs on. -/
theorem finalizer_leaks_execution :
    ∃ s : Bridge, Bridge.Reaches Bridge.sampleLib (fun _ _ => True) Bridge.fresh s ∧
      s.gone = false ∧ (s.reconcile Bridge.sampleLib { read := some 2 }).gone = true ∧
      (s.reconcile Bridge.sampleLib { read := some 2 }).executions = [.fresh] :=
  ⟨_, Bridge.reaches_deleted false trivial trivial, rfl, rfl, rfl⟩

end Uncworks
