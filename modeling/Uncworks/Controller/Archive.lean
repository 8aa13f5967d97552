import Uncworks.Controller.Reconciler
import Uncworks.Kube.Api
import Uncworks.Machine.Runs

/-!
# Archiving AgentRuns

The archive requests of the API server, the archive branch of `Reconcile`, and
`cleanupExpiredRuns`.  The last two delete the Deployment and the PVC of the run and then set an
annotation that marks it as cleaned up; each API call is a step of its own.  Reads may return any
stored version, and every call may fail.
-/

namespace Uncworks

open Kube List

/-! ## Requests -/

inductive ArchiveBody where
  | undecodable
  | decoded (archived : Option Bool)
  deriving DecidableEq

def handleArchive : ArchiveBody → Bool
  | .undecodable => true
  | .decoded archived => archived.getD false

/-- `handleBulkArchive`: what `Status.Archived` is set to, unless the request is refused. -/
def handleBulkArchive : ArchiveBody → Option Bool
  | .undecodable => none
  | .decoded archived => some (archived.getD true)

def AgentRun.withArchived (run : AgentRun) (archived : Bool) : AgentRun :=
  { run with status := { run.status with archived := archived } }

/-! ## Cleaning up -/

inductive Sweep where
  | archiveBranch
  | cleanupExpiredRuns
  deriving DecidableEq

def AgentRun.inArchiveBranch (run : AgentRun) : Bool :=
  !run.deleting && run.finalizer && run.status.archived && !run.cleanedUp

def retentionPeriod (days : ℤ) : ℤ := (if days ≤ 0 then 7 else days) * 24 * 3600

def AgentRun.expired (days : ℤ) (now : ℕ) (run : AgentRun) : Bool :=
  isTerminal run.status.phase && !(run.status.archived || run.cleanedUp) &&
    match run.status.completedAt with
    | none => false
    | some completedAt => retentionPeriod days ≤ now - completedAt

def Sweep.enters (days : ℤ) (now : ℕ) (run : AgentRun) : Sweep → Bool
  | archiveBranch => run.inArchiveBranch
  | cleanupExpiredRuns => run.expired days now

inductive ArchiveCall where
  | deleteDeployment
  | deletePvc
  | annotate
  deriving DecidableEq

def deletedOrAbsent (reply : Reply) : Bool := reply.error?.all (·.isNotFound)

def Sweep.goesOn (reply : Reply) : Sweep → Bool
  | archiveBranch => true
  | cleanupExpiredRuns => deletedOrAbsent reply

structure ArchivePass where
  sweep : Sweep
  index : ℕ
  run : AgentRun
  next : ArchiveCall

namespace ArchivePass

/-- A Deployment is deleted only if the status names it. -/
def start (sweep : Sweep) (index : ℕ) (run : AgentRun) : ArchivePass where
  sweep := sweep
  index := index
  run := run
  next := if run.status.deploymentName ≠ "" then .deleteDeployment else .deletePvc

def advance (p : ArchivePass) (reply : Reply) : Option ArchivePass :=
  match p.next with
  | .deleteDeployment => if p.sweep.goesOn reply then some { p with next := .deletePvc } else none
  | .deletePvc => if p.sweep.goesOn reply then some { p with next := .annotate } else none
  | .annotate => none

end ArchivePass

/-! ## The cluster -/

/-- An AgentRun with its Deployment and its PVC, the cleanups in progress, and the phase of the
AgentRun at each delete that a cleanup has issued. -/
structure ArchiveCluster where
  object : Object AgentRun
  deployment : Bool := false
  pvc : Bool := false
  passes : List ArchivePass := []
  deletes : List AgentRunPhase := []

/-- What can happen.  Versions that are read and cleanups in progress are given by their positions.
-/
inductive ArchiveEvent where
  | handleArchive (body : ArchiveBody) (i : ℕ) (reply : Reply)
  | handleBulkArchive (body : ArchiveBody) (i : ℕ) (reply : Reply)
  /-- `Reconcile` outside of its archive branch. -/
  | reconcile (calls : Calls) (i : ℕ) (reply : Reply)
  | start (sweep : Sweep) (i : ℕ) (now : ℕ)
  | call (k : ℕ) (reply : Reply)
  /-- The workflow creates resources. -/
  | provision (deployment pvc : Bool)
  /-- Another party deletes resources. -/
  | remove (deployment pvc : Bool)
  /-- The deletion of the AgentRun is requested. -/
  | delete

namespace ArchiveCluster

def phase (s : ArchiveCluster) : AgentRunPhase :=
  (s.object.versions.getLast?.map (·.status.phase)).getD .unset

def has (s : ArchiveCluster) : ArchiveCall → Bool
  | .deleteDeployment => s.deployment
  | .deletePvc => s.pvc
  | .annotate => false

def write (s : ArchiveCluster) (i : ℕ) (change : AgentRun → AgentRun) (reply : Reply) :
    ArchiveCluster :=
  match s.object.versions[i]? with
  | none => s
  | some run => { s with object := s.object.write i (change run) reply }

def perform (s : ArchiveCluster) (p : ArchivePass) (reply : Reply) : ArchiveCluster :=
  match p.next with
  | .deleteDeployment =>
    { s with deployment := s.deployment && !reply.stores, deletes := s.deletes ++ [s.phase] }
  | .deletePvc => { s with pvc := s.pvc && !reply.stores, deletes := s.deletes ++ [s.phase] }
  | .annotate => { s with object := s.object.write p.index { p.run with cleanedUp := true } reply }

def resume (passes : List ArchivePass) (k : ℕ) : Option ArchivePass → List ArchivePass
  | none => passes.eraseIdx k
  | some p => passes.set k p

section

variable (days : ℤ) (s : ArchiveCluster)

def apply : ArchiveEvent → ArchiveCluster
  | .handleArchive body i reply => s.write i (·.withArchived (handleArchive body)) reply
  | .handleBulkArchive body i reply => match handleBulkArchive body with
    | none => s
    | some archived => s.write i (·.withArchived archived) reply
  | .reconcile calls i reply =>
    s.write i (fun run => if run.inArchiveBranch then run else reconcile calls run) reply
  | .start sweep i now => match s.object.versions[i]? with
    | none => s
    | some run =>
      if sweep.enters days now run then
        { s with passes := s.passes ++ [ArchivePass.start sweep i run] }
      else s
  | .call k reply => match s.passes[k]? with
    | none => s
    | some p => { s.perform p reply with passes := resume s.passes k (p.advance reply) }
  | .provision deployment pvc =>
    { s with deployment := s.deployment || deployment, pvc := s.pvc || pvc }
  | .remove deployment pvc =>
    { s with deployment := s.deployment && !deployment, pvc := s.pvc && !pvc }
  | .delete => match s.object.versions.getLast? with
    | none => s
    | some run => { s with object := { s.object with
      versions := s.object.versions ++ [{ run with deleting := true }] } }

/-- A resource is reported as absent only if it is, and the workflow creates none for a run in a
terminal phase. -/
def possible : ArchiveEvent → Bool
  | .call k reply => match s.passes[k]?, reply with
    | some p, .refused (.notFound _) => !s.has p.next
    | _, _ => true
  | .provision _ _ => !isTerminal s.phase
  | _ => true

/-- A run is archived only in a terminal phase; a cleanup that starts without the name of the
Deployment finds none; the deletes of the archive branch succeed or find nothing. -/
def orderly : ArchiveEvent → Bool
  | .handleArchive body i _ =>
    !handleArchive body || s.object.versions[i]?.all fun run => isTerminal run.status.phase
  | .handleBulkArchive body i _ =>
    handleBulkArchive body != some true ||
      s.object.versions[i]?.all fun run => isTerminal run.status.phase
  | .start sweep i now => s.object.versions[i]?.all fun run =>
      !sweep.enters days now run || run.status.deploymentName ≠ "" || !s.deployment
  | .call k reply => s.passes[k]?.all fun p =>
      p.sweep = .cleanupExpiredRuns || p.next = .annotate || deletedOrAbsent reply
  | _ => true

end

def Reaches (days : ℤ) (allowed : ArchiveCluster → ArchiveEvent → Bool) :
    ArchiveCluster → ArchiveCluster → Prop :=
  Relation.ReflTransGen fun s s' => ∃ e, allowed s e ∧ s' = s.apply days e

/-! ## The invariant -/

/-- A cleanup in progress: the run it has read is in a terminal phase, and what it has already dealt
with is gone. -/
structure PassOK (s : ArchiveCluster) (p : ArchivePass) : Prop where
  read : s.object.versions[p.index]? = some p.run
  terminal : isTerminal p.run.status.phase
  deployment : p.next ≠ .deleteDeployment → s.deployment = false
  pvc : p.next = .annotate → s.pvc = false

/-- Every version that is archived or cleaned up is in a terminal phase, which is never left, and the
resources of a run that is cleaned up are gone. -/
structure Sound (s : ArchiveCluster) : Prop where
  started : ∀ v ∈ s.object.versions, isTerminal v.status.phase → v.workflowID ≠ ""
  marked : ∀ v ∈ s.object.versions, v.status.archived → isTerminal v.status.phase
  cleaned : ∀ v ∈ s.object.versions, v.cleanedUp → isTerminal v.status.phase
  latched : ∀ v ∈ s.object.versions, isTerminal v.status.phase → isTerminal s.phase
  gone : ∀ v, s.object.versions.getLast? = some v → v.cleanedUp →
    s.deployment = false ∧ s.pvc = false
  passes : ∀ p ∈ s.passes, s.PassOK p
  deletes : ∀ phase ∈ s.deletes, isTerminal phase

/-- A new version that keeps to the invariant, by the version it is based on. -/
structure Succeeds (s : ArchiveCluster) (v x : AgentRun) : Prop where
  latched : isTerminal v.status.phase → isTerminal x.status.phase
  started : isTerminal x.status.phase → x.workflowID ≠ ""
  marked : x.status.archived → isTerminal x.status.phase
  cleaned : x.cleanedUp → isTerminal x.status.phase
  gone : x.cleanedUp → v.cleanedUp ∨ (s.deployment = false ∧ s.pvc = false)

section Invariant

variable {days : ℤ} {s : ArchiveCluster} {i : ℕ} {v x : AgentRun}

theorem phase_of_getLast? (h : s.object.versions.getLast? = some v) : s.phase = v.status.phase := by
  rw [phase, h]
  rfl

theorem Sound.append (h : s.Sound) (hv : s.object.versions.getLast? = some v)
    (hx : s.Succeeds v x) :
    Sound { s with object := { s.object with versions := s.object.versions ++ [x] } } := by
  have hphase : phase { s with object := { s.object with versions := s.object.versions ++ [x] } } =
      x.status.phase := phase_of_getLast? getLast?_concat
  have hall : ∀ {P : AgentRun → Prop}, (∀ u ∈ s.object.versions, P u) → P x →
      ∀ u ∈ s.object.versions ++ [x], P u := fun hold hnew =>
    forall_mem_append.2 ⟨hold, forall_mem_singleton.2 hnew⟩
  refine ⟨hall h.started hx.started, hall h.marked hx.marked, hall h.cleaned hx.cleaned,
    hall (fun u hu ht => ?_) (fun ht => ?_), fun u hu hc => ?_, fun p hp => ?_, h.deletes⟩
  · have hlast := h.latched u hu ht
    rw [phase_of_getLast? hv] at hlast
    rw [hphase]
    exact hx.latched hlast
  · rw [hphase]
    exact ht
  · rw [getLast?_concat] at hu
    cases hu
    exact (hx.gone hc).elim (h.gone v hv) id
  · obtain ⟨hread, hterm, hdep, hpvc⟩ := h.passes p hp
    refine ⟨?_, hterm, hdep, hpvc⟩
    rw [List.getElem?_append_left (List.getElem?_eq_some_iff.1 hread).1]
    exact hread

theorem Sound.objectWrite (h : s.Sound) (hv : s.object.versions[i]? = some v)
    (hx : s.Succeeds v x) (reply : Reply) :
    Sound { s with object := s.object.write i x reply } := by
  by_cases hw : s.object.isCurrent i ∧ reply.stores
  · rw [Object.write_of_stores hw.1 hw.2]
    exact h.append (Object.getLast?_of_current (Object.current_eq hw.1 hv)) hx
  · rw [Object.write_of_not hw]
    exact h

theorem Sound.write (h : s.Sound) {change}
    (hx : ∀ v, s.object.versions[i]? = some v → s.Succeeds v (change v)) (reply : Reply) :
    Sound (s.write i change reply) := by
  unfold ArchiveCluster.write
  cases hv : s.object.versions[i]? with
  | none => exact h
  | some v => exact h.objectWrite hv (hx v hv) reply

theorem Sound.succeeds_of_eq (h : s.Sound) (hv : v ∈ s.object.versions)
    (hp : x.status.phase = v.status.phase) (hw : v.workflowID ≠ "" → x.workflowID ≠ "")
    (ha : x.status.archived = v.status.archived) (hc : x.cleanedUp = v.cleanedUp) :
    s.Succeeds v x := by
  refine ⟨fun ht => ?_, fun ht => ?_, fun harch => ?_, fun hcl => ?_, fun hcl => .inl ?_⟩
  · rw [hp]
    exact ht
  · rw [hp] at ht
    exact hw (h.started v hv ht)
  · rw [hp]
    exact h.marked v hv (ha ▸ harch)
  · rw [hp]
    exact h.cleaned v hv (hc ▸ hcl)
  · rw [← hc]
    exact hcl

theorem Sound.succeeds_archived (h : s.Sound) (hv : v ∈ s.object.versions) {archived : Bool}
    (hterm : archived → isTerminal v.status.phase) : s.Succeeds v (v.withArchived archived) :=
  ⟨id, h.started v hv, hterm, h.cleaned v hv, .inl⟩

theorem startWorkflow_keeps (calls : Calls) (run : AgentRun) :
    (startWorkflow calls run).cleanedUp = run.cleanedUp ∧
      (startWorkflow calls run).status.archived = run.status.archived ∧
      ((startWorkflow calls run).status.phase = run.status.phase ∨
        (startWorkflow calls run).status.phase = .running) := by
  unfold startWorkflow
  split
  · split
    all_goals exact ⟨rfl, rfl, .inl rfl⟩
  · split
    · exact ⟨rfl, rfl, .inl rfl⟩
    · split
      · exact ⟨rfl, rfl, .inr rfl⟩
      · exact ⟨rfl, rfl, .inl rfl⟩

theorem syncWorkflowState_archived (calls : Calls) (old : AgentRunStatus) :
    (syncWorkflowState calls old).archived = old.archived := by
  unfold syncWorkflowState
  split
  · rfl
  · rfl
  · split
    · unfold syncFromDescription
      split <;> rfl
    · split <;> rfl

theorem Sound.succeeds_reconcile (h : s.Sound) (hv : v ∈ s.object.versions) (calls : Calls) :
    s.Succeeds v (if v.inArchiveBranch then v else reconcile calls v) := by
  have hsame : ∀ x : AgentRun, x.status = v.status → x.workflowID = v.workflowID →
      x.cleanedUp = v.cleanedUp → s.Succeeds v x := fun x hs hw hc =>
    h.succeeds_of_eq hv (by rw [hs]) (by rw [hw]; exact id) (by rw [hs]) hc
  by_cases hbranch : v.inArchiveBranch
  · rw [if_pos hbranch]
    exact hsame v rfl rfl rfl
  rw [if_neg hbranch]
  unfold reconcile
  split
  · split
    · exact hsame _ rfl rfl rfl
    · exact hsame v rfl rfl rfl
  rename_i hdel
  split
  · split
    · exact hsame _ rfl rfl rfl
    · exact hsame v rfl rfl rfl
  rename_i hfin
  split
  · rename_i harch
    rw [if_neg]
    · exact hsame v rfl rfl rfl
    · intro hclean
      apply hbranch
      simp only [Bool.not_eq_true', Bool.not_eq_true] at hdel hfin hclean
      simp [AgentRun.inArchiveBranch, hdel, hfin, harch, hclean.1]
  rename_i harch
  split
  · -- a run without a workflow is in no terminal phase, and is in none after the start
    rename_i hw
    have hnot : ¬ isTerminal v.status.phase := fun ht => h.started v hv ht hw
    obtain ⟨hc, ha, hphase⟩ := startWorkflow_keeps calls v
    have hnot' : ¬ isTerminal (startWorkflow calls v).status.phase := by
      rcases hphase with hphase | hphase
      · rw [hphase]
        exact hnot
      · rw [hphase]
        decide
    refine ⟨fun ht => absurd ht hnot, fun ht => absurd ht hnot', fun hx => ?_, fun hx => ?_,
      fun hx => .inl ?_⟩
    · rw [ha] at hx
      exact absurd hx harch
    · rw [hc] at hx
      exact absurd (h.cleaned v hv hx) hnot
    · rw [← hc]
      exact hx
  rename_i hw
  split
  · exact hsame v rfl rfl rfl
  rename_i hterm
  split
  · refine ⟨fun ht => absurd ht hterm, fun _ => hw, fun hx => ?_, fun hx => ?_, .inl⟩
    · rw [syncWorkflowState_archived] at hx
      exact absurd hx harch
    · exact absurd (h.cleaned v hv hx) hterm
  · exact hsame v rfl rfl rfl

theorem Sound.update (h : s.Sound) {deployment pvc passes deletes}
    (hgone : ∀ v, s.object.versions.getLast? = some v → v.cleanedUp →
      deployment = false ∧ pvc = false)
    (hpasses : ∀ p ∈ passes, PassOK { s with deployment := deployment, pvc := pvc } p)
    (hdeletes : ∀ phase ∈ deletes, isTerminal phase) :
    Sound { s with
      deployment := deployment, pvc := pvc, passes := passes, deletes := deletes } :=
  ⟨h.started, h.marked, h.cleaned, h.latched, hgone,
    fun p hp => ⟨(hpasses p hp).read, (hpasses p hp).terminal, (hpasses p hp).deployment,
      (hpasses p hp).pvc⟩, hdeletes⟩

theorem Sound.remove (h : s.Sound) {deployment pvc} (hd : s.deployment = false → deployment = false)
    (hp : s.pvc = false → pvc = false) : Sound { s with deployment := deployment, pvc := pvc } := by
  refine h.update (fun v hv hc => ?_) (fun p hmem => ?_) h.deletes
  · exact ⟨hd (h.gone v hv hc).1, hp (h.gone v hv hc).2⟩
  · obtain ⟨hread, hterm, hdep, hpvc⟩ := h.passes p hmem
    exact ⟨hread, hterm, fun hne => hd (hdep hne), fun heq => hp (hpvc heq)⟩

end Invariant

section Steps

variable {days : ℤ} {s : ArchiveCluster}

theorem deleted_of_goesOn {reply present} (hd : deletedOrAbsent reply)
    (hn : ∀ text, reply = .refused (.notFound text) → present = false) :
    (present && !reply.stores) = false := by
  cases reply with
  | ok | lost e => simp [Reply.stores]
  | refused e =>
    cases e with
    | notFound text =>
      rw [hn text rfl]
      rfl
    | invalid text | other text => cases hd

theorem mem_resume {passes k o q} (h : q ∈ resume passes k o) : q ∈ passes ∨ o = some q := by
  cases o with
  | none => exact .inl (mem_of_mem_eraseIdx h)
  | some p =>
    rcases mem_or_eq_of_mem_set h with h | h
    · exact .inl h
    · exact .inr (by rw [h])

theorem Sound.afterDelete (h : s.Sound) {k o deployment pvc}
    (hd : s.deployment = false → deployment = false) (hp : s.pvc = false → pvc = false)
    (ho : ∀ p, o = some p → PassOK { s with deployment := deployment, pvc := pvc } p)
    (hphase : isTerminal s.phase) :
    Sound { s with
      deployment := deployment, pvc := pvc, passes := resume s.passes k o
      deletes := s.deletes ++ [s.phase] } := by
  have hrem := h.remove hd hp
  refine h.update hrem.gone (fun q hq => ?_) (fun phase hmem => ?_)
  · rcases mem_resume hq with hq | hq
    · exact hrem.passes q hq
    · exact ho q hq
  · rcases mem_append.1 hmem with hmem | hmem
    · exact h.deletes phase hmem
    · rw [mem_singleton.1 hmem]
      exact hphase

theorem Sound.call (h : s.Sound) {k p reply} (hk : s.passes[k]? = some p)
    (hposs : ∀ text, reply = .refused (.notFound text) → s.has p.next = false)
    (hord : p.next ≠ .annotate → p.sweep.goesOn reply → deletedOrAbsent reply) :
    Sound { s.perform p reply with passes := resume s.passes k (p.advance reply) } := by
  obtain ⟨hread, hterm, hdep, hpvc⟩ := h.passes p (mem_of_getElem? hk)
  have hmem := mem_of_getElem? hread
  have hphase := h.latched p.run hmem hterm
  unfold ArchiveCluster.perform ArchivePass.advance
  cases hnext : p.next with
  | deleteDeployment =>
    rw [hnext] at hposs hord
    refine h.afterDelete (fun hf => ?_) id (fun q hq => ?_) hphase
    · rw [hf]
      rfl
    · dsimp only at hq
      split at hq
      · rename_i hgo
        cases hq
        have hnone := deleted_of_goesOn (hord (by decide) hgo) hposs
        exact ⟨hread, hterm, fun _ => hnone, fun heq => ArchiveCall.noConfusion heq⟩
      · cases hq
  | deletePvc =>
    rw [hnext] at hposs hord hdep
    refine h.afterDelete id (fun hf => ?_) (fun q hq => ?_) hphase
    · rw [hf]
      rfl
    · dsimp only at hq
      split at hq
      · rename_i hgo
        cases hq
        have hnone := deleted_of_goesOn (hord (by decide) hgo) hposs
        exact ⟨hread, hterm, fun _ => hdep (by decide), fun _ => hnone⟩
      · cases hq
  | annotate =>
    have hsucc : s.Succeeds p.run { p.run with cleanedUp := true } :=
      ⟨id, h.started p.run hmem, h.marked p.run hmem, fun _ => hterm,
        fun _ => .inr ⟨hdep (by rw [hnext]; decide), hpvc hnext⟩⟩
    have hw := h.objectWrite hread hsucc reply
    refine hw.update hw.gone (fun q hq => hw.passes q ?_) hw.deletes
    exact (mem_resume hq).resolve_right nofun

theorem Sound.start (h : s.Sound) {sweep i now v} (hv : s.object.versions[i]? = some v)
    (henters : sweep.enters days now v) (hd : v.status.deploymentName = "" → s.deployment = false) :
    Sound { s with passes := s.passes ++ [ArchivePass.start sweep i v] } := by
  refine h.update h.gone (fun p hp => ?_) h.deletes
  rcases mem_append.1 hp with hp | hp
  · exact h.passes p hp
  · rw [mem_singleton.1 hp]
    refine ⟨hv, ?_, fun hne => hd ?_, fun heq => ?_⟩
    · cases sweep with
      | archiveBranch =>
        simp only [Sweep.enters, AgentRun.inArchiveBranch, Bool.and_eq_true] at henters
        exact h.marked v (mem_of_getElem? hv) henters.1.2
      | cleanupExpiredRuns =>
        simp only [Sweep.enters, AgentRun.expired, Bool.and_eq_true] at henters
        exact henters.1.1
    · by_contra hname
      exact hne (if_pos hname)
    · simp only [ArchivePass.start] at heq
      split at heq <;> cases heq

theorem Sound.apply (h : s.Sound) {e} (hposs : s.possible e) (hord : s.orderly days e) :
    Sound (s.apply days e) := by
  cases e with
  | handleArchive body i reply =>
    refine h.write (fun v hv => h.succeeds_archived (mem_of_getElem? hv) fun ha => ?_) reply
    simpa [orderly, ha, hv] using hord
  | handleBulkArchive body i reply =>
    unfold ArchiveCluster.apply
    dsimp only
    cases hb : Uncworks.handleBulkArchive body with
    | none => exact h
    | some archived =>
      refine h.write (fun v hv => h.succeeds_archived (mem_of_getElem? hv) fun ha => ?_) reply
      simpa [orderly, hb, ha, hv] using hord
  | reconcile calls i reply =>
    exact h.write (fun v hv => h.succeeds_reconcile (mem_of_getElem? hv) calls) reply
  | start sweep i now =>
    unfold ArchiveCluster.apply
    dsimp only
    cases hv : s.object.versions[i]? with
    | none => exact h
    | some v =>
      dsimp only
      split
      · rename_i henters
        refine h.start hv henters fun hname => ?_
        simpa [orderly, hv, henters, hname] using hord
      · exact h
  | call k reply =>
    unfold ArchiveCluster.apply
    dsimp only
    cases hk : s.passes[k]? with
    | none => exact h
    | some p =>
      refine h.call hk (fun text hr => ?_) (fun hne hgo => ?_)
      · simpa [possible, hk, hr] using hposs
      · cases hs : p.sweep with
        | cleanupExpiredRuns =>
          rw [hs] at hgo
          exact hgo
        | archiveBranch => simpa [orderly, hk, hs, hne] using hord
  | provision deployment pvc =>
    -- while the phase is not terminal nothing is cleaned up and no cleanup is in progress
    have hphase : ¬ isTerminal s.phase := by simpa [possible] using hposs
    refine h.update (fun v hv hc => ?_) (fun p hp => ?_) h.deletes
    · have hmem := mem_of_getLast? hv
      exact absurd (h.latched v hmem (h.cleaned v hmem hc)) hphase
    · have hok := h.passes p hp
      exact absurd (h.latched p.run (mem_of_getElem? hok.read) hok.terminal) hphase
  | remove deployment pvc =>
    refine h.remove (fun hf => ?_) (fun hf => ?_)
    all_goals
      rw [hf]
      rfl
  | delete =>
    unfold ArchiveCluster.apply
    cases hv : s.object.versions.getLast? with
    | none => exact h
    | some v =>
      exact h.append hv (h.succeeds_of_eq (mem_of_getLast? hv) rfl id rfl rfl)

theorem Sound.reaches {s'} (h : s.Sound)
    (hs : Reaches days (fun s e => s.possible e && s.orderly days e) s s') : s'.Sound := by
  induction hs with
  | refl => exact h
  | tail _ hstep ih =>
    obtain ⟨e, hallowed, rfl⟩ := hstep
    rw [Bool.and_eq_true] at hallowed
    exact ih.apply hallowed.1 hallowed.2

end Steps

def created (run : AgentRun) : ArchiveCluster where
  object := { versions := [run] }

def observed (s : ArchiveCluster) : List AgentRunPhase × Bool × Bool × Bool :=
  (s.deletes, s.deployment, s.pvc, (s.object.versions.getLast?.map (·.cleanedUp)).getD false)

theorem reaches_observed (days : ℤ) (allowed : ArchiveCluster → ArchiveEvent → Bool)
    (es : List ArchiveEvent) (s : ArchiveCluster) {o}
    (h : (Machine.replay (fun s e => some (s.apply days e)) allowed es s).any (·.observed = o)) :
    ∃ s', Reaches days allowed s s' ∧ s'.observed = o := by
  obtain ⟨s', hs, ho⟩ := Machine.exists_of_replay es h
  refine ⟨s', Relation.ReflTransGen.mono ?_ _ _ hs, of_decide_eq_true ho⟩
  rintro s s' ⟨e, he, happly⟩
  exact ⟨e, he, (Option.some.inj happly).symm⟩

end ArchiveCluster

/-- In every orderly run deletes are issued only when the AgentRun is in a terminal phase, and the
Deployment and the PVC of a run with the annotation are gone. -/
theorem archive_safe (days : ℤ) (run : AgentRun) (hphase : ¬ isTerminal run.status.phase)
    (ha : run.status.archived = false) (hc : run.cleanedUp = false) (s : ArchiveCluster)
    (h : ArchiveCluster.Reaches days (fun s e => s.possible e && s.orderly days e)
      (.created run) s) :
    (∀ phase ∈ s.deletes, isTerminal phase) ∧
      ∀ v, s.object.versions.getLast? = some v → v.cleanedUp →
        s.deployment = false ∧ s.pvc = false := by
  have h0 : (ArchiveCluster.created run).Sound := by
    have hall : ∀ {P : AgentRun → Prop}, P run → ∀ v ∈ [run], P v :=
      List.forall_mem_singleton.2
    refine ⟨hall fun ht => absurd ht hphase, hall fun harch => ?_, hall fun hcl => ?_,
      hall fun ht => absurd ht hphase, fun v hv hcl => ⟨rfl, rfl⟩, ?_, ?_⟩
    · rw [ha] at harch
      cases harch
    · rw [hc] at hcl
      cases hcl
    · intro p hp
      cases hp
    · intro ph hph
      cases hph
  have hsound := h0.reaches h
  exact ⟨hsound.deletes, hsound.gone⟩

section Sample

def runningEvents : List ArchiveEvent := [.reconcile {} 0 .ok, .provision true true]

def succeededEvents : List ArchiveEvent :=
  runningEvents ++ [.reconcile
    { query := .state { phase := .succeeded, message := "", deploymentName := "agentrun-fix-login" } } 1 .ok]

def freshRun : AgentRun := { name := "fix-login", finalizer := true }

end Sample

/-- A run that has succeeded is archived and cleaned up. -/
theorem archive_safe_cleaned :
    ∃ s, ArchiveCluster.Reaches 7 (fun s e => s.possible e && s.orderly 7 e) (.created freshRun) s ∧
      s.observed = ([.succeeded, .succeeded], false, false, true) ∧
      (∀ phase ∈ s.deletes, isTerminal phase) ∧
      ∀ v, s.object.versions.getLast? = some v → v.cleanedUp →
        s.deployment = false ∧ s.pvc = false := by
  have hrun : ∃ s, ArchiveCluster.Reaches 7 (fun s e => s.possible e && s.orderly 7 e)
      (.created freshRun) s ∧ s.observed = ([.succeeded, .succeeded], false, false, true) :=
    ArchiveCluster.reaches_observed 7 _
      (succeededEvents ++ [.handleArchive (.decoded (some true)) 2 .ok, .start .archiveBranch 3 0,
        .call 0 .ok, .call 0 .ok, .call 0 .ok]) (.created freshRun) (by decide)
  obtain ⟨s, hs, ho⟩ := hrun
  exact ⟨s, hs, ho, archive_safe 7 freshRun (by decide) rfl rfl s hs⟩

/-- A running run loses its Deployment and its PVC when it is archived; the annotation is set
although the delete of the Deployment has failed, or although the status of an expired run does not
name it. -/
theorem archive_unsafe :
    (∃ s, ArchiveCluster.Reaches 7 ArchiveCluster.possible (.created freshRun) s ∧
      s.observed = ([.running], true, false, false)) ∧
    (∃ s, ArchiveCluster.Reaches 7 ArchiveCluster.possible (.created freshRun) s ∧
      s.observed = ([.succeeded, .succeeded], true, false, true)) ∧
    ∃ s, ArchiveCluster.Reaches 7 ArchiveCluster.possible (.created freshRun) s ∧
      s.observed = ([.succeeded], true, false, true) := by
  refine ⟨?_, ?_, ?_⟩
  · exact ArchiveCluster.reaches_observed 7 _ (runningEvents ++
      [.handleArchive (.decoded (some true)) 1 .ok, .start .archiveBranch 2 0, .call 0 .ok])
      (.created freshRun) (by decide)
  · exact ArchiveCluster.reaches_observed 7 _ (succeededEvents ++
      [.handleArchive (.decoded (some true)) 2 .ok, .start .archiveBranch 3 0,
        .call 0 (.refused (.other "timeout")), .call 0 .ok, .call 0 .ok])
      (.created freshRun) (by decide)
  · exact ArchiveCluster.reaches_observed 7 _ (runningEvents ++
      [.reconcile { describe := .ok { status := .completed } } 1 .ok,
        .start .cleanupExpiredRuns 2 (8 * 24 * 3600), .call 0 .ok, .call 0 .ok])
      (.created freshRun) (by decide)

end Uncworks
