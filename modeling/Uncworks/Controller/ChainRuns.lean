import Uncworks.Controller.ChainMoves

/-!
# Runs of the ChainRun reconciler

A ChainRun with every version that was stored, the AgentRuns created for it, and the AgentRuns as
they are now.  A reconcile may read any version and all its calls may fail; AgentRuns change in any
way between reconciles.
-/

namespace Uncworks

open Kube ChainPass List

/-! ## The cluster -/

structure ChainCluster where
  object : Object ChainRun
  /-- The AgentRuns ever created for the ChainRun, in order. -/
  created : List ChildRun := []
  /-- The AgentRuns that exist now. -/
  agentRuns : String → Option ChildStatus := fun _ => none

structure ChainReplies extends ChainCalls where
  read : Except Error ℕ
  update : Reply := .ok

namespace ChainCluster

/-- The ChainRun after a write; without finalizer a deleted ChainRun is removed. -/
def store (o : Object ChainRun) (i : ℕ) (r : Reply) : Option ChainRun →
    Object ChainRun
  | none => o
  | some cr =>
    { o.write i cr r with
      gone := o.gone || o.isCurrent i && r.stores && cr.deleting && !cr.finalizer }

def resultAfter (o : Object ChainRun) (i : ℕ) (r : Reply) (fx : ChainEffects) : Result :=
  match fx.store with
  | none => fx.result
  | some _ => match o.writeError i r with
    | some e => .error ("reconcile: " ++ e.text)
    | none => fx.result

def addRuns (created : List ChildRun) (agentRuns : String → Option ChildStatus) :
    String → Option ChildStatus :=
  fun n => if created.any (·.name = n) then some {} else agentRuns n

def reconcileAt (lib : Go.Lib) (r : ChainReplies) (i : ℕ) (cr : ChainRun) (s : ChainCluster) :
    ChainCluster × Result :=
  let fx := reconcileChainRun lib r.toChainCalls cr
  ({ object := store s.object i r.update fx.store
     created := s.created ++ fx.created
     agentRuns := addRuns fx.created s.agentRuns },
    resultAfter s.object i r.update fx)

def reconcile (lib : Go.Lib) (r : ChainReplies) (s : ChainCluster) : ChainCluster × Result :=
  match r.read with
  | .error e => (s, if e.isNotFound then .done else .error ("reconcile: " ++ e.text))
  | .ok i => match s.object.versions[i]? with
    | none => (s, .done)
    | some cr => s.reconcileAt lib r i cr

/-- The deletion of the ChainRun by a user: with a finalizer it is only marked. -/
def markDeleted (o : Object ChainRun) (cr : ChainRun) : Object ChainRun :=
  if cr.finalizer then { o with versions := o.versions ++ [{ cr with deleting := true }] }
  else { o with gone := true }

/-- A step: a reconcile that meets a condition, any change of the AgentRuns, and the deletion of the
ChainRun by a
user. -/
inductive Step (lib : Go.Lib) (allowed : ChainCluster → ChainReplies → Prop) :
    ChainCluster → ChainCluster → Prop
  | reconcile {s} (r : ChainReplies) (h : allowed s r) : Step lib allowed s (s.reconcile lib r).1
  | agentRuns {s} (runs : String → Option ChildStatus) :
      Step lib allowed s { s with agentRuns := runs }
  | delete {s cr} (h : s.object.current = some cr) :
      Step lib allowed s { s with object := markDeleted s.object cr }

def Reaches (lib : Go.Lib) (allowed : ChainCluster → ChainReplies → Prop) :
    ChainCluster → ChainCluster → Prop :=
  Relation.ReflTransGen (Step lib allowed)

structure Fresh (s : ChainCluster) : Prop where
  versions : ∃ cr, s.object.versions = [cr] ∧ cr.status = {} ∧ cr.deleting = false
  gone : s.object.gone = false
  created : s.created = []

end ChainCluster

/-! ## What a reconcile writes -/

section Write

variable {lib : Go.Lib} {calls : ChainCalls} {cr cr' : ChainRun} {defs : List ChainStep}

def ChainRun.active (cr : ChainRun) : Bool :=
  !cr.deleting && cr.finalizer && !cr.status.phase.isTerminal

theorem active_iff : cr.active ↔
    cr.deleting = false ∧ cr.finalizer = true ∧ cr.status.phase.isTerminal = false := by
  simp [ChainRun.active, and_assoc]

theorem terminal_of_not_active (h : ¬ cr.active) (hd : ¬ cr.deleting) (hf : cr.finalizer) :
    cr.status.phase.isTerminal := by
  by_contra ht
  exact h (active_iff.2 ⟨by simpa using hd, hf, by simpa using ht⟩)

structure Advances (lib : Go.Lib) (calls : ChainCalls) (cr : ChainRun) (defs : List ChainStep) :
    Prop where
  active : cr.active
  chain : calls.chain = .ok defs
  valid : validateChainDAG lib defs = none
  steps : cr.status.steps ≠ []

inductive ChainWrite (lib : Go.Lib) (calls : ChainCalls) (cr : ChainRun) : ChainRun → Prop
  | unfinalize (h : cr.deleting) : ChainWrite lib calls cr { cr with finalizer := false }
  | finalize (h : cr.deleting = false) (hf : cr.finalizer = false) :
      ChainWrite lib calls cr { cr with finalizer := true }
  | unreadable (h : cr.active) (e : Error) (he : calls.chain = .error e) :
      ChainWrite lib calls cr (cr.fail s!"chain {lib.quote cr.chainRef} not found: {e.text}")
  | invalid (h : cr.active) (defs : List ChainStep) (hd : calls.chain = .ok defs) (err : String)
      (he : validateChainDAG lib defs = some err) :
      ChainWrite lib calls cr (cr.fail s!"invalid chain DAG: {err}")
  | initial (h : cr.active) (defs : List ChainStep) (hd : calls.chain = .ok defs)
      (hv : validateChainDAG lib defs = none) (hs : cr.status.steps = []) :
      ChainWrite lib calls cr { cr with status := initialStatus cr.status defs }
  | advance (defs : List ChainStep) (h : Advances lib calls cr defs) :
      ChainWrite lib calls cr { cr with
        status := completeStatus cr.status (loops lib cr defs calls).steps }

theorem reconcileChainRun_of_active (h : cr.active) :
    reconcileChainRun lib calls cr = reconcileChain lib calls cr := by
  obtain ⟨hd, hf, ht⟩ := active_iff.1 h
  simp [reconcileChainRun, hd, hf, ht]

theorem reconcileChainRun_of_advances (h : Advances lib calls cr defs) :
    reconcileChainRun lib calls cr = finishPass cr (loops lib cr defs calls) := by
  rw [reconcileChainRun_of_active h.active]
  simp [reconcileChain, h.chain, h.valid, h.steps]

theorem active_cases (lib : Go.Lib) (calls : ChainCalls) (h : cr.active) :
    (∃ e, calls.chain = .error e) ∨
    (∃ defs err, calls.chain = .ok defs ∧ validateChainDAG lib defs = some err) ∨
    (∃ defs, calls.chain = .ok defs ∧ validateChainDAG lib defs = none ∧ cr.status.steps = []) ∨
    ∃ defs, Advances lib calls cr defs := by
  cases hc : calls.chain with
  | error e => exact .inl ⟨e, rfl⟩
  | ok defs =>
    cases hv : validateChainDAG lib defs with
    | some err => exact .inr (.inl ⟨defs, err, rfl, hv⟩)
    | none =>
      by_cases hs : cr.status.steps = []
      · exact .inr (.inr (.inl ⟨defs, rfl, hv, hs⟩))
      · exact .inr (.inr (.inr ⟨defs, h, hc, hv, hs⟩))

theorem reconcileChainRun_store (h : (reconcileChainRun lib calls cr).store = some cr') :
    ChainWrite lib calls cr cr' := by
  by_cases ha : cr.active
  · rcases active_cases lib calls ha with
      ⟨e, he⟩ | ⟨defs, err, hd, he⟩ | ⟨defs, hd, hv, hs⟩ | ⟨defs, hadv⟩
    · rw [reconcileChainRun_of_active ha, reconcileChain, he] at h
      cases h
      exact .unreadable ha e he
    · rw [reconcileChainRun_of_active ha] at h
      simp only [reconcileChain, hd, he] at h
      cases h
      exact .invalid ha defs hd err he
    · rw [reconcileChainRun_of_active ha] at h
      simp only [reconcileChain, hd, hv, hs] at h
      cases h
      exact .initial ha defs hd hv hs
    · rw [reconcileChainRun_of_advances hadv, finishPass] at h
      split at h
      · cases h
        exact .advance defs hadv
      · cases h
  · by_cases hd : cr.deleting
    · by_cases hf : cr.finalizer
      · rw [reconcileChainRun, if_pos hd, if_pos hf] at h
        cases h
        exact .unfinalize hd
      · simp [reconcileChainRun, hd, hf] at h
    · by_cases hf : cr.finalizer
      · simp [reconcileChainRun, hd, hf, terminal_of_not_active ha hd hf] at h
      · rw [reconcileChainRun, if_neg hd, if_pos (by simpa using hf)] at h
        cases h
        exact .finalize (by simpa using hd) (by simpa using hf)

theorem reconcileChainRun_created {c} (h : c ∈ (reconcileChainRun lib calls cr).created) :
    ∃ defs, Advances lib calls cr defs ∧ c ∈ (loops lib cr defs calls).created := by
  by_cases ha : cr.active
  · obtain ⟨e, he⟩ | ⟨defs, err, hd, he⟩ | ⟨defs, hd, hv, hs⟩ | ⟨defs, hadv⟩ :=
      active_cases lib calls ha
    · simp [reconcileChainRun_of_active ha, reconcileChain, he] at h
    · simp [reconcileChainRun_of_active ha, reconcileChain, hd, he] at h
    · simp [reconcileChainRun_of_active ha, reconcileChain, hd, hv, hs] at h
    · rw [reconcileChainRun_of_advances hadv] at h
      exact ⟨defs, hadv, h⟩
  · by_cases hd : cr.deleting
    · by_cases hf : cr.finalizer <;> simp [reconcileChainRun, hd, hf] at h
    · by_cases hf : cr.finalizer
      · simp [reconcileChainRun, hd, hf, terminal_of_not_active ha hd hf] at h
      · simp [reconcileChainRun, hd, hf] at h

end Write

/-! ## The stored versions -/

namespace ChainCluster

variable {lib : Go.Lib} {allowed : ChainCluster → ChainReplies → Prop} {s s' : ChainCluster}
  {r : ChainReplies} {i : ℕ} {cr cr' : ChainRun} {o : Object ChainRun} {reply : Reply}

theorem store_of_not {st} (h : ¬ (o.isCurrent i ∧ reply.stores)) : store o i reply st = o := by
  cases st with
  | none => rfl
  | some cr =>
    have hgone : (o.isCurrent i && reply.stores) = false := by simpa using h
    simp [store, Object.write_of_not h, hgone]

theorem store_of_stores (h : o.isCurrent i) (hr : reply.stores) :
    store o i reply (some cr) =
      { versions := o.versions ++ [cr], gone := cr.deleting && !cr.finalizer } := by
  rw [store, Object.write_of_stores h hr, h, hr, (Object.isCurrent_iff.1 h).1]
  simp

theorem store_versions (o : Object ChainRun) (i : ℕ) (reply : Reply)
    (st : Option ChainRun) : (store o i reply st).versions = o.versions ∨
      ∃ cr, st = some cr ∧ o.isCurrent i ∧ reply.stores ∧
        (store o i reply st).versions = o.versions ++ [cr] := by
  by_cases h : o.isCurrent i ∧ reply.stores
  · cases st with
    | none => exact .inl rfl
    | some cr => exact .inr ⟨cr, rfl, h.1, h.2, by rw [store_of_stores h.1 h.2]⟩
  · exact .inl (by rw [store_of_not h])

theorem reconcile_eq (hr : r.read = .ok i) (hi : s.object.versions[i]? = some cr) :
    s.reconcile lib r = s.reconcileAt lib r i cr := by
  rw [reconcile, hr]
  dsimp only
  rw [hi]

theorem reconcile_cases (lib : Go.Lib) (r : ChainReplies) (s : ChainCluster) :
    (s.reconcile lib r).1 = s ∨ ∃ i cr, r.read = .ok i ∧ s.object.versions[i]? = some cr ∧
      (s.reconcile lib r).1 = (s.reconcileAt lib r i cr).1 := by
  cases hr : r.read with
  | error e => exact .inl (by rw [reconcile, hr])
  | ok i =>
    cases hi : s.object.versions[i]? with
    | none =>
      left
      rw [reconcile, hr]
      dsimp only
      rw [hi]
    | some cr => exact .inr ⟨i, cr, rfl, hi, by rw [reconcile_eq hr hi]⟩

theorem Step.versions (h : Step lib allowed s s') : s'.object.versions = s.object.versions ∨
    ∃ cr cr', s.object.current = some cr ∧ s'.object.versions = s.object.versions ++ [cr'] ∧
      (cr' = { cr with deleting := true } ∨
        ∃ r, allowed s r ∧ ChainWrite lib r.toChainCalls cr cr') := by
  cases h with
  | reconcile r ha =>
    rcases reconcile_cases lib r s with heq | ⟨i, cr, -, hi, heq⟩
    · exact .inl (by rw [heq])
    · rw [heq]
      rcases store_versions s.object i r.update (reconcileChainRun lib r.toChainCalls cr).store with
        hsame | ⟨cr', hst, hcur, -, hv⟩
      · exact .inl hsame
      · exact .inr ⟨cr, cr', Object.current_eq hcur hi, hv, .inr ⟨r, ha,
          reconcileChainRun_store hst⟩⟩
  | agentRuns runs => exact .inl rfl
  | @delete cr hcur =>
    by_cases hf : cr.finalizer
    · exact .inr ⟨cr, { cr with deleting := true }, hcur, by simp [markDeleted, hf], .inl rfl⟩
    · exact .inl (by simp [markDeleted, hf])

theorem Reaches.versions {P : ChainRun → Prop} (h : Reaches lib allowed s s')
    (h0 : ∀ cr ∈ s.object.versions, P cr)
    (hdel : ∀ cr, P cr → P { cr with deleting := true })
    (hwrite : ∀ s r cr cr', allowed s r → P cr → ChainWrite lib r.toChainCalls cr cr' → P cr') :
    ∀ cr ∈ s'.object.versions, P cr := by
  induction h with
  | refl => exact h0
  | tail _ hstep ih =>
    rcases hstep.versions with heq | ⟨cr, cr', hcur, hv, hcases⟩
    · rw [heq]
      exact ih
    · have hcr := ih cr (Object.current_mem hcur)
      intro x hx
      rw [hv, mem_append, mem_singleton] at hx
      rcases hx with hx | rfl
      · exact ih x hx
      · rcases hcases with rfl | ⟨r, ha, hw⟩
        · exact hdel cr hcr
        · exact hwrite _ r cr _ ha hcr hw

end ChainCluster

/-! ## The steps of a ChainRun over a fixed chain -/

structure StepsOK (defs : List ChainStep) (steps : List ChainRunStepStatus) : Prop where
  names : steps.map ChainRunStepStatus.name = defs.map ChainStep.name
  runID : ∀ t ∈ steps, t.phase = .running ∨ t.phase = .succeeded → t.runID ≠ ""
  started : ∀ t ∈ steps, t.phase = .running ∨ t.phase = .succeeded ∨ t.phase = .failed →
    ∀ d, stepDef defs t.name = some d → ∀ dep ∈ d.dependsOn,
      ∃ u ∈ steps, u.name = dep ∧ u.phase = .succeeded
  skipped : ∀ t ∈ steps, t.phase = .skipped →
    ∃ u ∈ steps, DependsOn defs t.name u.name ∧ u.phase = .failed

section StepsOK

variable {defs : List ChainStep} {steps steps' : List ChainRunStepStatus}

theorem StepsOK.initial (defs : List ChainStep) :
    StepsOK defs (defs.map fun d => { name := d.name }) where
  names := by simp
  runID t ht hp := by
    obtain ⟨d, -, rfl⟩ := mem_map.1 ht
    simp at hp
  started t ht hp := by
    obtain ⟨d, -, rfl⟩ := mem_map.1 ht
    simp at hp
  skipped t ht hp := by
    obtain ⟨d, -, rfl⟩ := mem_map.1 ht
    simp at hp

theorem StepsOK.move (h : StepsOK defs steps) (hm : Move defs steps steps') :
    StepsOK defs steps' := by
  -- a step that succeeded or failed is not moved, so it still supports the others
  have hkeep : ∀ (t : ChainRunStepStatus), t ∈ steps → t.phase = .succeeded ∨ t.phase = .failed →
      t ∈ steps' := by
    intro t ht hp
    apply hm.mem_of_done ht <;> rcases hp with hp | hp <;> simp [hp]
  have hnames := hm.names.trans h.names
  obtain ⟨i, s, s', hs, hn, hmove, rfl⟩ := hm
  have hmem : s ∈ steps := mem_of_getElem? hs
  refine ⟨hnames, ?_, ?_, ?_⟩
  · intro t ht hp
    rcases mem_or_eq_of_mem_set ht with ht | rfl
    · exact h.runID t ht hp
    · cases hmove with
      | sync hrun hid hp' =>
        rw [hid]
        exact h.runID s hmem (.inl hrun)
      | start d hpend hd hok hp' =>
        rcases hp' with ⟨-, hid⟩ | hf
        · exact hid
        · simp [hf] at hp
      | skip d dep hpend hd hdep hblock hp' => simp [hp'] at hp
  · intro t ht hp d hd dep hdep
    suffices hex : ∃ u ∈ steps, u.name = dep ∧ u.phase = .succeeded by
      obtain ⟨u, hu, hname, hsucc⟩ := hex
      exact ⟨u, hkeep u hu (.inl hsucc), hname, hsucc⟩
    rcases mem_or_eq_of_mem_set ht with ht | rfl
    · exact h.started t ht hp d hd dep hdep
    · rw [hn] at hd
      cases hmove with
      | sync hrun hid hp' => exact h.started s hmem (.inl hrun) d hd dep hdep
      | start d' hpend hd' hok hp' =>
        rw [hd'] at hd
        cases hd
        exact phaseOf_eq_some (allDepsOK_iff.1 hok dep hdep)
      | skip d' dep' hpend hd' hdep' hblock hp' => simp [hp'] at hp
  · intro t ht hp
    suffices hex : ∃ u ∈ steps, DependsOn defs t.name u.name ∧ u.phase = .failed by
      obtain ⟨u, hu, hname, hf⟩ := hex
      exact ⟨u, hkeep u hu (.inr hf), hname, hf⟩
    rcases mem_or_eq_of_mem_set ht with ht | rfl
    · exact h.skipped t ht hp
    · cases hmove with
      | sync hrun hid hp' => rcases hp' with h | h <;> simp [h] at hp
      | start d hpend hd hok hp' => rcases hp' with ⟨h, -⟩ | h <;> simp [h] at hp
      | skip d dep hpend hd hdep hblock hp' =>
        have hdirect : DependsOn defs s.name dep :=
          .single ⟨d, (stepDef_mem hd).1, (stepDef_mem hd).2, hdep⟩
        rw [hn]
        rcases hblock with hf | hsk
        · obtain ⟨u, hu, rfl, hphase⟩ := phaseOf_eq_some hf
          exact ⟨u, hu, hdirect, hphase⟩
        · obtain ⟨v, hv, rfl, hphase⟩ := phaseOf_eq_some hsk
          obtain ⟨u, hu, htrans, hfail⟩ := h.skipped v hv hphase
          exact ⟨u, hu, hdirect.trans htrans, hfail⟩

theorem StepsOK.moves (h : StepsOK defs steps) (hm : Moves defs steps steps') :
    StepsOK defs steps' := by
  induction hm with
  | refl => exact h
  | tail _ hstep ih => exact ih.move hstep

def VersionOK (defs : List ChainStep) (cr : ChainRun) : Prop :=
  cr.status.steps = [] ∨ StepsOK defs cr.status.steps

theorem completeStatus_steps (status : ChainRunStatus) (steps : List ChainRunStepStatus) :
    (completeStatus status steps).steps = steps := by
  unfold completeStatus
  split_ifs <;> rfl

def FixedChain (defs : List ChainStep) (_ : ChainCluster) (r : ChainReplies) : Prop :=
  r.chain = .ok defs ∨ ∃ e, r.chain = .error e

theorem FixedChain.eq {s r defs'} (h : FixedChain defs s r) (hd : r.chain = .ok defs') :
    defs' = defs := by
  rcases h with h | ⟨e, he⟩
  · rw [h] at hd
    exact (Except.ok.inj hd).symm
  · rw [he] at hd
    cases hd

theorem VersionOK.write {lib s r cr cr'} (hfix : FixedChain defs s r) (h : VersionOK defs cr)
    (hw : ChainWrite lib r.toChainCalls cr cr') : VersionOK defs cr' := by
  cases hw with
  | unfinalize hd | finalize hd hf | unreadable ha e he | invalid ha defs' hd err he => exact h
  | initial ha defs' hd hv hs =>
    rw [hfix.eq hd]
    exact .inr (.initial defs)
  | advance defs' hadv =>
    obtain rfl := hfix.eq hadv.chain
    right
    rw [completeStatus_steps]
    exact (h.resolve_left hadv.steps).moves loops_moves

theorem ChainCluster.Fresh.versionOK {s : ChainCluster} (h : s.Fresh) :
    ∀ cr ∈ s.object.versions, VersionOK defs cr := by
  obtain ⟨cr, hv, hst, -⟩ := h.versions
  intro x hx
  rw [hv, mem_singleton] at hx
  subst hx
  exact .inl (by rw [hst])

theorem versionOK_of_reaches {lib allowed s s'} (hfix : ∀ s r, allowed s r → FixedChain defs s r) (h : s.Fresh)
    (hr : ChainCluster.Reaches lib allowed s s') : ∀ cr ∈ s'.object.versions, VersionOK defs cr :=
  hr.versions h.versionOK (fun _ h => h) fun s r _ _ ha hP hw => hP.write (hfix s r ha) hw

theorem StepsOK.nodup (h : StepsOK defs steps) (hv : ValidDAG defs) :
    (steps.map ChainRunStepStatus.name).Nodup := by
  rw [h.names]
  exact hv.nodup

end StepsOK

/-! ## The phases of a ChainRun -/

structure ChainConsistent (defs : List ChainStep) (status : ChainRunStatus) : Prop where
  /-- Steps run only after their dependencies have succeeded. -/
  started : ∀ t ∈ status.steps,
    t.phase = .running ∨ t.phase = .succeeded ∨ t.phase = .failed →
    ∀ d ∈ defs, d.name = t.name → ∀ dep ∈ d.dependsOn, phaseOf status.steps dep = some .succeeded
  /-- Steps are skipped only behind a step that failed. -/
  skipped : ∀ t ∈ status.steps, t.phase = .skipped →
    ∃ n, DependsOn defs t.name n ∧ phaseOf status.steps n = some .failed
  succeeded : status.phase = .succeeded →
    ∀ d ∈ defs, phaseOf status.steps d.name = some .succeeded
  failed : status.phase = .failed → (∃ t ∈ status.steps, t.phase = .failed) ∧
    ∀ t ∈ status.steps, t.phase ≠ .pending ∧ t.phase ≠ .running

structure PhaseOK (status : ChainRunStatus) : Prop where
  succeeded : status.phase = .succeeded →
    status.steps ≠ [] ∧ allDone status.steps ∧ anyFailed status.steps = false
  failed : status.phase = .failed → allDone status.steps ∧ anyFailed status.steps

section Consistent

variable {lib : Go.Lib} {defs : List ChainStep} {steps : List ChainRunStepStatus}

theorem allDone_iff : allDone steps ↔ ∀ t ∈ steps, t.phase ≠ .pending ∧ t.phase ≠ .running := by
  simp [allDone]

theorem anyFailed_iff : anyFailed steps ↔ ∃ t ∈ steps, t.phase = .failed := by
  simp [anyFailed]

theorem PhaseOK.of_not_terminal {status} (h : status.phase.isTerminal = false) :
    PhaseOK status := by
  constructor <;> intro hp <;> simp [ChainRunPhase.isTerminal, hp] at h

theorem PhaseOK.write {calls cr cr'} (hv : validateChainDAG lib defs = none)
    (hfix : calls.chain = .ok defs) (h : PhaseOK cr.status) (hw : ChainWrite lib calls cr cr') :
    PhaseOK cr'.status := by
  cases hw with
  | unfinalize hd | finalize hd hf => exact h
  | unreadable ha e he =>
    rw [hfix] at he
    cases he
  | invalid ha defs' hd err he =>
    rw [hfix] at hd
    cases hd
    rw [hv] at he
    cases he
  | initial ha defs' hd hv' hs => exact .of_not_terminal rfl
  | advance defs' hadv =>
    have hne : (loops lib cr defs' calls).steps ≠ [] := by
      intro hnil
      have hmoves : Moves defs' cr.status.steps (loops lib cr defs' calls).steps :=
        loops_moves
      have hnames := hmoves.names
      rw [hnil] at hnames
      exact hadv.steps (map_eq_nil_iff.1 hnames.symm)
    have hphase := (active_iff.1 hadv.active).2.2
    unfold completeStatus
    by_cases hdone : allDone (loops lib cr defs' calls).steps
    · rw [if_pos hdone]
      by_cases hf : anyFailed (loops lib cr defs' calls).steps
      · rw [if_pos hf]
        exact ⟨fun h => ChainRunPhase.noConfusion h, fun _ => ⟨hdone, hf⟩⟩
      · rw [if_neg hf]
        exact ⟨fun _ => ⟨hne, hdone, by simpa using hf⟩, fun h => ChainRunPhase.noConfusion h⟩
    · rw [if_neg hdone]
      exact .of_not_terminal hphase

theorem ChainConsistent.of_ok {cr} (hv : ValidDAG defs) (h : VersionOK defs cr)
    (hp : PhaseOK cr.status) : ChainConsistent defs cr.status := by
  rcases h with hnil | hok
  · refine ⟨by simp [hnil], by simp [hnil], fun hs => absurd hnil (hp.succeeded hs).1, fun hf => ?_⟩
    have := (hp.failed hf).2
    simp [hnil, anyFailed] at this
  · have hnd := hok.nodup hv
    refine ⟨?_, ?_, fun hs d hd => ?_, fun hf => ?_⟩
    · intro t ht hphase d hd hname dep hdep
      have hdef := hname ▸ stepDef_of_mem hv.nodup hd
      obtain ⟨u, hu, rfl, hsucc⟩ := hok.started t ht hphase d hdef dep hdep
      rw [phaseOf_of_mem hnd hu, hsucc]
    · intro t ht hphase
      obtain ⟨u, hu, hdep, hfail⟩ := hok.skipped t ht hphase
      exact ⟨u.name, hdep, by rw [phaseOf_of_mem hnd hu, hfail]⟩
    · obtain ⟨-, hdone, hnone⟩ := hp.succeeded hs
      have hnofail : ∀ t ∈ cr.status.steps, t.phase ≠ .failed := by
        intro t ht hfail
        have := anyFailed_iff.2 ⟨t, ht, hfail⟩
        rw [hnone] at this
        cases this
      have hmem : d.name ∈ cr.status.steps.map ChainRunStepStatus.name := by
        rw [hok.names]
        exact mem_map_of_mem hd
      obtain ⟨t, ht, hname⟩ := mem_map.1 hmem
      rw [← hname, phaseOf_of_mem hnd ht]
      -- the step is done, has not failed, and is not behind one that failed
      have hlive := allDone_iff.1 hdone t ht
      cases hphase : t.phase with
      | pending => exact absurd hphase hlive.1
      | running => exact absurd hphase hlive.2
      | succeeded => rfl
      | failed => exact absurd hphase (hnofail t ht)
      | skipped =>
        obtain ⟨u, hu, -, hfail⟩ := hok.skipped t ht hphase
        exact absurd hfail (hnofail u hu)
    · obtain ⟨hdone, hsome⟩ := hp.failed hf
      exact ⟨anyFailed_iff.1 hsome, allDone_iff.1 hdone⟩

end Consistent

/-- Over a fixed valid chain that can always be read, every version of the ChainRun that is ever
stored is consistent. -/
theorem chainRun_consistent {lib : Go.Lib} {defs : List ChainStep}
    (hv : validateChainDAG lib defs = none) {s s' : ChainCluster} (h : s.Fresh)
    (hr : ChainCluster.Reaches lib (fun _ r => r.chain = .ok defs) s s') :
    ∀ cr ∈ s'.object.versions, ChainConsistent defs cr.status := by
  have hok := versionOK_of_reaches (fun s r ha => (.inl ha : FixedChain defs s r)) h hr
  have hphase : ∀ cr ∈ s'.object.versions, PhaseOK cr.status := by
    refine hr.versions ?_ (fun _ h => h) fun _ r _ _ ha hP hw => hP.write hv ha hw
    obtain ⟨cr, hvs, hst, -⟩ := h.versions
    intro x hx
    rw [hvs, mem_singleton] at hx
    subst hx
    rw [hst]
    exact .of_not_terminal rfl
  exact fun cr hcr => .of_ok (validateChainDAG_eq_none.1 hv) (hok cr hcr) (hphase cr hcr)

/-! ### A run -/

def chainLib : Go.Lib where
  toLowerRune := id
  urlPath _ := none
  quote s := "\"" ++ s ++ "\""

def sampleChain : List ChainStep :=
  [{ name := "build" },
    { name := "test", dependsOn := ["build"], contextFrom := "build", branchFrom := "build" }]

def sampleChainStatus (phase : AgentRunPhase) : ChildStatus := { phase := phase, message := "output" }

def sampleReplies (phase : AgentRunPhase) (i : ℕ) : ChainReplies where
  chain := .ok sampleChain
  run _ := .ok (sampleChainStatus phase)
  template _ := .ok { prompt := "do it", repos := [{ url := "repo" }] }
  context _ := .ok (sampleChainStatus phase)
  create j := .created (if j = 0 then "a" else "b")
  read := .ok i

def freshChain : ChainCluster where
  object := { versions := [{ name := "nightly", chainRef := "ci" }] }

theorem freshChain_fresh : freshChain.Fresh := ⟨⟨_, rfl, rfl, rfl⟩, rfl, rfl⟩

def runWith (replies : ℕ → ChainReplies) : ℕ → ChainCluster
  | 0 => freshChain
  | n + 1 => ((runWith replies n).reconcile chainLib (replies n)).1

theorem reaches_runWith {allowed} (replies : ℕ → ChainReplies) {n}
    (h : ∀ m < n, allowed (runWith replies m) (replies m)) :
    ChainCluster.Reaches chainLib allowed freshChain (runWith replies n) := by
  induction n with
  | zero => exact .refl
  | succ n ih => exact (ih fun m hm => h m (by omega)).tail (.reconcile _ (h n (by omega)))

theorem chainRun_consistent_failed :
    ((runWith (sampleReplies .failed) 4).object.versions.map fun cr =>
        (cr.status.phase, cr.status.steps.map (·.phase))) =
      [(.unset, []), (.unset, []), (.running, [.pending, .pending]),
        (.running, [.running, .pending]), (.failed, [.failed, .skipped])] ∧
    ∀ cr ∈ (runWith (sampleReplies .failed) 4).object.versions,
      ChainConsistent sampleChain cr.status :=
  ⟨by decide, chainRun_consistent (by decide) freshChain_fresh
    (reaches_runWith _ fun _ _ => rfl)⟩

end Uncworks
