import Uncworks.Controller.ChainRuns

/-!
# The AgentRuns of a ChainRun

Which AgentRuns the reconciler creates for the steps of a ChainRun.  A step is started in a reconcile
that finds it `Startable`, which is a condition on the ChainRun that was read and on the replies.
-/

namespace Uncworks

open ChainPass ChainCluster ChainRunStepStatus List

/-! ## When a step is started -/

def DepMet (calls : ChainCalls) (steps : List ChainRunStepStatus) (dep : String) : Prop :=
  ∃ j u, steps[j]? = some u ∧ u.name = dep ∧ (u.phase = .succeeded ∨
    u.phase = .running ∧ u.runID ≠ "" ∧ ∃ run, calls.run j = .ok run ∧ run.phase = .succeeded)

structure Startable (defs : List ChainStep) (calls : ChainCalls) (steps : List ChainRunStepStatus)
    (j : ℕ) (t : ChainRunStepStatus) (d : ChainStep) : Prop where
  step : steps[j]? = some t
  pending : t.phase = .pending
  stepDef : stepDef defs t.name = some d
  deps : ∀ dep ∈ d.dependsOn, DepMet calls steps dep

section Startable

variable {defs : List ChainStep} {calls : ChainCalls} {cr : ChainRun} {j : ℕ}
  {t u : ChainRunStepStatus} {d : ChainStep}

theorem syncStep_succeeded {reply} :
    ((syncStep reply u).getD u).phase = .succeeded ↔ u.phase = .succeeded ∨
      u.phase = .running ∧ u.runID ≠ "" ∧ ∃ run, reply = .ok run ∧ run.phase = .succeeded := by
  unfold syncStep
  by_cases hrun : u.phase = .running
  · by_cases hid : u.runID = ""
    · simp [hid]
    · cases reply with
      | error e => simp [hid]
      | ok run => cases hp : run.phase <;> simp [hrun, hid, hp]
  · simp [hrun]

theorem syncStep_eq_none_of_pending {reply} (h : t.phase = .pending) : syncStep reply t = none := by
  simp [syncStep, h]

theorem synced_names : (synced cr calls).steps.map name = cr.status.steps.map name :=
  (synced_moves []).names

theorem synced_getElem? (j : ℕ) : (synced cr calls).steps[j]? =
    cr.status.steps[j]?.map fun s => (syncStep (calls.run j) s).getD s :=
  sync_getElem? j

theorem synced_pending : (synced cr calls).steps[j]? = some t ∧ t.phase = .pending ↔
    cr.status.steps[j]? = some t ∧ t.phase = .pending := by
  rw [synced_getElem?, Option.map_eq_some_iff]
  constructor
  · rintro ⟨⟨u, hu, heq⟩, hp⟩
    cases hs : syncStep (calls.run j) u with
    | none =>
      rw [hs] at heq
      exact ⟨heq ▸ hu, hp⟩
    | some u' =>
      rw [hs] at heq
      obtain rfl : u' = t := heq
      obtain ⟨-, -, h | h, -⟩ := syncStep_some hs <;> simp [h] at hp
  · rintro ⟨ht, hp⟩
    exact ⟨⟨t, ht, by rw [syncStep_eq_none_of_pending hp]; rfl⟩, hp⟩

theorem phaseOf_synced (hnd : (cr.status.steps.map name).Nodup) {dep} :
    phaseOf (synced cr calls).steps dep = some .succeeded ↔ DepMet calls cr.status.steps dep := by
  have hnd' : ((synced cr calls).steps.map name).Nodup := by
    rw [synced_names]
    exact hnd
  constructor
  · intro h
    obtain ⟨u', hu', rfl, hsucc⟩ := phaseOf_eq_some h
    obtain ⟨j, hj⟩ := mem_iff_getElem?.1 hu'
    rw [synced_getElem?, Option.map_eq_some_iff] at hj
    obtain ⟨u, hu, rfl⟩ := hj
    refine ⟨j, u, hu, ?_, syncStep_succeeded.1 hsucc⟩
    cases hs : syncStep (calls.run j) u with
    | none => rfl
    | some u' => exact (syncStep_some hs).2.2.2.symm
  · rintro ⟨j, u, hu, rfl, hcases⟩
    have hget : (synced cr calls).steps[j]? = some ((syncStep (calls.run j) u).getD u) := by
      rw [synced_getElem?, hu]
      rfl
    have hname : ((syncStep (calls.run j) u).getD u).name = u.name := by
      cases hs : syncStep (calls.run j) u with
      | none => rfl
      | some u' => exact (syncStep_some hs).2.2.2
    rw [← hname, phaseOf_of_mem hnd' (mem_of_getElem? hget), syncStep_succeeded.2 hcases]

theorem ready_synced (hnd : (cr.status.steps.map name).Nodup) :
    (synced cr calls).steps[j]? = some t ∧
        Ready defs (synced cr calls).steps t d ↔
      Startable defs calls cr.status.steps j t d := by
  have hdeps : allDepsOK (synced cr calls).steps d ↔
      ∀ dep ∈ d.dependsOn, DepMet calls cr.status.steps dep := by
    rw [allDepsOK_iff]
    exact forall₂_congr fun dep _ => phaseOf_synced hnd
  constructor
  · rintro ⟨ht, hp, hd, hok⟩
    exact ⟨(synced_pending.1 ⟨ht, hp⟩).1, hp, hd, hdeps.1 hok⟩
  · rintro ⟨ht, hp, hd, hok⟩
    exact ⟨(synced_pending.2 ⟨ht, hp⟩).1, hp, hd, hdeps.2 hok⟩

end Startable

/-! ## Created AgentRuns -/

def CallsCreate (lib : Go.Lib) (calls : ChainCalls) (cr : ChainRun) : Prop :=
  ∃ defs, Advances lib calls cr defs ∧ ∃ j t d tmpl,
    Startable defs calls cr.status.steps j t d ∧ calls.template j = .ok tmpl

section Launch

variable {lib : Go.Lib} {calls : ChainCalls} {cr : ChainRun} {defs : List ChainStep} {c : ChildRun}

theorem loops_launch (h : c ∈ (loops lib cr defs calls).created) :
    ∃ steps i s d tmpl,
      Launch cr defs calls (synced cr calls).steps steps i s d tmpl c ∧
      Moves defs steps (loops lib cr defs calls).steps ∧
      ∃ t ∈ (loops lib cr defs calls).steps, t.name = c.step ∧ t.phase ≠ .pending := by
  rw [loops_created] at h
  have hl := synced_launches lib cr defs calls
  obtain ⟨steps, i, s, d, tmpl, -, hlaunch, hmoves, t, ht, hname, hp⟩ := hl.launch c h
  have hrest : Moves defs ((synced cr calls).start lib cr defs calls).steps
      (loops lib cr defs calls).steps := propagate_moves _
  refine ⟨steps, i, s, d, tmpl, hlaunch, hmoves.trans hrest, ?_⟩
  obtain ⟨suffix, rfl⟩ := hlaunch.child
  exact hrest.exists_ne_pending ⟨t, mem_of_getElem? ht, hname, hp⟩

theorem loops_created_nodup (hnd : (cr.status.steps.map name).Nodup) :
    ((loops lib cr defs calls).created.map ChildRun.step).Nodup := by
  rw [loops_created]
  have hl := synced_launches lib cr defs calls
  apply hl.nodup
  rw [synced_names]
  exact hnd

theorem loops_created_pending (h : c ∈ (loops lib cr defs calls).created) :
    ∃ t ∈ cr.status.steps, t.name = c.step ∧ t.phase = .pending := by
  obtain ⟨steps, i, s, d, tmpl, hlaunch, -⟩ := loops_launch h
  obtain ⟨suffix, rfl⟩ := hlaunch.child
  have hmem := (synced_moves defs).mem_of_pending (mem_of_getElem? hlaunch.old)
    hlaunch.ready.1
  exact ⟨s, hmem, rfl, hlaunch.ready.1⟩

theorem callsCreate_of_created (hnd : (cr.status.steps.map name).Nodup)
    (hadv : Advances lib calls cr defs) (h : c ∈ (loops lib cr defs calls).created) :
    CallsCreate lib calls cr := by
  obtain ⟨steps, i, s, d, tmpl, hlaunch, -⟩ := loops_launch h
  exact ⟨defs, hadv, i, s, d, tmpl, (ready_synced hnd).1 ⟨hlaunch.old, hlaunch.ready⟩,
    hlaunch.template⟩

theorem store_of_created (hnd : (cr.status.steps.map name).Nodup)
    (hadv : Advances lib calls cr defs) (h : c ∈ (loops lib cr defs calls).created) :
    (reconcileChainRun lib calls cr).store = some { cr with
      status := completeStatus cr.status (loops lib cr defs calls).steps } := by
  have hupdated : (loops lib cr defs calls).updated = true := by
    by_contra hfalse
    have hsame := loops_quiet (by simpa using hfalse)
    obtain ⟨t, ht, hname, hp⟩ := loops_created_pending h
    obtain ⟨-, -, -, -, -, -, -, u, hu, hname', hp'⟩ := loops_launch h
    rw [hsame] at hu
    have heq : t = u := inj_on_of_nodup_map hnd ht hu (hname.trans hname'.symm)
    exact hp' (heq ▸ hp)
  rw [reconcileChainRun_of_advances hadv, finishPass]
  simp [hupdated]

end Launch

/-! ## At most one AgentRun for a step -/

/-- A reconcile that calls `Create` is based on the current version, and its status is stored. -/
def Recorded (lib : Go.Lib) (s : ChainCluster) (r : ChainReplies) : Prop :=
  ∀ i cr, r.read = .ok i → s.object.versions[i]? = some cr → CallsCreate lib r.toChainCalls cr →
    s.object.isCurrent i ∧ r.update.stores

/-- The AgentRuns created so far belong to different steps, and the last version records them. -/
structure OnceEach (s : ChainCluster) : Prop where
  nodup : (s.created.map ChildRun.step).Nodup
  names : ∀ cr ∈ s.object.versions, (cr.status.steps.map name).Nodup
  recorded : ∀ c ∈ s.created, ∀ cr, s.object.versions.getLast? = some cr →
    ∃ t ∈ cr.status.steps, t.name = c.step ∧ t.phase ≠ .pending

section Once

variable {lib : Go.Lib} {s s' : ChainCluster} {r : ChainReplies} {cr cr' : ChainRun}
  {calls : ChainCalls}

theorem ChainWrite.names (h : ChainWrite lib calls cr cr')
    (hnd : (cr.status.steps.map name).Nodup) :
    (cr'.status.steps.map name).Nodup := by
  cases h with
  | unfinalize hd | finalize hd hf | unreadable ha e he | invalid ha defs hd err he => exact hnd
  | initial ha defs hd hv hs =>
    show ((defs.map fun d => _).map _).Nodup
    rw [(StepsOK.initial defs).names]
    exact (validateChainDAG_eq_none.1 hv).nodup
  | advance defs hadv =>
    have hmoves : Moves defs cr.status.steps (loops lib cr defs calls).steps :=
      loops_moves
    rw [completeStatus_steps, hmoves.names]
    exact hnd

theorem ChainWrite.recorded {n} (h : ChainWrite lib calls cr cr')
    (hn : ∃ t ∈ cr.status.steps, t.name = n ∧ t.phase ≠ .pending) :
    ∃ t ∈ cr'.status.steps, t.name = n ∧ t.phase ≠ .pending := by
  cases h with
  | unfinalize hd | finalize hd hf | unreadable ha e he | invalid ha defs hd err he => exact hn
  | initial ha defs hd hv hs =>
    obtain ⟨t, ht, -⟩ := hn
    rw [hs] at ht
    cases ht
  | advance defs hadv =>
    have hmoves : Moves defs cr.status.steps (loops lib cr defs calls).steps :=
      loops_moves
    rw [completeStatus_steps]
    exact hmoves.exists_ne_pending hn

theorem OnceEach.fresh (h : s.Fresh) : OnceEach s := by
  obtain ⟨cr, hv, hst, -⟩ := h.versions
  refine ⟨by simp [h.created], fun x hx => ?_, fun c hc => ?_⟩
  · rw [hv, mem_singleton] at hx
    subst hx
    simp [hst]
  · rw [h.created] at hc
    cases hc

theorem OnceEach.append {created} (h : OnceEach s) (hcur : s.object.versions.getLast? = some cr)
    (hv : s'.object.versions = s.object.versions ++ [cr']) (hc : s'.created = s.created ++ created)
    (hnd : (cr'.status.steps.map name).Nodup)
    (hkeep : ∀ n, (∃ t ∈ cr.status.steps, t.name = n ∧ t.phase ≠ .pending) →
      ∃ t ∈ cr'.status.steps, t.name = n ∧ t.phase ≠ .pending)
    (hnew : (created.map ChildRun.step).Nodup)
    (hold : ∀ c ∈ created, ∃ t ∈ cr.status.steps, t.name = c.step ∧ t.phase = .pending)
    (hdone : ∀ c ∈ created, ∃ t ∈ cr'.status.steps, t.name = c.step ∧ t.phase ≠ .pending) :
    OnceEach s' := by
  refine ⟨?_, fun x hx => ?_, fun c hmem x hx => ?_⟩
  · rw [hc, map_append, nodup_append]
    refine ⟨h.nodup, hnew, fun a ha b hb hab => ?_⟩
    obtain ⟨c, hc, rfl⟩ := mem_map.1 ha
    obtain ⟨c', hc', rfl⟩ := mem_map.1 hb
    obtain ⟨t, ht, hname, hp⟩ := h.recorded c hc cr hcur
    obtain ⟨u, hu, hname', hp'⟩ := hold c' hc'
    have htu : t = u :=
      inj_on_of_nodup_map (h.names cr (mem_of_getLast? hcur)) ht hu (by rw [hname, hname', hab])
    exact hp (htu ▸ hp')
  · rw [hv, mem_append, mem_singleton] at hx
    rcases hx with hx | rfl
    · exact h.names x hx
    · exact hnd
  · rw [hv, getLast?_concat] at hx
    obtain rfl := Option.some.inj hx
    rw [hc, mem_append] at hmem
    exact hmem.elim (fun hmem => hkeep _ (h.recorded c hmem cr hcur)) (hdone c)

theorem OnceEach.reconcile (h : OnceEach s) (hrec : Recorded lib s r) :
    OnceEach (s.reconcile lib r).1 := by
  rcases reconcile_cases lib r s with heq | ⟨i, cr, hread, hi, heq⟩
  · rw [heq]
    exact h
  rw [heq]
  have hnd := h.names cr (mem_of_getElem? hi)
  have hlast (hcur : s.object.isCurrent i) : s.object.versions.getLast? = some cr :=
    Kube.Object.getLast?_of_current (Kube.Object.current_eq hcur hi)
  by_cases hnone : (reconcileChainRun lib r.toChainCalls cr).created = []
  · -- nothing is created
    have hcreated : (s.reconcileAt lib r i cr).1.created = s.created := by
      simp [reconcileAt, hnone]
    rcases store_versions s.object i r.update
        (reconcileChainRun lib r.toChainCalls cr).store with hsame | ⟨cr', hst, hcur, -, hv⟩
    · have hversions := hsame
      exact ⟨hcreated ▸ h.nodup, hversions ▸ h.names, hcreated ▸ hversions ▸ h.recorded⟩
    · have hw := reconcileChainRun_store hst
      exact h.append (hlast hcur) hv (hcreated.trans (append_nil _).symm) (hw.names hnd)
        (fun n hn => hw.recorded hn) nodup_nil (by simp) (by simp)
  · -- the created AgentRuns are recorded in a new version
    obtain ⟨c₀, hc₀⟩ := exists_mem_of_ne_nil _ hnone
    obtain ⟨defs, hadv, hloop⟩ := reconcileChainRun_created hc₀
    obtain ⟨hcur, hstores⟩ := hrec i cr hread hi (callsCreate_of_created hnd hadv hloop)
    have hst := store_of_created hnd hadv hloop
    have hw := reconcileChainRun_store hst
    have hcreated : (s.reconcileAt lib r i cr).1.created =
        s.created ++ (loops lib cr defs r.toChainCalls).created := by
      show _ ++ (reconcileChainRun lib r.toChainCalls cr).created = _
      rw [reconcileChainRun_of_advances hadv]
      rfl
    refine h.append (hlast hcur) ?_ hcreated (hw.names hnd) (fun n hn => hw.recorded hn)
      (loops_created_nodup hnd) (fun c => loops_created_pending) fun c hc => ?_
    · show (store s.object i r.update _).versions = _
      rw [hst, store_of_stores hcur hstores]
    · obtain ⟨-, -, -, -, -, -, -, hrecorded⟩ := loops_launch hc
      rwa [completeStatus_steps]

theorem OnceEach.step (h : OnceEach s) (hstep : Step lib (Recorded lib) s s') : OnceEach s' := by
  cases hstep with
  | reconcile r hrec => exact h.reconcile hrec
  | agentRuns runs => exact ⟨h.nodup, h.names, h.recorded⟩
  | @delete cr hcur =>
    by_cases hf : cr.finalizer
    · have hv : (markDeleted s.object cr).versions =
          s.object.versions ++ [{ cr with deleting := true }] := by
        simp [markDeleted, hf]
      exact h.append (Kube.Object.getLast?_of_current hcur) hv (append_nil _).symm
        (h.names cr (Kube.Object.current_mem hcur)) (fun _ hn => hn) nodup_nil (by simp) (by simp)
    · have hsame : (markDeleted s.object cr).versions = s.object.versions := by
        simp [markDeleted, hf]
      exact ⟨h.nodup, by rw [hsame]; exact h.names, by rw [hsame]; exact h.recorded⟩

end Once

/-- As long as every reconcile that creates AgentRuns is recorded, every step gets at most one. -/
theorem created_once {lib : Go.Lib} {s s' : ChainCluster} (h : s.Fresh)
    (hr : ChainCluster.Reaches lib (Recorded lib) s s') : (s'.created.map ChildRun.step).Nodup := by
  have hall : OnceEach s' := by
    induction hr with
    | refl => exact .fresh h
    | tail _ hstep ih => exact ih.step hstep
  exact hall.nodup

theorem created_once_succeeded :
    (runWith (sampleReplies .succeeded) 4).created.map ChildRun.step = ["build", "test"] ∧
    ((runWith (sampleReplies .succeeded) 4).created.map ChildRun.step).Nodup := by
  refine ⟨by decide, created_once freshChain_fresh (reaches_runWith _ ?_)⟩
  intro n hn i cr hi _ _
  obtain rfl : n = i := Except.ok.inj hi
  have hcurrent : ∀ m < 4, (runWith (sampleReplies .succeeded) m).object.isCurrent m := by decide
  exact ⟨hcurrent n hn, rfl⟩

/-- The status update of the reconcile that starts the first step is refused. -/
def unrecorded : ChainCluster :=
  ((runWith (sampleReplies .running) 2).reconcile chainLib
    { sampleReplies .running 2 with update := .refused (.other "timeout") }).1

theorem created_twice : ∃ s, ChainCluster.Reaches chainLib (fun _ _ => True) freshChain s ∧
    s.created.map ChildRun.step = ["build", "build"] := by
  refine ⟨(unrecorded.reconcile chainLib (sampleReplies .running 2)).1, ?_, by decide⟩
  have hstart : ChainCluster.Reaches chainLib (fun _ _ => True) freshChain
      (runWith (sampleReplies .running) 2) := reaches_runWith _ fun _ _ => trivial
  exact (hstart.tail (.reconcile _ trivial)).tail (.reconcile _ trivial)

/-! ## References to other steps -/

structure References (defs : List ChainStep) : Prop where
  contextFrom : ∀ d ∈ defs, d.contextFrom ≠ "" → DependsOn defs d.name d.contextFrom
  branchFrom : ∀ d ∈ defs, d.branchFrom ≠ "" → DependsOn defs d.name d.branchFrom

/-- The AgentRun that a started step takes its context from exists and can be read. -/
def ContextReadable (defs : List ChainStep) (s : ChainCluster) (r : ChainReplies) (cr : ChainRun) :
    Prop :=
  ∀ j t d u, Startable defs r.toChainCalls cr.status.steps j t d → d.contextFrom ≠ "" →
    stepStatus cr.status.steps d.contextFrom = some u →
    ∃ run, s.agentRuns u.runID = some run ∧ r.context j = .ok run

/-- A step has succeeded, and its status names the AgentRun that was created for it. -/
def SucceededAs (s : ChainCluster) (steps : List ChainRunStepStatus) (step runID : String) : Prop :=
  phaseOf steps step = some .succeeded ∧ ∃ x ∈ s.created, x.step = step ∧ x.name = runID

structure LaunchedWith (s : ChainCluster) (steps : List ChainRunStepStatus) (d : ChainStep)
    (tmpl : RunTemplateSpec) (c : ChildRun) : Prop where
  context : d.contextFrom ≠ "" → ∃ id run, SucceededAs s steps d.contextFrom id ∧
    s.agentRuns id = some run ∧
    c.spec.prompt = contextPrompt d.contextFrom (contextText run) tmpl.prompt
  branch : d.branchFrom ≠ "" → ∃ id, SucceededAs s steps d.branchFrom id ∧
    c.spec.repos = withBranch ("aot/" ++ id) tmpl.repos

section References

variable {lib : Go.Lib} {defs : List ChainStep} {steps : List ChainRunStepStatus}
  {s s' : ChainCluster} {r : ChainReplies} {cr : ChainRun}

theorem StepsOK.dependsOn_succeeded (h : StepsOK defs steps) (hv : ValidDAG defs) {n x}
    (hx : DependsOn defs n x) (hn : ∀ d ∈ defs, d.name = n → ∀ dep ∈ d.dependsOn,
      ∃ u ∈ steps, u.name = dep ∧ u.phase = .succeeded) :
    ∃ u ∈ steps, u.name = x ∧ u.phase = .succeeded := by
  induction hx with
  | single hdep =>
    obtain ⟨d, hd, hname, hmem⟩ := hdep
    exact hn d hd hname _ hmem
  | tail _ hdep ih =>
    obtain ⟨u, hu, huname, hsucc⟩ := ih
    obtain ⟨d, hd, hname, hmem⟩ := hdep
    have hdef : stepDef defs u.name = some d := by
      rw [huname, ← hname]
      exact stepDef_of_mem hv.nodup hd
    exact h.started u hu (.inr (.inl hsucc)) d hdef _ hmem

def RunsTraced (s : ChainCluster) : Prop :=
  ∀ cr ∈ s.object.versions, ∀ t ∈ cr.status.steps, t.runID ≠ "" →
    ∃ x ∈ s.created, x.step = t.name ∧ x.name = t.runID

theorem RunsTraced.fresh (h : s.Fresh) : RunsTraced s := by
  obtain ⟨cr, hv, hst, -⟩ := h.versions
  intro x hx t ht
  rw [hv, mem_singleton] at hx
  subst hx
  rw [hst] at ht
  cases ht

theorem RunsTraced.reconcile (h : RunsTraced s) : RunsTraced (s.reconcile lib r).1 := by
  rcases reconcile_cases lib r s with heq | ⟨i, cr, -, hi, heq⟩
  · rw [heq]
    exact h
  · rw [heq]
    have hgrow : ∀ x ∈ s.created, x ∈ (s.reconcileAt lib r i cr).1.created := fun x hx =>
      mem_append_left _ hx
    have hold : ∀ x ∈ s.object.versions, ∀ t ∈ x.status.steps, t.runID ≠ "" →
        ∃ c ∈ (s.reconcileAt lib r i cr).1.created, c.step = t.name ∧ c.name = t.runID := by
      intro x hx t ht hid
      obtain ⟨c, hc, hstep⟩ := h x hx t ht hid
      exact ⟨c, hgrow c hc, hstep⟩
    have hcr := hold cr (mem_of_getElem? hi)
    rcases store_versions s.object i r.update
        (reconcileChainRun lib r.toChainCalls cr).store with hsame | ⟨cr', hst, -, -, hv⟩
    · intro x hx
      exact hold x (hsame ▸ hx)
    · intro x hx
      have hx' := hv ▸ hx
      rcases mem_append.1 hx' with hx' | hx'
      · exact hold x hx'
      · obtain rfl := mem_singleton.1 hx'
        cases reconcileChainRun_store hst with
        | unfinalize hd | finalize hd hf | unreadable ha e he | invalid ha defs hd err he =>
          exact hcr
        | initial ha defs hd hv hs =>
          intro t ht hid
          obtain ⟨d, -, rfl⟩ := mem_map.1 ht
          exact absurd rfl hid
        | advance defs hadv =>
          intro t ht hid
          have ht' := ht
          rw [completeStatus_steps] at ht'
          rcases loops_traced t ht' hid with ⟨u, hu, hname, huid⟩ | ⟨c, hc, hstep⟩
          · rw [← hname, ← huid]
            exact hcr u hu (huid ▸ hid)
          · refine ⟨c, mem_append_right _ ?_, hstep⟩
            rw [reconcileChainRun_of_advances hadv]
            exact hc

theorem RunsTraced.of_reaches {allowed} (h : s.Fresh) (hr : Reaches lib allowed s s') :
    RunsTraced s' := by
  induction hr with
  | refl => exact .fresh h
  | tail _ hstep ih =>
    cases hstep with
    | reconcile r ha => exact ih.reconcile
    | agentRuns runs => exact ih
    | @delete cr hcur =>
      intro x hx
      unfold markDeleted at hx
      split at hx
      · rcases mem_append.1 hx with hx | hx
        · exact ih x hx
        · obtain rfl := mem_singleton.1 hx
          exact ih cr (Kube.Object.current_mem hcur)
      · exact ih x hx

theorem synced_mem {calls u} (h : u ∈ (synced cr calls).steps) :
    ∃ u₀ ∈ cr.status.steps, u₀.name = u.name ∧ u₀.runID = u.runID := by
  obtain ⟨j, hj⟩ := mem_iff_getElem?.1 h
  rw [synced_getElem?, Option.map_eq_some_iff] at hj
  obtain ⟨u₀, hu₀, rfl⟩ := hj
  refine ⟨u₀, mem_of_getElem? hu₀, ?_⟩
  cases hs : syncStep (calls.run j) u₀ with
  | none => exact ⟨rfl, rfl⟩
  | some u' => exact ⟨(syncStep_some hs).2.2.2.symm, (syncStep_some hs).2.1.symm⟩

end References

/-- If every step depends on the steps it refers to, and their AgentRuns can be read, steps are
started only with the output and the branch of steps that have succeeded. -/
theorem launched_with_references {lib : Go.Lib} {defs : List ChainStep}
    (hv : validateChainDAG lib defs = none) (hrefs : References defs) {s s' : ChainCluster}
    (h : s.Fresh) (hr : ChainCluster.Reaches lib (FixedChain defs) s s') {r : ChainReplies}
    (hfix : FixedChain defs s' r) {i : ℕ} {cr : ChainRun} (hi : s'.object.versions[i]? = some cr)
    (hctx : ContextReadable defs s' r cr) :
    ∀ c ∈ (reconcileChainRun lib r.toChainCalls cr).created, ∃ d ∈ defs, d.name = c.step ∧
      ∃ j tmpl, r.template j = .ok tmpl ∧
        LaunchedWith s' (ChainPass.synced cr r.toChainCalls).steps d tmpl c := by
  intro c hc
  obtain ⟨defs', hadv, hloop⟩ := reconcileChainRun_created hc
  obtain rfl := hfix.eq hadv.chain
  have hvalid := validateChainDAG_eq_none.1 hv
  have hmem := List.mem_of_getElem? hi
  have hok := (versionOK_of_reaches (fun _ _ h => h) h hr cr hmem).resolve_left hadv.steps
  have htraced := RunsTraced.of_reaches h hr cr hmem
  have hsync : StepsOK defs' (ChainPass.synced cr r.toChainCalls).steps :=
    hok.moves (ChainPass.synced_moves defs')
  obtain ⟨steps, j, t, d, tmpl, hlaunch, -⟩ := loops_launch hloop
  obtain ⟨suffix, rfl⟩ := hlaunch.child
  obtain ⟨hd, hname⟩ := stepDef_mem hlaunch.ready.2.1
  have hnow := hsync.moves hlaunch.moves
  -- what a reference of the step leads to
  have href : ∀ x, DependsOn defs' d.name x → ∃ u, stepStatus cr.status.steps x = some u ∧
      u.runID ≠ "" ∧ SucceededAs s' (ChainPass.synced cr r.toChainCalls).steps x u.runID ∧
      ∃ u', stepStatus steps x = some u' ∧ u'.runID = u.runID := by
    intro x hx
    obtain ⟨u, hu, rfl, hsucc⟩ := hsync.dependsOn_succeeded hvalid hx fun d' hd' hname' dep hdep => by
      have heq : d' = d := List.inj_on_of_nodup_map hvalid.nodup hd' hd hname'
      subst heq
      exact phaseOf_eq_some (allDepsOK_iff.1 hlaunch.ready.2.2 dep hdep)
    obtain ⟨u₀, hu₀, hname₀, hid₀⟩ := synced_mem hu
    have hid : u₀.runID ≠ "" := by
      rw [hid₀]
      exact hsync.runID u hu (.inr hsucc)
    refine ⟨u₀, ?_, hid, ⟨?_, ?_⟩, u, ?_, hid₀.symm⟩
    · rw [← hname₀]
      exact stepStatus_of_mem (hok.nodup hvalid) hu₀
    · rw [phaseOf_of_mem (hsync.nodup hvalid) hu, hsucc]
    · rw [← hname₀]
      exact htraced u₀ hu₀ hid
    · apply stepStatus_of_mem (hnow.nodup hvalid)
      apply hlaunch.moves.mem_of_done hu <;> simp [hsucc]
  have hstart := (ready_synced (hok.nodup hvalid)).1 ⟨hlaunch.old, hlaunch.ready⟩
  refine ⟨d, hd, hname, j, tmpl, hlaunch.template, fun hne => ?_, fun hne => ?_⟩
  · obtain ⟨u, hu, hid, hsucc, u', hu', hid'⟩ := href _ (hrefs.contextFrom d hd hne)
    obtain ⟨run, hrun, hreply⟩ := hctx j t d u hstart hne hu
    refine ⟨u.runID, run, hsucc, hrun, ?_⟩
    show injectContext steps (r.context j) d tmpl.prompt = _
    simp [injectContext, hne, hu', hid', hid, hreply]
  · obtain ⟨u, hu, hid, hsucc, u', hu', hid'⟩ := href _ (hrefs.branchFrom d hd hne)
    refine ⟨u.runID, hsucc, ?_⟩
    show withBranch (branchOf steps d) tmpl.repos = _
    simp [branchOf, hne, hu', hid']

def buildSucceeded : ChainCluster :=
  { runWith (sampleReplies .succeeded) 3 with
    agentRuns := fun _ => some (sampleChainStatus .succeeded) }

def buildRunning : ChainRun where
  name := "nightly"
  chainRef := "ci"
  finalizer := true
  status := {
    phase := .running
    steps := [{ name := "build", phase := .running, runID := "ar-a", message := "started" },
      { name := "test" }] }

theorem launched_with_references_test :
    ((reconcileChainRun chainLib (sampleReplies .succeeded 3).toChainCalls buildRunning).created.map
      fun c => (c.step, c.spec.prompt, c.spec.repos.map Repository.branch)) =
      [("test", "Context from previous step 'build' (agent output):\n\noutput\n\ndo it",
        ["aot/ar-a"])] ∧
    ∀ c ∈ (reconcileChainRun chainLib (sampleReplies .succeeded 3).toChainCalls
        buildRunning).created, ∃ d ∈ sampleChain, d.name = c.step ∧
      ∃ j tmpl, (sampleReplies .succeeded 3).template j = .ok tmpl ∧
        LaunchedWith buildSucceeded
          (ChainPass.synced buildRunning (sampleReplies .succeeded 3).toChainCalls).steps d tmpl
          c := by
  refine ⟨by decide, ?_⟩
  have hrefs : References sampleChain := by
    constructor <;> intro d hd hne <;> simp [sampleChain] at hd <;> rcases hd with rfl | rfl
    · exact absurd rfl hne
    · exact .single ⟨_, List.mem_cons_of_mem _ List.mem_cons_self, rfl, List.mem_cons_self⟩
    · exact absurd rfl hne
    · exact .single ⟨_, List.mem_cons_of_mem _ List.mem_cons_self, rfl, List.mem_cons_self⟩
  have hreach : ChainCluster.Reaches chainLib (FixedChain sampleChain) freshChain buildSucceeded :=
    (reaches_runWith _ fun _ _ => .inl rfl).tail (.agentRuns _)
  exact launched_with_references (i := 3) (by decide) hrefs freshChain_fresh hreach (.inl rfl)
    (by rfl) fun _ _ _ _ _ _ _ => ⟨_, rfl, rfl⟩

def looseChain : List ChainStep :=
  [{ name := "test", contextFrom := "build", branchFrom := "build" }, { name := "build" }]

theorem launched_without_references : validateChainDAG chainLib looseChain = none ∧
    ∃ s, ChainCluster.Reaches chainLib (FixedChain looseChain) freshChain s ∧
      (s.object.versions.getLast?.map fun cr => cr.status.steps.map (·.phase)) =
        some [.running, .running] ∧
      (s.created.map fun c => (c.step, c.spec.prompt, c.spec.repos.map Repository.branch)) =
        [("test", "do it", ["aot/"]), ("build", "do it", [""])] := by
  refine ⟨by decide, runWith (fun n => { sampleReplies .running n with chain := .ok looseChain }) 3,
    reaches_runWith _ fun _ _ => .inl rfl, by decide, by decide⟩

end Uncworks
