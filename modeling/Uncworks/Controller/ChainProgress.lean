import Uncworks.Controller.ChainLaunches

/-!
# Progress of a ChainRun

After a reconcile without failures a ChainRun is finished, or one of its steps is running with an
AgentRun that will finish.  `progress_iff` says from which states this is so.
-/

namespace Uncworks

open ChainPass List Option

/-! ## What is running after the loops -/

section Loops

variable {lib : Go.Lib} {cr : ChainRun} {defs : List ChainStep} {calls : ChainCalls} {j : ℕ}
  {t : ChainRunStepStatus} {d : ChainStep}

theorem startStep_of_not_pending {steps} (h : t.phase ≠ .pending) :
    startStep lib cr defs calls j steps t = none :=
  startStep_eq_none fun ⟨_, hr⟩ => h hr.1

theorem loops_getElem? {u}
    (h : (synced cr calls).steps[j]? = some u)
    (hp : (started lib cr defs calls j (synced cr calls).steps u).phase ≠
      .pending) :
    (loops lib cr defs calls).steps[j]? =
      some (started lib cr defs calls j (synced cr calls).steps u) := by
  have hstart : ((synced cr calls).start lib cr defs calls).steps[j]? =
      some (started lib cr defs calls j (synced cr calls).steps u) := by
    rw [start_getElem?, h]
    rfl
  obtain ⟨s', hs', hcases⟩ :=
    propagate_getElem? lib defs (cr.status.steps.length + 1) hstart
  rcases hcases with rfl | ⟨hpend, -⟩
  · exact hs'
  · exact absurd hpend hp

theorem loops_of_running (h : cr.status.steps[j]? = some t) (hp : t.phase = .running)
    (hs : syncStep (calls.run j) t = none) :
    (loops lib cr defs calls).steps[j]? = some t := by
  have hsync : (synced cr calls).steps[j]? = some t := by
    rw [synced_getElem?, h, map_some, hs]
    rfl
  have hsame : started lib cr defs calls j (synced cr calls).steps t = t := by
    rw [started, startStep_of_not_pending (by simp [hp])]
    rfl
  rw [← hsame]
  exact loops_getElem? hsync (by rw [hsame, hp]; simp)

theorem start_of_loops (h : (loops lib cr defs calls).steps[j]? = some t)
    (hp : t.phase ≠ .skipped) :
    ((synced cr calls).start lib cr defs calls).steps[j]? = some t := by
  have hmoves : Moves defs ((synced cr calls).start lib cr defs calls).steps
    (loops lib cr defs calls).steps := propagate_moves _
  have hlen : j < ((synced cr calls).start lib cr defs calls).steps.length := by
    have hl := congrArg length hmoves.names
    rw [length_map, length_map] at hl
    rw [← hl]
    exact (List.getElem?_eq_some_iff.1 h).1
  have hu := getElem?_eq_getElem hlen
  obtain ⟨s', hs', hcases⟩ := propagate_getElem? lib defs (cr.status.steps.length + 1) hu
  obtain rfl : s' = t := some.inj (hs'.symm.trans h)
  rcases hcases with rfl | ⟨-, hskip⟩
  · exact hu
  · exact absurd hskip hp

theorem loops_running (h : t ∈ (loops lib cr defs calls).steps) (hp : t.phase = .running) :
    (∃ j, cr.status.steps[j]? = some t ∧ syncStep (calls.run j) t = none) ∨
      ∃ c ∈ (loops lib cr defs calls).created, c.name = t.runID := by
  have hstart : t ∈ ((synced cr calls).start lib cr defs calls).steps := by
    obtain ⟨j, hj⟩ := mem_iff_getElem?.1 h
    exact mem_of_getElem? (start_of_loops hj (by simp [hp]))
  rcases start_running t hstart hp with hmem | ⟨c, hc, hname⟩
  · left
    obtain ⟨j, hj⟩ := mem_iff_getElem?.1 hmem
    rw [synced_getElem?, map_eq_some_iff] at hj
    obtain ⟨u, hu, heq⟩ := hj
    cases hs : syncStep (calls.run j) u with
    | none =>
      rw [hs] at heq
      obtain rfl : u = t := heq
      exact ⟨j, hu, hs⟩
    | some u' =>
      rw [hs] at heq
      obtain rfl : u' = t := heq
      obtain ⟨-, -, h | h, -⟩ := syncStep_some hs <;> simp [h] at hp
  · exact .inr ⟨c, by rw [loops_created]; exact hc, hname⟩

theorem syncStep_eq_none {run} (hp : t.phase = .running) (hid : t.runID ≠ "") :
    syncStep (.ok run) t = none ↔ isTerminal run.phase = false := by
  cases h : run.phase <;> simp [syncStep, hp, hid, h, isTerminal]

theorem loops_ne_pending (hv : ValidDAG defs) (hok : StepsOK defs cr.status.steps)
    (hrun : ∀ t ∈ (loops lib cr defs calls).steps, t.phase ≠ .running) :
    ∀ t ∈ (loops lib cr defs calls).steps, t.phase ≠ .pending := by
  have hfinal : StepsOK defs (loops lib cr defs calls).steps :=
    hok.moves loops_moves
  have hnd := hfinal.nodup hv
  obtain ⟨rank, hrank⟩ := hv.ranked
  -- by induction on the rank of the step
  suffices hall : ∀ k, ∀ t ∈ (loops lib cr defs calls).steps, rank t.name = k →
      t.phase ≠ .pending from fun t ht => hall _ t ht rfl
  intro k
  induction k using Nat.strong_induction_on with
  | _ k ih =>
    intro t ht hk hp
    have hname : t.name ∈ defs.map ChainStep.name := by
      rw [← hfinal.names]
      exact mem_map_of_mem ht
    obtain ⟨d, hd, hdname⟩ := mem_map.1 hname
    have hdef := hdname ▸ stepDef_of_mem hv.nodup hd
    have hstable := loops_stable lib cr defs calls t ht
    -- every dependency has succeeded
    have hdeps : ∀ dep ∈ d.dependsOn,
        phaseOf (loops lib cr defs calls).steps dep = some .succeeded := by
      intro dep hdep
      have hmem : dep ∈ (loops lib cr defs calls).steps.map ChainRunStepStatus.name := by
        rw [hfinal.names]
        exact hv.dependsOn d hd hdep
      obtain ⟨u, hu, rfl⟩ := mem_map.1 hmem
      have hlt : rank u.name < k := by
        rw [← hk, ← hdname]
        exact hrank d hd _ hdep
      have hblock := phaseOf_of_skipStep_none hstable hp hdef hdep
      rw [phaseOf_of_mem hnd hu] at hblock ⊢
      cases hphase : u.phase with
      | pending => exact absurd hphase (ih _ hlt u hu rfl)
      | running => exact absurd hphase (hrun u hu)
      | succeeded => rfl
      | failed => exact absurd (congrArg some hphase) hblock.1
      | skipped => exact absurd (congrArg some hphase) hblock.2
    -- so the start loop would have started the step
    obtain ⟨j, hj⟩ := mem_iff_getElem?.1 ht
    have hstart := start_of_loops hj (by simp [hp])
    rw [start_getElem?, map_eq_some_iff] at hstart
    obtain ⟨u, hu, heq⟩ := hstart
    obtain ⟨hsame, hnot⟩ := started_pending (heq ▸ hp)
    obtain rfl : u = t := hsame.symm.trans heq
    refine hnot d ⟨hp, hdef, ?_⟩
    rw [← start_allDepsOK lib cr defs calls, allDepsOK_iff]
    intro dep hdep
    obtain ⟨v, hv', rfl, hsucc⟩ := phaseOf_eq_some (hdeps dep hdep)
    obtain ⟨l, hl⟩ := mem_iff_getElem?.1 hv'
    have hmem := mem_of_getElem? (start_of_loops hl (by simp [hsucc]))
    rw [phaseOf_of_mem ((hok.moves synced_start_moves).nodup hv) hmem, hsucc]

end Loops

/-! ## Progress -/

def LiveStep (agentRuns : String → Option ChildStatus) (t : ChainRunStepStatus) : Prop :=
  t.phase = .running ∧ ∃ run, agentRuns t.runID = some run ∧ isTerminal run.phase = false

/-- The ChainRun is finished, or there is something to wait for. -/
def ChainCluster.Progressing (s : ChainCluster) : Prop :=
  ∀ cr, s.object.current = some cr →
    cr.status.phase.isTerminal ∨ ∃ t ∈ cr.status.steps, LiveStep s.agentRuns t

/-- A reconcile of the current version in which no call fails but for what does not exist. -/
structure NoFailure (s : ChainCluster) (defs : List ChainStep) (r : ChainReplies) (i : ℕ)
    (cr : ChainRun) : Prop where
  read : r.read = .ok i
  version : s.object.versions[i]? = some cr
  current : s.object.isCurrent i
  chain : r.chain = .ok defs
  run : ∀ j t, cr.status.steps[j]? = some t → t.phase = .running →
    (∃ run, s.agentRuns t.runID = some run ∧ r.run j = .ok run) ∨
      s.agentRuns t.runID = none ∧ ∃ e, r.run j = .error e ∧ e.isNotFound
  template : ∀ j e, r.template j = .error e → e.isNotFound
  create : ∀ j, ∃ suffix, r.create j = .created suffix
  update : r.update = .ok

section

variable (s : ChainCluster) (defs : List ChainStep) (r : ChainReplies)

/-- No AgentRun of a running step is missing, or one is live, or another step can be started. -/
def StepsCanProgress (steps : List ChainRunStepStatus) : Prop :=
  (∀ t ∈ steps, t.phase = .running → (s.agentRuns t.runID).isSome) ∨
  (∃ t ∈ steps, LiveStep s.agentRuns t) ∨
  ∃ j t d tmpl, Startable defs r.toChainCalls steps j t d ∧ r.template j = .ok tmpl

/-- What a ChainRun needs for progress: it is being deleted, finished, or has steps that can
progress. -/
def CanProgress (cr : ChainRun) : Prop :=
  cr.deleting ∨ cr.finalizer ∧ (cr.status.phase.isTerminal ∨
    cr.status.steps ≠ [] ∧ StepsCanProgress s defs r cr.status.steps)

end

section Progress

variable {lib : Go.Lib} {defs : List ChainStep} {s s' : ChainCluster} {r : ChainReplies} {i : ℕ}
  {cr : ChainRun} {t : ChainRunStepStatus}

theorem LiveStep.add {agentRuns} (h : LiveStep agentRuns t) (created : List ChildRun) :
    LiveStep (ChainCluster.addRuns created agentRuns) t := by
  obtain ⟨hp, run, hrun, hlive⟩ := h
  refine ⟨hp, ?_⟩
  unfold ChainCluster.addRuns
  split
  · exact ⟨_, rfl, rfl⟩
  · exact ⟨run, hrun, hlive⟩

theorem liveStep_of_created {agentRuns created c} (hp : t.phase = .running) (hc : c ∈ created)
    (hname : c.name = t.runID) : LiveStep (ChainCluster.addRuns created agentRuns) t := by
  have hany : created.any (·.name = t.runID) = true := any_eq_true.2 ⟨c, hc, by simpa⟩
  exact ⟨hp, {}, by rw [ChainCluster.addRuns, if_pos hany], rfl⟩

theorem NoFailure.loops_of_live (hq : NoFailure s defs r i cr)
    (hok : StepsOK defs cr.status.steps) (ht : t ∈ cr.status.steps)
    (hlive : LiveStep s.agentRuns t) :
    t ∈ (loops lib cr defs r.toChainCalls).steps := by
  obtain ⟨j, hj⟩ := mem_iff_getElem?.1 ht
  obtain ⟨hp, run, hrun, hnot⟩ := hlive
  refine mem_of_getElem? (loops_of_running hj hp ?_)
  rcases hq.run j t hj hp with ⟨run', hrun', hreply⟩ | ⟨hnone, -⟩
  · rw [hrun] at hrun'
    cases hrun'
    rw [hreply]
    exact (syncStep_eq_none hp (hok.runID t ht (.inl hp))).2 hnot
  · rw [hrun] at hnone
    cases hnone

theorem NoFailure.loops_of_missing (hq : NoFailure s defs r i cr)
    (ht : t ∈ cr.status.steps) (hp : t.phase = .running) (hnone : s.agentRuns t.runID = none) :
    t ∈ (loops lib cr defs r.toChainCalls).steps := by
  obtain ⟨j, hj⟩ := mem_iff_getElem?.1 ht
  refine mem_of_getElem? (loops_of_running hj hp ?_)
  rcases hq.run j t hj hp with ⟨run, hrun, -⟩ | ⟨-, e, he, -⟩
  · rw [hrun] at hnone
    cases hnone
  · rw [he]
    simp [syncStep]

theorem NoFailure.live_or_missing (hq : NoFailure s defs r i cr)
    (hok : StepsOK defs cr.status.steps)
    (ht : t ∈ (loops lib cr defs r.toChainCalls).steps) (hp : t.phase = .running) :
    (t ∈ cr.status.steps ∧ LiveStep s.agentRuns t) ∨
    (∃ c ∈ (loops lib cr defs r.toChainCalls).created, c.name = t.runID) ∨
    (t ∈ cr.status.steps ∧ s.agentRuns t.runID = none) := by
  rcases loops_running ht hp with ⟨j, hj, hs⟩ | hcreated
  · have hmem := mem_of_getElem? hj
    rcases hq.run j t hj hp with ⟨run, hrun, hreply⟩ | ⟨hnone, -⟩
    · left
      refine ⟨hmem, hp, run, hrun, ?_⟩
      rw [hreply] at hs
      exact (syncStep_eq_none hp (hok.runID t hmem (.inl hp))).1 hs
    · exact .inr (.inr ⟨hmem, hnone⟩)
  · exact .inr (.inl hcreated)

theorem NoFailure.loops_progress (lib : Go.Lib) (hv : ValidDAG defs) (hq : NoFailure s defs r i cr)
    (hok : StepsOK defs cr.status.steps) :
    (allDone (loops lib cr defs r.toChainCalls).steps ∨
      ∃ t ∈ (loops lib cr defs r.toChainCalls).steps, LiveStep
        (ChainCluster.addRuns (loops lib cr defs r.toChainCalls).created s.agentRuns) t) ↔
    StepsCanProgress s defs r cr.status.steps := by
  have hnd := hok.nodup hv
  constructor
  · intro h
    by_contra hnot
    simp only [StepsCanProgress, not_or] at hnot
    obtain ⟨hmissing, hlive, hstart⟩ := hnot
    -- without a step to start, no AgentRun is created
    have hnone : (loops lib cr defs r.toChainCalls).created = [] := by
      rw [eq_nil_iff_forall_not_mem]
      intro c hc
      obtain ⟨steps, j, t, d, tmpl, hlaunch, -⟩ := loops_launch hc
      exact hstart ⟨j, t, d, tmpl, (ready_synced hnd).1 ⟨hlaunch.old, hlaunch.ready⟩,
        hlaunch.template⟩
    push Not at hmissing
    obtain ⟨m, hm, hmp, hmnone⟩ := hmissing
    rcases h with hdone | ⟨t, ht, htlive⟩
    · exact (allDone_iff.1 hdone m (hq.loops_of_missing hm hmp (by simpa using hmnone))).2 hmp
    · rw [hnone] at htlive
      have htlive' := htlive
      rcases hq.live_or_missing hok ht htlive.1 with ⟨hmem, hl⟩ | ⟨c, hc, -⟩ | ⟨hmem, -⟩
      · exact hlive ⟨t, hmem, hl⟩
      · rw [hnone] at hc
        cases hc
      · exact hlive ⟨t, hmem, htlive'⟩
  · rintro (hsome | ⟨t, ht, hl⟩ | ⟨j, t, d, tmpl, hst, htmpl⟩)
    · by_cases hrun : ∃ t ∈ (loops lib cr defs r.toChainCalls).steps, t.phase = .running
      · obtain ⟨t, ht, hp⟩ := hrun
        right
        refine ⟨t, ht, ?_⟩
        rcases hq.live_or_missing hok ht hp with ⟨-, hl⟩ | ⟨c, hc, hname⟩ | ⟨hmem, hnone⟩
        · exact hl.add _
        · exact liveStep_of_created hp hc hname
        · have := hsome t hmem hp
          rw [hnone] at this
          cases this
      · left
        push Not at hrun
        rw [allDone_iff]
        exact fun t ht => ⟨loops_ne_pending hv hok hrun t ht, hrun t ht⟩
    · exact .inr ⟨t, hq.loops_of_live hok ht hl, hl.add _⟩
    · right
      obtain ⟨hsync, hready⟩ := (ready_synced hnd).2 hst
      obtain ⟨suffix, hc⟩ := hq.create j
      have hstarted : started lib cr defs r.toChainCalls j
          (synced cr r.toChainCalls).steps t =
          { t with phase := .running, runID := "ar-" ++ suffix, message := "started" } := by
        rw [started, startStep_template_ok hready htmpl]
        simp [createStep, hc]
      have hget := loops_getElem? hsync (by rw [hstarted]; simp)
      rw [hstarted] at hget
      have hmem := mem_of_getElem? hget
      refine ⟨_, hmem, ?_⟩
      rcases loops_running hmem rfl with ⟨l, hl, -⟩ | ⟨c, hcm, hname⟩
      · -- the step was pending, so it cannot have been running
        have heq := inj_on_of_nodup_map hnd (mem_of_getElem? hl)
          (mem_of_getElem? hst.step) rfl
        have hphase := hst.pending
        rw [← heq] at hphase
        cases hphase
      · exact liveStep_of_created rfl hcm hname

/-! ## The ChainRun around the steps -/

structure Finalized (s : ChainCluster) : Prop where
  deleting : ∀ cr, s.object.current = some cr → cr.deleting → cr.finalizer
  fresh : ∀ cr ∈ s.object.versions, cr.deleting = false → cr.finalizer = false → cr.status = {}

theorem ChainWrite.fresh {calls cr'} (h : ChainWrite lib calls cr cr') (hd : cr'.deleting = false) :
    cr'.finalizer = true := by
  cases h with
  | unfinalize hdel =>
    rw [hdel] at hd
    cases hd
  | finalize hdel hf => rfl
  | unreadable ha e he | invalid ha defs hd' err he | initial ha defs hd' hv hs =>
    exact (active_iff.1 ha).2.1
  | advance defs hadv => exact (active_iff.1 hadv.active).2.1

theorem Finalized.start (h : s.Fresh) : Finalized s := by
  obtain ⟨cr, hv, hst, hd⟩ := h.versions
  have honly : ∀ x ∈ s.object.versions, x = cr := fun x hx => by
    rw [hv] at hx
    exact mem_singleton.1 hx
  refine ⟨fun x hx hdel => ?_, fun x hx _ _ => by rw [honly x hx, hst]⟩
  rw [honly x (Kube.Object.current_mem hx), hd] at hdel
  cases hdel

theorem Finalized.step {allowed} (h : Finalized s) (hstep : ChainCluster.Step lib allowed s s') :
    Finalized s' := by
  cases hstep with
  | agentRuns runs => exact ⟨h.deleting, h.fresh⟩
  | @delete cr hcur =>
    by_cases hf : cr.finalizer
    · have hobj : ChainCluster.markDeleted s.object cr =
          { s.object with versions := s.object.versions ++ [{ cr with deleting := true }] } := by
        simp [ChainCluster.markDeleted, hf]
      refine ⟨fun x hx _ => ?_, fun x hx hd => ?_⟩
      · have hlast := Kube.Object.getLast?_of_current hx
        rw [hobj, getLast?_concat] at hlast
        obtain rfl := some.inj hlast
        exact hf
      · rw [hobj] at hx
        rcases mem_append.1 hx with hx | hx
        · exact h.fresh x hx hd
        · obtain rfl := mem_singleton.1 hx
          cases hd
    · have hobj : ChainCluster.markDeleted s.object cr = { s.object with gone := true } := by
        simp [ChainCluster.markDeleted, hf]
      refine ⟨fun x hx => ?_, fun x hx => ?_⟩
      · rw [hobj] at hx
        cases hx
      · rw [hobj] at hx
        exact h.fresh x hx
  | reconcile r ha =>
    rcases ChainCluster.reconcile_cases lib r s with heq | ⟨i, cr, -, hi, heq⟩
    · rw [heq]
      exact h
    · rw [heq]
      show Finalized { s with object := _, created := _, agentRuns := _ }
      by_cases hw : s.object.isCurrent i ∧ r.update.stores
      · cases hst : (reconcileChainRun lib r.toChainCalls cr).store with
        | none => exact ⟨h.deleting, h.fresh⟩
        | some cr' =>
          rw [ChainCluster.store_of_stores hw.1 hw.2]
          refine ⟨fun x hx hdel => ?_, fun x hx hd hf => ?_⟩
          · have hlast := Kube.Object.getLast?_of_current hx
            rw [getLast?_concat] at hlast
            obtain rfl := some.inj hlast
            -- a deleted ChainRun without finalizer is gone
            by_contra hf
            simp [Kube.Object.current, hdel, hf] at hx
          · rcases mem_append.1 hx with hx | hx
            · exact h.fresh x hx hd hf
            · obtain rfl := mem_singleton.1 hx
              rw [(reconcileChainRun_store hst).fresh hd] at hf
              cases hf
      · rw [ChainCluster.store_of_not hw]
        exact ⟨h.deleting, h.fresh⟩

theorem Finalized.of_reaches {allowed} (h : s.Fresh) (hr : ChainCluster.Reaches lib allowed s s') :
    Finalized s' := by
  induction hr with
  | refl => exact .start h
  | tail _ hstep ih => exact ih.step hstep

theorem current_of_advances (hadv : Advances lib r.toChainCalls cr defs)
    (hi : s.object.versions[i]? = some cr) (hcur : s.object.isCurrent i) (hup : r.update = .ok) :
    (s.reconcileAt lib r i cr).1.object.current = some { cr with
      status := completeStatus cr.status (loops lib cr defs r.toChainCalls).steps } := by
  obtain ⟨hdel, hfin, -⟩ := active_iff.1 hadv.active
  have hstores : r.update.stores = true := by rw [hup]; rfl
  show (ChainCluster.store s.object i r.update _).current = _
  rw [reconcileChainRun_of_advances hadv]
  by_cases hst : ((loops lib cr defs r.toChainCalls).updated ||
      allDone (loops lib cr defs r.toChainCalls).steps) = true
  · simp only [finishPass, hst, if_true]
    rw [ChainCluster.store_of_stores hcur hstores]
    simp [Kube.Object.current, hdel]
  · -- nothing has changed, so the version that was read is still current
    simp only [finishPass, hst]
    obtain ⟨hupd, hdone⟩ : (loops lib cr defs r.toChainCalls).updated = false ∧
        allDone (loops lib cr defs r.toChainCalls).steps = false := by simpa using hst
    have hsame := loops_quiet hupd
    show s.object.current = _
    rw [Kube.Object.current_eq hcur hi, completeStatus, hdone, hsame]
    rfl

theorem completeStatus_isTerminal {status steps} (h : status.phase.isTerminal = false) :
    (completeStatus status steps).phase.isTerminal ↔ allDone steps := by
  unfold completeStatus
  by_cases hd : allDone steps
  · by_cases hf : anyFailed steps <;> simp [hd, hf, ChainRunPhase.isTerminal]
  · simp [hd, h]

section NoFailure

variable (hq : NoFailure s defs r i cr)

include hq

theorem NoFailure.current_of_store {stored}
    (hobj : (s.reconcileAt lib r i cr).1.object =
      ChainCluster.store s.object i r.update (some stored)) :
    (s.reconcileAt lib r i cr).1.object.current =
      if stored.deleting && !stored.finalizer then none else some stored := by
  have hstores : r.update.stores = true := by rw [hq.update]; rfl
  rw [hobj, ChainCluster.store_of_stores hq.current hstores]
  simp [Kube.Object.current]

theorem NoFailure.progressing_of_deleting (hd : cr.deleting) (hf : cr.finalizer) :
    (s.reconcileAt lib r i cr).1.Progressing := by
  have hobj : (s.reconcileAt lib r i cr).1.object =
      ChainCluster.store s.object i r.update (some { cr with finalizer := false }) := by
    simp [ChainCluster.reconcileAt, reconcileChainRun, hd, hf]
  intro x hx
  rw [hq.current_of_store hobj] at hx
  simp [hd] at hx

theorem NoFailure.progressing_of_terminal (hd : cr.deleting = false) (hf : cr.finalizer)
    (ht : cr.status.phase.isTerminal) : (s.reconcileAt lib r i cr).1.Progressing := by
  have hobj : (s.reconcileAt lib r i cr).1.object = s.object := by
    simp [ChainCluster.reconcileAt, reconcileChainRun, hd, hf, ht, ChainCluster.store]
  intro x hx
  rw [hobj, Kube.Object.current_eq hq.current hq.version] at hx
  cases hx
  exact .inl ht

theorem NoFailure.not_progressing_of_new (hd : cr.deleting = false) (hf : cr.finalizer = false)
    (hfresh : cr.status = {}) : ¬ (s.reconcileAt lib r i cr).1.Progressing := by
  have hobj : (s.reconcileAt lib r i cr).1.object =
      ChainCluster.store s.object i r.update (some { cr with finalizer := true }) := by
    simp [ChainCluster.reconcileAt, reconcileChainRun, hd, hf]
  have hcur : (s.reconcileAt lib r i cr).1.object.current = some { cr with finalizer := true } := by
    rw [hq.current_of_store hobj]
    simp
  intro hprog
  have hsome := hprog _ hcur
  simp [hfresh, ChainRunPhase.isTerminal] at hsome

theorem NoFailure.not_progressing_of_nil (hactive : cr.active)
    (hv : validateChainDAG lib defs = none) (hs : cr.status.steps = []) :
    ¬ (s.reconcileAt lib r i cr).1.Progressing := by
  have hobj : (s.reconcileAt lib r i cr).1.object = ChainCluster.store s.object i r.update
      (some { cr with status := initialStatus cr.status defs }) := by
    simp [ChainCluster.reconcileAt, reconcileChainRun_of_active hactive, reconcileChain, hq.chain,
      hv, hs]
  have hcur : (s.reconcileAt lib r i cr).1.object.current =
      some { cr with status := initialStatus cr.status defs } := by
    rw [hq.current_of_store hobj]
    simp [(active_iff.1 hactive).1]
  intro hprog
  rcases hprog _ hcur with hterm | ⟨t, hmem, hlive⟩
  · cases hterm
  · obtain ⟨d, -, rfl⟩ := mem_map.1 hmem
    cases hlive.1

theorem NoFailure.progressing_iff_of_advances (hadv : Advances lib r.toChainCalls cr defs)
    (hok : StepsOK defs cr.status.steps) :
    (s.reconcileAt lib r i cr).1.Progressing ↔ StepsCanProgress s defs r cr.status.steps := by
  have hruns : (s.reconcileAt lib r i cr).1.agentRuns = ChainCluster.addRuns
      (loops lib cr defs r.toChainCalls).created s.agentRuns := by
    show ChainCluster.addRuns (reconcileChainRun lib r.toChainCalls cr).created _ = _
    rw [reconcileChainRun_of_advances hadv]
    rfl
  rw [← hq.loops_progress lib (validateChainDAG_eq_none.1 hadv.valid) hok, ChainCluster.Progressing,
    hruns, current_of_advances hadv hq.version hq.current hq.update]
  simp [forall_eq', completeStatus_steps, completeStatus_isTerminal (active_iff.1 hadv.active).2.2]

end NoFailure

end Progress

/-- After a reconcile without failures the ChainRun is finished or waits for an AgentRun exactly if
it can progress. -/
theorem progress_iff {lib : Go.Lib} {defs : List ChainStep}
    (hv : validateChainDAG lib defs = none) {s s' : ChainCluster} (h : s.Fresh)
    (hr : ChainCluster.Reaches lib (FixedChain defs) s s') {r : ChainReplies} {i : ℕ}
    {cr : ChainRun} (hq : NoFailure s' defs r i cr) :
    (s'.reconcile lib r).1.Progressing ↔ CanProgress s' defs r cr := by
  have hfin := Finalized.of_reaches h hr
  have hmem := List.mem_of_getElem? hq.version
  rw [ChainCluster.reconcile_eq hq.read hq.version]
  by_cases hd : cr.deleting
  · have hf := hfin.deleting cr (Kube.Object.current_eq hq.current hq.version) hd
    exact iff_of_true (hq.progressing_of_deleting hd hf) (.inl hd)
  have hd' : cr.deleting = false := by simpa using hd
  by_cases hf : cr.finalizer
  · by_cases ht : cr.status.phase.isTerminal
    · exact iff_of_true (hq.progressing_of_terminal hd' hf ht) (.inr ⟨hf, .inl ht⟩)
    have hactive : cr.active := active_iff.2 ⟨hd', hf, by simpa using ht⟩
    by_cases hs : cr.status.steps = []
    · refine iff_of_false (hq.not_progressing_of_nil hactive hv hs) ?_
      rintro (hdel | ⟨-, hterm | ⟨hne, -⟩⟩)
      · exact hd hdel
      · exact ht hterm
      · exact hne hs
    · have hok := (versionOK_of_reaches (fun _ _ h => h) h hr cr hmem).resolve_left hs
      rw [hq.progressing_iff_of_advances ⟨hactive, hq.chain, hv, hs⟩ hok]
      constructor
      · exact fun hp => .inr ⟨hf, .inr ⟨hs, hp⟩⟩
      · rintro (hdel | ⟨-, hterm | ⟨-, hp⟩⟩)
        · exact absurd hdel hd
        · exact absurd hterm ht
        · exact hp
  · have hf' : cr.finalizer = false := by simpa using hf
    refine iff_of_false (hq.not_progressing_of_new hd' hf' (hfin.fresh cr hmem hd' hf')) ?_
    rintro (hdel | ⟨hfin', -⟩)
    · exact hd hdel
    · exact hf hfin'

def initialized : ChainRun where
  name := "nightly"
  chainRef := "ci"
  finalizer := true
  status := { phase := .running, steps := [{ name := "build" }, { name := "test" }] }

theorem progress_iff_started :
    NoFailure (runWith (sampleReplies .running) 2) sampleChain (sampleReplies .running 2) 2
      initialized ∧
    (runWith (sampleReplies .running) 3).Progressing := by
  have hpending : ∀ t ∈ initialized.status.steps, t.phase = .pending := by decide
  have hq : NoFailure (runWith (sampleReplies .running) 2) sampleChain (sampleReplies .running 2) 2
      initialized := by
    refine ⟨rfl, rfl, rfl, rfl, fun j t ht hp => ?_, fun j e he => ?_, fun j => ⟨_, rfl⟩, rfl⟩
    · rw [hpending t (List.mem_of_getElem? ht)] at hp
      cases hp
    · cases he
  refine ⟨hq, (progress_iff (by decide) freshChain_fresh
    (reaches_runWith _ fun _ _ => .inl rfl) hq).2 (.inr ⟨rfl, .inr ⟨by decide, .inl ?_⟩⟩)⟩
  intro t ht hp
  rw [hpending t ht] at hp
  cases hp

def noSteps (i : ℕ) : ChainReplies := { sampleReplies .running i with chain := .ok [] }

def buildDeleted : ChainCluster :=
  { runWith (sampleReplies .running) 3 with agentRuns := fun _ => none }

def deletedReplies : ChainReplies :=
  { sampleReplies .running 3 with run := fun _ => .error (.notFound "not found") }

theorem chainRun_stuck :
    (validateChainDAG chainLib [] = none ∧
      ChainCluster.Reaches chainLib (FixedChain []) freshChain (runWith noSteps 3) ∧
      NoFailure (runWith noSteps 3) [] (noSteps 3) 3
        { initialized with status := { phase := .running } } ∧
      ¬ ((runWith noSteps 3).reconcile chainLib (noSteps 3)).1.Progressing) ∧
    (validateChainDAG chainLib sampleChain = none ∧
      ChainCluster.Reaches chainLib (FixedChain sampleChain) freshChain buildDeleted ∧
      NoFailure buildDeleted sampleChain deletedReplies 3 buildRunning ∧
      ¬ (buildDeleted.reconcile chainLib deletedReplies).1.Progressing) := by
  refine ⟨⟨by decide, reaches_runWith _ fun _ _ => .inl rfl, ?_, fun h => ?_⟩, by decide,
    (reaches_runWith _ fun _ _ => .inl rfl).tail (.agentRuns _), ?_, fun h => ?_⟩
  · refine ⟨rfl, rfl, rfl, rfl, fun j t ht => ?_, fun j e he => ?_, fun j => ⟨_, rfl⟩, rfl⟩
    · cases ht
    · cases he
  · rcases h _ rfl with hterm | ⟨t, ht, -⟩
    · cases hterm
    · cases ht
  · refine ⟨rfl, rfl, rfl, rfl, fun j t _ _ => .inr ⟨rfl, _, rfl, rfl⟩, fun j e he => ?_,
      fun j => ⟨_, rfl⟩, rfl⟩
    cases he
  · rcases h _ rfl with hterm | ⟨t, -, -, run, hrun, -⟩
    · cases hterm
    · cases hrun

end Uncworks
