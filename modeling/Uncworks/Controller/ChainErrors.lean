import Uncworks.Controller.ChainProgress

/-!
# Transient errors in a ChainRun reconcile

An API error that says nothing about the object (a timeout, say) should not finish anything: the
reconcile is to be repeated.  `error_harmless_iff` says for which reconciles this is so.
-/

namespace Uncworks

open ChainPass ChainCluster List

def CreateReply.failed : CreateReply → Bool
  | created _ => false
  | refused e => e.isTransient
  | lost _ e => e.isTransient

/-! ## The errors a reconcile meets -/

section Errors

variable (lib : Go.Lib) (r : ChainReplies) (cr : ChainRun)

def ChainReadFails : Prop := cr.active ∧ Kube.failed r.chain

def RunReadFails (j : ℕ) : Prop :=
  ∃ defs t, Advances lib r.toChainCalls cr defs ∧ cr.status.steps[j]? = some t ∧
    t.phase = .running ∧ t.runID ≠ "" ∧ Kube.failed (r.run j)

def StartFails (j : ℕ) : Prop :=
  ∃ defs t d, Advances lib r.toChainCalls cr defs ∧
    Startable defs r.toChainCalls cr.status.steps j t d ∧
    (Kube.failed (r.template j) ∨ ∃ tmpl, r.template j = .ok tmpl ∧ (r.create j).failed)

def ContextReadFails (j : ℕ) : Prop :=
  ∃ defs t d tmpl, Advances lib r.toChainCalls cr defs ∧
    Startable defs r.toChainCalls cr.status.steps j t d ∧ r.template j = .ok tmpl ∧
    d.contextFrom ≠ "" ∧ Kube.failed (r.context j)

def ChildReadFails : Prop :=
  cr.deleting ∧ cr.finalizer ∧ ∃ j t, cr.status.steps[j]? = some t ∧ t.runID ≠ "" ∧
    Kube.failed (r.run j)

end Errors

/-- A reconcile that meets an error finishes nothing because of it, and is repeated. -/
structure Harmless (lib : Go.Lib) (s : ChainCluster) (r : ChainReplies) (cr : ChainRun) : Prop where
  phase : (ChainReadFails r cr ∨ ∃ j, RunReadFails lib r cr j ∨ StartFails lib r cr j) →
    ∀ cr', (s.reconcile lib r).1.object.versions = s.object.versions ++ [cr'] →
      cr'.status.phase.isTerminal = false
  step : ∀ j, RunReadFails lib r cr j ∨ StartFails lib r cr j →
    ∀ cr' t, (s.reconcile lib r).1.object.versions = s.object.versions ++ [cr'] →
      cr'.status.steps[j]? = some t → t.phase = .pending ∨ t.phase = .running
  retries : (ChainReadFails r cr ∨ ChildReadFails r cr ∨
      ∃ j, RunReadFails lib r cr j ∨ StartFails lib r cr j ∨ ContextReadFails lib r cr j) →
    (s.reconcile lib r).2.retries

/-- What follows from a failed read of the chain or a failed start of a step is not stored, and the
finalizer stays if an AgentRun could not be fetched. -/
structure ErrorsHandled (lib : Go.Lib) (s : ChainCluster) (r : ChainReplies) (i : ℕ)
    (cr : ChainRun) : Prop where
  active : ChainReadFails r cr ∨ (∃ j, StartFails lib r cr j) →
    ¬ (s.object.isCurrent i ∧ r.update.stores)
  deleting : ChildReadFails r cr → ¬ (s.object.isCurrent i ∧ r.update = .ok)

section Harmless

variable {lib : Go.Lib} {s s' : ChainCluster} {r : ChainReplies} {i j : ℕ} {cr cr' : ChainRun}
  {defs : List ChainStep} {o : Kube.Object ChainRun} {reply : Kube.Reply} {fx : ChainEffects}

/-! ## The result of a reconcile -/

theorem resultAfter_of_retries (h : fx.result.retries) :
    (resultAfter o i reply fx).retries := by
  unfold resultAfter
  split
  · exact h
  · split
    · rfl
    · exact h

theorem resultAfter_of_rejected (hst : fx.store = some cr')
    (h : ¬ (o.isCurrent i ∧ reply = .ok)) : (resultAfter o i reply fx).retries := by
  have herr : ∃ e, o.writeError i reply = some e := by
    unfold Kube.Object.writeError
    by_cases hc : o.isCurrent i
    · cases reply with
      | ok => exact absurd ⟨hc, rfl⟩ h
      | refused e | lost e => exact ⟨e, by rw [if_pos hc]; rfl⟩
    · exact ⟨_, if_neg hc⟩
  obtain ⟨e, he⟩ := herr
  rw [resultAfter, hst]
  simp [he, Kube.Result.retries]

theorem resultAfter_of_accepted (hc : o.isCurrent i) : resultAfter o i .ok fx = fx.result := by
  unfold resultAfter
  split
  · rfl
  · simp [Kube.Object.writeError, hc, Kube.Reply.error?]

theorem store_of_append (h : (store o i reply fx.store).versions = o.versions ++ [cr']) :
    fx.store = some cr' ∧ o.isCurrent i ∧ reply.stores := by
  rcases store_versions o i reply fx.store with hsame | ⟨x, hx, hc, hr, hv⟩
  · rw [hsame] at h
    exact absurd (congrArg length h) (by simp)
  · rw [hv] at h
    have := append_cancel_left h
    simp only [cons.injEq, and_true] at this
    exact ⟨this ▸ hx, hc, hr⟩

/-! ## Steps with errors -/

def StepsRunning (cr : ChainRun) : Prop :=
  cr.status.steps ≠ [] → cr.status.phase = .running ∨ cr.status.phase.isTerminal

theorem StepsRunning.write {calls} (h : StepsRunning cr) (hw : ChainWrite lib calls cr cr') :
    StepsRunning cr' := by
  cases hw with
  | unfinalize hd | finalize hd hf => exact h
  | unreadable ha e he | invalid ha defs hd err he => exact fun _ => .inr rfl
  | initial ha defs hd hv hs => exact fun _ => .inl rfl
  | advance defs hadv =>
    intro _
    by_cases hdone : allDone (loops lib cr defs calls).steps
    · exact .inr ((completeStatus_isTerminal (active_iff.1 hadv.active).2.2).2 hdone)
    · have hsame : (completeStatus cr.status (loops lib cr defs calls).steps).phase =
          cr.status.phase := by
        rw [completeStatus, if_neg hdone]
      rw [hsame]
      exact h hadv.steps

structure AnyVersion (cr : ChainRun) : Prop where
  names : (cr.status.steps.map ChainRunStepStatus.name).Nodup
  running : StepsRunning cr

theorem AnyVersion.of_reaches {allowed} (h : s.Fresh) (hr : Reaches lib allowed s s') :
    ∀ cr ∈ s'.object.versions, AnyVersion cr := by
  refine hr.versions ?_ (fun _ h => ⟨h.names, h.running⟩) fun _ _ _ _ _ hP hw =>
    ⟨hw.names hP.names, hP.running.write hw⟩
  obtain ⟨cr, hv, hst, -⟩ := h.versions
  intro x hx
  rw [hv, mem_singleton] at hx
  subst hx
  exact ⟨by simp [hst], fun hne => absurd (by rw [hst]) hne⟩

theorem result_of_running (hany : AnyVersion cr) (hadv : Advances lib r.toChainCalls cr defs) {t}
    (ht : t ∈ (loops lib cr defs r.toChainCalls).steps) (hp : t.phase = .running) :
    (completeStatus cr.status (loops lib cr defs r.toChainCalls).steps).phase = .running ∧
      (reconcileChainRun lib r.toChainCalls cr).result.retries := by
  have hnot : ¬ allDone (loops lib cr defs r.toChainCalls).steps := fun hdone =>
    (allDone_iff.1 hdone t ht).2 hp
  have hphase : cr.status.phase = .running := by
    rcases hany.running hadv.steps with h | h
    · exact h
    · rw [(active_iff.1 hadv.active).2.2] at h
      cases h
  have hsame : (completeStatus cr.status (loops lib cr defs r.toChainCalls).steps).phase =
      .running := by
    rw [completeStatus, if_neg hnot]
    exact hphase
  rw [reconcileChainRun_of_advances hadv]
  simp only [finishPass, hsame]
  decide

theorem store_of_advances (hadv : Advances lib r.toChainCalls cr defs)
    (h : (reconcileChainRun lib r.toChainCalls cr).store = some cr') : cr' = { cr with
      status := completeStatus cr.status (loops lib cr defs r.toChainCalls).steps } := by
  rw [reconcileChainRun_of_advances hadv, finishPass] at h
  split at h
  · exact (Option.some.inj h).symm
  · cases h

theorem RunReadFails.running (h : RunReadFails lib r cr j) :
    ∃ defs t, Advances lib r.toChainCalls cr defs ∧ t.phase = .running ∧
      (loops lib cr defs r.toChainCalls).steps[j]? = some t := by
  obtain ⟨defs, t, hadv, ht, hp, -, hfail⟩ := h
  refine ⟨defs, t, hadv, hp, loops_of_running ht hp ?_⟩
  cases hrun : r.run j with
  | ok run =>
    rw [hrun] at hfail
    cases hfail
  | error e => simp [syncStep]

theorem StartFails.failed (hany : AnyVersion cr) (h : StartFails lib r cr j) :
    ∃ defs t, Advances lib r.toChainCalls cr defs ∧ t.phase = .failed ∧
      (loops lib cr defs r.toChainCalls).steps[j]? = some t ∧
      (reconcileChainRun lib r.toChainCalls cr).store = some { cr with
        status := completeStatus cr.status (loops lib cr defs r.toChainCalls).steps } := by
  obtain ⟨defs, t, d, hadv, hst, hfail⟩ := h
  obtain ⟨hsync, hready⟩ := (ready_synced hany.names).2 hst
  have hphase : (started lib cr defs r.toChainCalls j
      (synced cr r.toChainCalls).steps t).phase = .failed := by
    cases htmpl : r.template j with
    | error e => rw [started, startStep_template_error hready htmpl]; rfl
    | ok tmpl =>
      rw [started, startStep_template_ok hready htmpl]
      rcases hfail with hfail | ⟨tmpl', -, hfail⟩
      · rw [htmpl] at hfail
        cases hfail
      · cases hc : r.create j with
        | created suffix =>
          rw [hc] at hfail
          cases hfail
        | refused e | lost suffix e => simp [createStep, hc]
  have hget := loops_getElem? hsync (by rw [hphase]; simp)
  refine ⟨defs, _, hadv, hphase, hget, ?_⟩
  have hupdated : (loops lib cr defs r.toChainCalls).updated = true := by
    by_contra hfalse
    have hsame := loops_quiet (by simpa using hfalse)
    rw [hsame, hst.step] at hget
    have hpend := hst.pending
    rw [Option.some.inj hget, hphase] at hpend
    cases hpend
  rw [reconcileChainRun_of_advances hadv]
  simp [finishPass, hupdated]

theorem ContextReadFails.running (hany : AnyVersion cr) (h : ContextReadFails lib r cr j) {suffix}
    (hc : r.create j = .created suffix) :
    ∃ defs t, Advances lib r.toChainCalls cr defs ∧ t.phase = .running ∧
      (loops lib cr defs r.toChainCalls).steps[j]? = some t := by
  obtain ⟨defs, t, d, tmpl, hadv, hst, htmpl, -⟩ := h
  obtain ⟨hsync, hready⟩ := (ready_synced hany.names).2 hst
  have hphase : (started lib cr defs r.toChainCalls j
      (synced cr r.toChainCalls).steps t).phase = .running := by
    rw [started, startStep_template_ok hready htmpl]
    simp [createStep, hc]
  exact ⟨defs, _, hadv, hphase, loops_getElem? hsync (by rw [hphase]; simp)⟩

theorem ChainReadFails.store (lib : Go.Lib) (h : ChainReadFails r cr) :
    ∃ message, (reconcileChainRun lib r.toChainCalls cr).store = some (cr.fail message) := by
  obtain ⟨ha, hfail⟩ := h
  cases hc : r.chain with
  | ok defs =>
    rw [hc] at hfail
    cases hfail
  | error e =>
    rw [reconcileChainRun_of_active ha, reconcileChain, hc]
    exact ⟨_, rfl⟩

theorem ChildReadFails.effects (h : ChildReadFails r cr) :
    (reconcileChainRun lib r.toChainCalls cr).store = some { cr with finalizer := false } ∧
      (reconcileChainRun lib r.toChainCalls cr).result = .done := by
  obtain ⟨hd, hf, -⟩ := h
  simp [reconcileChainRun, hd, hf]

end Harmless

/-- A reconcile from a reachable state is harmless exactly if errors are handled, provided that a
step whose context cannot be fetched gets its AgentRun. -/
theorem error_harmless_iff {lib : Go.Lib} {s s' : ChainCluster} (h : s.Fresh)
    (hr : ChainCluster.Reaches lib (fun _ _ => True) s s') {r : ChainReplies} {i : ℕ} {cr : ChainRun}
    (hread : r.read = .ok i) (hi : s'.object.versions[i]? = some cr) :
    (ErrorsHandled lib s' r i cr →
      (∀ j, ContextReadFails lib r cr j → ∃ suffix, r.create j = .created suffix) →
      Harmless lib s' r cr) ∧
    (Harmless lib s' r cr → ErrorsHandled lib s' r i cr) := by
  have hany := AnyVersion.of_reaches h hr cr (mem_of_getElem? hi)
  have hout : s'.reconcile lib r = s'.reconcileAt lib r i cr := ChainCluster.reconcile_eq hread hi
  have hnew : ∀ cr', (s'.reconcile lib r).1.object.versions = s'.object.versions ++ [cr'] →
      (reconcileChainRun lib r.toChainCalls cr).store = some cr' ∧
        s'.object.isCurrent i ∧ r.update.stores := by
    intro cr' hv
    rw [hout] at hv
    exact store_of_append hv
  have hstored : ∀ cr', (reconcileChainRun lib r.toChainCalls cr).store = some cr' →
      s'.object.isCurrent i → r.update.stores →
      (s'.reconcile lib r).1.object.versions = s'.object.versions ++ [cr'] := by
    intro cr' hst hc hs
    rw [hout]
    show (ChainCluster.store _ _ _ (reconcileChainRun _ _ _).store).versions = _
    rw [hst, ChainCluster.store_of_stores hc hs]
  have hresult : (s'.reconcile lib r).2 = ChainCluster.resultAfter s'.object i r.update
      (reconcileChainRun lib r.toChainCalls cr) := by
    rw [hout]
    rfl
  have hok : r.update = .ok → r.update.stores = true := fun h => by rw [h]; rfl
  constructor
  · intro hh hctx
    constructor
    · rintro (hchain | ⟨j, hrun | hstart⟩) cr' hv
      · exact absurd (hnew cr' hv).2 (hh.active (.inl hchain))
      · obtain ⟨defs, t, hadv, hp, ht⟩ := hrun.running
        rw [store_of_advances hadv (hnew cr' hv).1]
        rw [(result_of_running hany hadv (mem_of_getElem? ht) hp).1]
        rfl
      · exact absurd (hnew cr' hv).2 (hh.active (.inr ⟨j, hstart⟩))
    · rintro j (hrun | hstart) cr' t hv ht
      · obtain ⟨defs, u, hadv, hp, hu⟩ := hrun.running
        rw [store_of_advances hadv (hnew cr' hv).1, completeStatus_steps, hu] at ht
        exact .inr (Option.some.inj ht ▸ hp)
      · exact absurd (hnew cr' hv).2 (hh.active (.inr ⟨j, hstart⟩))
    · rw [hresult]
      rintro (hchain | hchild | ⟨j, hrun | hstart | hcontext⟩)
      · obtain ⟨message, hst⟩ := hchain.store lib
        exact resultAfter_of_rejected hst fun hacc =>
          hh.active (.inl hchain) ⟨hacc.1, hok hacc.2⟩
      · exact resultAfter_of_rejected hchild.effects.1 (hh.deleting hchild)
      · obtain ⟨defs, t, hadv, hp, ht⟩ := hrun.running
        exact resultAfter_of_retries (result_of_running hany hadv (mem_of_getElem? ht) hp).2
      · obtain ⟨defs, t, -, -, -, hst⟩ := hstart.failed hany
        exact resultAfter_of_rejected hst fun hacc =>
          hh.active (.inr ⟨j, hstart⟩) ⟨hacc.1, hok hacc.2⟩
      · obtain ⟨suffix, hc⟩ := hctx j hcontext
        obtain ⟨defs, t, hadv, hp, ht⟩ := hcontext.running hany hc
        exact resultAfter_of_retries (result_of_running hany hadv (mem_of_getElem? ht) hp).2
  · intro hharm
    constructor
    · rintro (hchain | ⟨j, hstart⟩) ⟨hc, hs⟩
      · obtain ⟨message, hst⟩ := hchain.store lib
        have := hharm.phase (.inl hchain) _ (hstored _ hst hc hs)
        cases this
      · obtain ⟨defs, t, hadv, hp, ht, hst⟩ := hstart.failed hany
        have hcases := hharm.step j (.inr hstart) _ t (hstored _ hst hc hs)
          (by rw [completeStatus_steps]; exact ht)
        rw [hp] at hcases
        simp at hcases
    · rintro hchild ⟨hc, hs⟩
      have hret := hharm.retries (.inr (.inl hchild))
      rw [hresult, hs, resultAfter_of_accepted hc, hchild.effects.2] at hret
      cases hret

def runTimeout : ChainReplies :=
  { sampleReplies .running 3 with run := fun _ => .error (.other "timeout") }

theorem error_harmless_iff_run : RunReadFails chainLib runTimeout buildRunning 0 ∧
    Harmless chainLib (runWith (sampleReplies .running) 3) runTimeout buildRunning := by
  refine ⟨⟨sampleChain, _, ⟨rfl, rfl, by decide, by decide⟩, rfl, rfl, by decide, rfl⟩, ?_⟩
  refine (error_harmless_iff (i := 3) freshChain_fresh (reaches_runWith _ fun _ _ => trivial) rfl
    rfl).1 ⟨?_, ?_⟩ fun _ _ => ⟨_, rfl⟩
  · rintro (⟨-, h⟩ | ⟨j, defs, t, d, -, -, h | ⟨tmpl, -, h⟩⟩) <;> cases h
  · rintro ⟨h, -⟩
    cases h

def chainTimeout : ChainReplies :=
  { sampleReplies .running 2 with chain := .error (.other "timeout") }

def templateTimeout : ChainReplies :=
  { sampleReplies .running 2 with template := fun _ => .error (.other "timeout") }

theorem transient_error_finishes :
    ChainCluster.Reaches chainLib (fun _ _ => True) freshChain (runWith (sampleReplies .running) 2) ∧
    (∃ cr, ((runWith (sampleReplies .running) 2).reconcile chainLib chainTimeout).1.object.current =
        some cr ∧ cr.status.phase = .failed ∧ cr.status.steps.map (·.phase) = [.pending, .pending]) ∧
    ((runWith (sampleReplies .running) 2).reconcile chainLib chainTimeout).2 = .done ∧
    ¬ Harmless chainLib (runWith (sampleReplies .running) 2) chainTimeout initialized ∧
    (∃ cr, ((runWith (sampleReplies .running) 2).reconcile chainLib
        templateTimeout).1.object.current = some cr ∧
      cr.status.phase = .failed ∧ cr.status.steps.map (·.phase) = [.failed, .skipped]) ∧
    ((runWith (sampleReplies .running) 2).reconcile chainLib templateTimeout).2 = .done ∧
    ¬ Harmless chainLib (runWith (sampleReplies .running) 2) templateTimeout initialized := by
  refine ⟨reaches_runWith _ fun _ _ => trivial, ⟨_, rfl, by decide, by decide⟩, by decide,
    fun h => ?_, ⟨_, rfl, by decide, by decide⟩, by decide, fun h => ?_⟩
  · have hfail : ChainReadFails chainTimeout initialized := ⟨rfl, rfl⟩
    have := h.retries (.inl hfail)
    revert this
    decide
  · have hfail : StartFails chainLib templateTimeout initialized 0 :=
      ⟨sampleChain, _, _, ⟨rfl, rfl, by decide, by decide⟩, ⟨rfl, rfl, rfl, by simp⟩, .inl rfl⟩
    have := h.retries (.inr (.inr ⟨0, .inr (.inl hfail)⟩))
    revert this
    decide

end Uncworks
